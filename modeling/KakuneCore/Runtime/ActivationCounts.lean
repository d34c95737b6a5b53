import KakuneCore.Runtime.Activations
import KakuneCore.Runtime.Checkpointing

/-!
# Counting the calls of an activation

For each scoped id: the calls on its checkpoint, the attempts, the effects. An id is begun only
after its checkpoint was found empty, and acts only after it was begun; without retries an id is
reached **once**, and the same holds for an external effect as long as no container around it is
retried.
-/

namespace KakuneCore

open Proc

/-! ### Events of an id -/

/-- The checkpoint of an id is read. -/
def reads (id : String) : RunEvent → Bool
  | ⟨.checkpointResult id', _⟩ => id' = id
  | _ => false

/-- The checkpoint of an id is read, and there is no result. -/
def misses (id : String) : RunEvent → Bool
  | ⟨.checkpointResult id', .ok none⟩ => id' = id
  | _ => false

/-- The checkpoint of an id is begun with a status. -/
def beginsAs (id : String) (status : CheckpointStatus) : RunEvent → Bool
  | ⟨.beginCheckpoint id' status', .ok ()⟩ => id' = id && status' = status
  | _ => false

/-- An activation with the id does something after its checkpoint was begun. -/
def acts (id : String) : RunEvent → Bool
  | ⟨.completeCheckpoint id' _, _⟩ | ⟨.durableDelayRemaining id' _, _⟩ | ⟨.invoke id' _ _ _, _⟩
  | ⟨.observe (.executing id' _), _⟩ => id' = id
  | _ => false

/-- A delay asks how long it still has to wait. -/
def delays (id : String) : RunEvent → Bool
  | ⟨.durableDelayRemaining id' _, _⟩ => id' = id
  | _ => false

/-- The body of a node that is no container and no delay is entered. -/
def enters (id : String) : RunEvent → Bool
  | ⟨.observe (.executing id' kind), _⟩ => id' = id && kind.checkpointStatus = .running
  | _ => false

/-- A call of an external node that may have an effect and is not declared idempotent. -/
def isUnsafeCall (nodeType : String) (config : StrMap Value) : Bool :=
  (NodeKind.ofType nodeType).isExternalEffect && config.get? "idempotent" ≠ some (.bool true)

/-- An HTTP or process node without `idempotent: true`. -/
def WorkflowNode.isUnsafe (node : WorkflowNode) : Bool := isUnsafeCall node.nodeType node.config

/-- Such a node is called under the id. -/
def affects (id : String) : RunEvent → Bool
  | ⟨.invoke id' nodeType config _, _⟩ => id' = id && isUnsafeCall nodeType config
  | _ => false

section Concerns

variable {id : String} {e : RunEvent} (he : ¬ e.1.Concerns id)
include he

theorem reads_of_not_concerns : reads id e = false := by
  unfold reads
  split
  · exact decide_eq_false he
  · rfl

theorem misses_of_not_concerns : misses id e = false := by
  unfold misses
  split
  · exact decide_eq_false he
  · rfl

theorem begins_of_not_concerns : begins id e = false := by
  unfold begins
  split
  · exact decide_eq_false he
  · rfl

theorem beginsAs_of_not_concerns (status : CheckpointStatus) : beginsAs id status e = false := by
  unfold beginsAs
  split
  · next id' _ =>
    have hne : ¬ id' = id := he
    rw [decide_eq_false hne, Bool.false_and]
  · rfl

theorem acts_of_not_concerns : acts id e = false := by
  unfold acts
  split
  · exact decide_eq_false he
  · exact decide_eq_false he
  · exact decide_eq_false he
  · exact decide_eq_false he
  · rfl

theorem delays_of_not_concerns : delays id e = false := by
  unfold delays
  split
  · exact decide_eq_false he
  · rfl

theorem enters_of_not_concerns : enters id e = false := by
  unfold enters
  split
  · next id' _ _ =>
    have hne : ¬ id' = id := he
    rw [decide_eq_false hne, Bool.false_and]
  · rfl

theorem affects_of_not_concerns : affects id e = false := by
  unfold affects
  split
  · next id' _ _ _ _ =>
    have hne : ¬ id' = id := he
    rw [decide_eq_false hne, Bool.false_and]
  · rfl

end Concerns

/-! ### Counts -/

/-- The weight of counting `n` events of one kind against each of another. -/
def against (n : ℤ) (p q : RunEvent → Bool) (e : RunEvent) : ℤ := n * indicator p e - indicator q e

theorem against_eq_zero {n : ℤ} {p q : RunEvent → Bool} {e : RunEvent} (hp : p e = false)
    (hq : q e = false) : against n p q e = 0 := by
  simp [against, indicator, hp, hq]

theorem countP_le_of_credit {α : Type} {p q : RunEvent → Bool} {n k : ℤ} {x : Proc Op Resp α}
    (hp : ∀ o, p ⟨o, refusing o⟩ = false) (hcredit : Credit (against n p q) k x) {t : RunTrace}
    {r : Option α} (hrun : Runs x t r) : (t.countP q : ℤ) ≤ n * t.countP p + k := by
  have hspent := hcredit.cut hrun refusing fun o => by
    have := indicator_nonneg q ⟨o, refusing o⟩
    simp only [against, indicator, hp o] at this ⊢
    simpa using this
  have hbalance : balance (against n p q) t = n * t.countP p - t.countP q := by
    rw [← balance_indicator, ← balance_indicator, ← balance_mul, ← balance_sub]
    rfl
  omega

theorem attempts_le_ten {g : WorkflowSubgraph} (hg : GraphFacts g) {node : WorkflowNode}
    (hn : node ∈ g.nodes) : (node.attempts : ℤ) ≤ 10 := by
  unfold WorkflowNode.attempts
  cases hretry : node.retry with
  | none => simp
  | some retry =>
    have := (hg.retry node hn retry hretry).1.2
    simpa using this

theorem ids_of_graphFacts {g : WorkflowSubgraph} (hg : GraphFacts g) :
    (nodeIds g.nodes).Nodup ∧ ∀ node ∈ g.nodes, '/' ∉ node.id.toList :=
  ⟨hg.nodup, fun node hn => not_slash_of_isValidId (hg.valid node hn)⟩

/-- An unsafe node is given one attempt. -/
theorem attempts_eq_one_of_isUnsafe {g : WorkflowSubgraph} (hg : GraphFacts g) {node : WorkflowNode}
    (hn : node ∈ g.nodes) (hrisky : node.isUnsafe = true) : node.attempts = 1 := by
  unfold WorkflowNode.attempts
  cases hretry : node.retry with
  | none => rfl
  | some retry =>
    rw [WorkflowNode.isUnsafe, isUnsafeCall, Bool.and_eq_true] at hrisky
    have hdeclared := (hg.retry node hn retry hretry).2 hrisky.1
    rw [WorkflowNode.declaresIdempotent, decide_eq_true_eq] at hdeclared
    exact absurd hdeclared (of_decide_eq_true hrisky.2)

/-- An unsafe node somewhere in a graph. -/
def HasEffect (g : WorkflowSubgraph) : Prop :=
  ∃ g', Nested g g' ∧ ∃ node ∈ g'.nodes, node.isUnsafe = true

section Counts

variable {plan : ExecutionPlan} {plugins : PluginRegistry} {limits : ExecutionLimits}
  {serde : SerdeJson} {t : RunTrace} {r : Option (Except RunError ExecutionEnd)}
  (hrun : Runs (executePreparedWorkflow plan plugins limits serde).run t r) (id : String)
include hrun

/-- **An id is begun only after its checkpoint was found empty.** -/
theorem countP_begins_le_misses : t.countP (begins id) ≤ t.countP (misses id) := by
  have hcredit : Credit (against 1 (misses id) (begins id)) 0
      (executePreparedWorkflow plan plugins limits serde).run := by
    refine credit_plan_of_own (fun e he => against_eq_zero (misses_of_not_concerns he)
      (begins_of_not_concerns he)) (fun g hg node hn scope heq => ?_) _ _ _
    subst heq
    refine ⟨_, _, nodeAccount_own 0 0 0 le_rfl le_rfl le_rfl le_rfl (fun _ _ => ?_)
      (fun _ _ _ => ?_) ?_ (fun _ _ => ?_) (fun _ => ?_) (fun _ => ?_) (fun _ => ?_) ?_⟩
    all_goals simp [against, indicator, misses, begins]
  have := countP_le_of_credit (fun o => by cases o <;> rfl) hcredit hrun
  omega

/-- The events that an activation may cause are bounded by the times it was begun. -/
theorem countP_acts_le (hfacts : ∀ g, Nested plan.graph g → GraphFacts g) :
    t.countP (acts id) ≤ 30 * t.countP (begins id) := by
  have hcredit : Credit (against 30 (begins id) (acts id)) 0
      (executePreparedWorkflow plan plugins limits serde).run := by
    refine credit_plan_of_own (fun e he => against_eq_zero (begins_of_not_concerns he)
      (acts_of_not_concerns he)) (fun g hg node hn scope heq => ?_) _ _ _
    subst heq
    have hattempts := attempts_le_ten (hfacts g hg) hn
    refine ⟨_, _, nodeAccount_own 1 1 1 (by decide) (by decide) (by decide) le_rfl (fun _ _ => ?_)
      (fun _ _ _ => ?_) ?_ (fun _ _ => ?_) (fun _ => ?_) (fun _ => ?_) (fun _ => ?_) ?_⟩
    all_goals simp [against, indicator, begins, acts]
    omega
  have := countP_le_of_credit (fun o => by cases o <;> rfl) hcredit hrun
  omega

/-- Only a delay asks how long it has to wait. -/
theorem countP_delays_le (hfacts : ∀ g, Nested plan.graph g → GraphFacts g) :
    t.countP (delays id) ≤ 10 * t.countP (beginsAs id .waiting) := by
  have hcredit : Credit (against 10 (beginsAs id .waiting) (delays id)) 0
      (executePreparedWorkflow plan plugins limits serde).run := by
    refine credit_plan_of_own (fun e he => against_eq_zero (beginsAs_of_not_concerns he _)
      (delays_of_not_concerns he)) (fun g hg node hn scope heq => ?_) _ _ _
    subst heq
    have hattempts := attempts_le_ten (hfacts g hg) hn
    by_cases hk : node.kind = .delay
    · refine ⟨_, _, nodeAccount_own 1 0 0 (by decide) le_rfl le_rfl le_rfl (fun _ _ => ?_)
        (fun _ _ _ => ?_) ?_ (fun _ _ => ?_) (fun _ => ?_) (fun _ => ?_) (fun _ => ?_) ?_⟩
      all_goals simp [against, indicator, beginsAs, delays, hk, NodeKind.checkpointStatus]
      omega
    · refine ⟨_, _, nodeAccount_own 0 0 0 le_rfl le_rfl le_rfl le_rfl (fun _ _ => ?_)
        (fun hdelay => absurd hdelay hk) ?_ (fun _ _ => ?_) (fun _ => ?_) (fun _ => ?_)
          (fun _ => ?_)
        ?_⟩
      all_goals simp [against, indicator, beginsAs, delays]
      split <;> simp
  have := countP_le_of_credit (fun o => by cases o <;> rfl) hcredit hrun
  omega

section Unretried

variable (honce : ∀ g, Nested plan.graph g → ∀ node ∈ g.nodes, node.attempts ≤ 1)
include honce

/-- Without retries, a body is entered once for each time its checkpoint is begun. -/
theorem countP_enters_le : t.countP (enters id) ≤ t.countP (beginsAs id .running) := by
  have hcredit : Credit (against 1 (beginsAs id .running) (enters id)) 0
      (executePreparedWorkflow plan plugins limits serde).run := by
    refine credit_plan_of_own (fun e he => against_eq_zero (beginsAs_of_not_concerns he _)
      (enters_of_not_concerns he)) (fun g hg node hn scope heq => ?_) _ _ _
    subst heq
    have hattempts := honce g hg node hn
    by_cases hk : node.kind.checkpointStatus = .running
    · refine ⟨_, _, nodeAccount_own 0 1 0 le_rfl (by decide) le_rfl le_rfl (fun _ _ => ?_)
        (fun _ _ _ => ?_) ?_ (fun _ _ => ?_) (fun _ => ?_) (fun _ => ?_) (fun _ => ?_) ?_⟩
      all_goals simp [against, indicator, beginsAs, enters, hk]
      omega
    · refine ⟨_, _, nodeAccount_own 0 0 0 le_rfl le_rfl le_rfl le_rfl (fun _ _ => ?_)
        (fun _ _ _ => ?_) ?_ (fun _ _ => ?_) (fun _ => ?_) (fun _ => ?_) (fun _ => ?_) ?_⟩
      all_goals simp [against, indicator, beginsAs, enters, hk]
  have := countP_le_of_credit (fun o => by cases o <;> rfl) hcredit hrun
  omega

/-- **Without retries, an id is reached at most once.** -/
theorem countP_reads_le_one (hfacts : ∀ g, Nested plan.graph g → GraphFacts g) :
    t.countP (reads id) ≤ 1 := by
  have hcredit : Credit (against 0 (misses id) (reads id)) 1
      (executePreparedWorkflow plan plugins limits serde).run := by
    refine credit_plan_located (fun e he => against_eq_zero (misses_of_not_concerns he)
      (reads_of_not_concerns he)) (fun _ _ => 1)
      (fun g hg => ids_of_graphFacts (hfacts g hg)) (fun _ _ => by decide)
      (fun _ g hg node hn scope heq => ?_) (fun _ g hg node hn => ?_) plugins limits serde
    · subst heq
      refine ⟨_, _, nodeAccount_own 0 0 0 le_rfl le_rfl le_rfl (by decide) (fun _ _ => ?_)
        (fun _ _ _ => ?_) ?_ (fun _ _ => ?_) (fun _ => ?_) (fun _ => ?_) (fun _ => ?_) ?_⟩
      all_goals simp [against, indicator, reads, misses]
    · have := honce g hg node hn
      exact ⟨1, by decide, fun _ _ => le_rfl, by omega⟩
  have := countP_le_of_credit (fun o => by cases o <;> rfl) hcredit hrun
  omega

end Unretried

/-! ### External effects -/

/-- An unsafe node is called only after its checkpoint was begun. -/
theorem countP_affects_le (hfacts : ∀ g, Nested plan.graph g → GraphFacts g) :
    t.countP (affects id) ≤ t.countP (beginsAs id .running) := by
  have hcredit : Credit (against 1 (beginsAs id .running) (affects id)) 0
      (executePreparedWorkflow plan plugins limits serde).run := by
    refine credit_plan_of_own (fun e he => against_eq_zero (beginsAs_of_not_concerns he _)
      (affects_of_not_concerns he)) (fun g hg node hn scope heq => ?_) _ _ _
    subst heq
    by_cases hrisky : node.isUnsafe = true
    · have hattempts := attempts_eq_one_of_isUnsafe (hfacts g hg) hn hrisky
      have hstatus : node.kind.checkpointStatus = .running := by
        rw [WorkflowNode.isUnsafe, isUnsafeCall, Bool.and_eq_true] at hrisky
        have hkind : node.kind.isExternalEffect = true := hrisky.1
        cases hk : node.kind <;> rw [hk] at hkind <;> first | rfl | cases hkind
      refine ⟨_, _, nodeAccount_own 1 0 0 (by decide) le_rfl le_rfl le_rfl (fun _ _ => ?_)
        (fun _ _ _ => ?_) ?_ (fun _ _ => ?_) (fun _ => ?_) (fun _ => ?_) (fun _ => ?_) ?_⟩
      all_goals simp [against, indicator, beginsAs, affects, hstatus, hattempts]
      split <;> simp
    · have hsafe : isUnsafeCall node.nodeType node.config = false := Bool.not_eq_true _ ▸ hrisky
      refine ⟨_, _, nodeAccount_own 0 0 0 le_rfl le_rfl le_rfl le_rfl (fun _ _ => ?_)
        (fun _ _ _ => ?_) ?_ (fun _ _ => ?_) (fun _ => ?_) (fun _ => ?_) (fun _ => ?_) ?_⟩
      all_goals simp [against, indicator, beginsAs, affects, hsafe]
      split <;> simp
  have := countP_le_of_credit (fun o => by cases o <;> rfl) hcredit hrun
  omega

/-- Calls of unsafe nodes, at a price, and begun checkpoints. -/
def effectWeight (price : ℤ) (id : String) (e : RunEvent) : ℤ :=
  -(price * indicator (affects id) e) - indicator (begins id) e

open Classical in
/-- What one id may spend on unsafe calls and checkpoints in a graph: a container without effects is
retried, up to ten times at each depth; one with an effect is not. -/
noncomputable def effectBound (price : ℤ) (depth : Nat) (g : WorkflowSubgraph) : ℤ :=
  if HasEffect g then max (price + 1) (10 ^ depth) else 10 ^ depth

omit hrun in
theorem credit_effectWeight (hfacts : ∀ g, Nested plan.graph g → GraphFacts g)
    (hcontainers : ∀ g, Nested plan.graph g → ∀ node ∈ g.nodes,
      (∃ g' ∈ node.subgraphs, HasEffect g') → node.attempts ≤ 1) {price : ℤ} (hprice : 0 ≤ price) :
    Credit (effectWeight price id) (effectBound price maxGraphDepth plan.graph)
      (executePreparedWorkflow plan plugins limits serde).run := by
  have hpow : ∀ n : Nat, (1 : ℤ) ≤ 10 ^ n := fun n => one_le_pow₀ (by decide)
  have hone : ∀ depth g, 1 ≤ effectBound price depth g := by
    intro depth g
    unfold effectBound
    split
    · exact le_max_of_le_right (hpow depth)
    · exact hpow depth
  have hfree : ∀ e : RunEvent, ¬ e.1.Concerns id → effectWeight price id e = 0 := by
    intro e he
    simp [effectWeight, indicator, affects_of_not_concerns he, begins_of_not_concerns he]
  refine credit_plan_located hfree (effectBound price) (fun g hg => ids_of_graphFacts (hfacts g hg))
    (fun depth g => by have := hone depth g; omega)
    (fun depth g hg node hn scope heq => ?_) (fun depth g hg node hn => ?_) plugins limits serde
  · subst heq
    have htotal := hone (depth + 1) g
    by_cases hrisky : node.isUnsafe = true
    · have hattempts := attempts_eq_one_of_isUnsafe (hfacts g hg) hn hrisky
      have hprice' : price + 1 ≤ effectBound price (depth + 1) g := by
        rw [effectBound, if_pos ⟨g, .refl, node, hn, hrisky⟩]
        exact le_max_left _ _
      refine ⟨_, _, nodeAccount_own price 0 0 hprice le_rfl le_rfl (by omega) (fun _ _ => ?_)
        (fun _ _ _ => ?_) ?_ (fun _ _ => ?_) (fun _ => ?_) (fun _ => ?_) (fun _ => ?_) ?_⟩
      all_goals simp [effectWeight, indicator, begins, affects, hattempts]
      all_goals omega
    · have hsafe : isUnsafeCall node.nodeType node.config = false := Bool.not_eq_true _ ▸ hrisky
      refine ⟨_, _, nodeAccount_own 0 0 0 le_rfl le_rfl le_rfl (by omega) (fun _ _ => ?_)
        (fun _ _ _ => ?_) ?_ (fun _ _ => ?_) (fun _ => ?_) (fun _ => ?_) (fun _ => ?_) ?_⟩
      all_goals simp [effectWeight, indicator, begins, affects, hsafe]
      all_goals omega
  · have hten := attempts_le_ten (hfacts g hg) hn
    by_cases heffect : ∃ g' ∈ node.subgraphs, HasEffect g'
    · have hattempts := hcontainers g hg node hn heffect
      obtain ⟨g₁, hg₁, g₂, hg₂, hnode⟩ := heffect
      have hself : HasEffect g := ⟨g₂, .head ⟨node, hn, hg₁⟩ hg₂, hnode⟩
      refine ⟨max (price + 1) (10 ^ depth), by omega, fun g' _ => ?_, ?_⟩
      · unfold effectBound
        split
        · exact le_rfl
        · exact le_max_right _ _
      · have hgrows : (10 : ℤ) ^ depth ≤ 10 ^ (depth + 1) :=
          pow_le_pow_right₀ (by decide) (by omega)
        have htimes : (node.attempts : ℤ) * max (price + 1) (10 ^ depth) ≤
            max (price + 1) (10 ^ depth) := by
          have hnonneg : 0 ≤ max (price + 1) ((10 : ℤ) ^ depth) := by omega
          exact mul_le_of_le_one_left hnonneg (by omega)
        rw [effectBound, if_pos hself]
        exact htimes.trans (max_le_max le_rfl hgrows)
    · refine ⟨10 ^ depth, by have := hpow depth; omega, fun g' hg' => ?_, ?_⟩
      · rw [effectBound, if_neg fun h => heffect ⟨g', hg', h⟩]
      · have htimes : (node.attempts : ℤ) * 10 ^ depth ≤ 10 ^ (depth + 1) := by
          rw [pow_succ']
          exact mul_le_mul_of_nonneg_right hten (by have := hpow depth; omega)
        unfold effectBound
        split
        · exact htimes.trans (le_max_right _ _)
        · exact htimes

/-- **An unsafe node is called at most once**, and its checkpoint is begun once, if no container
around an unsafe node is retried. -/
theorem countP_affects_eq_one (hfacts : ∀ g, Nested plan.graph g → GraphFacts g)
    (hcontainers : ∀ g, Nested plan.graph g → ∀ node ∈ g.nodes,
      (∃ g' ∈ node.subgraphs, HasEffect g') → node.attempts ≤ 1)
    (hcalled : 0 < t.countP (affects id)) :
    t.countP (affects id) = 1 ∧ t.countP (begins id) ≤ 1 := by
  have hprice : (10 : ℤ) ≤ 10 ^ maxGraphDepth := by decide
  have hcredit : Credit (effectWeight (10 ^ maxGraphDepth) id)
      (effectBound (10 ^ maxGraphDepth) maxGraphDepth plan.graph)
      (executePreparedWorkflow plan plugins limits serde).run :=
    credit_effectWeight id hfacts hcontainers (by omega)
  have hspent := hcredit.cut hrun refusing fun o => by
    have h₁ := indicator_nonneg (affects id) ⟨o, refusing o⟩
    have h₂ := indicator_nonneg (begins id) ⟨o, refusing o⟩
    unfold effectWeight
    nlinarith
  have hbalance : balance (effectWeight (10 ^ maxGraphDepth) id) t =
      -(10 ^ maxGraphDepth * t.countP (affects id)) - t.countP (begins id) := by
    rw [← balance_indicator, ← balance_indicator, ← balance_mul, ← balance_neg, ← balance_sub]
    rfl
  have hbound : effectBound (10 ^ maxGraphDepth) maxGraphDepth plan.graph ≤
      10 ^ maxGraphDepth + 1 := by
    unfold effectBound
    split <;> omega
  rw [hbalance] at hspent
  have hone : t.countP (affects id) = 1 := by
    by_contra hne
    have htwo : (2 : ℤ) ≤ t.countP (affects id) := by omega
    have hdouble : (10 : ℤ) ^ maxGraphDepth * 2 ≤ 10 ^ maxGraphDepth * t.countP (affects id) :=
      mul_le_mul_of_nonneg_left htwo (by omega)
    omega
  rw [hone] at hspent
  omega

end Counts

end KakuneCore
