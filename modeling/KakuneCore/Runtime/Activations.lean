import KakuneCore.Runtime.Accounts
import KakuneCore.Runtime.ExecutedSet

/-!
# Every activation happens at most once

The scoped id of a node spells the path to it, so no two graph instances of a run share one. As long
as the containers around a node are not retried, a run starts each scoped id **at most once**.
-/

namespace KakuneCore

open Proc

/-! ### Scoped ids -/

/-- Words without a slash in front of a slash can be told apart. -/
theorem eq_of_append_slash {a b x y : String} (ha : '/' ∉ a.toList) (hb : '/' ∉ b.toList)
    (h : a ++ "/" ++ x = b ++ "/" ++ y) : a = b ∧ x = y := by
  have hlist : ∀ (a b x y : List Char), '/' ∉ a → '/' ∉ b → a ++ '/' :: x = b ++ '/' :: y →
      a = b ∧ x = y := by
    intro a
    induction a with
    | nil =>
      intro b x y _ hb h
      cases b with
      | nil => simpa using h
      | cons c b =>
        rw [List.nil_append, List.cons_append, List.cons.injEq] at h
        exact absurd (h.1 ▸ List.mem_cons_self) hb
    | cons c a ih =>
      intro b x y ha hb h
      cases b with
      | nil =>
        rw [List.nil_append, List.cons_append, List.cons.injEq] at h
        exact absurd (h.1 ▸ List.mem_cons_self) ha
      | cons c' b =>
        rw [List.cons_append, List.cons_append, List.cons.injEq] at h
        obtain ⟨rfl, h⟩ := h
        obtain ⟨rfl, rfl⟩ := ih b x y (fun hm => ha (List.mem_cons_of_mem _ hm))
          (fun hm => hb (List.mem_cons_of_mem _ hm)) h
        exact ⟨rfl, rfl⟩
  have hchars := congrArg String.toList h
  have hslash : "/".toList = ['/'] := rfl
  simp only [String.toList_append, hslash, List.append_assoc, List.singleton_append] at hchars
  obtain ⟨hab, hxy⟩ := hlist _ _ _ _ ha hb hchars
  exact ⟨String.toList_injective hab, String.toList_injective hxy⟩

theorem not_slash_of_isValidId {id : String} (h : isValidId id = true) : '/' ∉ id.toList := by
  intro hmem
  simp only [isValidId, isIdentifierPart, Bool.and_eq_true, List.all_eq_true] at h
  have := h.2.2 '/' hmem
  revert this
  decide

theorem not_slash_toString (n : Nat) : '/' ∉ (toString n).toList := by
  intro hmem
  have hdigits : '/' ∈ Nat.toDigits 10 n := by simpa using hmem
  have hdigit := Nat.isDigit_of_mem_toDigits (by decide) (by decide) hdigits
  revert hdigit
  decide

/-- The id `target` names an activation inside the node `id` of the instance `scope`. -/
def BelowNode (scope id target : String) : Prop :=
  ∃ rest, target = scope ++ "/" ++ id ++ "/" ++ rest

/-- The id `target` names the node `id` of the instance `scope`, or an activation inside it. -/
def AtNode (scope id target : String) : Prop :=
  target = scopedNodeId scope id ∨ BelowNode scope id target

/-- The id `target` names an activation of the instance `scope`, or one inside it. -/
def InInstance (scope target : String) : Prop :=
  ∃ id, '/' ∉ id.toList ∧ AtNode scope id target

theorem scopedNodeId_of_ne {scope : String} (h : scope ≠ "") (id : String) :
    scopedNodeId scope id = scope ++ "/" ++ id := by
  rw [scopedNodeId, if_neg h]
  simp [toString, String.append_assoc]

theorem slash_mem_append (a b : String) : '/' ∈ (a ++ "/" ++ b).toList := by
  simp [String.toList_append]

/-- The activations inside a node do not have its own id. -/
theorem not_belowNode_scopedNodeId {scope id id' : String} (hid : '/' ∉ id.toList) :
    ¬ BelowNode scope id' (scopedNodeId scope id) := by
  rintro ⟨rest, h⟩
  by_cases hscope : scope = ""
  · rw [scopedNodeId, if_pos hscope] at h
    exact hid (h ▸ slash_mem_append _ _)
  · rw [scopedNodeId_of_ne hscope] at h
    simp only [String.append_assoc, String.append_right_inj] at h
    rw [h, ← String.append_assoc] at hid
    exact hid (slash_mem_append _ _)

/-- **An id lies at one node of an instance.** -/
theorem AtNode.unique {scope id id' target : String} (hid : '/' ∉ id.toList)
    (hid' : '/' ∉ id'.toList) (h : AtNode scope id target) (h' : AtNode scope id' target) :
    id = id' := by
  obtain rfl | ⟨rest, rfl⟩ := h
  · obtain heq | hbelow := h'
    · by_cases hscope : scope = ""
      · rwa [scopedNodeId, scopedNodeId, if_pos hscope, if_pos hscope] at heq
      · rwa [scopedNodeId_of_ne hscope, scopedNodeId_of_ne hscope, String.append_right_inj] at heq
    · exact absurd hbelow (not_belowNode_scopedNodeId hid)
  · obtain heq | ⟨rest', heq⟩ := h'
    · exact absurd ⟨rest, heq.symm⟩ (not_belowNode_scopedNodeId hid')
    · simp only [String.append_assoc, String.append_right_inj] at heq
      rw [← String.append_assoc, ← String.append_assoc] at heq
      exact (eq_of_append_slash hid hid' heq).1

/-- The ids of an instance continue its scope. -/
theorem InInstance.exists_append {scope target : String} (hscope : scope ≠ "")
    (h : InInstance scope target) : ∃ rest, target = scope ++ "/" ++ rest := by
  obtain ⟨id, -, rfl | ⟨rest, rfl⟩⟩ := h
  · exact ⟨id, scopedNodeId_of_ne hscope id⟩
  · exact ⟨id ++ "/" ++ rest, by simp only [String.append_assoc]⟩

/-- The instances that a node runs: their scopes continue the path of the node. -/
theorem InInstance.belowNode {scope id tail target : String}
    (h : InInstance (scope ++ "/" ++ id ++ "/" ++ tail) target) : BelowNode scope id target := by
  have hne : scope ++ "/" ++ id ++ "/" ++ tail ≠ "" := by
    intro hempty
    have hslash := slash_mem_append (scope ++ "/" ++ id) tail
    rw [hempty] at hslash
    cases hslash
  obtain ⟨rest, rfl⟩ := h.exists_append hne
  exact ⟨tail ++ "/" ++ rest, by simp only [String.append_assoc]⟩

/-- Numbered instances of a node are told apart by their numbers. -/
theorem InInstance.index_unique {scope id word target : String} {i j : Nat}
    (hi : InInstance (scope ++ "/" ++ id ++ "/" ++ (word ++ toString i)) target)
    (hj : InInstance (scope ++ "/" ++ id ++ "/" ++ (word ++ toString j)) target) : i = j := by
  have hne : ∀ n : Nat, scope ++ "/" ++ id ++ "/" ++ (word ++ toString n) ≠ "" := by
    intro n hempty
    have hslash := slash_mem_append (scope ++ "/" ++ id) (word ++ toString n)
    rw [hempty] at hslash
    cases hslash
  obtain ⟨rest, rfl⟩ := hi.exists_append (hne i)
  obtain ⟨rest', h⟩ := hj.exists_append (hne j)
  have hsplit :
      ∀ (n : Nat) (r : String), scope ++ "/" ++ id ++ "/" ++ (word ++ toString n) ++ "/" ++ r =
      (scope ++ "/" ++ id ++ "/" ++ word) ++ (toString n ++ "/" ++ r) := by
    intro n r
    simp only [String.append_assoc]
  rw [hsplit, hsplit, String.append_right_inj] at h
  have htext := (eq_of_append_slash (not_slash_toString i) (not_slash_toString j) h).1
  exact Nat.repr_inj.mp htext

/-! ### Every node of an instance runs once -/

theorem length_of_runs_parallel {α : Type} {ps : List (Proc Op Resp α)} {t : RunTrace} {xs : List α}
    (h : Runs (Proc.parallel ps) t (some xs)) : xs.length = ps.length := by
  obtain ⟨us, rs, hthreads, -, hrs⟩ := runs_parallel h
  obtain rfl := hrs xs rfl
  have hlen : ∀ {ps : List (Proc Op Resp α)} {us : List RunTrace} {rs : List (Option α)},
      Threads ps us rs → rs.length = ps.length := by
    intro ps us rs hthreads
    induction hthreads with
    | nil => rfl
    | cons _ _ ih => rw [List.length_cons, List.length_cons, ih]
  simpa using hlen hthreads

theorem eq_settleResults_of_runs {ctx : ExecutionContext}
    {items : List ((WorkflowNode × StrMap Value) × Except RunError NodeResult)}
    {failure : Option RunError} {state : GraphState} {t : RunTrace}
    {outcome : Option RunError × GraphState}
    (h : Runs (settleBatch ctx items failure state).run t (some (.ok outcome))) :
    outcome = settleResults items failure state := by
  induction items generalizing failure state t with
  | nil =>
    obtain ⟨-, h | h⟩ := runs_run_pure.mp h
    · cases h
    · cases h
      rfl
  | cons item rest ih =>
    obtain ⟨⟨node, inputs⟩, result⟩ := item
    cases result with
    | ok result =>
      obtain ⟨_, _, _, -, -, hrest⟩ := runs_run_bind_ok h
      exact ih hrest
    | error error =>
      obtain ⟨_, _, _, -, -, hrest⟩ := runs_run_bind_ok h
      exact ih hrest

/-- A batch that is done has settled its nodes. -/
theorem settled_of_runs_runBatch {exec : NodeExecutor} {ctx : ExecutionContext}
    {batch : List WorkflowNode} {state state' : GraphState} {t : RunTrace}
    (h : Runs (runBatch exec ctx batch state).run t (some (.ok state'))) :
    (∀ id ∈ state.settled, id ∈ state'.settled) ∧ ∀ node ∈ batch, node.id ∈ state'.settled := by
  obtain ⟨prepared, t₁, _, -, hprepare, h⟩ := runs_run_bind_ok h
  obtain ⟨results, t₂, _, -, hpool, h⟩ := runs_run_bind_ok h
  obtain ⟨⟨failure, after⟩, t₃, _, -, hsettle, h⟩ := runs_run_bind_ok h
  obtain ⟨hr, -⟩ | ⟨results', hr, hpool⟩ := runs_run_lift hpool
  · cases hr
  obtain rfl : results = results' := by simpa using hr
  have hlen : results.length = prepared.length := by simpa using length_of_runs_parallel hpool
  have hsettled := eq_settleResults_of_runs hsettle
  cases failure with
  | some error => exact absurd h not_runs_run_throw_ok
  | none =>
    obtain ⟨-, h | h⟩ := runs_run_pure.mp h
    · cases h
    obtain rfl : state' = after := by simpa using h
    obtain ⟨xs, hitems, hstate⟩ := settleResults_none (congrArg Prod.fst hsettled).symm
    rw [← hsettled] at hstate
    change state' = state.settleAll xs at hstate
    rw [hstate]
    refine ⟨fun id hid => GraphState.mem_settleAll.mpr (.inl hid), fun node hn => ?_⟩
    refine GraphState.mem_settleAll.mpr (.inr ?_)
    -- the nodes of the settlements are those of the batch
    have hfst : prepared.map Prod.fst = xs.map Settlement.node := by
      have hmap := congrArg (List.map fun item => item.1.1) hitems
      rw [List.map_map] at hmap
      have hzip : (prepared.zip results).map Prod.fst = prepared := List.map_fst_zip hlen.ge
      rw [← hzip, List.map_map]
      exact hmap
    rw [← map_fst_of_runs_prepareBatch hprepare, hfst] at hn
    obtain ⟨x, hx, rfl⟩ := List.mem_map.mp hn
    exact ⟨x, hx, rfl⟩

section Once

variable {w : RunEvent → ℤ} {exec : NodeExecutor} {ctx : ExecutionContext}
  {nodes : List WorkflowNode} {total : WorkflowNode → ℤ} (hw : Neutral w) (hs : NeutralLoop w)
  (htotal : ∀ node ∈ nodes, 0 ≤ total node)
  (hworker : ∀ node ∈ nodes, ∀ state inputs,
    Credit w (total node) (worker exec ctx state node inputs))
include hw hs htotal hworker

/-- What the nodes that are not settled may still spend. -/
def unsettledTotal (nodes : List WorkflowNode) (total : WorkflowNode → ℤ) (settled : List String) :
    ℤ :=
  ((nodes.filter fun node => node.id ∉ settled).map total).sum

theorem credit_runBatch_once {batch : List WorkflowNode} (hb : ∀ node ∈ batch, node ∈ nodes)
    (state : GraphState) : Credit w (batch.map total).sum (runBatch exec ctx batch state).run := by
  have hnonneg : 0 ≤ (batch.map total).sum := by
    refine List.sum_nonneg fun x hx => ?_
    obtain ⟨node, hn, rfl⟩ := List.mem_map.mp hx
    exact htotal node (hb node hn)
  have hprepare := credit_prepareBatch hw (hs.rounds ctx.scope nodes) state hb
  refine (Credit.bind_runs hprepare fun t result hrun => ?_).mono
    (k := 0 + (batch.map total).sum) (by simp)
  cases result with
  | error e => exact .ret hnonneg
  | ok prepared =>
    have hfst := map_fst_of_runs_prepareBatch hrun
    have hall : ∀ p ∈ prepared, Credit w (total p.1) (worker exec ctx state p.1 p.2) := by
      intro p hp
      refine hworker p.1 (hb p.1 ?_) _ _
      rw [← hfst]
      exact List.mem_map_of_mem hp
    have hpool := Credit.parallel hall
    have hsum : (prepared.map fun p => total p.1).sum = (batch.map total).sum := by
      rw [← hfst, List.map_map]
      rfl
    rw [hsum] at hpool
    refine (Credit.run_bind (Credit.run_lift hpool) (fun results => ?_) le_rfl).mono (by omega)
    have hitems : ∀ item ∈ prepared.zip results, item.1.1 ∈ nodes :=
      fun item hitem => hb _ (mem_of_mem_zip_prepared hrun item hitem)
    refine .run_then le_rfl (credit_settleBatch (hs.rounds _ nodes) hitems _ _) fun outcome => ?_
    obtain ⟨failure, state'⟩ := outcome
    cases failure with
    | none => exact .run_pure le_rfl
    | some error => exact .run_throw le_rfl

omit hworker hw hs in
/-- A round pays for its nodes once: they are settled after it. -/
theorem unsettledTotal_add_le {settled settled' : List String} {p : WorkflowNode → Bool}
    (hp : ∀ node ∈ nodes, p node = true → node.id ∉ settled ∧ node.id ∈ settled')
    (hsub : ∀ id ∈ settled, id ∈ settled') :
    ((nodes.filter p).map total).sum + unsettledTotal nodes total settled' ≤
      unsettledTotal nodes total settled := by
  unfold unsettledTotal
  induction nodes with
  | nil => simp
  | cons node nodes ih =>
    have hrest := ih (fun n hn => htotal n (List.mem_cons_of_mem _ hn))
      fun n hn => hp n (List.mem_cons_of_mem _ hn)
    have hnonneg := htotal node List.mem_cons_self
    have hnode := hp node List.mem_cons_self
    have hkept := hsub node.id
    simp only [List.filter_cons]
    by_cases hready : p node = true
    · obtain ⟨hout, hin⟩ := hnode hready
      simp only [hready, hin, hout, not_true_eq_false, not_false_eq_true, decide_true, decide_false,
        if_true, Bool.false_eq_true, if_false, List.map_cons, List.sum_cons]
      omega
    · by_cases hin' : node.id ∈ settled'
      · by_cases hin : node.id ∈ settled
        · simpa [hready, hin, hin'] using hrest
        · simp only [hready, hin, hin', not_true_eq_false, not_false_eq_true, decide_true,
            decide_false, if_true, Bool.false_eq_true, if_false, List.map_cons, List.sum_cons]
          omega
      · have hout : node.id ∉ settled := fun h => hin' (hkept h)
        simp only [hready, hin', hout, not_false_eq_true, decide_true, if_true, Bool.false_eq_true,
          if_false, List.map_cons, List.sum_cons]
        omega

theorem credit_runBatches_once {batches : List (List WorkflowNode)}
    (hb : ∀ node ∈ batches.flatten, node ∈ nodes) (state : GraphState) :
    Credit w (batches.flatten.map total).sum (runBatches exec ctx batches state).run := by
  induction batches generalizing state with
  | nil => exact .run_pure (by simp)
  | cons batch batches ih =>
    have hrest : 0 ≤ (batches.flatten.map total).sum := by
      refine List.sum_nonneg fun x hx => ?_
      obtain ⟨node, hn, rfl⟩ := List.mem_map.mp hx
      exact htotal node (hb node (by simp [hn]))
    rw [List.flatten_cons, List.map_append, List.sum_append]
    refine Credit.run_bind (credit_runBatch_once hw hs htotal hworker
      (fun node hn => hb node (by simp [hn])) state) (fun state' => ?_) hrest
    exact ih (fun node hn => hb node (by simp [hn])) state'

omit hworker hw hs htotal in
theorem settled_of_runs_runBatches {batches : List (List WorkflowNode)} {state state' : GraphState}
    {t : RunTrace} (h : Runs (runBatches exec ctx batches state).run t (some (.ok state'))) :
    (∀ id ∈ state.settled, id ∈ state'.settled) ∧
      ∀ node ∈ batches.flatten, node.id ∈ state'.settled := by
  induction batches generalizing state t with
  | nil =>
    obtain ⟨-, h | h⟩ := runs_run_pure.mp h
    · cases h
    · cases h
      exact ⟨fun _ hid => hid, nofun⟩
  | cons batch batches ih =>
    obtain ⟨next, t₁, t₂, -, hbatch, hrest⟩ := runs_run_bind_ok h
    obtain ⟨hkept, hnodes⟩ := settled_of_runs_runBatch hbatch
    obtain ⟨hkept', hnodes'⟩ := ih hrest
    refine ⟨fun id hid => hkept' id (hkept id hid), fun node hn => ?_⟩
    rw [List.flatten_cons, List.mem_append] at hn
    obtain hn | hn := hn
    · exact hkept' _ (hnodes node hn)
    · exact hnodes' node hn

theorem credit_runRounds_once (fuel : Nat) (state : GraphState) :
    Credit w (unsettledTotal nodes total state.settled)
      (runRounds exec ctx nodes fuel state).run := by
  have hnonneg : ∀ settled : List String, 0 ≤ unsettledTotal nodes total settled := by
    intro settled
    refine List.sum_nonneg fun x hx => ?_
    obtain ⟨node, hn, rfl⟩ := List.mem_map.mp hx
    exact htotal node (List.mem_of_mem_filter hn)
  induction fuel generalizing state with
  | zero =>
    unfold runRounds
    split
    · exact .run_throw (hnonneg _)
    · exact .run_pure (hnonneg _)
  | succ fuel ih =>
    unfold runRounds
    split
    · refine .run_then (hnonneg _) (credit_check hw _) fun _ => ?_
      dsimp only
      split
      · split
        · exact .run_pure (hnonneg _)
        · exact .run_throw (hnonneg _)
      · refine .run_then (hnonneg _) (credit_ask fun _ => by simpa using hs.round _ _) fun _ => ?_
        refine .run_then (hnonneg _) (credit_liftExcept le_rfl) fun _ => ?_
        refine (Credit.bind_runs (hw.of_anonymous only_run_chunked) fun t result hrun => ?_).mono
          (k := 0 + unsettledTotal nodes total state.settled) (by simp)
        cases result with
        | error e => exact .ret (hnonneg _)
        | ok batches =>
          have hflat : batches.flatten = nodes.filter ((state.close nodes).isReady nodes) := by
            rw [eq_chunks_of_runs_chunked hrun, flatten_chunks]
            rfl
          have hmem : ∀ node ∈ batches.flatten, node ∈ nodes := by
            rw [hflat]
            exact fun node hn => List.mem_of_mem_filter hn
          have hclosed : ∀ id ∈ state.settled, id ∈ (state.close nodes).settled :=
            (closes_closeUnselected _ _).subset
          have hready : ∀ node ∈ nodes, (state.close nodes).isReady nodes node = true →
              node.id ∉ state.settled ∧ node ∈ batches.flatten := by
            intro node hn hr
            refine ⟨fun hin => (isReady_iff.mp hr).1 (hclosed _ hin), ?_⟩
            rw [hflat]
            exact List.mem_filter.mpr ⟨hn, hr⟩
          -- what the round spends is no longer there for the rounds after it
          have hspent : ∀ settled' : List String, (∀ id ∈ state.settled, id ∈ settled') →
              (∀ node ∈ batches.flatten, node.id ∈ settled') →
              (batches.flatten.map total).sum + unsettledTotal nodes total settled' ≤
                unsettledTotal nodes total state.settled := by
            intro settled' hsub hin
            rw [hflat]
            refine unsettledTotal_add_le htotal (fun node hn hr => ?_) hsub
            exact ⟨(hready node hn hr).1, hin node (hready node hn hr).2⟩
          have hleft :
              0 ≤ unsettledTotal nodes total state.settled - (batches.flatten.map total).sum := by
            have hall := hspent (state.settled ++ batches.flatten.map WorkflowNode.id)
              (fun id hid => List.mem_append_left _ hid)
              fun node hn => List.mem_append_right _ (List.mem_map_of_mem hn)
            have := hnonneg (state.settled ++ batches.flatten.map WorkflowNode.id)
            omega
          refine (Credit.run_bind_runs (credit_runBatches_once hw hs htotal hworker hmem
            (state.close nodes)) (fun t' state' hstate => ?_) hleft).mono (by omega)
          obtain ⟨hkept, hdone⟩ := settled_of_runs_runBatches hstate
          have hafter := hspent state'.settled (fun id hid => hkept id (hclosed id hid)) hdone
          exact (ih state').mono (by omega)
    · exact .run_pure (hnonneg _)

end Once

/-- **A graph spends at most what its nodes may spend together**: each of them runs at most once. -/
theorem credit_executeGraphWith_once {w : RunEvent → ℤ} {exec : NodeExecutor}
    {ctx : ExecutionContext} {nodes : List WorkflowNode} {total : WorkflowNode → ℤ} (hw : Neutral w)
    (hs : NeutralLoop w) (htotal : ∀ node ∈ nodes, 0 ≤ total node)
    (hworker : ∀ node ∈ nodes, ∀ state inputs,
      Credit w (total node) (worker exec ctx.forked state node inputs))
    (entry : String) (locals : StrMap Value) :
    Credit w (nodes.map total).sum (executeGraphWith exec ctx nodes entry locals).run := by
  refine (credit_runRounds_once hw hs htotal hworker _ _).mono (le_of_eq ?_)
  simp [unsettledTotal, GraphState.initial]

/-! ### Activations with one id -/

/-- The operations of the activations with an id. -/
def Op.Concerns (target : String) : Op → Prop
  | .checkpointResult id | .beginCheckpoint id _ | .completeCheckpoint id _
  | .durableDelayRemaining id _ | .invoke id _ _ _ | .observe (.executing id _) => id = target
  | _ => False

open Classical in
/-- At most one of some distinct things costs something. -/
theorem sum_ite_le_of_unique {ι : Type} {xs : List ι} (hnd : xs.Nodup) {P : ι → Prop} {Q : Prop}
    {c : ℤ} (hc : 0 ≤ c) (hQ : ∀ x ∈ xs, P x → Q)
    (hunique : ∀ x ∈ xs, ∀ y ∈ xs, P x → P y → x = y) :
    (xs.map fun x => if P x then c else 0).sum ≤ if Q then c else 0 := by
  induction xs with
  | nil =>
    rw [List.map_nil, List.sum_nil]
    split <;> omega
  | cons x xs ih =>
    rw [List.nodup_cons] at hnd
    have hrest := ih hnd.2 (fun y hy => hQ y (List.mem_cons_of_mem _ hy))
      fun y hy z hz => hunique y (List.mem_cons_of_mem _ hy) z (List.mem_cons_of_mem _ hz)
    rw [List.map_cons, List.sum_cons]
    by_cases hx : P x
    · have hzero : (xs.map fun y => if P y then c else 0) = xs.map fun _ => 0 := by
        refine List.map_congr_left fun y hy => if_neg fun hPy => hnd.1 ?_
        rwa [hunique x List.mem_cons_self y (List.mem_cons_of_mem _ hy) hx hPy]
      rw [hzero, if_pos hx, if_pos (hQ x List.mem_cons_self hx)]
      simp
    · rw [if_neg hx]
      omega

/-- The instances that a node runs lie below it. -/
theorem Child.belowNode {scope s target : String} {node : WorkflowNode} {g : WorkflowSubgraph}
    (h : Child scope node g s) (hin : InInstance s target) : BelowNode scope node.id target := by
  cases h with
  | branch =>
    rw [switchScope_eq] at hin
    exact hin.belowNode
  | item =>
    rw [itemScope_eq] at hin
    exact hin.belowNode
  | iteration =>
    rw [iterationScope_eq] at hin
    exact hin.belowNode

section Located

variable {w : RunEvent → ℤ} {target : String}
  (hfree : ∀ e : RunEvent, ¬ e.1.Concerns target → w e = 0)
include hfree

theorem neutral_of_free : Neutral w where
  anonymous o ho x := by
    refine (hfree ⟨o, x⟩ ?_).ge
    cases o <;> first | exact id | exact ho.elim
  item _ _ _ _ := (hfree _ id).ge

theorem neutralScheduler_of_free : NeutralScheduler w where
  round _ _ := (hfree _ id).ge
  resolving _ _ _ _ := (hfree _ id).ge
  record _ _ _ := (hfree _ id).ge
  finished _ _ _ := (hfree _ id).ge

open Classical in
/-- An activation with another id spends only what the instances inside it spend. -/
theorem nodeAccount_of_ne {scope : String} {node : WorkflowNode}
    (hne : scopedNodeId scope node.id ≠ target) {c : ℤ} (hc : 0 ≤ c) :
    NodeAccount w scope node (fun s => if InInstance s target then c else 0)
      (if BelowNode scope node.id target then c else 0)
      (if BelowNode scope node.id target then c else 0)
      (if BelowNode scope node.id target then node.attempts * c else 0) := by
  have hzero : ∀ (o : Op) (x : Resp o), (o.Concerns target → scopedNodeId scope node.id = target) →
      w ⟨o, x⟩ = 0 := fun o x ho => hfree _ fun h => hne (ho h)
  have hbudget : 0 ≤ if BelowNode scope node.id target then c else 0 := by
    split <;> omega
  have htotal : 0 ≤ if BelowNode scope node.id target then node.attempts * c else 0 := by
    split
    · exact mul_nonneg (by omega) hc
    · omega
  have hexecuting := hzero (.observe (.executing (scopedNodeId scope node.id) node.kind)) () id
  refine ⟨⟨hbudget, fun s => ?_, fun name => ?_, fun start n => ?_, fun start n => ?_,
    fun inputs x => ?_, fun _ milliseconds x => ?_⟩, ⟨hbudget, ?_, fun result x => ?_⟩, htotal,
    fun saved => ?_, fun text => ?_, fun text => ?_, ?_⟩
  · split <;> omega
  · by_cases hin : InInstance (switchScope scope node.id name) target
    · have hbelow : BelowNode scope node.id target := by
        rw [switchScope_eq] at hin
        exact hin.belowNode
      rw [if_pos hin, if_pos hbelow]
    · rw [if_neg hin]
      exact hbudget
  · refine sum_ite_le_of_unique List.nodup_range' hc (fun i _ hi => ?_) fun i _ j _ hi hj => ?_
    · rw [itemScope_eq] at hi
      exact hi.belowNode
    · rw [itemScope_eq] at hi hj
      exact hi.index_unique hj
  · refine sum_ite_le_of_unique List.nodup_range' hc (fun i _ hi => ?_) fun i _ j _ hi hj => ?_
    · rw [iterationScope_eq] at hi
      exact hi.belowNode
    · rw [iterationScope_eq] at hi hj
      exact hi.index_unique hj
  · rw [hzero _ x id]
    omega
  · rw [hzero _ x id]
    omega
  · omega
  · rw [hzero (.completeCheckpoint _ _) x id]
    omega
  · rw [hzero (.checkpointResult _) _ id]
    omega
  · rw [hzero (.checkpointResult _) _ id]
    omega
  · rw [hzero (.checkpointResult _) _ id, hzero (.beginCheckpoint _ _) _ id]
    omega
  · rw [hzero (.checkpointResult _) _ id, hzero (.beginCheckpoint _ _) _ id]
    split
    · exact le_of_eq (by simp [WorkflowNode.attempts])
    · simp

open Classical in
/-- **What the activations with an id may spend in a graph**, at any depth. The ids of a graph are
distinct words, so at most one node of it leads to the id; `bound` says what may be spent below. -/
theorem credit_executeGraph_located {graph : WorkflowSubgraph} {bound : Nat → WorkflowSubgraph → ℤ}
    (hids : ∀ g, Nested graph g →
      (nodeIds g.nodes).Nodup ∧ ∀ node ∈ g.nodes, '/' ∉ node.id.toList)
    (hnonneg : ∀ depth g, 0 ≤ bound depth g)
    (hown : ∀ depth g, Nested graph g → ∀ node ∈ g.nodes, ∀ scope,
      scopedNodeId scope node.id = target → ∃ budget attempt,
        NodeAccount w scope node (fun _ => 0) budget attempt (bound (depth + 1) g))
    (hinner : ∀ depth g, Nested graph g → ∀ node ∈ g.nodes, ∃ c, 0 ≤ c ∧
      (∀ g' ∈ node.subgraphs, bound depth g' ≤ c) ∧ node.attempts * c ≤ bound (depth + 1) g)
    (depth : Nat) (ctx : ExecutionContext) (locals : StrMap Value) :
    Credit w (if InInstance ctx.scope target then bound depth graph else 0)
      (executeGraph depth ctx graph.nodes graph.entry locals).run := by
  have hw := neutral_of_free hfree
  have hs := neutralScheduler_of_free hfree
  induction depth generalizing graph ctx locals with
  | zero =>
    refine .run_throw ?_
    split
    · exact hnonneg _ _
    · exact le_rfl
  | succ depth ih =>
    have hself := hids graph .refl
    have hsub : ∀ node ∈ graph.nodes, ∀ g ctx' locals', g ∈ node.subgraphs →
        Credit w (if InInstance ctx'.scope target then bound depth g else 0)
          (executeSubgraph (executeGraph depth) ctx' g locals').run := by
      intro node hn g ctx' locals' hg
      have hnested : ∀ g', Nested g g' → Nested graph g' := fun g' => .head ⟨node, hn, hg⟩
      refine (Credit.run_bind (ih (fun g' h => hids g' (hnested g' h))
        (fun d g' h => hown d g' (hnested g' h)) (fun d g' h => hinner d g' (hnested g' h)) ctx'
        locals') (fun _ => credit_resolveInputs hw _ _ _ _) le_rfl).mono (by omega)
    have hworker : ∀ node ∈ graph.nodes, ∀ state inputs,
        Credit w (if AtNode ctx.scope node.id target then bound (depth + 1) graph else 0)
          (worker (nodeExecutor depth) ctx.forked state node inputs) := by
      intro node hn state inputs
      refine credit_worker hw hs.finished (le_of_eq ?_) (?_ : Credit w
        (if AtNode ctx.scope node.id target then bound (depth + 1) graph else 0) _)
      · rw [hfree _ id, add_zero]
      by_cases heq : scopedNodeId ctx.scope node.id = target
      · obtain ⟨budget, attempt, haccount⟩ := hown depth graph .refl node hn ctx.scope heq
        rw [if_pos (.inl heq.symm)]
        refine credit_executeNodeWithRetry hw (by exact haccount) (fun g ctx' locals' hg => ?_) _ _
        -- nothing inside has the id of the node itself
        refine (hsub node hn g ctx' locals' hg.mem_subgraphs).mono (le_of_eq (if_neg fun hin => ?_))
        have hbelow := hg.belowNode hin
        rw [← heq] at hbelow
        exact not_belowNode_scopedNodeId (hself.2 node hn) hbelow
      · obtain ⟨c, hc, hbound, htimes⟩ := hinner depth graph .refl node hn
        refine (credit_executeNodeWithRetry hw (by exact nodeAccount_of_ne hfree heq hc)
          (fun g ctx' locals' hg => ?_) _ _).mono ?_
        · refine (hsub node hn g ctx' locals' hg.mem_subgraphs).mono ?_
          split
          · exact hbound g hg.mem_subgraphs
          · exact le_rfl
        · by_cases hbelow : BelowNode ctx.scope node.id target
          · rw [if_pos hbelow, if_pos (.inr hbelow)]
            exact htimes
          · rw [if_neg hbelow]
            split
            · exact hnonneg _ _
            · exact le_rfl
    have hnodup : graph.nodes.Nodup := hself.1.of_map _
    refine (credit_executeGraphWith_once hw hs.toNeutralLoop (fun node _ => ?_) hworker graph.entry
      locals).mono ?_
    · split
      · exact hnonneg _ _
      · exact le_rfl
    · refine sum_ite_le_of_unique hnodup (hnonneg _ _) (fun node hn hat => ?_)
        fun node hn node' hn' hat hat' => ?_
      · exact ⟨node.id, hself.2 node hn, hat⟩
      · exact eq_of_id_eq hself.1 hn hn' (hat.unique (hself.2 node hn) (hself.2 node' hn') hat')

/-- **What the activations with an id may spend in an execution**, when each of them keeps an
account of its own. -/
theorem credit_plan_of_own {plan : ExecutionPlan}
    (hown : ∀ g, Nested plan.graph g → ∀ node ∈ g.nodes, ∀ scope,
      scopedNodeId scope node.id = target → ∃ budget attempt,
        NodeAccount w scope node (fun _ => 0) budget attempt 0)
    (plugins : PluginRegistry) (limits : ExecutionLimits) (serde : SerdeJson) :
    Credit w 0 (executePreparedWorkflow plan plugins limits serde).run := by
  have hw := neutral_of_free hfree
  refine credit_executePreparedWorkflow hw (fun _ _ => (hfree _ id).ge)
    (fun _ _ _ => (hfree _ id).ge) ?_
  change Credit w 0 (executeGraph maxGraphDepth (plan.context plugins limits serde) plan.graph.nodes
    plan.graph.entry plan.locals).run
  refine credit_executeGraph hw (neutralScheduler_of_free hfree) (fun g hg node hn scope => ?_)
    maxGraphDepth _ _
  by_cases heq : scopedNodeId scope node.id = target
  · obtain ⟨budget, attempt, haccount⟩ := hown g hg node hn scope heq
    exact ⟨budget, attempt, 0, haccount, fun _ _ _ => (hfree _ id).ge⟩
  · have haccount := nodeAccount_of_ne hfree heq le_rfl
    simp only [ite_self, mul_zero] at haccount
    exact ⟨0, 0, 0, haccount, fun _ _ _ => (hfree _ id).ge⟩

/-- The same with a bound, for an id that is reached by one path. -/
theorem credit_plan_located {plan : ExecutionPlan} (bound : Nat → WorkflowSubgraph → ℤ)
    (hids : ∀ g, Nested plan.graph g →
      (nodeIds g.nodes).Nodup ∧ ∀ node ∈ g.nodes, '/' ∉ node.id.toList)
    (hnonneg : ∀ depth g, 0 ≤ bound depth g)
    (hown : ∀ depth g, Nested plan.graph g → ∀ node ∈ g.nodes, ∀ scope,
      scopedNodeId scope node.id = target → ∃ budget attempt,
        NodeAccount w scope node (fun _ => 0) budget attempt (bound (depth + 1) g))
    (hinner : ∀ depth g, Nested plan.graph g → ∀ node ∈ g.nodes, ∃ c, 0 ≤ c ∧
      (∀ g' ∈ node.subgraphs, bound depth g' ≤ c) ∧ node.attempts * c ≤ bound (depth + 1) g)
    (plugins : PluginRegistry) (limits : ExecutionLimits) (serde : SerdeJson) :
    Credit w (bound maxGraphDepth plan.graph)
      (executePreparedWorkflow plan plugins limits serde).run := by
  refine credit_executePreparedWorkflow (neutral_of_free hfree) (fun _ _ => (hfree _ id).ge)
    (fun _ _ _ => (hfree _ id).ge) ?_
  change Credit w _ (executeGraph maxGraphDepth (plan.context plugins limits serde) plan.graph.nodes
    plan.graph.entry plan.locals).run
  refine (credit_executeGraph_located hfree hids hnonneg hown hinner maxGraphDepth _ _).mono ?_
  split
  · exact le_rfl
  · exact hnonneg _ _

end Located

/-- The account of an activation, from what its events cost: `effect` for its call or delay, `enter`
for an attempt and `complete` for a completion. -/
theorem nodeAccount_own {w : RunEvent → ℤ} {scope : String} {node : WorkflowNode}
    (effect enter complete : ℤ) {total : ℤ} (heffect : 0 ≤ effect) (henter : 0 ≤ enter)
    (hcomplete : 0 ≤ complete) (htotal : 0 ≤ total)
    (invoke : ∀ inputs x,
      0 ≤ effect + w ⟨.invoke (scopedNodeId scope node.id) node.nodeType node.config inputs, x⟩)
    (delay : node.kind = .delay → ∀ milliseconds x,
      0 ≤ effect + w ⟨.durableDelayRemaining (scopedNodeId scope node.id) milliseconds, x⟩)
    (executing : 0 ≤ enter + w ⟨.observe (.executing (scopedNodeId scope node.id) node.kind), ()⟩)
    (completing : ∀ result x,
      0 ≤ complete + w ⟨.completeCheckpoint (scopedNodeId scope node.id) result, x⟩)
    (saved : ∀ saved, 0 ≤ total +
      w ⟨.checkpointResult (scopedNodeId scope node.id), .ok (some saved)⟩)
    (unread : ∀ text, 0 ≤ total + w ⟨.checkpointResult (scopedNodeId scope node.id), .error text⟩)
    (unbegun : ∀ text, 0 ≤ total + w ⟨.checkpointResult (scopedNodeId scope node.id), .ok none⟩ +
      w ⟨.beginCheckpoint (scopedNodeId scope node.id) node.kind.checkpointStatus, .error text⟩)
    (begun : node.attempts * (effect + enter + complete) ≤ total +
      w ⟨.checkpointResult (scopedNodeId scope node.id), .ok none⟩ +
        w ⟨.beginCheckpoint (scopedNodeId scope node.id) node.kind.checkpointStatus, .ok ()⟩) :
    NodeAccount w scope node (fun _ => 0) effect (effect + enter + complete) total := by
  have hsum : ∀ xs : List Nat, (xs.map fun _ => (0 : ℤ)).sum ≤ effect := by
    intro xs
    simpa using heffect
  refine ⟨⟨heffect, fun _ => le_rfl, fun _ => heffect, fun _ _ => hsum _, fun _ _ => hsum _, invoke,
    delay⟩, ⟨by omega, by omega, fun result x => ?_⟩, htotal, saved, unread, unbegun, begun⟩
  have := completing result x
  omega

end KakuneCore
