import KakuneCore.Runtime.NodeContract

/-!
# Panics of nested graphs

A panic of a node worker is turned into an error where its graph joins it. So whatever the
executor of single nodes does, **a graph that may run a node at a time never panics**, and neither
does `execute_subgraph`: the containers find every failure of their bodies as an error.
-/

namespace KakuneCore

open Proc

/-- Nothing is assumed, guaranteed or counted. -/
def anyContract : Contract Op Resp Nat where
  assume := fun _ => True
  ensure := fun _ => True
  tally := fun _ => 0

/-- No run ends in a panic. -/
def NeverPanics {α : Type} (x : RunM α) : Prop :=
  Quietly anyContract x (fun _ => True) (· ≠ .panic)

theorem anyContract_quiet (o : Op) : anyContract.Quiet o := fun _ _ => ⟨trivial, rfl⟩

theorem anyContract_step : StepQuiet anyContract (· ≠ .panic) :=
  ⟨fun o _ => anyContract_quiet o, fun _ he => he.2⟩

theorem NeverPanics.ne {α : Type} {x : RunM α} (h : NeverPanics x) {t : RunTrace}
    {r : Except RunError α} (hrun : Runs x.run t (some r)) : r ≠ .error .panic := by
  rintro rfl
  exact ((h t _ hrun fun _ _ => trivial).2 _ rfl).2 rfl

theorem meets_anyContract {α : Type} (p : Proc Op Resp α) :
    Meets anyContract p fun m _ => m = 0 := by
  intro t r _ _
  refine ⟨fun _ _ => trivial, fun a _ => ?_⟩
  simp [Contract.total, anyContract]

theorem checkWriters_ne_panic {writers : List String} {nodes : List WorkflowNode} :
    checkWriters writers nodes ≠ .error .panic := by
  fun_induction checkWriters writers nodes <;> simp_all

section Graphs

variable (exec : NodeExecutor) {ctx : ExecutionContext}

/-- A worker hands a panic of its node on as an error. -/
theorem meets_worker_ne_panic (state : GraphState) (node : WorkflowNode)
    (inputs : StrMap Value) :
    Meets anyContract (worker exec ctx state node inputs) fun m result =>
      m = 0 ∧ result ≠ .error .panic := by
  refine Meets.bind (meets_anyContract _) fun m _ hm => ?_
  subst hm
  refine Meets.bind (meets_anyContract _) fun m result hm => ?_
  subst hm
  split
  · refine Meets.bind (meets_anyContract _) fun m _ hm => Meets.ret ?_
    exact ⟨by simp [hm], by simp⟩
  · refine Meets.bind (meets_anyContract _) fun m _ hm => Meets.ret ?_
    exact ⟨by simp [hm], by simp⟩
  · next error hne =>
    refine Meets.bind (meets_anyContract _) fun m _ hm => ?_
    refine Meets.bind (meets_anyContract _) fun m' _ hm' => Meets.ret ?_
    exact ⟨by simp [hm, hm'], by simpa using hne⟩

theorem neverPanics_prepareBatch (state : GraphState) (batch : List WorkflowNode) :
    NeverPanics (prepareBatch ctx state batch) := by
  induction batch with
  | nil => exact .pure trivial
  | cons node batch ih =>
    refine .bind (quietly_observe (anyContract_quiet _)) fun _ _ => ?_
    refine .bind (quietly_resolveInputs anyContract_step _ _ _ _) fun _ _ => ?_
    exact .bind ih fun _ _ => .pure trivial

/-- The failure a batch selects is the error of a worker. -/
theorem neverPanics_settleBatch
    (items : List ((WorkflowNode × StrMap Value) × Except RunError NodeResult))
    (hitems : ∀ item ∈ items, item.2 ≠ .error .panic) (failure : Option RunError)
    (hfailure : failure ≠ some .panic) (state : GraphState) :
    Quietly anyContract (settleBatch ctx items failure state)
      (fun outcome => outcome.1 ≠ some .panic) (· ≠ .panic) := by
  induction items generalizing failure state with
  | nil => exact .pure hfailure
  | cons item rest ih =>
    have hrest : ∀ item ∈ rest, item.2 ≠ .error .panic :=
      fun item hitem => hitems item (List.mem_cons_of_mem _ hitem)
    obtain ⟨⟨node, inputs⟩, result⟩ := item
    cases result with
    | ok result =>
      refine .bind (quietly_request (anyContract_quiet _) (by simp)) fun _ _ => ?_
      exact ih hrest failure hfailure _
    | error error =>
      refine .bind (quietly_request (anyContract_quiet _) (by simp)) fun _ _ => ?_
      refine ih hrest _ ?_ _
      have herror : error ≠ .panic := by
        rintro rfl
        exact hitems _ List.mem_cons_self rfl
      rw [selectFailure]
      split
      · simpa using herror
      · exact hfailure

theorem neverPanics_runBatch (batch : List WorkflowNode) (state : GraphState) :
    NeverPanics (runBatch exec ctx batch state) := by
  refine .bind (neverPanics_prepareBatch state batch) fun prepared _ => ?_
  have hworkers : Meets anyContract
      (Proc.parallel (prepared.map fun p => worker exec ctx state p.1 p.2))
      fun m results => m = 0 ∧ ∀ result ∈ results, result ≠ .error .panic := by
    refine Meets.quiet_parallel fun p hp => ?_
    obtain ⟨prep, -, rfl⟩ := List.mem_map.mp hp
    exact meets_worker_ne_panic exec state prep.1 prep.2
  refine .bind (Quietly.lift hworkers) fun results hresults => ?_
  have hitems : ∀ item ∈ prepared.zip results, item.2 ≠ .error .panic :=
    fun item hitem => hresults _ (List.of_mem_zip hitem).2
  refine .bind (neverPanics_settleBatch _ hitems none (by simp) state) fun outcome houtcome => ?_
  obtain ⟨failure, state'⟩ := outcome
  cases failure with
  | none => exact .pure trivial
  | some error => exact .throw fun he => houtcome (congrArg some he)

theorem neverPanics_runBatches (batches : List (List WorkflowNode)) (state : GraphState) :
    NeverPanics (runBatches exec ctx batches state) := by
  induction batches generalizing state with
  | nil => exact .pure trivial
  | cons batch batches ih =>
    exact .bind (neverPanics_runBatch exec batch state) fun _ _ => ih _

theorem neverPanics_runRounds (hlimit : 1 ≤ ctx.maxParallelNodes) (nodes : List WorkflowNode)
    (rounds : Nat) (state : GraphState) :
    NeverPanics (runRounds exec ctx nodes rounds state) := by
  induction rounds generalizing state with
  | zero =>
    unfold runRounds
    split
    · exact .throw (by simp)
    · exact .pure trivial
  | succ rounds ih =>
    unfold runRounds
    split
    · refine .bind (quietly_check anyContract_step _) fun _ _ => ?_
      dsimp only
      split
      · split
        · exact .pure trivial
        · exact .throw (by simp)
      · refine .bind (quietly_observe (anyContract_quiet _)) fun _ _ => ?_
        refine .bind (quietly_liftExcept_of fun e he hpanic => ?_) fun _ _ => ?_
        · exact checkWriters_ne_panic (hpanic ▸ he)
        · refine .bind (quietly_chunked fun hzero => absurd hzero (by omega)) fun _ _ => ?_
          exact .bind (neverPanics_runBatches exec _ _) fun _ _ => ih _
    · exact .pure trivial

/-- **A nested graph never panics**, to any depth. -/
theorem neverPanics_executeSubgraph (hlimit : 1 ≤ ctx.maxParallelNodes) (depth : Nat)
    (subgraph : WorkflowSubgraph) (locals : StrMap Value) :
    NeverPanics (executeSubgraph (executeGraph depth) ctx subgraph locals) := by
  refine Quietly.bind (Q := fun _ => True) ?_ fun _ _ =>
    quietly_resolveInputs anyContract_step _ _ _ _
  cases depth with
  | zero => exact .throw (by simp)
  | succ depth =>
    have hforked : 1 ≤ ctx.forked.maxParallelNodes := hlimit
    exact neverPanics_runRounds _ hforked _ _ _

end Graphs

end KakuneCore
