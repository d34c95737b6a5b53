import KakuneCore.Planner.Accepted
import KakuneCore.Process.Loops
import KakuneCore.Runtime.Environment

/-!
# Loop nodes

`execute_loop` as bounded iteration. `Iterated k state last t` says that the trace `t` is made of
the first `k` iterations, each of them a run of the body on the state of the one before that has
delivered a state and asked to go on. `LoopEnd` lists how the node comes to its end from there.

The main result, `loop_is_bounded_iteration`, takes **every finished run** of an accepted loop node
apart, for any runner of its body, and puts it together again.
-/

namespace KakuneCore

open Proc

section Iterations

variable (sub : SubgraphRunner) (ctx : ExecutionContext) (node : WorkflowNode)
  (body : WorkflowSubgraph) (locals : StrMap Value)

/-- One iteration: the body with `$state` and `$iteration`, in the scope of the iteration. -/
def runIteration (iteration : Nat) (state : Value) : RunM (StrMap Value) :=
  sub { ctx with scope := iterationScope ctx.scope node.id iteration } body
    ((locals.insert "$state" state).insert "$iteration" (.number (.int iteration)))

/-- The outputs of the node: those of the last iteration, and three of its own over them. -/
def loopOutputs (iterations : Nat) (state : Value) (completed : Bool) (last : StrMap Value) :
    StrMap Value :=
  ((last.insert "iterations" (.number (.int iterations))).insert "state" state).insert
    "completed" (.bool completed)

/-- The iteration after `iterations` ones has asked to stop. -/
def stoppedLoop (iterations : Nat) (state : Value) (last : StrMap Value) : NodeResult :=
  { route := "success", outputs := loopOutputs iterations state true last }

/-- All iterations have been made and none has asked to stop. -/
def exhaustedLoop (iterations : Nat) (state : Value) (last : StrMap Value) : NodeResult :=
  { route := "maxIterations"
    outputs := loopOutputs iterations state false last
    message := some s!"stopped after {iterations} iterations" }

/-- The first `k` iterations, the state after them, and the outputs of the last one. -/
inductive Iterated (start : Value) : Nat → Value → StrMap Value → RunTrace → Prop
  | start : Iterated start 0 start [] []
  | next {k : Nat} {state state' : Value} {last outputs : StrMap Value} {t u : RunTrace} :
      Iterated start k state last t →
      Runs (runIteration sub ctx node body locals k state).run u (some (.ok outputs)) →
      outputs.get? "state" = some state' → outputs.get? "continue" = some (.bool true) →
      Iterated start (k + 1) state' outputs (t ++ u)

/-- How the node ends after `k` iterations that have left the state `state`. -/
inductive LoopEnd (maxIterations k : Nat) (state : Value) (last : StrMap Value) :
    RunTrace → Except RunError NodeResult → Prop
  | exhausted : k = maxIterations →
      LoopEnd maxIterations k state last [] (.ok (exhaustedLoop k state last))
  | stopped {outputs : StrMap Value} {state' : Value} {u : RunTrace} : k < maxIterations →
      Runs (runIteration sub ctx node body locals k state).run u (some (.ok outputs)) →
      outputs.get? "state" = some state' → outputs.get? "continue" = some (.bool false) →
      LoopEnd maxIterations k state last u (.ok (stoppedLoop (k + 1) state' outputs))
  | failed {e : RunError} {u : RunTrace} : k < maxIterations →
      Runs (runIteration sub ctx node body locals k state).run u (some (.error e)) →
      LoopEnd maxIterations k state last u (.error e)
  | stateless {outputs : StrMap Value} {u : RunTrace} : k < maxIterations →
      Runs (runIteration sub ctx node body locals k state).run u (some (.ok outputs)) →
      outputs.get? "state" = none →
      LoopEnd maxIterations k state last u
        (.error (.node s!"loop node {node.id} body did not produce state"))
  | undecided {outputs : StrMap Value} {state' : Value} {u : RunTrace} : k < maxIterations →
      Runs (runIteration sub ctx node body locals k state).run u (some (.ok outputs)) →
      outputs.get? "state" = some state' →
      (outputs.get? "continue").bind Value.asBool = none →
      LoopEnd maxIterations k state last u
        (.error (.node s!"loop node {node.id} body output continue must be a boolean"))

variable {sub ctx node body locals}

theorem asBool_eq_some {value : Option Value} {b : Bool} :
    value.bind Value.asBool = some b ↔ value = some (.bool b) := by
  constructor
  · intro h
    obtain ⟨value, rfl, hvalue⟩ := Option.bind_eq_some_iff.mp h
    cases value <;> simp_all [Value.asBool]
  · rintro rfl
    rfl

/-! ### The reserved outputs -/

/-- **The outputs of the node** lie over those of the body. -/
structure LoopOutputs (result : NodeResult) (iterations : Nat) (state : Value) (completed : Bool)
    (last : StrMap Value) : Prop where
  iterations : result.outputs.get? "iterations" = some (.number (.int iterations))
  state : result.outputs.get? "state" = some state
  completed : result.outputs.get? "completed" = some (.bool completed)
  others : ∀ name ∉ ["iterations", "state", "completed"],
    result.outputs.get? name = last.get? name

theorem loopOutputs_reserved {result : NodeResult} {iterations : Nat} {state : Value}
    {completed : Bool} {last : StrMap Value}
    (h : result.outputs = loopOutputs iterations state completed last) :
    LoopOutputs result iterations state completed last := by
  rw [loopOutputs] at h
  constructor
  · simp [h, StrMap.get?_insert]
  · simp [h, StrMap.get?_insert]
  · simp [h]
  · intro name hname
    simp only [List.mem_cons, List.not_mem_nil, or_false, not_or] at hname
    obtain ⟨hiterations, hstate, hcompleted⟩ := hname
    rw [h, StrMap.get?_insert_ne _ (Ne.symm hcompleted), StrMap.get?_insert_ne _ (Ne.symm hstate),
      StrMap.get?_insert_ne _ (Ne.symm hiterations)]

/-! ### One iteration -/

/-- **An iteration that is still allowed**: it fails, or its outputs end the node, or the loop goes
on with its state. -/
theorem runs_loopIterations_succ {remaining k : Nat} {state : Value} {last : StrMap Value}
    {t : RunTrace} {r : Except RunError NodeResult} {maxIterations : Nat} (hk : k < maxIterations)
    (h : Runs (loopIterations sub ctx node body locals (remaining + 1) k state last).run t
      (some r)) :
    LoopEnd sub ctx node body locals maxIterations k state last t r ∨
      ∃ outputs state' u v, t = u ++ v ∧
        Runs (runIteration sub ctx node body locals k state).run u (some (.ok outputs)) ∧
        outputs.get? "state" = some state' ∧ outputs.get? "continue" = some (.bool true) ∧
        Runs (loopIterations sub ctx node body locals remaining (k + 1) state' outputs).run v
          (some r) := by
  rw [loopIterations] at h
  obtain ⟨h, -⟩ | ⟨e, hr, hfail⟩ | ⟨outputs, u, v, rfl, hbody, hrest⟩ := runs_run_bind h
  · cases h
  · cases hr
    exact .inl (.failed hk hfail)
  · split at hrest
    · next hstate =>
      obtain ⟨rfl, hr | hr⟩ := runs_run_throw.mp hrest
      · cases hr
      · cases hr
        rw [List.append_nil]
        exact .inl (.stateless hk hbody hstate)
    · next hstate hcontinue =>
      obtain ⟨rfl, hr | hr⟩ := runs_run_throw.mp hrest
      · cases hr
      · cases hr
        rw [List.append_nil]
        exact .inl (.undecided hk hbody hstate hcontinue)
    · next state' hstate hcontinue =>
      obtain ⟨rfl, hr | hr⟩ := runs_run_pure.mp hrest
      · cases hr
      · cases hr
        rw [List.append_nil]
        exact .inl (.stopped hk hbody hstate (asBool_eq_some.mp hcontinue))
    · next state' hstate hcontinue =>
      exact .inr ⟨outputs, state', u, v, rfl, hbody, hstate, asBool_eq_some.mp hcontinue, hrest⟩

/-- An iteration that asks to go on is followed by the rest of the loop. -/
theorem Runs.loopIterations_next {remaining k : Nat} {state state' : Value}
    {last outputs : StrMap Value} {u v : RunTrace} {r : Except RunError NodeResult}
    (hbody : Runs (runIteration sub ctx node body locals k state).run u (some (.ok outputs)))
    (hstate : outputs.get? "state" = some state')
    (hcontinue : outputs.get? "continue" = some (.bool true))
    (hrest : Runs (loopIterations sub ctx node body locals remaining (k + 1) state' outputs).run v
      (some r)) :
    Runs (loopIterations sub ctx node body locals (remaining + 1) k state last).run (u ++ v)
      (some r) := by
  rw [loopIterations]
  refine Runs.bind_ok hbody ?_
  rw [hstate, hcontinue]
  exact hrest

/-- An end of the node is a run of what is left of the loop. -/
theorem LoopEnd.runs {maxIterations k : Nat} {state : Value} {last : StrMap Value}
    {t : RunTrace} {r : Except RunError NodeResult}
    (h : LoopEnd sub ctx node body locals maxIterations k state last t r) :
    Runs (loopIterations sub ctx node body locals (maxIterations - k) k state last).run t
      (some r) := by
  have hsucc : k < maxIterations → maxIterations - k = maxIterations - k - 1 + 1 := by omega
  cases h with
  | exhausted hk =>
    rw [hk, Nat.sub_self]
    exact .ret _
  | stopped hk hbody hstate hcontinue =>
    rw [hsucc hk, loopIterations]
    refine Runs.bind_last hbody ?_
    rw [hstate, hcontinue]
    exact .ret _
  | failed hk hbody =>
    rw [hsucc hk, loopIterations]
    exact Runs.bind_error hbody
  | stateless hk hbody hstate =>
    rw [hsucc hk, loopIterations]
    refine Runs.bind_last hbody ?_
    rw [hstate]
    exact .ret _
  | undecided hk hbody hstate hcontinue =>
    rw [hsucc hk, loopIterations]
    refine Runs.bind_last hbody ?_
    rw [hstate, hcontinue]
    exact .ret _

/-! ### All iterations -/

/-- The iterations made so far, followed by the rest of the loop, are the loop. -/
theorem Iterated.runs {maxIterations k : Nat} {start state : Value} {last : StrMap Value}
    {t u : RunTrace} {r : Except RunError NodeResult}
    (h : Iterated sub ctx node body locals start k state last t) (hk : k ≤ maxIterations)
    (hrest : Runs (loopIterations sub ctx node body locals (maxIterations - k) k state last).run u
      (some r)) :
    Runs (loopIterations sub ctx node body locals maxIterations 0 start []).run (t ++ u)
      (some r) := by
  induction h generalizing u with
  | start => exact hrest
  | @next k state state' last outputs t v _ hbody hstate hcontinue ih =>
    have hsucc : maxIterations - k = maxIterations - (k + 1) + 1 := by omega
    rw [List.append_assoc]
    refine ih (by omega) ?_
    rw [hsucc]
    exact Runs.loopIterations_next hbody hstate hcontinue hrest

/-- From the iterations made so far the loop comes to one of the ends. -/
theorem exists_loopEnd {remaining k : Nat} {start state : Value} {last : StrMap Value}
    {t u : RunTrace} {r : Except RunError NodeResult}
    (h : Iterated sub ctx node body locals start k state last t)
    (hrest : Runs (loopIterations sub ctx node body locals remaining k state last).run u
      (some r)) :
    ∃ k' state' last' v w, t ++ u = v ++ w ∧
      Iterated sub ctx node body locals start k' state' last' v ∧
        LoopEnd sub ctx node body locals (k + remaining) k' state' last' w r := by
  induction remaining generalizing k state last t u with
  | zero =>
    obtain ⟨rfl, hr | hr⟩ := runs_run_pure.mp hrest
    · cases hr
    · cases hr
      exact ⟨k, state, last, t, [], rfl, h, .exhausted rfl⟩
  | succ remaining ih =>
    have hk : k < k + (remaining + 1) := by omega
    obtain hend | ⟨outputs, state', v, w, rfl, hbody, hstate, hcontinue, hnext⟩ :=
      runs_loopIterations_succ hk hrest
    · exact ⟨k, state, last, t, u, rfl, h, hend⟩
    · obtain ⟨k', state'', last', v', w', heq, hiterated, hend⟩ :=
        ih (h.next hbody hstate hcontinue) hnext
      rw [List.append_assoc] at heq
      rw [Nat.add_right_comm, Nat.add_assoc] at hend
      exact ⟨k', state'', last', v', w', heq, hiterated, hend⟩

/-- No end comes after more iterations than are allowed. -/
theorem LoopEnd.le {maxIterations k : Nat} {state : Value} {last : StrMap Value}
    {t : RunTrace} {r : Except RunError NodeResult}
    (h : LoopEnd sub ctx node body locals maxIterations k state last t r) : k ≤ maxIterations := by
  cases h with
  | exhausted hk => exact hk.le
  | stopped hk => exact hk.le
  | failed hk => exact hk.le
  | stateless hk => exact hk.le
  | undecided hk => exact hk.le

/-! ### Accepted loops -/

variable {check : SubgraphCheck} {field : String} {lexical : List String}

/-- An accepted loop has a body and allows between one and ten thousand iterations. -/
theorem exists_loopConfig (hkind : node.kind = .loop)
    (haccepted : validateStructuredNode check node field lexical = .ok ()) :
    ∃ maxIterations body, 1 ≤ maxIterations ∧ maxIterations ≤ 10000 ∧
      (node.config.get? "maxIterations").bind Value.asU64 = some maxIterations ∧
      node.body = some body := by
  simp only [validateStructuredNode, hkind, validateLoop, check_bind_eq_ok, validateLoopConfig,
    ensure_eq_ok] at haccepted
  obtain ⟨-, -, -, hconfig, hbody⟩ := haccepted
  obtain ⟨maxIterations, hmax, hrange⟩ := (Option.any_eq_true _ _).mp hconfig
  rw [Bool.and_eq_true, decide_eq_true_eq, decide_eq_true_eq] at hrange
  cases hnode : node.body with
  | none =>
    rw [hnode] at hbody
    cases hbody
  | some body => exact ⟨maxIterations, body, hrange.1, hrange.2, hmax, rfl⟩

/-- **Bounded iteration**: an accepted loop node finishes a run exactly when the run is made of
`k ≤ maxIterations` iterations that hand on their state, followed by one of the ends: all
iterations are made, or iteration `k` asks to stop, or fails, or has unusable outputs. -/
theorem loop_is_bounded_iteration (hkind : node.kind = .loop)
    (haccepted : validateStructuredNode check node field lexical = .ok ())
    {inputs : StrMap Value} {start : Value} (hstart : inputs.get? "state" = some start) :
    ∃ maxIterations body, 1 ≤ maxIterations ∧ maxIterations ≤ 10000 ∧
      (node.config.get? "maxIterations").bind Value.asU64 = some maxIterations ∧
      node.body = some body ∧
      (∀ t r, Runs (executeLoop sub ctx node inputs locals).run t (some r) ↔
        ∃ k state last u v, k ≤ maxIterations ∧ t = u ++ v ∧
          Iterated sub ctx node body locals start k state last u ∧
          LoopEnd sub ctx node body locals maxIterations k state last v r) ∧
      ∀ k state last, LoopOutputs (stoppedLoop k state last) k state true last ∧
        LoopOutputs (exhaustedLoop k state last) k state false last := by
  obtain ⟨maxIterations, body, hleast, hmost, hmax, hbody⟩ := exists_loopConfig hkind haccepted
  have hloop : executeLoop sub ctx node inputs locals =
      loopIterations sub ctx node body locals maxIterations 0 start [] := by
    simp only [executeLoop, hmax, hbody, hstart]
  refine ⟨maxIterations, body, hleast, hmost, hmax, hbody, fun t r => ?_, fun k state last =>
    ⟨loopOutputs_reserved rfl, loopOutputs_reserved rfl⟩⟩
  rw [hloop]
  constructor
  · intro hrun
    obtain ⟨k, state, last, u, v, heq, hiterated, hend⟩ := exists_loopEnd .start hrun
    rw [Nat.zero_add] at hend
    exact ⟨k, state, last, u, v, hend.le, heq, hiterated, hend⟩
  · rintro ⟨k, state, last, u, v, hk, rfl, hiterated, hend⟩
    exact hiterated.runs hk hend.runs

end Iterations

/-! ### Concrete loops -/

/-- A loop of at most three iterations that hands its state on; `continue` is given. -/
def sampleLoop (continueOutput : Value) : WorkflowNode :=
  { id := "again", nodeType := "kakune.flow.loop@1", config := [("maxIterations", .number (.int 3))]
    inputs := [("state", .literal (.string "s"))]
    body := some
      { entry := "stop", nodes := [{ id := "stop", nodeType := "kakune.flow.end@1" }]
        outputs := [("continue", .literal continueOutput), ("state", .from "$state")] } }

theorem sampleLoop_is_bounded :
    validateStructuredNode (validateSubgraph 1) (sampleLoop (.bool true)) "node" [] = .ok () ∧
    ∀ t r, Runs (executeLoop (executeSubgraph (executeGraph 1)) { serde := emptySerde }
        (sampleLoop (.bool true)) [("state", .string "s")] []).run t (some r) →
      ∃ k ≤ 3, ∃ body state last u v, t = u ++ v ∧
        Iterated (executeSubgraph (executeGraph 1)) { serde := emptySerde }
          (sampleLoop (.bool true)) body [] (.string "s") k state last u ∧
        LoopEnd (executeSubgraph (executeGraph 1)) { serde := emptySerde }
          (sampleLoop (.bool true)) body [] 3 k state last v r := by
  have haccepted : validateStructuredNode (validateSubgraph 1) (sampleLoop (.bool true)) "node" [] =
      .ok () := by rfl
  have hstart : StrMap.get? [("state", Value.string "s")] "state" = some (.string "s") := by rfl
  obtain ⟨maxIterations, body, -, -, hmax, -, hruns, -⟩ :=
    @loop_is_bounded_iteration (executeSubgraph (executeGraph 1)) { serde := emptySerde }
      (sampleLoop (.bool true)) [] _ _ _ rfl haccepted _ _ hstart
  obtain rfl : maxIterations = 3 := (Option.some.inj hmax).symm
  refine ⟨haccepted, fun t r hrun => ?_⟩
  obtain ⟨k, state, last, u, v, hk, heq, hiterated, hend⟩ := (hruns t r).mp hrun
  exact ⟨k, hk, body, state, last, u, v, heq, hiterated, hend⟩

/-- An accepted loop whose first iteration answers neither to go on nor to stop: the node fails and
takes neither of its routes. -/
theorem undecided_loop_fails :
    validateStructuredNode (validateSubgraph 1) (sampleLoop (.string "yes")) "node" [] = .ok () ∧
      ∃ t, Runs (executeLoop (executeSubgraph (executeGraph 1)) { serde := emptySerde }
          (sampleLoop (.string "yes")) [("state", .string "s")] []).run t
        (some (.error (.node "loop node again body output continue must be a boolean"))) := by
  have hresult : ((executeLoop (executeSubgraph (executeGraph 1)) { serde := emptySerde }
      (sampleLoop (.string "yes")) [("state", .string "s")] []).run.simulate
        (undisturbed fun _ _ => .ok { route := "success" }) ()).2.1 =
      .error (.node "loop node again body output continue must be a boolean") := by
    decide +kernel
  have hrun := runs_simulate (undisturbed fun _ _ => .ok { route := "success" })
    (executeLoop (executeSubgraph (executeGraph 1)) { serde := emptySerde }
      (sampleLoop (.string "yes")) [("state", .string "s")] []).run ()
  rw [hresult] at hrun
  exact ⟨by rfl, _, hrun⟩

end KakuneCore
