import KakuneCore.Process.Logic
import KakuneCore.Runtime.Execution

/-!
# Environments

`undisturbed respond` answers the operations of a fresh run in which nothing goes wrong outside of
the nodes: no signal is raised, every store call succeeds, no checkpoint is there, and the external
nodes are answered by `respond`. Together with `Proc.simulate` it computes concrete runs.
-/

namespace KakuneCore

/-- The environment of a fresh run without outside failures. -/
def undisturbed (respond : String → StrMap Value → Except String NodeResult) :
    Unit → (o : Op) → Resp o × Unit
  | _, .shutdownRequested | _, .loadAbort _ | _, .deadlineReached => (false, ())
  | _, .storeAbort _ | _, .observe _ => ((), ())
  | _, .cancelRequested => (.ok false, ())
  | _, .checkpointResult _ => (.ok none, ())
  | _, .durableDelayRemaining _ milliseconds => (.ok milliseconds, ())
  | _, .waitSlices _ => (0, ())
  | _, .resolveSecret _ => (.ok "", ())
  | _, .invoke id _ _ inputs => ((0, respond id inputs), ())
  | _, .beginCheckpoint _ _ | _, .completeCheckpoint _ _ | _, .startTraceSpan _ _
  | _, .finishTraceSpan _ _ _ | _, .recordNodeOutcome _ _ | _, .setExecutionResult _
  | _, .finishExecution _ _ => (.ok (), ())

/-- A text codec for concrete runs: texts have length zero. -/
def emptySerde : SerdeJson := ⟨fun _ => 0, fun _ => ""⟩

/-- The simulated run of a plan. -/
def simulatePlan (plan : ExecutionPlan)
    (respond : String → StrMap Value → Except String NodeResult) :
    RunTrace × Except RunError Unit × Unit :=
  (executeNodes plan [] {} emptySerde).run.simulate (undisturbed respond) ()

theorem runs_simulatePlan (plan : ExecutionPlan)
    (respond : String → StrMap Value → Except String NodeResult) :
    Proc.Runs (executeNodes plan [] {} emptySerde).run (simulatePlan plan respond).1
      (some (simulatePlan plan respond).2.1) :=
  Proc.runs_simulate _ _ _

end KakuneCore
