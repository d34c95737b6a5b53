import KakuneCore.Recovery.History
import KakuneCore.Runtime.Progress
import KakuneCore.Store.StatusMachine

/-!
# Interrupted executions

Recovery ends a running execution as interrupted when a checkpoint row is still running or
unrecoverable. A row is running from its begin to its completion, and **a failure does not change
it**: an execution that has gone on after a failure is taken for one with an effect in progress.
-/

namespace KakuneCore

open Proc

/-- An activation has begun or was given its result, and has not reported. -/
def InProgress (t : RunTrace) (id : String) : Prop :=
  t.countP (fun e => succeeds id e || fails id e) < t.countP (begins id) + t.countP (restores id)

instance (t : RunTrace) (id : String) : Decidable (InProgress t id) :=
  inferInstanceAs (Decidable (_ < _))

/-- An activation was completed and its result withheld. -/
def Withheld (t : RunTrace) (id : String) : Prop :=
  (⟨.completeCheckpoint id none, .ok ()⟩ : RunEvent) ∈ t

/-- No activation with a running checkpoint reports a failure. -/
def NoFailedEffect (t : RunTrace) : Prop :=
  ∀ id, (∃ e ∈ t, e.1 = .beginCheckpoint id .running) → t.countP (fails id) = 0

theorem countP_or_le {α : Type} (p q : α → Bool) (xs : List α) :
    xs.countP (fun x => p x || q x) ≤ xs.countP p + xs.countP q := by
  induction xs with
  | nil => simp
  | cons x xs ih =>
    simp only [List.countP_cons]
    cases p x <;> cases q x <;> simp <;> omega

/-- A checkpoint is begun as unrecoverable. No kind of node does so. -/
def beginsUnrecoverable : RunEvent → Bool
  | ⟨.beginCheckpoint _ .unrecoverable, .ok ()⟩ => true
  | _ => false

theorem affordable_beginsUnrecoverable :
    Affordable fun e => -indicator beginsUnrecoverable e := by
  refine affordable_of_activation (fun e he => ?_) fun scope node => ?_
  · obtain ⟨o, x⟩ := e
    cases o <;> first | exact absurd trivial he | rfl
  · have hkind : ∀ x, beginsUnrecoverable
        ⟨.beginCheckpoint (scopedNodeId scope node.id) node.kind.checkpointStatus, x⟩ = false := by
      intro x
      cases node.kind <;> rfl
    refine ⟨0, 0, fun hbody hexecuting => ⟨fun _ => ?_, fun _ => ?_, fun _ => ?_, fun _ => ?_,
      ⟨hbody, hexecuting, ?_, fun _ => ?_, fun _ => ?_, fun _ _ => ?_⟩⟩, fun _ => ?_, fun _ => ?_⟩
    all_goals simp [indicator, hkind]
    all_goals simp [beginsUnrecoverable]

section Sessions

variable {plan : ExecutionPlan} {plugins : PluginRegistry} {limits : ExecutionLimits}
  {serde : SerdeJson}

theorem not_begins_unrecoverable {t : RunTrace} {r : Option (Except RunError ExecutionEnd)}
    (hrun : Runs (executePreparedWorkflow plan plugins limits serde).run t r) (id : String) :
    (⟨.beginCheckpoint id .unrecoverable, .ok ()⟩ : RunEvent) ∉ t := by
  intro hmem
  have hcredit := affordable_beginsUnrecoverable.executePreparedWorkflow plan plugins limits serde
  have hspent := hcredit.cut hrun refusing fun o => by
    have := indicator_nonneg beginsUnrecoverable ⟨o, refusing o⟩
    omega
  have hbalance : balance (fun e => -indicator beginsUnrecoverable e) t =
      -(t.countP beginsUnrecoverable : ℤ) := by
    rw [balance_neg, balance_indicator]
  have hcount : 0 < t.countP beginsUnrecoverable := List.countP_pos_iff.mpr ⟨_, hmem, rfl⟩
  rw [hbalance] at hspent
  omega

/-- A row that a session leaves running belongs to an activation that has begun and not completed
it. -/
theorem completes_lt_begins {start table : CheckpointTable} {t : RunTrace} {id : String}
    (hsession : Session plan plugins limits serde start t table)
    (hclear : start.isUncertain = false) (hrow : table.statusOf id = some .running) :
    t.countP (completes id) < t.countP (begins id) ∧
      (⟨.beginCheckpoint id .running, .ok ()⟩ : RunEvent) ∈ t := by
  obtain ⟨⟨r, hrun⟩, hjournal⟩ := hsession
  obtain ⟨hrunning, -⟩ | ⟨u, v, rfl, hcount⟩ := hjournal.running hrow
  · have := CheckpointTable.isUncertain_of_statusOf hrunning (.inl rfl)
    rw [hclear] at this
    cases this
  · -- up to that begin, nothing was completed more often than begun
    have hbefore := countP_completes_le_begins hrun.cutAt id
    have hbegins : begins id ⟨.beginCheckpoint id .running, .ok ()⟩ = true := decide_eq_true rfl
    have hnot : completes id ⟨.beginCheckpoint id .running, .ok ()⟩ = false := rfl
    refine ⟨?_, List.mem_append_right _ List.mem_cons_self⟩
    rw [List.countP_append, List.countP_append, List.countP_cons, List.countP_cons, hcount, hnot,
      hbegins]
    simp only [Bool.false_eq_true, if_false, if_true]
    omega

/-- A row that a session leaves unrecoverable belongs to an activation whose result was withheld. -/
theorem withheld_of_unrecoverable {start table : CheckpointTable} {t : RunTrace} {id : String}
    (hsession : Session plan plugins limits serde start t table)
    (hclear : start.isUncertain = false) (hrow : table.statusOf id = some .unrecoverable) :
    Withheld t id := by
  obtain ⟨⟨r, hrun⟩, hjournal⟩ := hsession
  obtain hstart | hcomplete | hbegin := hjournal.unrecoverable hrow
  · have := CheckpointTable.isUncertain_of_statusOf hstart (.inr rfl)
    rw [hclear] at this
    cases this
  · exact hcomplete
  · exact absurd hbegin (not_begins_unrecoverable hrun id)

/-- An uncertain table is left by an activation in progress or a withheld result. -/
theorem unknown_of_isUncertain {table : CheckpointTable} {t : RunTrace}
    (hstopped : Stopped plan plugins limits serde table t) (hfailed : NoFailedEffect t)
    (huncertain : table.isUncertain = true) :
    (∃ id, InProgress t id) ∨ ∃ id, Withheld t id := by
  obtain ⟨start, hordered, hclear, hsession⟩ := hstopped.lastSession
  obtain ⟨id, hrow | hrow⟩ :=
    CheckpointTable.exists_of_isUncertain (hsession.2.ordered hordered) huncertain
  · obtain ⟨hlt, hbegin⟩ := completes_lt_begins hsession hclear hrow
    obtain ⟨r, hrun⟩ := hsession.1
    have hsucceeds := countP_succeeds_le_completes hrun id
    have hfails : t.countP (fails id) = 0 := hfailed id ⟨_, hbegin, rfl⟩
    have hreports : t.countP (fun e => succeeds id e || fails id e) ≤
        t.countP (succeeds id) + t.countP (fails id) := countP_or_le _ _ t
    refine .inl ⟨id, ?_⟩
    unfold InProgress
    omega
  · exact .inr ⟨id, withheld_of_unrecoverable hsession hclear hrow⟩

/-- **Recovery stops only for unknown outcomes**, as long as no activation with a running checkpoint
has reported a failure since the last recovery: a running execution with a plan is interrupted only
if an activation was in progress or a result was withheld, and goes back into the queue
otherwise. -/
theorem recovery_stops_only_for_unknown_outcomes {tables : Tables} (hids : tables.UniqueIds)
    {row : ExecutionRow} (hrow : row ∈ tables.executions) (hrunning : row.status = .running)
    (hplan : tables.plans.any (fun plan => plan.executionId = row.id) = true) {t : RunTrace}
    (hstopped : Stopped plan plugins limits serde (tables.checkpointsOf row.id) t)
    (hfailed : NoFailedEffect t) (now : String) :
    ∃ row', (tables.recoverIncompleteExecutions now).2.execution row.id = some row' ∧
      (row'.status = .interrupted → (∃ id, InProgress t id) ∨ ∃ id, Withheld t id) ∧
      ((∀ id, ¬ InProgress t id) → (∀ id, ¬ Withheld t id) → row'.status = .queued) := by
  have hrecovery : tables.recoveryOf row =
      Tables.recoveredStatus .running true (tables.checkpointsOf row.id).isUncertain := by
    rw [Tables.recoveryOf, hrunning, hplan]
  refine ⟨recoveredRow now tables row, execution_recover hids hrow (by rw [hrunning]; rfl) now,
    fun hinterrupted => ?_, fun hprogress hwithheld => ?_⟩
  · have hstatus : (tables.recoveryOf row).1 = .interrupted := hinterrupted
    refine unknown_of_isUncertain hstopped hfailed ?_
    by_contra hclear
    rw [Bool.not_eq_true] at hclear
    rw [hrecovery, hclear] at hstatus
    cases hstatus
  · have hclear : (tables.checkpointsOf row.id).isUncertain = false := by
      by_contra huncertain
      rw [Bool.not_eq_false] at huncertain
      obtain ⟨id, hid⟩ | ⟨id, hid⟩ := unknown_of_isUncertain hstopped hfailed huncertain
      · exact hprogress id hid
      · exact hwithheld id hid
    change (tables.recoveryOf row).1 = .queued
    rw [hrecovery, hclear]
    rfl

end Sessions

/-! ### Stopped runs -/

/-- The undisturbed first run of a plan, stopped before an event. -/
def runUntil (plan : ExecutionPlan) (stop : RunEvent → Bool) : RunTrace :=
  ((executePreparedWorkflow plan [] {} emptySerde).run.simulate
    (undisturbed fun _ _ => .ok { route := "success" }) ()).1.takeWhile fun e => !stop e

/-- The row of the execution that was stopped. -/
def leftRow : ExecutionRow :=
    { id := "e", workflowName := "w", status := .running, createdAt := "" }

/-- The store that a stopped first run leaves behind. -/
def leftTables (plan : ExecutionPlan) (t : RunTrace) : Tables where
  executions := [leftRow]
  plans := [⟨"e", "r", plan⟩]
  checkpoints := [("e", (CheckpointTable.takeAll 0 [] t).getD [])]

theorem stopped_runUntil (plan : ExecutionPlan) (stop : RunEvent → Bool)
    (h : (CheckpointTable.takeAll 0 [] (runUntil plan stop)).isSome = true) :
    Stopped plan [] {} emptySerde ((leftTables plan (runUntil plan stop)).checkpointsOf "e")
      (runUntil plan stop) := by
  obtain ⟨table, htable⟩ := Option.isSome_iff_exists.mp h
  have hleft : (leftTables plan (runUntil plan stop)).checkpointsOf "e" = table := by
    simp [leftTables, Tables.checkpointsOf, htable]
  rw [hleft]
  refine .first ⟨⟨none, ?_⟩, journal_of_takeAll htable⟩
  have hrun := runs_simulate (undisturbed fun _ _ => .ok { route := "success" })
    (executePreparedWorkflow plan [] {} emptySerde).run ()
  rw [← List.takeWhile_append_dropWhile (p := fun e => !stop e) (l := Prod.fst _)] at hrun
  exact hrun.cutAt

/-- The activation that an event begins or restores. -/
def begunBy : RunEvent → Option String
  | ⟨.beginCheckpoint id _, _⟩ | ⟨.checkpointResult id, _⟩ => some id
  | _ => none

/-- It is enough to look at the activations that occur. -/
theorem not_inProgress_of_all {t : RunTrace}
    (h : ∀ id ∈ t.filterMap begunBy, ¬ InProgress t id) (id : String) : ¬ InProgress t id := by
  intro hprogress
  have hpos : 0 < t.countP (begins id) + t.countP (restores id) := Nat.zero_lt_of_lt hprogress
  refine h id ?_ hprogress
  by_cases hbegins : 0 < t.countP (begins id)
  · obtain ⟨e, he, hid⟩ := List.countP_pos_iff.mp hbegins
    refine List.mem_filterMap.mpr ⟨e, he, ?_⟩
    unfold begins at hid
    split at hid
    · rw [begunBy, of_decide_eq_true hid]
    · cases hid
  · obtain ⟨e, he, hid⟩ := List.countP_pos_iff.mp (by omega : 0 < t.countP (restores id))
    refine List.mem_filterMap.mpr ⟨e, he, ?_⟩
    unfold restores at hid
    split at hid
    · rw [begunBy, of_decide_eq_true hid]
    · cases hid

/-- A worker has started. -/
def isStart : RunEvent → Bool
  | ⟨.observe (.starting _ _ _ _ _), _⟩ => true
  | _ => false

/-- A worker has reported. -/
def isReport : RunEvent → Bool
  | ⟨.observe (.finished _ _ _), _⟩ => true
  | _ => false

def isFailure : RunEvent → Bool
  | ⟨.observe (.finished _ _ (.error _)), _⟩ => true
  | _ => false

def isCompletion : RunEvent → Bool
  | ⟨.completeCheckpoint _ _, _⟩ => true
  | _ => false

def isWithheld : RunEvent → Bool
  | ⟨.completeCheckpoint _ none, _⟩ => true
  | _ => false

theorem noFailedEffect_of_all {t : RunTrace} (h : t.any isFailure = false) : NoFailedEffect t := by
  intro id _
  refine List.countP_eq_zero.mpr fun e he hfails => ?_
  have hnot := List.any_eq_false.mp h e he
  unfold fails at hfails
  split at hfails
  · exact hnot rfl
  · cases hfails

/-- The first node of `chainDocument` is at work when the process stops. -/
theorem chainDocument_stopped_in_progress :
    let t := runUntil (planOf chainDocument) isCompletion
    ∃ row', ((leftTables (planOf chainDocument) t).recoverIncompleteExecutions "").2.execution "e" =
      some row' ∧ (row'.status = .interrupted → (∃ id, InProgress t id) ∨ ∃ id, Withheld t id) ∧
      ((∀ id, ¬ InProgress t id) → (∀ id, ¬ Withheld t id) → row'.status = .queued) := by
  intro t
  have hids : (leftTables (planOf chainDocument) t).UniqueIds := List.nodup_singleton _
  have hrow : leftRow ∈ (leftTables (planOf chainDocument) t).executions :=
    List.mem_singleton.mpr rfl
  have hstopped := stopped_runUntil (planOf chainDocument) isCompletion (by decide +kernel)
  have hfailed : NoFailedEffect t := noFailedEffect_of_all (by decide +kernel)
  exact recovery_stops_only_for_unknown_outcomes hids hrow rfl rfl hstopped hfailed ""

/-- The body of a foreach node fails, its `onError` lets the execution go on. -/
def skippedFailureDocument : WorkflowDocument :=
  sampleDocument "a"
    [{ id := "a", nodeType := "kakune.flow.foreach@1",
       config := [("maxConcurrency", .number (.int 1)), ("onError", .string "continue")],
       inputs := [("items", .literal (.array [.number (.int 1)]))], on := [("success", .one "b")],
       body := some
        { entry := "c"
          nodes := [{ id := "c", nodeType := "kakune.flow.if@1",
                      inputs := [("condition", .from "$item")] }] } },
     { id := "b", nodeType := "kakune.flow.pass@1", inputs := [("v", .literal (.bool true))] }]

/-- The worker of the node `b` starts. -/
def startsB : RunEvent → Bool
  | ⟨.observe (.starting _ "b" _ _ _), _⟩ => true
  | _ => false

/-- The process stops between `a` and `b`: every worker that has started has reported and no result
was withheld, and recovery interrupts the execution. -/
theorem skipped_failure_interrupts_execution :
    let t := runUntil (planOf skippedFailureDocument) startsB
    let tables := leftTables (planOf skippedFailureDocument) t
    compile skippedFailureDocument [] =
      .ok ⟨skippedFailureDocument, planOf skippedFailureDocument⟩ ∧
    Stopped (planOf skippedFailureDocument) [] {} emptySerde (tables.checkpointsOf "e") t ∧
    t.countP isStart = t.countP isReport ∧ (∀ id, ¬ InProgress t id) ∧ (∀ id, ¬ Withheld t id) ∧
    ((tables.recoverIncompleteExecutions "").2.execution "e").map (fun row => row.status) =
      some .interrupted := by
  intro t tables
  have hwithheld : t.any isWithheld = false := by decide +kernel
  refine ⟨by rfl, stopped_runUntil _ _ (by decide +kernel), by decide +kernel,
    not_inProgress_of_all (by decide +kernel), fun id hid => ?_, by decide +kernel⟩
  exact List.any_eq_false.mp hwithheld _ hid rfl

end KakuneCore
