import KakuneCore.Runtime.Checkpointing
import KakuneCore.Store.Executions

/-!
# Histories of one execution

An execution is run by a process that may stop between any two calls. The checkpoint table survives;
recovery reads it and either puts the execution back into the queue, where another process resumes
it, or ends it. `Journal` ties the calls of a run to the table, and `Stopped` lists the tables and
last runs that a sequence of stops, recoveries and resumed runs can leave behind.
-/

namespace KakuneCore

open Proc

/-! ### The table behind a run -/

namespace CheckpointTable

/-- How the table takes an event at a time: `none` if it cannot have answered so. Calls that fail
and operations on other things leave it alone. -/
def take (table : CheckpointTable) (now : Int) : RunEvent → Option CheckpointTable
  | ⟨.checkpointResult id, .ok saved⟩ =>
    if saved = table.checkpointResult id then some table else none
  | ⟨.beginCheckpoint id status, .ok ()⟩ => some (table.beginCheckpoint id status)
  | ⟨.completeCheckpoint id result, .ok ()⟩ => some (table.completeCheckpoint id result)
  | ⟨.durableDelayRemaining id milliseconds, .ok remaining⟩ =>
    match table.durableDelayRemaining id milliseconds now with
    | .ok (left, table) => if left = remaining then some table else none
    | .error _ => none
  | _ => some table

/-- The status of a row. -/
def statusOf (table : CheckpointTable) (id : String) : Option CheckpointStatus :=
  (StrMap.get? table id).map CheckpointRow.status

theorem statusOf_insert (table : CheckpointTable) (id id' : String) (row : CheckpointRow) :
    statusOf (StrMap.insert table id row) id' =
      if id = id' then some row.status else statusOf table id' := by
  rw [statusOf, StrMap.get?_insert]
  split <;> rfl

theorem statusOf_beginCheckpoint (table : CheckpointTable) (id id' : String)
    (status : CheckpointStatus) :
    (table.beginCheckpoint id status).statusOf id' =
      if id = id' then some status else table.statusOf id' := by
  unfold beginCheckpoint
  split <;> rw [statusOf_insert]

theorem statusOf_completeCheckpoint (table : CheckpointTable) (id id' : String)
    (result : Option Value) :
    (table.completeCheckpoint id result).statusOf id' =
      if id = id' then (table.statusOf id).map
        fun _ => if result.isSome then .completed else .unrecoverable
      else table.statusOf id' := by
  unfold completeCheckpoint
  split
  · next row hrow =>
    rw [statusOf_insert]
    split
    · simp [statusOf, hrow]
    · rfl
  · next hrow =>
    split
    · next hid =>
      subst hid
      simp [statusOf, hrow]
    · rfl

/-- A delay leaves its own row waiting and the others alone. -/
theorem statusOf_durableDelayRemaining {table table' : CheckpointTable} {id : String}
    {duration left : Nat} {now : Int}
    (h : table.durableDelayRemaining id duration now = .ok (left, table')) (id' : String) :
    table'.statusOf id' = if id = id' then some .waiting else table.statusOf id' := by
  unfold durableDelayRemaining at h
  split at h
  · cases h
  · split at h
    · cases h
      rw [statusOf_insert]
    · cases h

end CheckpointTable

/-- `Journal table t table'`: the table answers the calls of `t`, and becomes `table'`. -/
inductive Journal : CheckpointTable → RunTrace → CheckpointTable → Prop
  | nil (table : CheckpointTable) : Journal table [] table
  | cons {table table' table'' : CheckpointTable} {e : RunEvent} {t : RunTrace} (now : Int) :
      table.take now e = some table' → Journal table' t table'' → Journal table (e :: t) table''

/-- The table after some events, all at one time. -/
def CheckpointTable.takeAll (now : Int) : CheckpointTable → RunTrace → Option CheckpointTable
  | table, [] => some table
  | table, e :: t => (table.take now e).bind fun table => takeAll now table t

theorem journal_of_takeAll {now : Int} {table table' : CheckpointTable} {t : RunTrace}
    (h : table.takeAll now t = some table') : Journal table t table' := by
  induction t generalizing table with
  | nil =>
    obtain rfl : table = table' := by simpa [CheckpointTable.takeAll] using h
    exact .nil table
  | cons e t ih =>
    obtain ⟨next, hnext, hrest⟩ := Option.bind_eq_some_iff.mp h
    exact .cons now hnext (ih hrest)

/-! ### Sessions -/

section Sessions

variable (plan : ExecutionPlan) (plugins : PluginRegistry) (limits : ExecutionLimits)
  (serde : SerdeJson)

/-- `Session table t table'`: a process runs the execution from one table to another; it may stop at
any point. -/
def Session (table : CheckpointTable) (t : RunTrace) (table' : CheckpointTable) : Prop :=
  (∃ r, Runs (executePreparedWorkflow plan plugins limits serde).run t r) ∧ Journal table t table'

/-- `Stopped table t`: the process has stopped with this table after the run `t`; the execution may
have been stopped, recovered and resumed before. -/
inductive Stopped : CheckpointTable → RunTrace → Prop
  | first {table : CheckpointTable} {t : RunTrace} :
      Session plan plugins limits serde [] t table → Stopped table t
  | resumed {table table' : CheckpointTable} {t t' : RunTrace} : Stopped table t →
      (Tables.recoveredStatus .running true table.isUncertain).1 = .queued →
      Session plan plugins limits serde table t' table' → Stopped table' t'

end Sessions

/-! ### Rows and calls -/

/-- A call leaves a row running only if it begins it, or found it running and did not complete
it. -/
theorem running_of_take {table table' : CheckpointTable} {now : Int} {e : RunEvent} {id : String}
    (h : table.take now e = some table') (hrow : table'.statusOf id = some .running) :
    e = ⟨.beginCheckpoint id .running, .ok ()⟩ ∨
      table.statusOf id = some .running ∧ completes id e = false := by
  unfold CheckpointTable.take at h
  split at h
  · split at h
    · cases h
      exact .inr ⟨hrow, rfl⟩
    · cases h
  · cases h
    rw [CheckpointTable.statusOf_beginCheckpoint] at hrow
    split at hrow
    · next hid =>
      cases hrow
      exact .inl (by rw [hid])
    · exact .inr ⟨hrow, rfl⟩
  · next result =>
    cases h
    rw [CheckpointTable.statusOf_completeCheckpoint] at hrow
    split at hrow
    · obtain ⟨status, -, hstatus⟩ := Option.map_eq_some_iff.mp hrow
      split at hstatus <;> cases hstatus
    · next hid => exact .inr ⟨hrow, decide_eq_false hid⟩
  · split at h
    · next hdelay =>
      split at h
      · cases h
        rw [CheckpointTable.statusOf_durableDelayRemaining hdelay] at hrow
        split at hrow
        · cases hrow
        · exact .inr ⟨hrow, rfl⟩
      · cases h
    · cases h
  · next hcomplete _ =>
    cases h
    refine .inr ⟨hrow, ?_⟩
    unfold completes
    split
    · exact absurd rfl (hcomplete _ _)
    · rfl

/-- A call leaves a row unrecoverable only if it says so, or found it so. -/
theorem unrecoverable_of_take {table table' : CheckpointTable} {now : Int} {e : RunEvent}
    {id : String} (h : table.take now e = some table')
    (hrow : table'.statusOf id = some .unrecoverable) :
    e = ⟨.completeCheckpoint id none, .ok ()⟩ ∨ e = ⟨.beginCheckpoint id .unrecoverable, .ok ()⟩ ∨
      table.statusOf id = some .unrecoverable := by
  unfold CheckpointTable.take at h
  split at h
  · split at h
    · cases h
      exact .inr (.inr hrow)
    · cases h
  · cases h
    rw [CheckpointTable.statusOf_beginCheckpoint] at hrow
    split at hrow
    · next hid =>
      cases hrow
      exact .inr (.inl (by rw [hid]))
    · exact .inr (.inr hrow)
  · next result =>
    cases h
    rw [CheckpointTable.statusOf_completeCheckpoint] at hrow
    split at hrow
    · next hid =>
      obtain ⟨status, -, hstatus⟩ := Option.map_eq_some_iff.mp hrow
      cases result with
      | some result => cases hstatus
      | none => exact .inl (by rw [hid])
    · exact .inr (.inr hrow)
  · split at h
    · next hdelay =>
      split at h
      · cases h
        rw [CheckpointTable.statusOf_durableDelayRemaining hdelay] at hrow
        split at hrow
        · cases hrow
        · exact .inr (.inr hrow)
      · cases h
    · cases h
  · cases h
    exact .inr (.inr hrow)

/-- **A row that is running** was so from the start and never completed, or was begun and not
completed since. -/
theorem Journal.running {table table' : CheckpointTable} {t : RunTrace} {id : String}
    (h : Journal table t table') (hrow : table'.statusOf id = some .running) :
    (table.statusOf id = some .running ∧ t.countP (completes id) = 0) ∨
      ∃ u v, t = u ++ ⟨.beginCheckpoint id .running, .ok ()⟩ :: v ∧
        v.countP (completes id) = 0 := by
  induction h with
  | nil table => exact .inl ⟨hrow, rfl⟩
  | @cons table _ _ e t now htake _ ih =>
    obtain ⟨hnext, hcount⟩ | ⟨u, v, rfl, hcount⟩ := ih hrow
    · obtain rfl | ⟨hrunning, hcompletes⟩ := running_of_take htake hnext
      · exact .inr ⟨[], t, rfl, hcount⟩
      · refine .inl ⟨hrunning, ?_⟩
        rw [List.countP_cons, hcount, hcompletes]
        rfl
    · exact .inr ⟨e :: u, v, rfl, hcount⟩

/-- **A row that is unrecoverable** was so from the start, or a call has said so. -/
theorem Journal.unrecoverable {table table' : CheckpointTable} {t : RunTrace} {id : String}
    (h : Journal table t table') (hrow : table'.statusOf id = some .unrecoverable) :
    table.statusOf id = some .unrecoverable ∨
      (⟨.completeCheckpoint id none, .ok ()⟩ : RunEvent) ∈ t ∨
        (⟨.beginCheckpoint id .unrecoverable, .ok ()⟩ : RunEvent) ∈ t := by
  induction h with
  | nil table => exact .inl hrow
  | cons now htake _ ih =>
    obtain hnext | hcomplete | hbegin := ih hrow
    · obtain rfl | rfl | hrow := unrecoverable_of_take htake hnext
      · exact .inr (.inl List.mem_cons_self)
      · exact .inr (.inr List.mem_cons_self)
      · exact .inl hrow
    · exact .inr (.inl (List.mem_cons_of_mem _ hcomplete))
    · exact .inr (.inr (List.mem_cons_of_mem _ hbegin))

/-! ### Tables that can be reached -/

namespace CheckpointTable

theorem isUncertain_of_statusOf {table : CheckpointTable} {id : String} {status : CheckpointStatus}
    (h : table.statusOf id = some status) (hstatus : status = .running ∨ status = .unrecoverable) :
    table.isUncertain = true := by
  obtain ⟨row, hrow, rfl⟩ := Option.map_eq_some_iff.mp h
  refine List.any_eq_true.mpr ⟨row, StrMap.mem_values_of_get? hrow, ?_⟩
  simpa using hstatus

theorem exists_of_isUncertain {table : CheckpointTable} (hordered : StrMap.Ordered table)
    (h : table.isUncertain = true) :
    ∃ id, table.statusOf id = some .running ∨ table.statusOf id = some .unrecoverable := by
  obtain ⟨row, hrow, hstatus⟩ := List.any_eq_true.mp h
  obtain ⟨⟨id, row'⟩, hmem, rfl⟩ := List.mem_map.mp hrow
  have hget : StrMap.get? table id = some row' := hordered.get?_of_mem hmem
  refine ⟨id, ?_⟩
  simp only [Bool.or_eq_true, decide_eq_true_eq] at hstatus
  simpa [statusOf, hget] using hstatus

theorem ordered_take {table table' : CheckpointTable} {now : Int} {e : RunEvent}
    (hordered : StrMap.Ordered table) (h : table.take now e = some table') :
    StrMap.Ordered table' := by
  unfold take at h
  split at h
  · split at h
    · cases h
      exact hordered
    · cases h
  · cases h
    unfold beginCheckpoint
    split <;> exact hordered.insert _ _
  · cases h
    unfold completeCheckpoint
    split
    · exact hordered.insert _ _
    · exact hordered
  · split at h
    · next hdelay =>
      split at h
      · cases h
        unfold durableDelayRemaining at hdelay
        split at hdelay
        · cases hdelay
        · split at hdelay
          · cases hdelay
            exact hordered.insert _ _
          · cases hdelay
      · cases h
    · cases h
  · cases h
    exact hordered

end CheckpointTable

theorem Journal.ordered {table table' : CheckpointTable} {t : RunTrace}
    (h : Journal table t table') (hordered : StrMap.Ordered table) : StrMap.Ordered table' := by
  induction h with
  | nil _ => exact hordered
  | cons _ htake _ ih => exact ih (CheckpointTable.ordered_take hordered htake)

theorem recoveredStatus_running_eq_queued {uncertain : Bool} :
    (Tables.recoveredStatus .running true uncertain).1 = .queued ↔ uncertain = false := by
  cases uncertain <;> simp [Tables.recoveredStatus]

/-- **The last session** of a stopped execution started from a table without uncertain rows. -/
theorem Stopped.lastSession {plan : ExecutionPlan} {plugins : PluginRegistry}
    {limits : ExecutionLimits} {serde : SerdeJson} {table : CheckpointTable} {t : RunTrace}
    (h : Stopped plan plugins limits serde table t) :
    ∃ start : CheckpointTable, StrMap.Ordered start ∧ start.isUncertain = false ∧
      Session plan plugins limits serde start t table := by
  induction h with
  | first hsession => exact ⟨[], List.Pairwise.nil, rfl, hsession⟩
  | @resumed table _ _ _ _ hqueued hsession ih =>
    obtain ⟨start, hordered, -, hlast⟩ := ih
    exact ⟨table, hlast.2.ordered hordered, recoveredStatus_running_eq_queued.mp hqueued, hsession⟩

end KakuneCore
