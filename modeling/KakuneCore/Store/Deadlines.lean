import KakuneCore.Store.Plugins
import KakuneCore.Store.StatusMachine

/-!
# Durable deadlines

An execution has its deadline in `execution_deadlines`, written with `INSERT OR IGNORE`, and a delay
has its own in the checkpoint of its node, written with `COALESCE`. Asking for the time that
remains fixes the deadline the first time and reads it ever after.

`deadline?_step` says once what a call of the store does to a deadline. From it,
`deadlines_only_shrink`: in every run, as long as the execution is stored, the first call that
succeeds fixes the deadline, and later calls answer what is left of it, whatever duration they pass,
**unless that duration leaves the range** of the column.

Durations are in milliseconds, times in milliseconds since the epoch.
-/

namespace KakuneCore

/-- The tables with the rows of `execution_deadlines`. -/
structure DeadlineTables extends Tables where
  deadlines : StrMap Int := []

/-- What has a deadline: an execution, or a delay node of one in its scope. -/
inductive DeadlineSubject
  | execution (id : String)
  | delay (id node : String)
  deriving DecidableEq

/-- The execution that a deadline belongs to. -/
def DeadlineSubject.owner : DeadlineSubject → String
  | execution id | delay id _ => id

/-- A call that asks for the time that remains. -/
structure DeadlineAsk where
  subject : DeadlineSubject
  duration : Nat
  now : Int
  deriving DecidableEq

/-- The deadline of a call that comes first. -/
def DeadlineAsk.deadline (ask : DeadlineAsk) : Int := ask.now + ask.duration

/-- A call of the store, with the one on `execution_deadlines`. -/
inductive DeadlineCall
  | store (call : StoreCall)
  | executionTimeRemaining (id : String) (duration : Nat) (now : Int)

/-- The time that a call asks for. -/
def DeadlineCall.ask : DeadlineCall → Option DeadlineAsk
  | executionTimeRemaining id duration now => some ⟨.execution id, duration, now⟩
  | store (.checkpoint id (.delay node duration now)) => some ⟨.delay id node, duration, now⟩
  | store _ => none

namespace DeadlineTables

def hasExecution (tables : DeadlineTables) (id : String) : Prop :=
  (tables.execution id).isSome = true

instance (tables : DeadlineTables) (id : String) : Decidable (tables.hasExecution id) :=
  inferInstanceAs (Decidable (_ = _))

/-- `execution_time_remaining`. -/
def executionTimeRemaining (tables : DeadlineTables) (id : String) (duration : Nat) (now : Int) :
    Except String (Nat × DeadlineTables) :=
  if CheckpointTable.maxI64 < now + duration then .error "execution deadline overflow"
  else
    match StrMap.get? tables.deadlines id with
    | some deadline => .ok ((deadline - now).toNat, tables)
    | none =>
      if (tables.execution id).isSome then
        .ok ((now + duration - now).toNat,
          { tables with deadlines := StrMap.insert tables.deadlines id (now + duration) })
      else .error "FOREIGN KEY constraint failed"

/-- What a call that asks is answered. -/
def answer (tables : DeadlineTables) (ask : DeadlineAsk) : Except String Nat :=
  match ask.subject with
  | .execution id => (tables.executionTimeRemaining id ask.duration ask.now).map Prod.fst
  | .delay id node =>
    if (tables.execution id).isSome then
      ((tables.checkpointsOf id).durableDelayRemaining node ask.duration ask.now).map Prod.fst
    else .error "Query returned no rows"

/-- The tables after a call. The deadline of an execution goes with its row. -/
def step (tables : DeadlineTables) : DeadlineCall → DeadlineTables
  | .executionTimeRemaining id duration now =>
    Runs.settle tables (tables.executionTimeRemaining id duration now)
  | .store call =>
    let deadlines := match call with
      | .applyRetention executionBefore _ => tables.deadlines.filter fun entry =>
        !tables.executions.any fun row => row.id = entry.1 && Tables.isExpired executionBefore row
      | _ => tables.deadlines
    { toTables := call.apply tables.toTables, deadlines }

/-- The absolute deadline that is stored. -/
def deadline? (tables : DeadlineTables) : DeadlineSubject → Option Int
  | .execution id => StrMap.get? tables.deadlines id
  | .delay id node =>
    (StrMap.get? (tables.checkpointsOf id) node).bind CheckpointRow.deadlineMs

/-- The deadline that a call would fix for a subject. -/
def sets (tables : DeadlineTables) (call : DeadlineCall) (subject : DeadlineSubject) :
    Option Int :=
  (call.ask.filter fun ask => ask.subject = subject && (tables.answer ask).isOk).map
    DeadlineAsk.deadline

/-! ### Checkpoints under the calls of the store -/

section Checkpoints

variable {tables : Tables} {id : String}

theorem checkpoints_recover (tables : Tables) (now : String) :
    (tables.recoverIncompleteExecutions now).2.checkpoints = tables.checkpoints := by
  have hfold : ∀ (rows : List ExecutionRow) (tables : Tables),
      (rows.foldl (Tables.recoverExecution now) tables).checkpoints = tables.checkpoints := by
    intro rows
    induction rows with
    | nil => exact fun _ => rfl
    | cons row rows ih =>
      intro tables
      rw [List.foldl_cons, ih]
      rfl
  exact hfold _ tables

/-- Retention and the calls on checkpoints apart, the checkpoints stay. -/
theorem checkpoints_apply (tables : Tables) (call : StoreCall)
    (hcheckpoint : ∀ id write, call ≠ .checkpoint id write)
    (hretention : ∀ before events, call ≠ .applyRetention before events) :
    (call.apply tables).checkpoints = tables.checkpoints := by
  cases call with
  | create admission =>
    obtain heq | ⟨record, tables', hadmit, -, heq⟩ := Tables.createExecution_cases tables admission
    · rw [heq]
    · rw [heq]
      obtain ⟨_, _, _, _, _, _, _, _, _, _, hcheckpoints, _⟩ := Tables.admitExecution_eq_ok hadmit
      exact hcheckpoints
  | claim id maxRuns now =>
    rw [StoreCall.apply, Tables.claimExecutionSlot]
    split
    · rfl
    · split
      · rfl
      · split
        · rfl
        · rfl
  | requestCancel id => rfl
  | requestCancelOutcome id now =>
    rw [StoreCall.apply, Tables.requestExecutionCancelOutcome]
    split
    · rfl
    · split
      · rfl
      · rfl
      · rfl
      · rfl
  | cancelQueued id now => rfl
  | finish id status error now =>
    rw [StoreCall.apply, Tables.finishExecution]
    split
    · rfl
    · split
      · rfl
      · rfl
  | recover now => exact checkpoints_recover tables now
  | checkpoint id write => exact absurd rfl (hcheckpoint id write)
  | catalog workflows plugins removalWorkflows => rfl
  | setPinned id pinned => rfl
  | applyRetention before events => exact absurd rfl (hretention before events)

/-- What retention leaves of an execution that stays: it has not expired. -/
theorem not_expired_of_applyRetention {before events : String} (hids : tables.UniqueIds)
    (h : ((tables.applyRetention before events).execution id).isSome = true) :
    (tables.executions.any fun row => row.id = id && Tables.isExpired before row) = false := by
  obtain ⟨row, hrow⟩ := Option.isSome_iff_exists.mp h
  obtain ⟨hmem, hid⟩ := Table.mem_of_lookup hrow
  obtain ⟨hmem, hkept⟩ := List.mem_filter.mp hmem
  rw [List.any_eq_false]
  intro other hother hexpired
  rw [Bool.and_eq_true, decide_eq_true_eq] at hexpired
  -- two rows of one id are one row
  have hrow' := Table.lookup_of_mem hids hmem
  have hother' := Table.lookup_of_mem hids hother
  rw [hid] at hrow'
  rw [hexpired.1, hrow'] at hother'
  obtain rfl := Option.some.inj hother'
  rw [hexpired.2] at hkept
  cases hkept

end Checkpoints

/-! ### What a call does to a deadline -/

section Rows

variable (table : CheckpointTable) (node node' : String)

/-- The deadline in the row of a node. -/
def rowDeadline : Option Int := (StrMap.get? table node).bind CheckpointRow.deadlineMs

theorem rowDeadline_insert (row : CheckpointRow) :
    rowDeadline (StrMap.insert table node' row) node =
      if node' = node then row.deadlineMs else rowDeadline table node := by
  rw [rowDeadline, StrMap.get?_insert]
  split
  · rfl
  · rfl

/-- `begin_checkpoint` rewrites the status alone. -/
theorem rowDeadline_beginCheckpoint (status : CheckpointStatus) :
    rowDeadline (table.beginCheckpoint node' status) node = rowDeadline table node := by
  rw [CheckpointTable.beginCheckpoint]
  split
  · next row hrow =>
    rw [rowDeadline_insert]
    split
    · next hnode => simp [rowDeadline, ← hnode, hrow]
    · rfl
  · next hrow =>
    rw [rowDeadline_insert]
    split
    · next hnode => simp [rowDeadline, ← hnode, hrow]
    · rfl

theorem rowDeadline_completeCheckpoint (result : Option Value) :
    rowDeadline (table.completeCheckpoint node' result) node = rowDeadline table node := by
  rw [CheckpointTable.completeCheckpoint]
  split
  · next row hrow =>
    rw [rowDeadline_insert]
    split
    · next hnode => simp [rowDeadline, ← hnode, hrow]
    · rfl
  · rfl

/-- **The answer about a delay** whose node has a row. -/
theorem durableDelayRemaining_of_row {row : CheckpointRow} (duration : Nat) (now : Int)
    (hrow : StrMap.get? table node = some row) :
    table.durableDelayRemaining node duration now =
      if CheckpointTable.maxI64 < now + duration then .error "delay deadline overflow"
      else .ok (((rowDeadline table node).getD (now + duration) - now).toNat,
        StrMap.insert table node { row with
          status := .waiting
          deadlineMs := some ((rowDeadline table node).getD (now + duration)) }) := by
  simp [CheckpointTable.durableDelayRemaining, rowDeadline, hrow]

/-- A delay whose node has no row is not answered. -/
theorem isOk_durableDelayRemaining_of_none (duration : Nat) (now : Int)
    (hrow : StrMap.get? table node = none) :
    (table.durableDelayRemaining node duration now).isOk = false := by
  rw [CheckpointTable.durableDelayRemaining, hrow]
  split
  · rfl
  · rfl

/-- A delay that is answered keeps its deadline or fixes it. -/
theorem rowDeadline_delay (duration : Nat) (now : Int) :
    rowDeadline ((CheckpointWrite.delay node' duration now).apply table) node =
      (rowDeadline table node).or
        (if node' = node ∧ (table.durableDelayRemaining node' duration now).isOk then
          some (now + duration) else none) := by
  rw [CheckpointWrite.apply]
  cases hrow : StrMap.get? table node' with
  | none =>
    have hnot := isOk_durableDelayRemaining_of_none table node' duration now hrow
    rw [if_neg (by simp [hnot]), Option.or_none]
    split
    · next hanswer =>
      rw [hanswer] at hnot
      cases hnot
    · rfl
  | some row =>
    rw [durableDelayRemaining_of_row table node' duration now hrow]
    by_cases hover : CheckpointTable.maxI64 < now + duration
    · simp [hover, Except.isOk, Except.toBool]
    · simp only [hover, if_false, rowDeadline_insert]
      by_cases hnode : node' = node
      · subst hnode
        cases hold : rowDeadline table node' <;> simp [Except.isOk, Except.toBool]
      · simp [hnode]

end Rows

section Step

variable {tables : DeadlineTables} {subject : DeadlineSubject} {call : DeadlineCall} {id : String}

theorem executionTimeRemaining_eq (tables : DeadlineTables) (id : String) (duration : Nat)
    (now : Int) (h : tables.hasExecution id) :
    tables.executionTimeRemaining id duration now =
      if CheckpointTable.maxI64 < now + duration then .error "execution deadline overflow"
      else .ok (((StrMap.get? tables.deadlines id).getD (now + duration) - now).toNat,
        { tables with
          deadlines := if (StrMap.get? tables.deadlines id).isSome then tables.deadlines
            else StrMap.insert tables.deadlines id (now + duration) }) := by
  rw [executionTimeRemaining]
  split
  · rfl
  · cases hdeadline : StrMap.get? tables.deadlines id with
    | some deadline => rfl
    | none =>
      rw [hasExecution] at h
      simp [h]

/-- The row that holds the deadline is there, or is made when it is asked for. -/
def Begun (tables : DeadlineTables) : DeadlineSubject → Prop
  | .execution _ => True
  | .delay id node => (StrMap.get? (tables.checkpointsOf id) node).isSome = true

/-- The error of a duration that leaves the range of the column. -/
def overflowError : DeadlineSubject → String
  | .execution _ => "execution deadline overflow"
  | .delay _ _ => "delay deadline overflow"

/-- **What a call that asks is answered**: what is left of the deadline. -/
theorem answer_eq {ask : DeadlineAsk} (h : tables.hasExecution ask.subject.owner)
    (hbegun : tables.Begun ask.subject) :
    tables.answer ask =
      if CheckpointTable.maxI64 < ask.deadline then .error (overflowError ask.subject)
      else .ok ((tables.deadline? ask.subject).getD ask.deadline - ask.now).toNat := by
  obtain ⟨subject, duration, now⟩ := ask
  cases subject with
  | execution id =>
    rw [answer, DeadlineAsk.deadline]
    simp only [executionTimeRemaining_eq tables id duration now h]
    by_cases hover : CheckpointTable.maxI64 < now + duration
    · rw [if_pos hover, if_pos hover]
      rfl
    · rw [if_neg hover, if_neg hover]
      rfl
  | delay id node =>
    obtain ⟨row, hrow⟩ := Option.isSome_iff_exists.mp hbegun
    have hstored : (tables.execution id).isSome = true := h
    rw [answer, DeadlineAsk.deadline]
    simp only [durableDelayRemaining_of_row _ node duration now hrow, hstored, if_true]
    by_cases hover : CheckpointTable.maxI64 < now + duration
    · rw [if_pos hover, if_pos hover]
      rfl
    · rw [if_neg hover, if_neg hover]
      rfl

theorem isOk_answer_iff {ask : DeadlineAsk} (h : tables.hasExecution ask.subject.owner)
    (hbegun : tables.Begun ask.subject) :
    (tables.answer ask).isOk = true ↔ ¬ CheckpointTable.maxI64 < ask.deadline := by
  rw [answer_eq h hbegun]
  split
  · next hover => simp [hover, Except.isOk, Except.toBool]
  · next hover => simp [hover, Except.isOk, Except.toBool]

/-- A call that asks for something else fixes nothing. -/
theorem sets_eq_none (h : ∀ ask, call.ask = some ask → ask.subject ≠ subject) :
    tables.sets call subject = none := by
  rw [sets]
  cases hask : call.ask with
  | none => rfl
  | some ask => simp [Option.filter, h ask hask]

theorem sets_of_ask_none (h : call.ask = none) : tables.sets call subject = none := by
  rw [sets, h]
  rfl

theorem sets_of_ask (ask : DeadlineAsk) (h : call.ask = some ask) :
    tables.sets call ask.subject =
      if (tables.answer ask).isOk = true then some ask.deadline else none := by
  rw [sets, h]
  by_cases hok : (tables.answer ask).isOk = true
  · simp [Option.filter, hok]
  · simp [Option.filter, hok]

/-- Asking for the time of an execution touches the row of that execution alone. -/
theorem step_executionTimeRemaining (tables : DeadlineTables) (id : String) (duration : Nat)
    (now : Int) :
    (tables.step (.executionTimeRemaining id duration now)).toTables = tables.toTables ∧
      ∀ id', id' ≠ id → StrMap.get?
        (tables.step (.executionTimeRemaining id duration now)).deadlines id' =
          StrMap.get? tables.deadlines id' := by
  rw [step, executionTimeRemaining]
  split
  · exact ⟨rfl, fun _ _ => rfl⟩
  split
  · exact ⟨rfl, fun _ _ => rfl⟩
  split
  · exact ⟨rfl, fun id' hid => StrMap.get?_insert_ne _ (Ne.symm hid) _⟩
  · exact ⟨rfl, fun _ _ => rfl⟩

/-- The deadline of an execution after the call that asks for it. -/
theorem get?_deadlines_step (h : tables.hasExecution id) (duration : Nat) (now : Int) :
    StrMap.get? (tables.step (.executionTimeRemaining id duration now)).deadlines id =
      (StrMap.get? tables.deadlines id).or
        (if (tables.answer ⟨.execution id, duration, now⟩).isOk = true then some (now + duration)
          else none) := by
  have hok := @isOk_answer_iff tables ⟨.execution id, duration, now⟩ h trivial
  simp only [hok, DeadlineAsk.deadline]
  rw [step, executionTimeRemaining_eq tables id duration now h]
  by_cases hover : CheckpointTable.maxI64 < now + duration
  · simp [hover]
  · cases hdeadline : StrMap.get? tables.deadlines id with
    | some deadline => simp [hover, hdeadline]
    | none => simp [hover]

theorem checkpointsOf_checkpoint {rows : Tables} {id id' : String} (write : CheckpointWrite)
    (h : (rows.execution id').isSome = true) :
    (StoreCall.apply rows (.checkpoint id' write)).checkpointsOf id =
      if id' = id then write.apply (rows.checkpointsOf id) else rows.checkpointsOf id := by
  rw [StoreCall.apply, if_pos h, Tables.checkpointsOf, StrMap.get?_insert]
  split
  · next hid => rw [hid, Option.getD_some]
  · rfl

/-- A call of the store keeps the deadline of an execution that stays. -/
theorem get?_deadlines_store (hids : tables.UniqueIds) (call : StoreCall)
    (hafter : (tables.step (.store call)).hasExecution id) :
    StrMap.get? (tables.step (.store call)).deadlines id = StrMap.get? tables.deadlines id := by
  cases call with
  | applyRetention before events =>
    have hkept := not_expired_of_applyRetention hids hafter
    refine (StrMap.get?_filter tables.deadlines (fun id => !tables.executions.any fun row =>
      row.id = id && Tables.isExpired before row) id).trans ?_
    rw [hkept]
    rfl
  | create | claim | requestCancel | requestCancelOutcome | cancelQueued | finish | recover
  | checkpoint | catalog | setPinned => rfl

/-- The calls of the store ask for delays only. -/
theorem subject_ne_of_store {call : StoreCall} {ask : DeadlineAsk}
    (h : (DeadlineCall.store call).ask = some ask) : ask.subject ≠ .execution id := by
  rw [DeadlineCall.ask.eq_def] at h
  split at h
  · next heq => cases heq
  · next heq =>
    obtain rfl := Option.some.inj h
    exact fun hsubject => nomatch hsubject
  · cases h

/-- A write to the checkpoints of an execution that is stored. -/
theorem deadline?_checkpoint {node id' : String} (write : CheckpointWrite)
    (hbefore : tables.hasExecution id) :
    (tables.step (.store (.checkpoint id' write))).deadline? (.delay id node) =
      (tables.deadline? (.delay id node)).or
        (tables.sets (.store (.checkpoint id' write)) (.delay id node)) := by
  by_cases hid : id' = id
  · subst hid
    have hrows := @checkpointsOf_checkpoint _ id' id' write hbefore
    rw [if_pos rfl] at hrows
    have hleft : (tables.step (.store (.checkpoint id' write))).deadline? (.delay id' node) =
        rowDeadline (write.apply (tables.checkpointsOf id')) node := by
      rw [← hrows]
      rfl
    rw [hleft]
    cases write with
    | begin node' status =>
      rw [sets_of_ask_none rfl, Option.or_none]
      exact rowDeadline_beginCheckpoint _ node node' status
    | complete node' result =>
      rw [sets_of_ask_none rfl, Option.or_none]
      exact rowDeadline_completeCheckpoint _ node node' result
    | delay node' duration now =>
      refine (rowDeadline_delay _ node node' duration now).trans (congrArg (Option.or _) ?_)
      by_cases hnode : node' = node
      · subst hnode
        have hanswer : (tables.answer ⟨.delay id' node', duration, now⟩).isOk =
            ((tables.checkpointsOf id').durableDelayRemaining node' duration now).isOk := by
          have hstored : (tables.execution id').isSome = true := hbefore
          rw [answer]
          simp only [hstored, if_true]
          cases (tables.checkpointsOf id').durableDelayRemaining node' duration now with
          | ok => rfl
          | error => rfl
        rw [sets_of_ask ⟨.delay id' node', duration, now⟩ rfl, hanswer]
        simp [DeadlineAsk.deadline]
      · rw [if_neg fun h => hnode h.1, sets_eq_none fun ask hask hsubject => ?_]
        obtain rfl := Option.some.inj hask
        exact hnode (DeadlineSubject.delay.inj hsubject).2
  · rw [sets_eq_none (fun ask hask hsubject => ?_), Option.or_none]
    · have hrows : (StoreCall.apply tables.toTables (.checkpoint id' write)).checkpointsOf id =
          tables.checkpointsOf id := by
        by_cases hstored : (tables.execution id').isSome = true
        · rw [checkpointsOf_checkpoint write hstored, if_neg hid]
        · rw [StoreCall.apply, if_neg hstored]
      exact congrArg (rowDeadline · node) hrows
    · cases write with
      | begin => cases hask
      | complete => cases hask
      | delay node' duration now =>
        obtain rfl := Option.some.inj hask
        exact hid (DeadlineSubject.delay.inj hsubject).1

/-- A call of the store keeps the deadline of a delay, or fixes it. -/
theorem deadline?_delay_store {node : String} (hids : tables.UniqueIds) (call : StoreCall)
    (hbefore : tables.hasExecution id) (hafter : (tables.step (.store call)).hasExecution id) :
    (tables.step (.store call)).deadline? (.delay id node) =
      (tables.deadline? (.delay id node)).or (tables.sets (.store call) (.delay id node)) := by
  have hframe : (∀ id write, call ≠ .checkpoint id write) →
      (∀ before events, call ≠ .applyRetention before events) →
      (tables.step (.store call)).deadline? (.delay id node) =
        tables.deadline? (.delay id node) := by
    intro hcheckpoint hretention
    have hrows := checkpoints_apply tables.toTables call hcheckpoint hretention
    rw [deadline?, deadline?, Tables.checkpointsOf, Tables.checkpointsOf]
    exact congrArg (fun rows => rowDeadline ((StrMap.get? rows id).getD []) node) hrows
  cases call with
  | checkpoint id' write => exact deadline?_checkpoint write hbefore
  | applyRetention before events =>
    rw [sets_of_ask_none rfl, Option.or_none]
    have hrows : (tables.applyRetention before events).checkpointsOf id =
        tables.checkpointsOf id := by
      refine congrArg (Option.getD · []) ((StrMap.get?_filter tables.checkpoints (fun id =>
        !tables.executions.any fun row => row.id = id && Tables.isExpired before row) id).trans ?_)
      rw [not_expired_of_applyRetention hids hafter]
      rfl
    exact congrArg (rowDeadline · node) hrows
  | create | claim | requestCancel | requestCancelOutcome | cancelQueued | finish | recover
  | catalog | setPinned =>
    rw [sets_of_ask_none rfl, Option.or_none]
    exact hframe (fun _ _ h => nomatch h) fun _ _ h => nomatch h

/-- **What a call does to a deadline** of an execution that is stored and stays so: it keeps it, or
fixes it where there is none. -/
theorem deadline?_step (hids : tables.UniqueIds) (hbefore : tables.hasExecution subject.owner)
    (hafter : (tables.step call).hasExecution subject.owner) :
    (tables.step call).deadline? subject =
      (tables.deadline? subject).or (tables.sets call subject) := by
  cases call with
  | executionTimeRemaining id duration now =>
    obtain ⟨htables, hothers⟩ := step_executionTimeRemaining tables id duration now
    by_cases hsubject : subject = .execution id
    · subst hsubject
      exact (get?_deadlines_step hbefore duration now).trans
        (by rw [sets_of_ask ⟨.execution id, duration, now⟩ rfl]; rfl)
    · rw [sets_eq_none (fun ask hask => ?_), Option.or_none]
      · cases subject with
        | execution id' => exact hothers id' fun hid => hsubject (by rw [hid])
        | delay id' node => rw [deadline?, htables, deadline?]
      · obtain rfl := Option.some.inj hask
        exact Ne.symm hsubject
  | store call =>
    cases subject with
    | execution id =>
      rw [sets_eq_none (fun ask hask => ?_), Option.or_none]
      · exact get?_deadlines_store hids call hafter
      · exact subject_ne_of_store hask
    | delay id node => exact deadline?_delay_store hids call hbefore hafter

end Step

/-! ### Runs -/

section Runs

variable (tables : DeadlineTables) (calls : List DeadlineCall)

/-- The tables before the `n`-th call of a run. -/
def before (n : Nat) : DeadlineTables := Runs.run step tables (calls.take n)

/-- The `n`-th call asks for the time of a subject. -/
def AsksAt (n : Nat) (subject : DeadlineSubject) (ask : DeadlineAsk) : Prop :=
  ∃ call, calls[n]? = some call ∧ call.ask = some ask ∧ ask.subject = subject

/-- The `n`-th call is the first one about a subject that is answered. -/
structure FirstAt (n : Nat) (subject : DeadlineSubject) (first : DeadlineAsk) : Prop where
  asks : AsksAt calls n subject first
  answered : ((tables.before calls n).answer first).isOk = true
  earliest : ∀ k < n, ∀ ask, AsksAt calls k subject ask →
    ((tables.before calls k).answer ask).isOk = false

variable {tables calls} {subject : DeadlineSubject} {n : Nat} {first : DeadlineAsk}

theorem uniqueIds_step {call : DeadlineCall} (h : tables.UniqueIds) :
    (tables.step call).UniqueIds := by
  cases call with
  | store call => exact (call.apply_cases h).uniqueIds h
  | executionTimeRemaining id duration now =>
    rw [(step_executionTimeRemaining tables id duration now).1]
    exact h

theorem uniqueIds_before (h : tables.UniqueIds) (n : Nat) : (tables.before calls n).UniqueIds :=
  @Runs.invariant _ _ DeadlineTables.step (fun tables => tables.UniqueIds) tables _ h
    fun _ _ => uniqueIds_step

/-- The step of a run on a deadline. -/
theorem deadline?_before_succ (hids : tables.UniqueIds)
    (hlive : ∀ k ≤ calls.length, (tables.before calls k).hasExecution subject.owner)
    {call : DeadlineCall} (hcall : calls[n]? = some call) :
    (tables.before calls (n + 1)).deadline? subject =
      ((tables.before calls n).deadline? subject).or
        ((tables.before calls n).sets call subject) := by
  have hlt : n < calls.length := (List.getElem?_eq_some_iff.mp hcall).1
  have hstep : tables.before calls (n + 1) = (tables.before calls n).step call :=
    Runs.exists_step_of_getElem? hcall
  have hafter := hlive (n + 1) hlt
  rw [hstep] at hafter ⊢
  exact deadline?_step (uniqueIds_before hids n) (hlive n hlt.le) hafter

/-- Until a call is answered, there is no deadline. -/
theorem FirstAt.deadline?_eq_none (hfirst : FirstAt tables calls n subject first)
    (hids : tables.UniqueIds)
    (hlive : ∀ k ≤ calls.length, (tables.before calls k).hasExecution subject.owner)
    (hnone : tables.deadline? subject = none) {k : Nat} (hk : k ≤ n) :
    (tables.before calls k).deadline? subject = none := by
  obtain ⟨_, hlast, -, -⟩ := hfirst.asks
  have hlength : n < calls.length := (List.getElem?_eq_some_iff.mp hlast).1
  induction k with
  | zero => exact hnone
  | succ k ih =>
    have hcall : calls[k]? = some calls[k] := List.getElem?_eq_getElem (by omega)
    rw [deadline?_before_succ hids hlive hcall, ih (by omega), Option.none_or]
    cases hask : calls[k].ask with
    | none => exact sets_of_ask_none hask
    | some ask =>
      by_cases hsubject : ask.subject = subject
      · -- the call asks for this subject, and is refused
        have hrefused := hfirst.earliest k hk ask ⟨_, hcall, hask, hsubject⟩
        rw [← hsubject, sets_of_ask ask hask, hrefused]
        rfl
      · refine sets_eq_none fun ask' hask' => ?_
        rw [hask] at hask'
        obtain rfl := Option.some.inj hask'
        exact hsubject

/-- **The first call that is answered fixes the deadline.** -/
theorem FirstAt.deadline?_eq (hfirst : FirstAt tables calls n subject first)
    (hids : tables.UniqueIds)
    (hlive : ∀ k ≤ calls.length, (tables.before calls k).hasExecution subject.owner)
    (hnone : tables.deadline? subject = none) {k : Nat} (hnk : n < k) (hk : k ≤ calls.length) :
    (tables.before calls k).deadline? subject = some first.deadline := by
  induction k, hnk using Nat.le_induction with
  | base =>
    obtain ⟨call, hcall, hask, hsubject⟩ := hfirst.asks
    rw [deadline?_before_succ hids hlive hcall,
      hfirst.deadline?_eq_none hids hlive hnone le_rfl, Option.none_or, ← hsubject,
      sets_of_ask first hask, if_pos hfirst.answered]
  | succ k _ ih =>
    have hcall : calls[k]? = some calls[k] := List.getElem?_eq_getElem hk
    rw [deadline?_before_succ hids hlive hcall, ih (by omega), Option.some_or]

theorem begun_of_deadline? {deadline : Int} (h : tables.deadline? subject = some deadline) :
    tables.Begun subject := by
  cases subject with
  | execution id => trivial
  | delay id node =>
    obtain ⟨row, hrow, -⟩ := Option.bind_eq_some_iff.mp h
    exact Option.isSome_iff_exists.mpr ⟨row, hrow⟩

/-- A delay that is answered has a row. -/
theorem begun_of_isOk {ask : DeadlineAsk} (h : (tables.answer ask).isOk = true) :
    tables.Begun ask.subject := by
  obtain ⟨subject, duration, now⟩ := ask
  cases subject with
  | execution id => trivial
  | delay id node =>
    by_contra hbegun
    have hnone : StrMap.get? (tables.checkpointsOf id) node = none := by
      simpa [Begun] using hbegun
    have hnot := isOk_durableDelayRemaining_of_none _ node duration now hnone
    rw [answer] at h
    simp only at h
    split at h
    · cases hanswer : (tables.checkpointsOf id).durableDelayRemaining node duration now with
      | ok => rw [hanswer] at hnot; cases hnot
      | error => rw [hanswer] at h; cases h
    · cases h

/-- **From the first answer on**, every call is answered with what is left of that deadline. -/
theorem FirstAt.answer_eq (hfirst : FirstAt tables calls n subject first)
    (hids : tables.UniqueIds)
    (hlive : ∀ k ≤ calls.length, (tables.before calls k).hasExecution subject.owner)
    (hnone : tables.deadline? subject = none) {m : Nat} {ask : DeadlineAsk} (hnm : n ≤ m)
    (hask : AsksAt calls m subject ask) :
    (tables.before calls m).answer ask =
      if CheckpointTable.maxI64 < ask.deadline then .error (overflowError subject)
      else .ok (first.deadline - ask.now).toNat := by
  obtain ⟨call, hcall, hcallAsk, hsubject⟩ := hask
  have hlength : m < calls.length := (List.getElem?_eq_some_iff.mp hcall).1
  have hstored := hlive m hlength.le
  subst hsubject
  obtain rfl | hlt := Nat.eq_or_lt_of_le hnm
  · obtain ⟨call', hcall', hfirstAsk, -⟩ := hfirst.asks
    obtain rfl := Option.some.inj (hcall.symm.trans hcall')
    obtain rfl := Option.some.inj (hcallAsk.symm.trans hfirstAsk)
    rw [DeadlineTables.answer_eq hstored (begun_of_isOk hfirst.answered),
      hfirst.deadline?_eq_none hids hlive hnone le_rfl, Option.getD_none]
  · have hdeadline := hfirst.deadline?_eq hids hlive hnone hlt hlength.le
    rw [DeadlineTables.answer_eq hstored (begun_of_deadline? hdeadline), hdeadline,
      Option.getD_some]

end Runs

end DeadlineTables

/-! ### The deadline of a run -/

/-- `reserve_shutdown_grace`, on instants of one clock. -/
def reserveShutdownGrace (totalDeadline now : Int) (shutdownGrace : Option Nat) : Int :=
  let remaining := (totalDeadline - now).toNat
  let grace := min (shutdownGrace.getD 0) remaining
  if grace < remaining then now + (remaining - grace : Nat) else totalDeadline

theorem reserveShutdownGrace_le (totalDeadline now : Int) (shutdownGrace : Option Nat) :
    reserveShutdownGrace totalDeadline now shutdownGrace ≤ totalDeadline ∧
      (now < totalDeadline → now < reserveShutdownGrace totalDeadline now shutdownGrace) := by
  simp only [reserveShutdownGrace]
  split
  · omega
  · exact ⟨le_rfl, id⟩

namespace DeadlineTables

/-- **Durable deadlines only shrink.** In every run of store calls, as long as the execution is
stored, the first call that is answered fixes the deadline; from then on every call answers what is
left of it, or fails because its own duration leaves the range of the column; so what is answered
does not grow while the clock does not go back. The deadline of the run itself keeps the grace
within it. -/
theorem deadlines_only_shrink {tables : DeadlineTables} (hids : tables.UniqueIds)
    {subject : DeadlineSubject} (hnone : tables.deadline? subject = none)
    {calls : List DeadlineCall}
    (hlive : ∀ k ≤ calls.length, (tables.before calls k).hasExecution subject.owner)
    {n : Nat} {first : DeadlineAsk} (hfirst : FirstAt tables calls n subject first) :
    (∀ k, n < k → k ≤ calls.length →
      (tables.before calls k).deadline? subject = some first.deadline) ∧
    (∀ m ask, n ≤ m → AsksAt calls m subject ask → (tables.before calls m).answer ask =
      if CheckpointTable.maxI64 < ask.deadline then .error (overflowError subject)
      else .ok (first.deadline - ask.now).toNat) ∧
    (∀ m m' ask ask' left left', n ≤ m → m ≤ m' → AsksAt calls m subject ask →
      AsksAt calls m' subject ask' → ask.now ≤ ask'.now →
      (tables.before calls m).answer ask = .ok left →
      (tables.before calls m').answer ask' = .ok left' → left' ≤ left) ∧
    ∀ totalDeadline now shutdownGrace,
      reserveShutdownGrace totalDeadline now shutdownGrace ≤ totalDeadline ∧
        (now < totalDeadline → now ≤ reserveShutdownGrace totalDeadline now shutdownGrace) := by
  refine ⟨fun k => hfirst.deadline?_eq hids hlive hnone,
    fun m ask => hfirst.answer_eq hids hlive hnone, ?_, ?_⟩
  · intro m m' ask ask' left left' hnm hmm' hask hask' htime hleft hleft'
    rw [hfirst.answer_eq hids hlive hnone hnm hask] at hleft
    rw [hfirst.answer_eq hids hlive hnone (hnm.trans hmm') hask'] at hleft'
    split at hleft
    · cases hleft
    split at hleft'
    · cases hleft'
    obtain rfl := Except.ok.inj hleft
    obtain rfl := Except.ok.inj hleft'
    omega
  · intro totalDeadline now shutdownGrace
    obtain ⟨hle, hlt⟩ := reserveShutdownGrace_le totalDeadline now shutdownGrace
    exact ⟨hle, fun h => (hlt h).le⟩

/-! ### Two runs -/

/-- One execution that is under way. -/
def runningDeadlines : DeadlineTables where
  executions := [{
    id := "run"
    workflowName := "greet"
    status := .running
    createdAt := "2026-01-01T00:00:00Z" }]

/-- A delay of one minute; the Core restarts and asks again, with an hour. -/
def restartedCalls : List DeadlineCall :=
  [.store (.checkpoint "run" (.begin "wait" .running)),
    .store (.checkpoint "run" (.delay "wait" 60000 1000)),
    .store (.recover "2026-01-01T00:00:30Z"),
    .store (.checkpoint "run" (.begin "wait" .running)),
    .store (.checkpoint "run" (.delay "wait" 3600000 31000))]

theorem restartedCalls_keep_their_deadline :
    (restartedCalls.length = 5 ∧
      (runningDeadlines.before restartedCalls 5).deadline? (.delay "run" "wait") = some 61000) ∧
    (runningDeadlines.before restartedCalls 4).answer ⟨.delay "run" "wait", 3600000, 31000⟩ =
      if CheckpointTable.maxI64 < 31000 + 3600000 then .error "delay deadline overflow"
      else .ok (61000 - 31000) := by
  have hlive : ∀ k ≤ restartedCalls.length,
      (runningDeadlines.before restartedCalls k).hasExecution "run" := by
    decide
  have hfirst : FirstAt runningDeadlines restartedCalls 1 (.delay "run" "wait")
      ⟨.delay "run" "wait", 60000, 1000⟩ := by
    refine ⟨⟨_, rfl, rfl, rfl⟩, by decide, fun k hk ask hask => ?_⟩
    obtain rfl : k = 0 := by omega
    obtain ⟨call, hcall, hcallAsk, -⟩ := hask
    obtain rfl := Option.some.inj hcall
    cases hcallAsk
  obtain ⟨hfixed, hanswers, -, -⟩ :=
    @deadlines_only_shrink runningDeadlines (List.nodup_singleton _) _ rfl _ hlive _ _ hfirst
  exact ⟨⟨rfl, hfixed 5 (by decide) (by decide)⟩,
    hanswers 4 ⟨.delay "run" "wait", 3600000, 31000⟩ (by decide) ⟨_, rfl, rfl, rfl⟩⟩

/-- **A later duration that leaves the range is refused**, although a deadline is there. -/
theorem large_duration_is_refused :
    (runningDeadlines.answer ⟨.execution "run", 1000, 0⟩ = .ok 1000) ∧
    ((runningDeadlines.step (.executionTimeRemaining "run" 1000 0)).deadline? (.execution "run") =
      some 1000) ∧
    (runningDeadlines.step (.executionTimeRemaining "run" 1000 0)).answer
      ⟨.execution "run", 2 ^ 63, 5⟩ = .error "execution deadline overflow" :=
  ⟨rfl, rfl, rfl⟩

end DeadlineTables

end KakuneCore
