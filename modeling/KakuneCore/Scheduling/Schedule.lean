import KakuneCore.Process.Attempt
import KakuneCore.Relational.Runs
import KakuneCore.Relational.Table
import KakuneCore.Scheduling.Recurrence
import KakuneCore.Scheduling.Triggers

/-!
# Durable schedules

`schedule_trigger`: the scheduler keeps one row of `scheduled_triggers` for every calendar trigger,
with the next deadline and the identity of the schedule it belongs to. A scan creates or resets the
row of a new schedule, leaves a deadline in the future alone, and **claims a deadline that has
passed** by moving it behind the present; the misfire policy says how many runs the first scan after
a start makes of it.
-/

namespace KakuneCore

open Attempt

/-- The functions of the libraries for times that only the scheduler calls. -/
structure ScheduleLibrary extends TimeLibrary where
  /-- `OffsetDateTime::format(&Rfc3339)`. -/
  formatRfc3339 : Instant → Except String String
  /-- `checked_add(TimeDuration::seconds(_))`. -/
  checkedAddSeconds : Instant → Nat → Option Instant
  /-- `serde_json::to_vec` and `artifact_id`, the digest of the encoded trigger. -/
  encodeTrigger : WorkflowTrigger → Except String String

/-- What the libraries document: a text is parsed to the moment it was written for, and a sum is
the sum. -/
structure ScheduleLibrary.Documented (library : ScheduleLibrary) : Prop where
  parse_format : ∀ {instant : Instant} {text : String}, library.formatRfc3339 instant = .ok text →
    library.parseRfc3339 text = some instant
  add_seconds : ∀ {instant later : Instant} {seconds : Nat},
    library.checkedAddSeconds instant seconds = some later → later = instant + seconds * 10 ^ 9

/-! ### Rows -/

/-- A row of `scheduled_triggers`. The column `misfire_policy` holds the identity of the schedule;
rows of older versions have the name of the policy there. -/
structure ScheduledTriggerRow where
  workflowId : String
  triggerId : String
  nextRunAt : String
  lastRunAt : Option String := none
  completedAt : Option String := none
  misfirePolicy : String
  updatedAt : String
  deriving DecidableEq, Repr

/-- The primary key. -/
def ScheduledTriggerRow.key (row : ScheduledTriggerRow) : String × String :=
  (row.workflowId, row.triggerId)

/-- `ScheduledTriggerRecord`. -/
structure ScheduledTriggerRecord where
  nextRunAt : Instant
  completedAt : Option String
  scheduleIdentity : String

abbrev ScheduledTriggers : Type := List ScheduledTriggerRow

namespace ScheduledTriggers

def row (rows : ScheduledTriggers) (key : String × String) : Option ScheduledTriggerRow :=
  Table.lookup ScheduledTriggerRow.key rows key

/-- The row of an `INSERT … ON CONFLICT DO UPDATE` that meets an older row. -/
def merged (row : ScheduledTriggerRow) (resetExisting : Bool) (old : ScheduledTriggerRow) :
    ScheduledTriggerRow :=
  { old with
    nextRunAt := if resetExisting then row.nextRunAt else old.nextRunAt
    lastRunAt := if resetExisting then none else old.lastRunAt
    completedAt := if resetExisting then none else old.completedAt
    misfirePolicy := row.misfirePolicy
    updatedAt := row.updatedAt }

/-- That statement. -/
def upsert (rows : ScheduledTriggers) (row : ScheduledTriggerRow) (resetExisting : Bool) :
    ScheduledTriggers :=
  match rows.row row.key with
  | some _ => Table.updateWhere rows (fun old => old.key = row.key) (merged row resetExisting)
  | none => rows ++ [row]

/-- The `UPDATE` of `advance_scheduled_trigger`. -/
def advance (rows : ScheduledTriggers) (key : String × String) (nextRunAt now : String)
    (completed : Bool) : ScheduledTriggers :=
  Table.updateWhere rows (fun old => old.key = key) fun old =>
    { old with
      nextRunAt := nextRunAt
      lastRunAt := some now
      completedAt := if completed then some now else none
      updatedAt := now }

variable {rows : ScheduledTriggers} {row : ScheduledTriggerRow} {key : String × String}

theorem row_upsert (resetExisting : Bool) :
    (rows.upsert row resetExisting).row key =
      if key = row.key then some (((rows.row key).map (merged row resetExisting)).getD row)
      else rows.row key := by
  unfold upsert
  cases hold : rows.row row.key with
  | some old =>
    dsimp only
    rw [ScheduledTriggers.row,
      Table.lookup_updateWhere_key (f := merged row resetExisting) fun _ => rfl]
    by_cases hkey : key = row.key
    · subst hkey
      rw [if_pos rfl, if_pos rfl]
      change (rows.row row.key).map _ = _
      rw [hold]
      rfl
    · rw [if_neg hkey, if_neg hkey]
      rfl
  | none =>
    have hfresh : row.key ∉ rows.map ScheduledTriggerRow.key := by
      intro hmem
      obtain ⟨other, hother, heq⟩ := List.mem_map.mp hmem
      exact Table.lookup_eq_none.mp hold other hother heq
    dsimp only
    rw [ScheduledTriggers.row, Table.lookup_append hfresh]
    by_cases hkey : key = row.key
    · subst hkey
      rw [if_pos rfl, if_pos rfl, hold]
      rfl
    · rw [if_neg (Ne.symm hkey), if_neg hkey]
      rfl

theorem row_upsert_self (rows : ScheduledTriggers) (resetExisting : Bool) (hkey : row.key = key) :
    (rows.upsert row resetExisting).row key =
      some (((rows.row key).map (merged row resetExisting)).getD row) := by
  rw [row_upsert, if_pos hkey.symm]

theorem row_advance (key' : String × String) (nextRunAt now : String) (completed : Bool) :
    (rows.advance key nextRunAt now completed).row key' =
      if key' = key then (rows.row key').map fun old =>
        { old with
          nextRunAt := nextRunAt
          lastRunAt := some now
          completedAt := if completed then some now else none
          updatedAt := now }
      else rows.row key' :=
  Table.lookup_updateWhere_key fun _ => rfl

end ScheduledTriggers

/-! ### The store -/

/-- The statements of a call that the database refuses, with its error texts. -/
structure ScheduleFaults where
  read : Option String := none
  ensure : Option String := none
  advance : Option String := none

/-- The answer of the database to a statement. -/
def statement (fault : Option String) : Except String Unit :=
  match fault with
  | some error => .error error
  | none => .ok ()

section Store

variable (library : ScheduleLibrary) (faults : ScheduleFaults)

/-- `Store::scheduled_trigger`. -/
def scheduledTrigger (rows : ScheduledTriggers) (key : String × String) :
    Except String (Option ScheduledTriggerRecord) := do
  statement faults.read
  match rows.row key with
  | none => .ok none
  | some row =>
    match library.parseRfc3339 row.nextRunAt with
    | none => .error "the persisted deadline is no RFC 3339 timestamp"
    | some nextRunAt => .ok (some ⟨nextRunAt, row.completedAt, row.misfirePolicy⟩)

/-- `cannot format trigger deadline` and `cannot format current time`. -/
def scheduleTexts (nextRunAt now : Instant) : Except String (String × String) := do
  let deadline ← (library.formatRfc3339 nextRunAt).mapError fun error =>
    s!"cannot format trigger deadline: {error}"
  let current ← (library.formatRfc3339 now).mapError fun error =>
    s!"cannot format current time: {error}"
  pure (deadline, current)

/-- `Store::ensure_scheduled_trigger`. -/
def ensureScheduledTrigger (workflowId triggerId : String) (nextRunAt : Instant)
    (scheduleIdentity : String) (now : Instant) (resetExisting : Bool) :
    Attempt ScheduledTriggers String Unit := do
  let (deadline, current) ← query fun _ => scheduleTexts library nextRunAt now
  query fun _ => statement faults.ensure
  update fun rows => rows.upsert
    { workflowId, triggerId, nextRunAt := deadline, misfirePolicy := scheduleIdentity,
      updatedAt := current } resetExisting

/-- `Store::advance_scheduled_trigger`. -/
def advanceScheduledTrigger (workflowId triggerId : String) (nextRunAt : Instant)
    (completed : Bool) (now : Instant) : Attempt ScheduledTriggers String Unit := do
  let (deadline, current) ← query fun _ => scheduleTexts library nextRunAt now
  query fun _ => statement faults.advance
  update fun rows => rows.advance (workflowId, triggerId) deadline current completed

end Store

/-! ### Deadlines -/

/-- `MisfirePolicy::name`. -/
def WorkflowTrigger.MisfirePolicy.name : WorkflowTrigger.MisfirePolicy → String
  | .skip => "skip"
  | .runOnce => "runOnce"
  | .catchUp _ => "catchUp"

section Due

variable (library : ScheduleLibrary) (trigger : WorkflowTrigger)

/-- `initial_due`. -/
def initialDue (now : Instant) : Except String Instant :=
  match trigger.kind with
  | .datetime => trigger.datetimeDue library.toTimeLibrary
  | .interval => .ok now
  | .cron => trigger.cronNextDue library.toTimeLibrary now
  | _ => .error "trigger is not calendar scheduled"

/-- The deadline of an interval after a moment. -/
def nextInterval (after : Instant) : Except String Instant := do
  let seconds ← trigger.intervalSeconds
  let seconds ← WorkflowTrigger.orError ((some seconds).filter (· < 2 ^ 63))
    "with.everySeconds is too large"
  WorkflowTrigger.orError (library.checkedAddSeconds after seconds)
    "next interval deadline is outside the supported range"

/-- `next_due_after`. -/
def nextDueAfter (after : Instant) : Except String Instant :=
  match trigger.kind with
  | .datetime => trigger.datetimeDue library.toTimeLibrary
  | .interval => nextInterval library trigger after
  | .cron => trigger.cronNextDue library.toTimeLibrary after
  | _ => .error "trigger is not calendar scheduled"

/-- `is_datetime_trigger`. -/
def WorkflowTrigger.isOneShot (trigger : WorkflowTrigger) : Bool := trigger.kind = .datetime

/-- What a deadline that has passed comes to: the runs, the next deadline, and whether the schedule
is completed. -/
def dueRuns (policy : WorkflowTrigger.MisfirePolicy) (deadline now : Instant) (recovering : Bool) :
    Except String (Nat × Instant × Bool) :=
  if recovering = false then do
    let next ← nextDueAfter library trigger now
    pure (1, next, trigger.isOneShot)
  else
    match policy with
    | .skip => do
      let next ← nextDueAfter library trigger now
      pure (0, next, trigger.isOneShot)
    | .runOnce => do
      let next ← nextDueAfter library trigger now
      pure (1, next, trigger.isOneShot)
    | .catchUp limit =>
      if trigger.isOneShot then pure (1, deadline, true)
      else do
        let (runs, due) ← Recurrence.catchUp (nextDueAfter library trigger) now limit deadline
        -- the limit is a hard cap: an older backlog is skipped
        if due ≤ now then do
          let next ← nextDueAfter library trigger now
          pure (runs, next, false)
        else pure (runs, due, false)

end Due

/-! ### Scans -/

/-- A call of `schedule_trigger`. -/
structure ScheduleCall where
  workflowId : String
  trigger : WorkflowTrigger
  revision : String
  now : Instant
  recovering : Bool
  faults : ScheduleFaults := {}

namespace ScheduleCall

def key (call : ScheduleCall) : String × String := (call.workflowId, call.trigger.id)

variable (library : ScheduleLibrary) (call : ScheduleCall)

/-- The schedule identity of a trigger in a revision of its workflow. -/
def identity : Except String String := do
  let policy ← call.trigger.misfireConfig
  let digest ← (library.encodeTrigger call.trigger).mapError fun error =>
    s!"cannot encode scheduled trigger configuration: {error}"
  pure s!"{policy.name}|revision:{call.revision}|trigger:{digest}"

/-- Claim a deadline, if it has passed. -/
def claim (policy : WorkflowTrigger.MisfirePolicy) (existing : ScheduledTriggerRecord) :
    Attempt ScheduledTriggers String Nat :=
  if existing.completedAt.isSome then pure 0
  else if call.now < existing.nextRunAt then pure 0
  else do
    let (runs, next, completed) ← query fun _ =>
      dueRuns library call.trigger policy existing.nextRunAt call.now call.recovering
    advanceScheduledTrigger library call.faults call.workflowId call.trigger.id next completed
      call.now
    pure runs

/-- `schedule_trigger`: how many runs the scan starts. -/
def scheduleTrigger : Attempt ScheduledTriggers String Nat := do
  let policy ← query fun _ => call.trigger.misfireConfig
  let scheduleIdentity ← query fun _ => call.identity library
  let existing ← query fun rows => scheduledTrigger library call.faults rows call.key
  let initial ← query fun _ => initialDue library call.trigger call.now
  match existing with
  | none => do
    ensureScheduledTrigger library call.faults call.workflowId call.trigger.id initial
      scheduleIdentity call.now false
    pure 0
  | some existing =>
    if existing.scheduleIdentity = scheduleIdentity then call.claim library policy existing
    else do
      let isLegacyIdentity : Bool := existing.scheduleIdentity = policy.name
      ensureScheduledTrigger library call.faults call.workflowId call.trigger.id initial
        scheduleIdentity call.now (!isLegacyIdentity)
      if isLegacyIdentity then call.claim library policy existing else pure 0

/-! ### What a scan does to the row of its trigger -/

variable {library call}

/-- A row of the schedule of a call: under its identity, or under the name of its policy. -/
structure Owns (library : ScheduleLibrary) (call : ScheduleCall) (row : ScheduledTriggerRow)
    (policy : WorkflowTrigger.MisfirePolicy) (deadline : Instant) : Prop where
  policy_eq : call.trigger.misfireConfig = .ok policy
  identity : call.identity library = .ok row.misfirePolicy ∨
    row.misfirePolicy = policy.name ∧ ∃ identity, call.identity library = .ok identity
  deadline_eq : library.parseRfc3339 row.nextRunAt = some deadline

/-- A row that kept its deadline. Only the identity of an old row and the time of the update may be
new. -/
structure Kept (library : ScheduleLibrary) (call : ScheduleCall) (row row' : ScheduledTriggerRow) :
    Prop where
  nextRunAt : row'.nextRunAt = row.nextRunAt
  completedAt : row'.completedAt = row.completedAt
  lastRunAt : row'.lastRunAt = row.lastRunAt
  identity : row' = row ∨ call.identity library = .ok row'.misfirePolicy ∧
    ∃ policy, call.trigger.misfireConfig = .ok policy ∧ row.misfirePolicy = policy.name

/-- The effect of a scan on the row of its trigger. -/
inductive Scan (library : ScheduleLibrary) (call : ScheduleCall) :
    Option ScheduledTriggerRow → Except String Nat → Option ScheduledTriggerRow → Prop
  /-- Nothing is known about the deadline after an error, except that it was not moved. -/
  | failed {before after : Option ScheduledTriggerRow} {error : String} :
      Option.Rel (Kept library call) before after → Scan library call before (.error error) after
  /-- There is no row for this schedule yet. -/
  | started {before : Option ScheduledTriggerRow} {row : ScheduledTriggerRow} {initial : Instant} :
      (∀ old policy deadline, before = some old → ¬ Owns library call old policy deadline) →
      call.identity library = .ok row.misfirePolicy →
      initialDue library call.trigger call.now = .ok initial →
      library.parseRfc3339 row.nextRunAt = some initial → row.completedAt = none →
      row.lastRunAt = none → Scan library call before (.ok 0) (some row)
  /-- The schedule is completed, or its deadline lies in the future. -/
  | idle {row row' : ScheduledTriggerRow} {policy : WorkflowTrigger.MisfirePolicy}
      {deadline : Instant} :
      Owns library call row policy deadline → (row.completedAt ≠ none ∨ call.now < deadline) →
      Kept library call row row' → call.identity library = .ok row'.misfirePolicy →
      Scan library call (some row) (.ok 0) (some row')
  /-- The deadline has passed and is claimed. -/
  | claimed {row row' : ScheduledTriggerRow} {policy : WorkflowTrigger.MisfirePolicy}
      {deadline next : Instant} {runs : Nat} {completed : Bool} :
      Owns library call row policy deadline → row.completedAt = none → deadline ≤ call.now →
      dueRuns library call.trigger policy deadline call.now call.recovering =
        .ok (runs, next, completed) →
      call.identity library = .ok row'.misfirePolicy →
        library.parseRfc3339 row'.nextRunAt = some next →
      row'.completedAt.isSome = completed → Scan library call (some row) (.ok runs) (some row')

/-- What a call leaves of the table. -/
def Effect (library : ScheduleLibrary) (call : ScheduleCall) (rows : ScheduledTriggers)
    (result : Except String Nat) (rows' : ScheduledTriggers) : Prop :=
  Scan library call (rows.row call.key) result (rows'.row call.key) ∧
    ∀ key, key ≠ call.key → rows'.row key = rows.row key

theorem Kept.refl (row : ScheduledTriggerRow) : Kept library call row row :=
    ⟨rfl, rfl, rfl, .inl rfl⟩

theorem kept_refl (before : Option ScheduledTriggerRow) :
    Option.Rel (Kept library call) before before := by
  cases before with
  | none => exact .none
  | some row => exact .some (.refl row)

end ScheduleCall

/-- The texts of a deadline and of the present. -/
theorem scheduleTexts_eq_ok {library : ScheduleLibrary} {nextRunAt now : Instant}
    {texts : String × String} (h : scheduleTexts library nextRunAt now = .ok texts) :
    library.formatRfc3339 nextRunAt = .ok texts.1 := by
  unfold scheduleTexts at h
  cases hdeadline : library.formatRfc3339 nextRunAt with
  | error e =>
    rw [hdeadline] at h
    cases h
  | ok deadline =>
    rw [hdeadline] at h
    cases hnow : library.formatRfc3339 now with
    | error e =>
      rw [hnow] at h
      cases h
    | ok current =>
      rw [hnow] at h
      cases h
      rfl

section Store

variable {library : ScheduleLibrary} {faults : ScheduleFaults} {rows : ScheduledTriggers}
  {bad : String → ScheduledTriggers → Prop}

theorem ensures_ensureScheduledTrigger {workflowId triggerId identity : String}
    {nextRunAt now : Instant} {resetExisting : Bool} {good : Unit → ScheduledTriggers → Prop}
    (hgood : ∀ deadline current, library.formatRfc3339 nextRunAt = .ok deadline →
      good () (rows.upsert ⟨workflowId, triggerId, deadline, none, none, identity, current⟩
        resetExisting))
    (hbad : ∀ error, bad error rows) :
    Ensures (ensureScheduledTrigger library faults workflowId triggerId nextRunAt identity now
      resetExisting) good bad rows := by
  refine ensures_bind.mpr (ensures_query.mpr ⟨fun texts htexts => ?_, fun e _ => hbad e⟩)
  refine ensures_bind.mpr (ensures_query.mpr ⟨fun _ _ => ?_, fun e _ => hbad e⟩)
  exact hgood texts.1 texts.2 (scheduleTexts_eq_ok htexts)

theorem ensures_advanceScheduledTrigger {workflowId triggerId : String} {nextRunAt now : Instant}
    {completed : Bool} {good : Unit → ScheduledTriggers → Prop}
    (hgood : ∀ deadline current, library.formatRfc3339 nextRunAt = .ok deadline →
      good () (rows.advance (workflowId, triggerId) deadline current completed))
    (hbad : ∀ error, bad error rows) :
    Ensures (advanceScheduledTrigger library faults workflowId triggerId nextRunAt completed now)
      good bad rows := by
  refine ensures_bind.mpr (ensures_query.mpr ⟨fun texts htexts => ?_, fun e _ => hbad e⟩)
  refine ensures_bind.mpr (ensures_query.mpr ⟨fun _ _ => ?_, fun e _ => hbad e⟩)
  exact hgood texts.1 texts.2 (scheduleTexts_eq_ok htexts)

/-- What a look at the table returns. -/
theorem scheduledTrigger_eq_ok {key : String × String} {existing : Option ScheduledTriggerRecord}
    (h : scheduledTrigger library faults rows key = .ok existing) :
    (existing = none ∧ rows.row key = none) ∨
      ∃ row deadline, rows.row key = some row ∧ library.parseRfc3339 row.nextRunAt = some deadline ∧
        existing = some ⟨deadline, row.completedAt, row.misfirePolicy⟩ := by
  unfold scheduledTrigger at h
  cases hfault : statement faults.read with
  | error e =>
    rw [hfault] at h
    cases h
  | ok _ =>
    rw [hfault] at h
    cases hrow : rows.row key with
    | none =>
      rw [hrow] at h
      cases h
      exact .inl ⟨rfl, rfl⟩
    | some row =>
      rw [hrow] at h
      cases hdeadline : library.parseRfc3339 row.nextRunAt with
      | none => simp [hdeadline, bind, Except.bind] at h
      | some deadline =>
        simp only [hdeadline, bind, Except.bind, Except.ok.injEq] at h
        exact .inr ⟨row, deadline, rfl, hdeadline, h.symm⟩

end Store

namespace ScheduleCall

variable {library : ScheduleLibrary} {call : ScheduleCall} {rows rows₁ : ScheduledTriggers}
  {row row₁ : ScheduledTriggerRow} {policy : WorkflowTrigger.MisfirePolicy} {deadline : Instant}

/-- Claiming, on a table whose row for the call may have been given a new identity already. -/
theorem effect_claim (hdoc : library.Documented) (howns : Owns library call row policy deadline)
    (hrow : rows.row call.key = some row) (hrow₁ : rows₁.row call.key = some row₁)
    (hkept : Kept library call row row₁)
    (hidentity : call.identity library = .ok row₁.misfirePolicy)
    (hframe : ∀ key, key ≠ call.key → rows₁.row key = rows.row key) :
    Ensures (call.claim library policy ⟨deadline, row.completedAt, row.misfirePolicy⟩)
      (fun runs => Effect library call rows (.ok runs))
        (fun e => Effect library call rows (.error e))
      rows₁ := by
  have hidle : (row.completedAt ≠ none ∨ call.now < deadline) →
      Effect library call rows (.ok 0) rows₁ := by
    intro hidle
    refine ⟨?_, hframe⟩
    rw [hrow, hrow₁]
    exact .idle howns hidle hkept hidentity
  have hfailed : ∀ error, Effect library call rows (.error error) rows₁ := by
    intro error
    refine ⟨?_, hframe⟩
    rw [hrow, hrow₁]
    exact .failed (.some hkept)
  unfold claim
  by_cases hcompleted : row.completedAt = none
  · rw [hcompleted, Option.isSome_none, if_neg Bool.false_ne_true]
    dsimp only
    by_cases hdue : call.now < deadline
    · rw [if_pos hdue]
      exact hidle (.inr hdue)
    · rw [if_neg hdue]
      refine ensures_bind.mpr (ensures_query.mpr ⟨fun outcome hruns => ?_, fun e _ => hfailed e⟩)
      obtain ⟨runs, next, completed⟩ := outcome
      refine ensures_bind.mpr
        (ensures_advanceScheduledTrigger (fun text current htext => ?_) hfailed)
      refine ⟨?_, fun key hne => ?_⟩
      · rw [hrow]
        change Scan library call (some row) (.ok runs)
          ((rows₁.advance call.key text current completed).row call.key)
        rw [ScheduledTriggers.row_advance, if_pos rfl, hrow₁]
        refine .claimed howns hcompleted (not_lt.mp hdue) hruns hidentity
          (hdoc.parse_format htext) ?_
        cases completed <;> rfl
      · change (rows₁.advance call.key text current completed).row key = _
        rw [ScheduledTriggers.row_advance, if_neg hne]
        exact hframe key hne
  · have hsome : row.completedAt.isSome = true := Option.isSome_iff_ne_none.mpr hcompleted
    rw [if_pos hsome]
    exact hidle (.inl hcompleted)

theorem identity_eq_ok {identity : String} (h : call.identity library = .ok identity) :
    ∃ policy, call.trigger.misfireConfig = .ok policy := by
  unfold ScheduleCall.identity at h
  cases hpolicy : call.trigger.misfireConfig with
  | error e =>
    rw [hpolicy] at h
    cases h
  | ok policy => exact ⟨policy, rfl⟩

/-- **What a scan can do.** -/
theorem effect_scheduleTrigger (call : ScheduleCall) (hdoc : library.Documented)
    (rows : ScheduledTriggers) :
    Ensures (call.scheduleTrigger library) (fun runs => Effect library call rows (.ok runs))
      (fun e => Effect library call rows (.error e)) rows := by
  have hfailed : ∀ error, Effect library call rows (.error error) rows :=
    fun error => ⟨.failed (kept_refl _), fun _ _ => rfl⟩
  have hkey : ∀ deadline identity current, ScheduledTriggerRow.key
      ⟨call.workflowId, call.trigger.id, deadline, none, none, identity, current⟩ = call.key :=
    fun _ _ _ => rfl
  refine ensures_bind.mpr (ensures_query.mpr ⟨fun policy hpolicy => ?_, fun e _ => hfailed e⟩)
  refine ensures_bind.mpr (ensures_query.mpr ⟨fun identity hidentity => ?_, fun e _ => hfailed e⟩)
  refine ensures_bind.mpr (ensures_query.mpr ⟨fun existing hexisting => ?_, fun e _ => hfailed e⟩)
  refine ensures_bind.mpr (ensures_query.mpr ⟨fun initial hinitial => ?_, fun e _ => hfailed e⟩)
  obtain ⟨rfl, hrow⟩ | ⟨row, deadline, hrow, hdeadline, rfl⟩ := scheduledTrigger_eq_ok hexisting
  · -- the first scan of the trigger
    refine ensures_bind.mpr (ensures_ensureScheduledTrigger (fun text current htext => ?_) hfailed)
    refine ⟨?_, fun key hne => ?_⟩
    · rw [ScheduledTriggers.row_upsert_self _ false (hkey text identity current), hrow]
      refine .started (fun old _ _ hold => ?_) hidentity hinitial (hdoc.parse_format htext) rfl rfl
      cases hold
    · rw [ScheduledTriggers.row_upsert]
      exact if_neg hne
  · dsimp only
    by_cases hsame : row.misfirePolicy = identity
    · rw [if_pos hsame]
      have howns : Owns library call row policy deadline :=
        ⟨hpolicy, .inl (hsame ▸ hidentity), hdeadline⟩
      exact effect_claim hdoc howns hrow hrow (.refl row) (hsame ▸ hidentity) fun _ _ => rfl
    · rw [if_neg hsame]
      by_cases hlegacy : row.misfirePolicy = policy.name
      · -- a row of an older version keeps its deadline under the new identity
        have howns : Owns library call row policy deadline :=
          ⟨hpolicy, .inr ⟨hlegacy, identity, hidentity⟩, hdeadline⟩
        refine ensures_bind.mpr (ensures_ensureScheduledTrigger (fun text current _ => ?_) hfailed)
        rw [if_pos (decide_eq_true hlegacy), decide_eq_true hlegacy]
        have hmerged := rows.row_upsert_self false (hkey text identity current)
        rw [hrow] at hmerged
        refine effect_claim hdoc howns hrow hmerged
          ⟨rfl, rfl, rfl, .inr ⟨hidentity, ?_⟩⟩ hidentity ?_
        · exact ⟨policy, hpolicy, hlegacy⟩
        · intro key hne
          rw [Bool.not_true, ScheduledTriggers.row_upsert]
          exact if_neg hne
      · refine ensures_bind.mpr
          (ensures_ensureScheduledTrigger (fun text current htext => ?_) hfailed)
        rw [if_neg (by simpa using hlegacy), decide_eq_false hlegacy]
        refine ⟨?_, fun key hne => ?_⟩
        · rw [Bool.not_false, ScheduledTriggers.row_upsert_self _ true
            (hkey text identity current), hrow]
          refine .started (fun old policy' deadline' hold howns => ?_) hidentity hinitial
            (hdoc.parse_format htext) rfl rfl
          obtain rfl := Option.some_injective _ hold
          obtain hid | ⟨hname, -⟩ := howns.identity
          · exact hsame (Except.ok.inj (hid.symm.trans hidentity))
          · exact hlegacy (by rw [hname, Except.ok.inj (howns.policy_eq.symm.trans hpolicy)])
        · rw [Bool.not_false, ScheduledTriggers.row_upsert]
          exact if_neg hne

/-- The scan of a call, run on a table. -/
theorem effect_exec (call : ScheduleCall) (hdoc : library.Documented) (rows : ScheduledTriggers) :
    Effect library call rows ((call.scheduleTrigger library).exec rows).1
      ((call.scheduleTrigger library).exec rows).2 := by
  have h := effect_scheduleTrigger call hdoc rows
  unfold Ensures at h
  generalize (call.scheduleTrigger library).exec rows = outcome at h ⊢
  obtain ⟨result | result, rows'⟩ := outcome <;> exact h

end ScheduleCall

end KakuneCore
