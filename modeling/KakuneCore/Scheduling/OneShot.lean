import KakuneCore.Scheduling.Accounting

/-!
# One-shot triggers

A date and time trigger is completed by the scan that claims it, and a completed schedule starts no
run. The row belongs to a schedule identity, and every edit of the workflow draws a new revision,
hence a new identity: the first scan after it resets the row. So a one-shot trigger fires at most
once **in a revision** of its workflow, and once more after each edit.
-/

namespace KakuneCore

open Attempt

/-! ### The scheduler of one trigger -/

/-- What the scheduler and the store know about one trigger: the durable rows, the revision of its
workflow and whether that is enabled, and whether this run of the Core has scanned it
(`seen_schedules`). -/
structure SchedulerState where
  rows : ScheduledTriggers := []
  revision : String
  enabled : Bool := true
  seen : Bool := false

inductive SchedulerEvent
  /-- `refresh` comes to the trigger. -/
  | scan (now : Instant) (faults : ScheduleFaults)
  /-- The Core is started again. -/
  | restart
  | setEnabled (enabled : Bool)
  /-- The workflow gets another source, with the same trigger. -/
  | edit (revision : String)
  /-- `refresh` comes to another trigger. -/
  | other (call : ScheduleCall)

section Machine

variable (library : ScheduleLibrary) (workflowId : String) (trigger : WorkflowTrigger)

/-- The call of `refresh`. -/
def SchedulerState.call (state : SchedulerState) (now : Instant) (faults : ScheduleFaults) :
    ScheduleCall where
  workflowId := workflowId
  trigger := trigger
  revision := state.revision
  now := now
  recovering := !state.seen
  faults := faults

/-- One event. -/
def SchedulerState.step (state : SchedulerState) : SchedulerEvent → SchedulerState
  | .scan now faults =>
    if state.enabled then
      let call := state.call workflowId trigger now faults
      { state with
        rows := call.after library state.rows
        seen := state.seen || (call.outcome library state.rows).toBool }
    else state
  | .restart => { state with seen := false }
  | .setEnabled enabled => { state with enabled := enabled }
  | .edit revision => { state with revision := revision }
  | .other call => { state with rows := call.after library state.rows }

/-- The runs of the trigger that an event starts. -/
def SchedulerState.runs (state : SchedulerState) : SchedulerEvent → Nat
  | .scan now faults =>
    if state.enabled then
      match (state.call workflowId trigger now faults).outcome library state.rows with
      | .ok runs => runs
      | .error _ => 0
    else 0
  | _ => 0

/-- The runs that a history starts while the workflow has a revision. -/
def runsUnder (revision : String) : SchedulerState → List SchedulerEvent → Nat
  | _, [] => 0
  | state, event :: events =>
    (if state.revision = revision then state.runs library workflowId trigger event else 0) +
      runsUnder revision (state.step library workflowId trigger event) events

/-- All runs of a history. -/
def totalRuns : SchedulerState → List SchedulerEvent → Nat
  | _, [] => 0
  | state, event :: events =>
    state.runs library workflowId trigger event +
      totalRuns (state.step library workflowId trigger event) events

end Machine

/-- The revisions that edits draw. -/
def edits (events : List SchedulerEvent) : List String :=
  events.filterMap fun
    | .edit revision => some revision
    | _ => none

/-! ### One claim completes the schedule -/

section OneShot

variable {library : ScheduleLibrary} {workflowId : String} {trigger : WorkflowTrigger}
  {state : SchedulerState} {events : List SchedulerEvent} {revision : String}

theorem dueRuns_oneShot {policy : WorkflowTrigger.MisfirePolicy} {deadline now next : Instant}
    {recovering completed : Bool} {runs : Nat} (hshot : trigger.isOneShot = true)
    (h : dueRuns library trigger policy deadline now recovering = .ok (runs, next, completed)) :
    runs ≤ 1 ∧ completed = true := by
  have hsingle : ∀ n ≤ 1, (do
      let next ← nextDueAfter library trigger now
      pure (n, next, trigger.isOneShot) : Except String (Nat × Instant × Bool)) =
        .ok (runs, next, completed) → runs ≤ 1 ∧ completed = true := by
    intro n hn h
    cases hnext : nextDueAfter library trigger now with
    | error e =>
      rw [hnext] at h
      cases h
    | ok later =>
      rw [hnext] at h
      cases h
      exact ⟨hn, hshot⟩
  unfold dueRuns at h
  by_cases hrecovering : recovering = false
  · rw [if_pos hrecovering] at h
    exact hsingle 1 le_rfl h
  · rw [if_neg hrecovering] at h
    cases policy with
    | skip => exact hsingle 0 (Nat.zero_le 1) h
    | runOnce => exact hsingle 1 le_rfl h
    | catchUp limit =>
      dsimp only at h
      rw [if_pos hshot] at h
      cases h
      exact ⟨le_rfl, rfl⟩

/-- The schedule of the trigger in the present revision is completed. -/
def SchedulerState.Done (library : ScheduleLibrary) (workflowId : String)
    (trigger : WorkflowTrigger)
    (state : SchedulerState) : Prop :=
  ∃ row deadline, state.rows.row (workflowId, trigger.id) = some row ∧
    (state.call workflowId trigger 0 {}).identity library = .ok row.misfirePolicy ∧
    library.parseRfc3339 row.nextRunAt = some deadline ∧ row.completedAt ≠ none

/-- A row says that the schedule of a call is completed. -/
def ScheduleCall.CompletedIn (library : ScheduleLibrary) (call : ScheduleCall)
    (row : Option ScheduledTriggerRow) : Prop :=
  ∃ row' deadline, row = some row' ∧ call.identity library = .ok row'.misfirePolicy ∧
    library.parseRfc3339 row'.nextRunAt = some deadline ∧ row'.completedAt ≠ none

theorem ScheduleCall.CompletedIn.kept {call : ScheduleCall}
    {before later : Option ScheduledTriggerRow} (h : call.CompletedIn library before)
    (hrel : Option.Rel (ScheduleCall.Kept library call) before later) :
    call.CompletedIn library later := by
  obtain ⟨row, deadline, rfl, hid, hdeadline, hcompleted⟩ := h
  cases hrel with
  | @some _ row' hkept =>
    refine ⟨row', deadline, rfl, ?_, ?_, ?_⟩
    · obtain rfl | ⟨hid', -⟩ := hkept.identity
      · exact hid
      · exact hid'
    · rw [hkept.nextRunAt, hdeadline]
    · rw [hkept.completedAt]
      exact hcompleted

/-- A scan of a one-shot trigger: at most one run, none of a completed schedule, and a run
completes the schedule. -/
theorem scan_oneShot (hdoc : library.Documented) (hshot : trigger.isOneShot = true) (now : Instant)
    (faults : ScheduleFaults) :
    state.runs library workflowId trigger (.scan now faults) ≤ 1 ∧
      (0 < state.runs library workflowId trigger (.scan now faults) →
        (state.step library workflowId trigger (.scan now faults)).Done library workflowId
          trigger) ∧
      (state.Done library workflowId trigger →
        state.runs library workflowId trigger (.scan now faults) = 0 ∧
          (state.step library workflowId trigger (.scan now faults)).Done library workflowId
            trigger) := by
  by_cases henabled : state.enabled = true
  · set call := state.call workflowId trigger now faults with hcall
    have hruns : state.runs library workflowId trigger (.scan now faults) =
        match call.outcome library state.rows with
        | .ok runs => runs
        | .error _ => 0 := if_pos henabled
    have hrows : (state.step library workflowId trigger (.scan now faults)).rows =
        call.after library state.rows := by
      simp only [SchedulerState.step, if_pos henabled, hcall]
    have hrevision : (state.step library workflowId trigger (.scan now faults)).revision =
        state.revision := by
      simp only [SchedulerState.step, if_pos henabled]
    have hidentity : ∀ s : SchedulerState, s.revision = state.revision →
        (s.call workflowId trigger 0 {}).identity library = call.identity library :=
      fun s hs => ScheduleCall.identity_congr rfl hs
    have hdone : (state.step library workflowId trigger (.scan now faults)).Done library workflowId
        trigger ↔ call.CompletedIn library ((call.after library state.rows).row call.key) := by
      unfold SchedulerState.Done
      rw [hrows, hidentity _ hrevision]
      rfl
    have hbefore : state.Done library workflowId trigger ↔
        call.CompletedIn library (state.rows.row call.key) := by
      unfold SchedulerState.Done
      rw [hidentity state rfl]
      rfl
    have hscan := (ScheduleCall.effect_exec call hdoc state.rows).1
    change ScheduleCall.Scan library call (state.rows.row call.key)
      (call.outcome library state.rows)
      ((call.after library state.rows).row call.key) at hscan
    rw [hruns, hdone, hbefore]
    generalize state.rows.row call.key = before at hscan ⊢
    generalize (call.after library state.rows).row call.key = later at hscan ⊢
    generalize call.outcome library state.rows = result at hscan ⊢
    cases hscan with
    | failed hrel =>
      exact ⟨Nat.zero_le 1, fun h => absurd h (lt_irrefl 0), fun h => ⟨rfl, h.kept hrel⟩⟩
    | started hnot _ _ _ _ _ =>
      refine ⟨Nat.zero_le 1, fun h => absurd h (lt_irrefl 0), ?_⟩
      rintro ⟨row, deadline, rfl, hid, hdeadline, -⟩
      obtain ⟨policy, hpolicy⟩ := ScheduleCall.identity_eq_ok hid
      exact absurd ⟨hpolicy, .inl hid, hdeadline⟩ (hnot row policy deadline rfl)
    | idle _ _ hkept _ =>
      exact ⟨Nat.zero_le 1, fun h => absurd h (lt_irrefl 0), fun h => ⟨rfl, h.kept (.some hkept)⟩⟩
    | claimed howns hopen _ hdue hid hnext hcompleted =>
      obtain ⟨hle, hdone⟩ := dueRuns_oneShot hshot hdue
      refine ⟨hle, fun _ => ⟨_, _, rfl, hid, hnext, ?_⟩, ?_⟩
      · rw [← Option.isSome_iff_ne_none, hcompleted, hdone]
      · rintro ⟨row, deadline, hrow, -, -, hclosed⟩
        obtain rfl := Option.some_injective _ hrow
        exact absurd hopen hclosed
  · have hruns : state.runs library workflowId trigger (.scan now faults) = 0 := if_neg henabled
    have hstep : state.step library workflowId trigger (.scan now faults) = state := if_neg henabled
    rw [hruns, hstep]
    exact ⟨Nat.zero_le 1, fun h => absurd h (lt_irrefl 0), fun h => ⟨rfl, h⟩⟩

/-- **One event.** All but an edit keep the revision, start at most one run, none of a completed
schedule, and complete the schedule with it. -/
theorem step_oneShot (state : SchedulerState) (hdoc : library.Documented)
    (hshot : trigger.isOneShot = true)
    {event : SchedulerEvent} (hedit : ∀ revision, event ≠ .edit revision)
    (hother : ∀ call, event = .other call → call.key ≠ (workflowId, trigger.id)) :
    (state.step library workflowId trigger event).revision = state.revision ∧
      state.runs library workflowId trigger event ≤ 1 ∧
      (0 < state.runs library workflowId trigger event →
        (state.step library workflowId trigger event).Done library workflowId trigger) ∧
      (state.Done library workflowId trigger →
        state.runs library workflowId trigger event = 0 ∧
          (state.step library workflowId trigger event).Done library workflowId trigger) := by
  cases event with
  | scan now faults =>
    refine ⟨?_, scan_oneShot hdoc hshot now faults⟩
    rw [SchedulerState.step]
    by_cases henabled : state.enabled = true
    · rw [if_pos henabled]
    · rw [if_neg henabled]
  | edit revision => exact absurd rfl (hedit revision)
  | restart => exact ⟨rfl, Nat.zero_le 1, fun h => absurd h (lt_irrefl 0), fun h => ⟨rfl, h⟩⟩
  | setEnabled enabled =>
    exact ⟨rfl, Nat.zero_le 1, fun h => absurd h (lt_irrefl 0), fun h => ⟨rfl, h⟩⟩
  | other call =>
    refine ⟨rfl, Nat.zero_le 1, fun h => absurd h (lt_irrefl 0), ?_⟩
    rintro ⟨row, deadline, hrow, hdone⟩
    -- another trigger's scan leaves the row of this one alone
    have hframe := (ScheduleCall.effect_exec call hdoc state.rows).2 _
      (hother call rfl).symm
    exact ⟨rfl, row, deadline, hframe.trans hrow, hdone⟩

theorem edits_cons_of_ne {event : SchedulerEvent} (h : ∀ revision, event ≠ .edit revision) :
    edits (event :: events) = edits events := by
  cases event with
  | edit revision => exact absurd rfl (h revision)
  | scan _ _ | restart | setEnabled _ | other _ => rfl

/-- At most one run for the present revision and for each edit, none for it if the schedule is
completed already. -/
theorem totalRuns_le (hdoc : library.Documented) (hshot : trigger.isOneShot = true)
    (hother : ∀ call, .other call ∈ events → call.key ≠ (workflowId, trigger.id)) :
    totalRuns library workflowId trigger state events ≤ (edits events).length + 1 ∧
      (state.Done library workflowId trigger →
        totalRuns library workflowId trigger state events ≤ (edits events).length) := by
  induction events generalizing state with
  | nil => exact ⟨Nat.zero_le _, fun _ => Nat.zero_le _⟩
  | cons event events ih =>
    have hrest : ∀ call, .other call ∈ events → call.key ≠ (workflowId, trigger.id) :=
      fun call hcall => hother call (List.mem_cons_of_mem _ hcall)
    obtain ⟨hany, hdone⟩ := @ih (state.step library workflowId trigger event) hrest
    rw [totalRuns]
    by_cases hedit : ∃ revision, event = .edit revision
    · obtain ⟨revision, rfl⟩ := hedit
      have hlength : (edits (.edit revision :: events)).length = (edits events).length + 1 := rfl
      have hnone : state.runs library workflowId trigger (.edit revision) = 0 := rfl
      rw [hlength, hnone]
      omega
    · have hne : ∀ revision, event ≠ .edit revision := fun revision h => hedit ⟨revision, h⟩
      obtain ⟨-, hle, hfires, hkeeps⟩ := step_oneShot state hdoc hshot hne
        fun call hcall => hother call (hcall ▸ List.mem_cons_self)
      rw [edits_cons_of_ne hne]
      constructor
      · by_cases hpos : 0 < state.runs library workflowId trigger event
        · have := hdone (hfires hpos)
          omega
        · omega
      · intro h
        obtain ⟨hzero, hstays⟩ := hkeeps h
        have := hdone hstays
        omega

/-- A revision that the workflow neither has nor gets starts no run, and one that comes only once
starts at most one. -/
theorem runsUnder_le (hdoc : library.Documented) (hshot : trigger.isOneShot = true)
    (hother : ∀ call, .other call ∈ events → call.key ≠ (workflowId, trigger.id))
    (hfresh : (state.revision :: edits events).Nodup) :
    (∀ revision, runsUnder library workflowId trigger revision state events ≤ 1) ∧
      (state.Done library workflowId trigger →
        runsUnder library workflowId trigger state.revision state events = 0) ∧
      ∀ revision, revision ∉ state.revision :: edits events →
        runsUnder library workflowId trigger revision state events = 0 := by
  induction events generalizing state with
  | nil => exact ⟨fun _ => Nat.zero_le 1, fun _ => rfl, fun _ _ => rfl⟩
  | cons event events ih =>
    have hrest : ∀ call, .other call ∈ events → call.key ≠ (workflowId, trigger.id) :=
      fun call hcall => hother call (List.mem_cons_of_mem _ hcall)
    by_cases hedit : ∃ revision, event = .edit revision
    · obtain ⟨next, rfl⟩ := hedit
      have hedits : edits (.edit next :: events) = next :: edits events := rfl
      rw [hedits] at hfresh ⊢
      obtain ⟨hone, -, hnever⟩ := @ih { state with revision := next } hrest
        (List.nodup_cons.mp hfresh).2
      have hstep : ∀ revision, runsUnder library workflowId trigger revision state
          (.edit next :: events) = runsUnder library workflowId trigger revision
            { state with revision := next } events := by
        intro revision
        rw [runsUnder]
        change (if _ then 0 else 0) + _ = _
        rw [ite_self, Nat.zero_add]
        rfl
      refine ⟨fun revision => ?_, fun _ => ?_, fun revision hnot => ?_⟩
      · rw [hstep]
        exact hone revision
      · rw [hstep]
        exact hnever _ (List.nodup_cons.mp hfresh).1
      · rw [hstep]
        exact hnever _ fun hmem => hnot (List.mem_cons_of_mem _ hmem)
    · have hne : ∀ revision, event ≠ .edit revision := fun revision h => hedit ⟨revision, h⟩
      obtain ⟨hsame, hle, hfires, hkeeps⟩ := step_oneShot state hdoc hshot hne
        fun call hcall => hother call (hcall ▸ List.mem_cons_self)
      rw [edits_cons_of_ne hne] at hfresh ⊢
      obtain ⟨hone, hdone, hnever⟩ := @ih (state.step library workflowId trigger event) hrest
        (by rwa [hsame])
      rw [hsame] at hdone hnever
      refine ⟨fun revision => ?_, fun h => ?_, fun revision hnot => ?_⟩
      · rw [runsUnder]
        by_cases hrevision : state.revision = revision
        · subst hrevision
          rw [if_pos rfl]
          by_cases hpos : 0 < state.runs library workflowId trigger event
          · rw [hdone (hfires hpos)]
            exact hle
          · rw [Nat.eq_zero_of_not_pos hpos, Nat.zero_add]
            exact hone _
        · rw [if_neg hrevision, Nat.zero_add]
          exact hone revision
      · obtain ⟨hzero, hstays⟩ := hkeeps h
        rw [runsUnder, if_pos rfl, hzero, hdone hstays]
      · have hrevision : state.revision ≠ revision := fun heq => hnot (heq ▸ List.mem_cons_self)
        rw [runsUnder, if_neg hrevision, hnever revision hnot]

end OneShot

/-- **One-shot triggers fire at most once in a revision**, from any table, over any history of
scans, restarts, disabling, enabling and edits, under every policy: a revision that comes only once
starts at most one run, and a history at most one more than it has edits. -/
theorem oneShot_fires_once_in_a_revision (library : ScheduleLibrary) (hdoc : library.Documented)
    (workflowId : String) (trigger : WorkflowTrigger) (hkind : trigger.kind = .datetime)
    (start : SchedulerState) (events : List SchedulerEvent)
    (hother : ∀ call, .other call ∈ events → call.key ≠ (workflowId, trigger.id)) :
    totalRuns library workflowId trigger start events ≤ (edits events).length + 1 ∧
      ((start.revision :: edits events).Nodup → ∀ revision,
        runsUnder library workflowId trigger revision start events ≤ 1) := by
  have hshot : trigger.isOneShot = true := decide_eq_true hkind
  exact ⟨(totalRuns_le hdoc hshot hother).1,
    fun hfresh => (runsUnder_le hdoc hshot hother hfresh).1⟩

/-- One minute past midnight. -/
def alarm : WorkflowTrigger where
  id := "alarm"
  nodeType := "kakune.trigger.datetime@1"
  config := [("at", .string "1970-01-01T00:01:00Z")]

def alarmLibrary : ScheduleLibrary :=
  clockLibrary "8df96d6001856e456d017141b8ef850074857d74e027f7398d527f0bea3e5a7c"

/-- The scheduler sees the trigger in time and finds it due. Then the workflow is renamed. -/
def alarmHistory : List SchedulerEvent :=
  [.scan 0 {}, .scan 120000000000 {}, .edit "r2", .scan 300000000000 {}, .scan 360000000000 {}]

theorem alarm_fires_once_in_a_revision :
    totalRuns alarmLibrary "sample" alarm { revision := "r1" } alarmHistory ≤ 2 ∧
      runsUnder alarmLibrary "sample" alarm "r1" { revision := "r1" } alarmHistory ≤ 1 := by
  have h := oneShot_fires_once_in_a_revision alarmLibrary (documented_clockLibrary _) "sample" alarm
    (by rfl) { revision := "r1" } alarmHistory (by simp [alarmHistory])
  exact ⟨h.1, h.2 (by decide) "r1"⟩

/-- The trigger fires once more after the edit, five minutes after its moment. -/
theorem alarm_fires_again_after_edit :
    alarmLibrary.Documented ∧
      totalRuns alarmLibrary "sample" alarm { revision := "r1" } alarmHistory = 2 :=
  ⟨documented_clockLibrary _, by rfl⟩

end KakuneCore
