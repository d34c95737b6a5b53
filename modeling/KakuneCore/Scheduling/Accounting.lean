import KakuneCore.Scheduling.Schedule

/-!
# Schedule accounting

For one interval or cron trigger in one revision of its workflow, over any sequence of scans: a scan
that claims a deadline moves it **behind the present**, so no later scan counts an occurrence that
was counted before. A scan starts at most one run; the first one after a start, under `catchUp`,
starts as many as there are occurrences to catch up with, up to the limit. A scan that fails moves
nothing.
-/

namespace KakuneCore

open Attempt

/-! ### Deadlines move forward -/

section Forward

variable {library : ScheduleLibrary} {trigger : WorkflowTrigger}

theorem orError_eq_ok {α : Type} {value : Option α} {message : String} {a : α} :
    WorkflowTrigger.orError value message = .ok a ↔ value = some a := by
  cases value <;> simp [WorkflowTrigger.orError]

theorem intervalSeconds_pos {seconds : Nat} (h : trigger.intervalSeconds = .ok seconds) :
    0 < seconds := by
  unfold WorkflowTrigger.intervalSeconds at h
  simp only [bind, Except.bind] at h
  split at h
  · cases h
  split at h
  · cases h
  rw [orError_eq_ok, Option.filter_eq_some_iff] at h
  exact of_decide_eq_true h.2

theorem nextInterval_eq_ok {after next : Instant}
    (h : nextInterval library trigger after = .ok next) :
    ∃ seconds, trigger.intervalSeconds = .ok seconds ∧
      library.checkedAddSeconds after seconds = some next := by
  unfold nextInterval at h
  cases hseconds : trigger.intervalSeconds with
  | error e =>
    rw [hseconds] at h
    cases h
  | ok seconds =>
    rw [hseconds] at h
    simp only [bind, Except.bind] at h
    cases hfilter : (some seconds).filter (· < 2 ^ 63) with
    | none =>
      rw [hfilter] at h
      cases h
    | some small =>
      obtain rfl : seconds = small :=
        Option.some_injective _ (Option.filter_eq_some_iff.mp hfilter).1
      rw [hfilter] at h
      exact ⟨seconds, rfl, orError_eq_ok.mp h⟩

/-- The deadlines of an interval or cron trigger move forward. -/
theorem advances_nextDueAfter (hdoc : library.Documented)
    (hkind : trigger.kind = .interval ∨ trigger.kind = .cron)
    (hcron : trigger.kind = .cron →
      Recurrence.Advances (trigger.cronNextDue library.toTimeLibrary)) :
    Recurrence.Advances (nextDueAfter library trigger) := by
  intro after next h
  obtain hinterval | hcronKind := hkind
  · rw [nextDueAfter, hinterval] at h
    obtain ⟨seconds, hseconds, hsum⟩ := nextInterval_eq_ok h
    have hpos := intervalSeconds_pos hseconds
    have hlater : next = after + seconds * 10 ^ 9 := hdoc.add_seconds hsum
    have hstep : (0 : Int) < seconds * 10 ^ 9 := by positivity
    change (after : Int) < next
    rw [hlater]
    exact Int.lt_add_of_pos_right after hstep
  · rw [nextDueAfter, hcronKind] at h
    exact hcron hcronKind _ _ h

theorem not_isOneShot (hkind : trigger.kind = .interval ∨ trigger.kind = .cron) :
    trigger.isOneShot = false := by
  obtain h | h := hkind <;> simp [WorkflowTrigger.isOneShot, h]

/-- What a claimed deadline comes to, by the policy. -/
inductive Claim (library : ScheduleLibrary) (trigger : WorkflowTrigger)
    (policy : WorkflowTrigger.MisfirePolicy) (deadline now : Instant) (recovering : Bool) :
    Nat → Prop
  | once : (recovering = false ∨ policy = .runOnce) →
      Claim library trigger policy deadline now recovering 1
  | skipped :
      recovering = true → policy = .skip → Claim library trigger policy deadline now recovering 0
  | caughtUp {limit runs : Nat} {last : Instant} : recovering = true → policy = .catchUp limit →
      Recurrence.catchUp (nextDueAfter library trigger) now limit deadline = .ok (runs, last) →
      Claim library trigger policy deadline now recovering runs

/-- **A claim moves the deadline behind the present.** -/
theorem claim_of_dueRuns {policy : WorkflowTrigger.MisfirePolicy} {deadline now next : Instant}
    {recovering completed : Bool} {runs : Nat}
    (hadvances : Recurrence.Advances (nextDueAfter library trigger))
    (hshot : trigger.isOneShot = false)
    (h : dueRuns library trigger policy deadline now recovering = .ok (runs, next, completed)) :
    Claim library trigger policy deadline now recovering runs ∧ now < next ∧ completed = false := by
  have hsingle : ∀ n : Nat, (do
      let next ← nextDueAfter library trigger now
      pure (n, next, trigger.isOneShot) : Except String (Nat × Instant × Bool)) =
        .ok (runs, next, completed) → runs = n ∧ now < next ∧ completed = false := by
    intro n h
    cases hnext : nextDueAfter library trigger now with
    | error e =>
      rw [hnext] at h
      cases h
    | ok later =>
      rw [hnext] at h
      cases h
      exact ⟨rfl, hadvances _ _ hnext, hshot⟩
  unfold dueRuns at h
  by_cases hrecovering : recovering = false
  · rw [if_pos hrecovering] at h
    obtain ⟨rfl, hlt, hcompleted⟩ := hsingle 1 h
    exact ⟨.once (.inl hrecovering), hlt, hcompleted⟩
  · rw [if_neg hrecovering] at h
    rw [Bool.not_eq_false] at hrecovering
    cases policy with
    | skip =>
      obtain ⟨rfl, hlt, hcompleted⟩ := hsingle 0 h
      exact ⟨.skipped hrecovering rfl, hlt, hcompleted⟩
    | runOnce =>
      obtain ⟨rfl, hlt, hcompleted⟩ := hsingle 1 h
      exact ⟨.once (.inr rfl), hlt, hcompleted⟩
    | catchUp limit =>
      rw [hshot] at h
      change (Recurrence.catchUp (nextDueAfter library trigger) now limit deadline >>= fun result =>
        if result.2 ≤ now then nextDueAfter library trigger now >>= fun next =>
          pure (result.1, next, false)
        else pure (result.1, result.2, false)) = .ok (runs, next, completed) at h
      cases hcatch : Recurrence.catchUp (nextDueAfter library trigger) now limit deadline with
      | error e =>
        rw [hcatch] at h
        cases h
      | ok result =>
        obtain ⟨count, last⟩ := result
        rw [hcatch] at h
        change (if last ≤ now then nextDueAfter library trigger now >>= fun next =>
            pure (count, next, false)
          else pure (count, last, false)) = .ok (runs, next, completed) at h
        by_cases hlast : last ≤ now
        · rw [if_pos hlast] at h
          cases hnext : nextDueAfter library trigger now with
          | error e =>
            rw [hnext] at h
            cases h
          | ok later =>
            rw [hnext] at h
            cases h
            exact ⟨.caughtUp hrecovering rfl hcatch, hadvances _ _ hnext, rfl⟩
        · rw [if_neg hlast] at h
          cases h
          exact ⟨.caughtUp hrecovering rfl hcatch, not_le.mp hlast, rfl⟩

end Forward

/-! ### One scan -/

namespace ScheduleCall

section Scan

variable (library : ScheduleLibrary) (rows : ScheduledTriggers) (call : ScheduleCall)

/-- What the scan returns. -/
def outcome : Except String Nat := ((call.scheduleTrigger library).exec rows).1

/-- The table after the scan. -/
def after : ScheduledTriggers := ((call.scheduleTrigger library).exec rows).2

/-- The schedule of the call is stored, with this deadline, and is not completed. -/
def Pending (deadline : Instant) : Prop :=
  ∃ row policy, rows.row call.key = some row ∧ Owns library call row policy deadline ∧
    row.completedAt = none

/-- The occurrences the runs of the scan stand for: the first ones from the stored deadline on. -/
def counted : List Instant :=
  match call.outcome library rows, (rows.row call.key).bind fun row =>
      library.parseRfc3339 row.nextRunAt with
  | .ok runs, some deadline => Recurrence.firsts (nextDueAfter library call.trigger) runs deadline
  | _, _ => []

/-- The account of a scan that returned. -/
structure Account (runs : Nat) : Prop where
  /-- A deadline that has passed is moved behind the present. -/
  advanced : ∀ deadline ≤ call.now, call.Pending library rows deadline →
    ∃ row next, (call.after library rows).row call.key = some row ∧
      library.parseRfc3339 row.nextRunAt = some next ∧ call.now < next
  at_most_one :
      (∀ limit, call.recovering = true → call.trigger.misfireConfig ≠ .ok (.catchUp limit)) →
    runs ≤ 1
  limited : ∀ limit, call.recovering = true → call.trigger.misfireConfig = .ok (.catchUp limit) →
    runs ≤ limit
  caught_up : ∀ limit deadline, call.recovering = true →
    call.trigger.misfireConfig = .ok (.catchUp limit) → call.Pending library rows deadline →
    runs = min limit
      (Recurrence.Between (nextDueAfter library call.trigger) deadline call.now).ncard
  skipped : call.recovering = true → call.trigger.misfireConfig = .ok .skip → runs = 0
  /-- Only a deadline that has passed starts runs. -/
  due : 0 < runs → ∃ deadline ≤ call.now, call.Pending library rows deadline
  counted_length : (call.counted library rows).length = runs

end Scan

variable {library : ScheduleLibrary} {rows : ScheduledTriggers} {call : ScheduleCall}
  {row : ScheduledTriggerRow} {policy : WorkflowTrigger.MisfirePolicy} {deadline : Instant}
  {runs : Nat}

theorem Pending.unique {deadline' : Instant} (h : call.Pending library rows deadline)
    (h' : call.Pending library rows deadline') : deadline = deadline' := by
  obtain ⟨row, policy, hrow, howns, -⟩ := h
  obtain ⟨row', policy', hrow', howns', -⟩ := h'
  obtain rfl := Option.some_injective _ (hrow.symm.trans hrow')
  exact Option.some_injective _ (howns.deadline_eq.symm.trans howns'.deadline_eq)

/-- A scan that starts no run counts nothing. -/
theorem counted_of_no_runs (h : call.outcome library rows = .ok 0) :
    call.counted library rows = [] := by
  unfold counted
  rw [h]
  cases (rows.row call.key).bind fun row => library.parseRfc3339 row.nextRunAt <;> rfl

theorem counted_of_pending (h : call.outcome library rows = .ok runs)
    (hrow : rows.row call.key = some row)
    (hdeadline : library.parseRfc3339 row.nextRunAt = some deadline) :
    call.counted library rows =
      Recurrence.firsts (nextDueAfter library call.trigger) runs deadline := by
  unfold counted
  rw [h, hrow, Option.bind_some, hdeadline]

/-- The account of a scan that found no deadline to claim. -/
theorem account_of_idle (h : call.outcome library rows = .ok 0)
    (hnot : ∀ deadline ≤ call.now, ¬ call.Pending library rows deadline)
    (hadvances : Recurrence.Advances (nextDueAfter library call.trigger)) :
    call.Account library rows 0 where
  advanced deadline hle hpending := absurd hpending (hnot deadline hle)
  at_most_one _ := Nat.zero_le 1
  limited _ _ _ := Nat.zero_le _
  caught_up limit deadline _ _ hpending := by
    have hlt : call.now < deadline := not_le.mp fun hle => hnot deadline hle hpending
    rw [Recurrence.between_eq_empty hadvances hlt, Set.ncard_empty, Nat.min_zero]
  skipped _ _ := rfl
  due hpos := absurd hpos (Nat.lt_irrefl 0)
  counted_length := by rw [counted_of_no_runs h, List.length_nil]

/-- The account of a scan that claimed a deadline. -/
theorem account_of_claim {row' : ScheduledTriggerRow} {next : Instant}
    (h : call.outcome library rows = .ok runs) (hrow : rows.row call.key = some row)
    (howns : Owns library call row policy deadline) (hopen : row.completedAt = none)
    (hdue : deadline ≤ call.now)
    (hclaim : Claim library call.trigger policy deadline call.now call.recovering runs)
    (hrow' : (call.after library rows).row call.key = some row')
    (hnext : library.parseRfc3339 row'.nextRunAt = some next) (hlt : call.now < next)
    (hadvances : Recurrence.Advances (nextDueAfter library call.trigger)) :
    call.Account library rows runs := by
  have hpending : call.Pending library rows deadline := ⟨row, policy, hrow, howns, hopen⟩
  have hpolicy : ∀ {policy'}, call.trigger.misfireConfig = .ok policy' → policy' = policy :=
    fun h' => Except.ok.inj (h'.symm.trans howns.policy_eq)
  have hcounted := counted_of_pending h hrow howns.deadline_eq
  refine ⟨fun _ _ _ => ⟨row', next, hrow', hnext, hlt⟩, fun hnot => ?_, fun limit hrec hlim => ?_,
    fun limit deadline' hrec hlim hpending' => ?_, fun hrec hskip => ?_,
    fun _ => ⟨deadline, hdue, hpending⟩, ?_⟩
  · cases hclaim with
    | once _ => exact le_rfl
    | skipped _ _ => exact Nat.zero_le 1
    | caughtUp hrec hcatch _ => exact absurd (hcatch ▸ howns.policy_eq) (hnot _ hrec)
  · obtain rfl := hpolicy hlim
    cases hclaim with
    | once hcase =>
      obtain hcase | hcase := hcase
      · rw [hrec] at hcase
        cases hcase
      · cases hcase
    | skipped _ hcase => cases hcase
    | caughtUp _ hcase hcatch =>
      cases hcase
      exact Recurrence.runs_le_of_catchUp hcatch
  · obtain rfl := hpolicy hlim
    obtain rfl := hpending.unique hpending'
    cases hclaim with
    | once hcase =>
      obtain hcase | hcase := hcase
      · rw [hrec] at hcase
        cases hcase
      · cases hcase
    | skipped _ hcase => cases hcase
    | caughtUp _ hcase hcatch =>
      cases hcase
      exact Recurrence.runs_eq_of_catchUp hadvances hcatch
  · obtain rfl := hpolicy hskip
    cases hclaim with
    | once hcase =>
      obtain hcase | hcase := hcase
      · rw [hrec] at hcase
        cases hcase
      · cases hcase
    | skipped _ _ => rfl
    | caughtUp _ hcase _ => cases hcase
  · rw [hcounted]
    cases hclaim with
    | once _ =>
      rw [Recurrence.firsts]
      cases nextDueAfter library call.trigger deadline <;> rfl
    | skipped _ _ => rfl
    | caughtUp _ _ hcatch => exact Recurrence.length_firsts_of_catchUp hcatch

/-- A trigger whose deadlines move forward. -/
structure Recurs (library : ScheduleLibrary) (trigger : WorkflowTrigger) : Prop where
  advances : Recurrence.Advances (nextDueAfter library trigger)
  isOneShot : trigger.isOneShot = false

/-- **Every scan that returns keeps its account.** -/
theorem account_of_outcome (hdoc : library.Documented) (hrecurs : Recurs library call.trigger)
    (h : call.outcome library rows = .ok runs) : call.Account library rows runs := by
  have heffect := (effect_exec call hdoc rows).1
  change Scan library call (rows.row call.key) (call.outcome library rows)
    ((call.after library rows).row call.key) at heffect
  generalize hbefore : rows.row call.key = before at heffect
  generalize hafter : (call.after library rows).row call.key = later at heffect
  rw [h] at heffect
  cases heffect with
  | started hnot hidentity hinitial htext hopen hlast =>
    refine account_of_idle h (fun deadline _ hpending => ?_) hrecurs.advances
    obtain ⟨row, policy, hrow, howns, -⟩ := hpending
    exact hnot row policy deadline (hbefore.symm.trans hrow) howns
  | idle howns hidle hkept hidentity =>
    refine account_of_idle h (fun deadline hle hpending => ?_) hrecurs.advances
    obtain ⟨row, policy, hrow, howns', hopen⟩ := hpending
    obtain rfl := Option.some_injective _ (hrow.symm.trans hbefore)
    obtain hcompleted | hlt := hidle
    · exact hcompleted hopen
    · have hdeadline := Option.some_injective _ (howns.deadline_eq.symm.trans howns'.deadline_eq)
      rw [hdeadline] at hlt
      exact absurd hle (not_le.mpr hlt)
  | claimed howns hopen hdue hruns hidentity hnext hcompleted =>
    obtain ⟨hclaim, hlt, -⟩ := claim_of_dueRuns hrecurs.advances hrecurs.isOneShot hruns
    exact account_of_claim h hbefore howns hopen hdue hclaim hafter hnext hlt hrecurs.advances

/-- A scan that fails leaves the deadline pending. -/
theorem Pending.after_error {error : String} (hdoc : library.Documented)
    (h : call.outcome library rows = .error error) (hpending : call.Pending library rows deadline) :
    call.Pending library (call.after library rows) deadline := by
  obtain ⟨row, policy, hrow, howns, hopen⟩ := hpending
  have heffect := (effect_exec call hdoc rows).1
  change Scan library call (rows.row call.key) (call.outcome library rows)
    ((call.after library rows).row call.key) at heffect
  rw [h, hrow] at heffect
  generalize hafter : (call.after library rows).row call.key = later at heffect
  cases heffect with
  | failed hrel =>
    cases hrel with
    | @some _ row' hkept =>
      refine ⟨row', policy, hafter, ⟨howns.policy_eq, ?_, ?_⟩, hkept.completedAt.trans hopen⟩
      · obtain hsame | ⟨hidentity, -⟩ := hkept.identity
        · rw [hsame]
          exact howns.identity
        · exact .inl hidentity
      · rw [hkept.nextRunAt]
        exact howns.deadline_eq

/-! ### Many scans -/

/-- The row under a key belongs to a schedule, and its deadline is later than a moment. -/
def Beyond (library : ScheduleLibrary) (identity : String) (key : String × String)
    (u : Instant) (rows : ScheduledTriggers) : Prop :=
  ∃ row deadline, rows.row key = some row ∧ row.misfirePolicy = identity ∧
    library.parseRfc3339 row.nextRunAt = some deadline ∧ u < deadline

/-- Scans do not move a deadline back. -/
theorem Beyond.after {identity : String} {key : String × String} {u : Instant}
    (hdoc : library.Documented)
    (hcall : call.key = key → Recurs library call.trigger ∧ call.identity library = .ok identity)
    (h : Beyond library identity key u rows) :
    Beyond library identity key u (call.after library rows) := by
  obtain ⟨row, deadline, hrow, hid, hdeadline, hlt⟩ := h
  have heffect := effect_exec call hdoc rows
  by_cases hkey : call.key = key
  · subst hkey
    obtain ⟨hrecurs, hidentity⟩ := hcall rfl
    obtain ⟨policy, hpolicy⟩ := identity_eq_ok hidentity
    have howns : Owns library call row policy deadline :=
      ⟨hpolicy, .inl (hid ▸ hidentity), hdeadline⟩
    have hscan := heffect.1
    change Scan library call (rows.row call.key) _ ((call.after library rows).row call.key) at hscan
    rw [hrow] at hscan
    have hkeep : ∀ row', (call.after library rows).row call.key = some row' →
        Kept library call row row' →
          Beyond library identity call.key u (call.after library rows) := by
      intro row' hrow' hkept
      refine ⟨row', deadline, hrow', ?_, hkept.nextRunAt ▸ hdeadline, hlt⟩
      obtain rfl | ⟨hidentity', -⟩ := hkept.identity
      · exact hid
      · exact Except.ok.inj (hidentity'.symm.trans hidentity)
    generalize hafter : (call.after library rows).row call.key = later at hscan
    generalize ((call.scheduleTrigger library).exec rows).1 = result at hscan
    cases hscan with
    | failed hrel =>
      cases hrel with
      | some hkept => exact hkeep _ hafter hkept
    | started hnot _ _ _ _ _ => exact absurd howns (hnot row policy deadline rfl)
    | idle _ _ hkept _ => exact hkeep _ hafter hkept
    | @claimed _ row' _ deadline' next _ _ howns' _ hdue hruns hidentity' hnext _ =>
      obtain ⟨-, hforward, -⟩ := claim_of_dueRuns hrecurs.advances hrecurs.isOneShot hruns
      obtain rfl := Option.some_injective _ (hdeadline.symm.trans howns'.deadline_eq)
      refine ⟨row', next, hafter, Except.ok.inj (hidentity'.symm.trans hidentity), hnext, ?_⟩
      exact hlt.trans (hdue.trans_lt hforward)
  · have hframe : (call.after library rows).row key = rows.row key := heffect.2 key (Ne.symm hkey)
    exact ⟨row, deadline, hframe.trans hrow, hid, hdeadline, hlt⟩

/-- What a scan counts is due, and the deadline it leaves is later. -/
theorem beyond_of_mem_counted {u : Instant} (hdoc : library.Documented)
    (hrecurs : Recurs library call.trigger) (hu : u ∈ call.counted library rows) :
    ∃ identity, call.identity library = .ok identity ∧
      Beyond library identity call.key u (call.after library rows) := by
  have heffect := (effect_exec call hdoc rows).1
  change Scan library call (rows.row call.key) (call.outcome library rows)
    ((call.after library rows).row call.key) at heffect
  generalize hbefore : rows.row call.key = before at heffect
  generalize hafter : (call.after library rows).row call.key = later at heffect
  generalize hresult : call.outcome library rows = result at heffect
  have hnone : result = .ok 0 → False := by
    rintro rfl
    rw [counted_of_no_runs hresult] at hu
    cases hu
  cases heffect with
  | failed _ =>
    unfold counted at hu
    rw [hresult] at hu
    cases hu
  | started _ _ _ _ _ _ => exact absurd rfl hnone
  | idle _ _ _ _ => exact absurd rfl hnone
  | @claimed row row' policy deadline next runs completed howns _ hdue hruns hidentity hnext _ =>
    obtain ⟨hclaim, hlt, -⟩ := claim_of_dueRuns hrecurs.advances hrecurs.isOneShot hruns
    refine ⟨row'.misfirePolicy, hidentity, row', next, hafter, rfl, hnext, ?_⟩
    rw [counted_of_pending hresult hbefore howns.deadline_eq] at hu
    have hle : u ≤ call.now := by
      cases hclaim with
      | once _ =>
        rw [Recurrence.firsts, List.mem_cons] at hu
        obtain rfl | hu := hu
        · exact hdue
        · cases hrest : nextDueAfter library call.trigger deadline <;>
            · rw [hrest] at hu
              cases hu
      | skipped _ _ => cases hu
      | caughtUp _ _ hcatch => exact Recurrence.le_now_of_mem_firsts hcatch hu
    exact hle.trans_lt hlt

/-- A scan counts nothing from before the stored deadline. -/
theorem Beyond.lt_of_mem_counted {identity : String} {u v : Instant}
    (hrecurs : Recurs library call.trigger) (h : Beyond library identity call.key u rows)
    (hv : v ∈ call.counted library rows) : u < v := by
  obtain ⟨row, deadline, hrow, -, hdeadline, hlt⟩ := h
  cases hresult : call.outcome library rows with
  | error e =>
    unfold counted at hv
    rw [hresult] at hv
    cases hv
  | ok runs =>
    rw [counted_of_pending hresult hrow hdeadline] at hv
    exact hlt.trans_le ((Recurrence.From.of_mem_firsts hv).le hrecurs.advances)

end ScheduleCall

/-- The table after a sequence of scans. -/
def scans (library : ScheduleLibrary) (start : ScheduledTriggers) (calls : List ScheduleCall) :
    ScheduledTriggers :=
  Runs.run (fun rows call => call.after library rows) start calls

theorem ScheduleCall.identity_congr {library : ScheduleLibrary} {call call' : ScheduleCall}
    (htrigger : call.trigger = call'.trigger) (hrevision : call.revision = call'.revision) :
    call.identity library = call'.identity library := by
  unfold ScheduleCall.identity
  rw [htrigger, hrevision]

/-- **Schedule accounting.** Scans of one interval or cron trigger in one revision, among scans of
other triggers, from any table: every scan that returns keeps its account, one that fails leaves the
deadline pending, and a scan counts only occurrences later than all that were counted before. -/
theorem schedules_account_for_occurrences (library : ScheduleLibrary) (hdoc : library.Documented)
    (workflowId revision : String) (trigger : WorkflowTrigger)
    (hkind : trigger.kind = .interval ∨ trigger.kind = .cron)
    (hcron : trigger.kind = .cron →
      Recurrence.Advances (trigger.cronNextDue library.toTimeLibrary))
    (start : ScheduledTriggers) (calls : List ScheduleCall)
    (hfixed : ∀ call ∈ calls, call.key = (workflowId, trigger.id) →
      call.trigger = trigger ∧ call.revision = revision) :
    (∀ before call later, calls = before ++ call :: later → call.key = (workflowId, trigger.id) →
      (∀ runs, call.outcome library (scans library start before) = .ok runs →
        call.Account library (scans library start before) runs) ∧
      ∀ error deadline, call.outcome library (scans library start before) = .error error →
        call.Pending library (scans library start before) deadline →
        call.Pending library (scans library start (before ++ [call])) deadline) ∧
    ∀ before call between call' later, calls = before ++ call :: (between ++ call' :: later) →
      call.key = (workflowId, trigger.id) → call'.key = (workflowId, trigger.id) →
      ∀ u ∈ call.counted library (scans library start before),
        ∀ v ∈ call'.counted library (scans library start (before ++ call :: between)), u < v := by
  have hrecurs : ScheduleCall.Recurs library trigger :=
    ⟨advances_nextDueAfter hdoc hkind hcron, not_isOneShot hkind⟩
  constructor
  · rintro before call later rfl hkey
    obtain ⟨htrigger, -⟩ := hfixed call (by simp) hkey
    refine ⟨fun runs hruns => ?_, fun error deadline herror hpending => ?_⟩
    · exact ScheduleCall.account_of_outcome hdoc (htrigger ▸ hrecurs) hruns
    · rw [scans, Runs.run_concat]
      exact hpending.after_error hdoc herror
  · rintro before call between call' later rfl hkey hkey' u hu v hv
    obtain ⟨htrigger, hrevision⟩ := hfixed call (by simp) hkey
    obtain ⟨htrigger', -⟩ := hfixed call' (by simp) hkey'
    obtain ⟨identity, hidentity, hbeyond⟩ :=
      ScheduleCall.beyond_of_mem_counted hdoc (htrigger ▸ hrecurs) hu
    rw [hkey] at hbeyond
    have hafter : ScheduleCall.Beyond library identity (workflowId, trigger.id) u
        (scans library start (before ++ call :: between)) := by
      rw [scans, Runs.run_append, Runs.run_cons]
      refine (Runs.meets_of_forall fun _ other hother => ?_ :
        Runs.Meets _ (fun _ other => other ∈ between) _ between).invariant hbeyond
          fun rows other h hmem => ?_
      · exact hother
      · refine h.after hdoc fun hother => ?_
        obtain ⟨hsame, hsameRevision⟩ := hfixed other (by simp [hmem]) hother
        refine ⟨hsame ▸ hrecurs, ?_⟩
        rw [ScheduleCall.identity_congr (hsame.trans htrigger.symm)
          (hsameRevision.trans hrevision.symm), hidentity]
    rw [← hkey'] at hafter
    exact hafter.lt_of_mem_counted (htrigger' ▸ hrecurs) hv

/-- Some moments of the first minutes of 1970 and their texts. -/
def clockTexts : List (Instant × String) :=
  [(0, "1970-01-01T00:00:00Z"), (60000000000, "1970-01-01T00:01:00Z"),
    (120000000000, "1970-01-01T00:02:00Z"), (300000000000, "1970-01-01T00:05:00Z"),
    (360000000000, "1970-01-01T00:06:00Z")]

/-- A library that knows these moments, and the years up to 9999 as the supported range. -/
def clockLibrary (digest : String) : ScheduleLibrary where
  ω := Unit
  τ := Unit
  χ := Unit
  parseRfc3339 := fun text => (clockTexts.find? fun entry => entry.2 = text).map Prod.fst
  parseTimezone := fun _ => none
  utc := ()
  parseLocal := fun _ _ => none
  fromLocalDatetime := fun _ _ => .none
  toOffset := .ok
  parseCron := fun _ => .error "unexpected end of input"
  findNextOccurrence := fun _ _ _ => .error "no occurrence"
  formatRfc3339 := fun instant =>
    match clockTexts.find? fun entry => entry.1 = instant with
    | some entry => .ok entry.2
    | none => .error "The format cannot be handled"
  checkedAddSeconds := fun instant seconds =>
    if instant + seconds * 10 ^ 9 < 253402300800 * 10 ^ 9 then some (instant + seconds * 10 ^ 9)
    else none
  encodeTrigger := fun _ => .ok digest

theorem documented_clockLibrary (digest : String) : (clockLibrary digest).Documented where
  parse_format := by
    intro instant text h
    have htable : ∀ entry ∈ clockTexts,
        (clockTexts.find? fun other => other.2 = entry.2).map Prod.fst = some entry.1 := by decide
    change (match clockTexts.find? fun entry => entry.1 = instant with
      | some entry => .ok entry.2
      | none => .error "The format cannot be handled" : Except String String) = .ok text at h
    cases hfind : clockTexts.find? fun entry => entry.1 = instant with
    | none =>
      rw [hfind] at h
      cases h
    | some entry =>
      rw [hfind] at h
      cases h
      have hinstant : entry.1 = instant := by simpa using List.find?_some hfind
      rw [← hinstant]
      exact htable entry (List.mem_of_find?_eq_some hfind)
  add_seconds := by
    intro instant later seconds h
    change (if instant + seconds * 10 ^ 9 < 253402300800 * 10 ^ 9 then
      some (instant + seconds * 10 ^ 9) else none) = some later at h
    rw [Option.ite_none_right_eq_some] at h
    exact (Option.some_injective _ h.2).symm

/-- An interval trigger. -/
def tick (everySeconds : Int) (misfire : StrMap Value) : WorkflowTrigger where
  id := "tick"
  nodeType := "kakune.trigger.interval@1"
  config := ("everySeconds", .number (.int everySeconds)) :: misfire

/-- A scan of a trigger of the workflow `sample`. -/
def tickScan (trigger : WorkflowTrigger) (now : Instant) (recovering : Bool) : ScheduleCall where
  workflowId := "sample"
  trigger := trigger
  revision := "r1"
  now := now
  recovering := recovering

/-- Every minute, catching up with two occurrences. -/
def minuteTick : WorkflowTrigger :=
  tick 60 [("maxCatchUp", .number (.int 2)), ("misfire", .string "catchUp")]

def minuteLibrary : ScheduleLibrary :=
  clockLibrary "ea79ea290b0c36a663c6722cc21346a94eb02a5067d8f889df00e6545a388c72"

/-- Five minutes after its first scan the trigger catches up with two of six occurrences. -/
theorem minuteTick_accounts_for_occurrences :
    (tickScan minuteTick 300000000000 true).outcome minuteLibrary
        (scans minuteLibrary [] [tickScan minuteTick 0 false]) = .ok 2 ∧
      (tickScan minuteTick 300000000000 true).Account minuteLibrary
        (scans minuteLibrary [] [tickScan minuteTick 0 false]) 2 := by
  have hruns : (tickScan minuteTick 300000000000 true).outcome minuteLibrary
      (scans minuteLibrary [] [tickScan minuteTick 0 false]) = .ok 2 := by rfl
  refine ⟨hruns, ?_⟩
  have haccounts := schedules_account_for_occurrences minuteLibrary (documented_clockLibrary _)
    "sample" "r1" minuteTick (.inl (by rfl)) (fun h => by cases h) []
    [tickScan minuteTick 0 false, tickScan minuteTick 300000000000 true] (by simp [tickScan])
  exact (haccounts.1 [tickScan minuteTick 0 false] _ [] rfl rfl).1 2 hruns

/-- An interval of `2 ^ 63` seconds. -/
def hugeTick : WorkflowTrigger := tick 9223372036854775808 []

def hugeLibrary : ScheduleLibrary :=
  clockLibrary "8ea0a5b3fa21f6265b15b374b63cae87f22755aa8962512766e74b3047de6d66"

/-- The trigger passes the checks and is scheduled for the present. The scan that finds the deadline
due fails, and the deadline stays where it was. -/
theorem hugeTick_stays_due :
    hugeLibrary.Documented ∧
      (∀ workspace, hugeTick.validateEnabled hugeLibrary.toTimeLibrary workspace 0 = .ok ()) ∧
      (tickScan hugeTick 60000000000 false).Pending hugeLibrary
        (scans hugeLibrary [] [tickScan hugeTick 0 false]) 0 ∧
      ∃ row, ((tickScan hugeTick 60000000000 false).after hugeLibrary
          (scans hugeLibrary [] [tickScan hugeTick 0 false])).row ("sample", "tick") = some row ∧
        hugeLibrary.parseRfc3339 row.nextRunAt = some 0 := by
  have hpending : (tickScan hugeTick 60000000000 false).Pending hugeLibrary
      (scans hugeLibrary [] [tickScan hugeTick 0 false]) 0 :=
    ⟨_, .runOnce, rfl, ⟨rfl, .inl rfl, rfl⟩, rfl⟩
  exact ⟨documented_clockLibrary _, fun _ => rfl, hpending, _, rfl, rfl⟩

end KakuneCore
