import KakuneCore.Workflow.Document

/-!
# Trigger configurations

`validate_enabled_triggers`: the `with` map of every built-in trigger of a workflow, checked before
the workflow is enabled. What the date, time-zone and cron libraries and the file system answer is a
parameter; the checks around them are the scheduler's own. Only the cron check looks at the clock.
-/

namespace KakuneCore

/-- A moment, in nanoseconds since the Unix epoch. -/
abbrev Instant : Type := Int

/-- A local time read in a time zone. -/
inductive LocalResult
  | single (instant : Instant)
  | ambiguous (earlier later : Instant)
  | none

/-- What the libraries for times and cron expressions answer. `ω` is a parsed time zone, `τ` a
parsed local time, `χ` a parsed cron expression. -/
structure TimeLibrary where
  ω : Type
  τ : Type
  χ : Type
  /-- `OffsetDateTime::parse(_, &Rfc3339)`. -/
  parseRfc3339 : String → Option Instant
  /-- `parse::<Tz>()`. -/
  parseTimezone : String → Option ω
  utc : ω
  /-- `NaiveDateTime::parse_from_str` with a format. -/
  parseLocal : String → String → Option τ
  fromLocalDatetime : ω → τ → LocalResult
  /-- `OffsetDateTime::from_unix_timestamp` and `replace_nanosecond`. -/
  toOffset : Instant → Except String Instant
  parseCron : String → Except String χ
  /-- The moment in the zone, when it lies in the supported range, and the next occurrence. -/
  findNextOccurrence : χ → ω → Instant → Except String Instant

/-- The workspace directory as the file system answers about it. -/
structure Workspace where
  /-- `fs::canonicalize` of the workspace: the segments of the path. -/
  canonical : Except String (List String)
  /-- `fs::canonicalize` of a path in the workspace. -/
  canonicalRoot : String → Except String (List String)
  isDir : List String → Bool

/-! ### Texts -/

/-- `str::trim`. -/
def trimText (s : String) : String :=
  .ofList ((s.toList.dropWhile isWhitespace).reverse.dropWhile isWhitespace).reverse

/-- `str::parse::<u64>`: decimal digits with an optional plus sign. -/
def parseU64 (s : String) : Option Nat :=
  let digits := match s.toList with
    | '+' :: rest => rest
    | all => all
  if digits.isEmpty || !digits.all Char.isDigit then none
  else
    let value := digits.foldl (fun n c => 10 * n + (c.toNat - '0'.toNat)) 0
    if value < 2 ^ 64 then some value else none

/-- The path is absolute, begins with `.`, or has a segment `..`. -/
def leavesWorkspace (path : String) : Bool :=
  let segments := splitChars '/' path.toList
  path.toList.head? = some '/' || segments.head? = some ['.'] || ['.', '.'] ∈ segments

/-! ### Fields of `with` -/

namespace WorkflowTrigger

/-- `validate_keys`. -/
def validateKeys (trigger : WorkflowTrigger) (allowed : List String) : Except String Unit :=
  trigger.config.forM fun entry =>
    if entry.1 ∈ allowed then .ok ()
    else .error s!"trigger {trigger.id} type {trigger.nodeType} does not support with.{entry.1}"

/-- A text field, trimmed and not empty. -/
def textField (trigger : WorkflowTrigger) (field : String) : Option String :=
  (((trigger.config.get? field).bind Value.asStr).map trimText).filter (· ≠ "")

def orError {α : Type} (value : Option α) (message : String) : Except String α :=
  match value with
  | some value => .ok value
  | none => .error message

inductive MisfirePolicy
  | skip | runOnce
  | catchUp (limit : Nat)
  deriving DecidableEq, Repr

/-- `misfire_config`. -/
def misfireConfig (trigger : WorkflowTrigger) : Except String MisfirePolicy :=
  match ((trigger.config.get? "misfire").bind Value.asStr).getD "runOnce" with
  | "skip" => .ok .skip
  | "runOnce" => .ok .runOnce
  | "catchUp" => do
    let limit ← orError
      (((trigger.config.get? "maxCatchUp").bind Value.asU64).filter fun n => 1 ≤ n && n ≤ 100)
      "with.maxCatchUp is required for misfire catchUp and must be from 1 to 100"
    pure (.catchUp limit)
  | _ => .error "with.misfire must be skip, runOnce, or catchUp"

/-- `interval_seconds`. -/
def intervalSeconds (trigger : WorkflowTrigger) : Except String Nat := do
  trigger.validateKeys ["everySeconds", "misfire", "maxCatchUp"]
  let value ← orError (trigger.config.get? "everySeconds") "with.everySeconds is required"
  let seconds := match value with
    | .number n => n.asU64
    | .string s => parseU64 s
    | _ => none
  orError (seconds.filter (0 < ·)) "with.everySeconds must be a positive integer"

section Library

variable (library : TimeLibrary)

/-- `timezone_value`. -/
def timezoneValue (value : Value) : Except String library.ω := do
  let text ← orError (value.asStr.filter fun text => trimText text ≠ "")
    "with.timezone must be a non-empty IANA timezone"
  orError (library.parseTimezone text) "with.timezone must be a valid IANA timezone"

/-- The time zone of the trigger, if one is given. -/
def timezone (trigger : WorkflowTrigger) : Except String (Option library.ω) :=
  match trigger.config.get? "timezone" with
  | none => .ok none
  | some value => (timezoneValue library value).map some

/-- `datetime_due`. -/
def datetimeDue (trigger : WorkflowTrigger) : Except String Instant := do
  trigger.validateKeys ["at", "timezone", "dst", "misfire", "maxCatchUp"]
  let text ← orError (trigger.textField "at") "with.at must be a non-empty RFC 3339 timestamp"
  match library.parseRfc3339 text with
  | some absolute => do
    let _ ← trigger.timezone library
    pure absolute
  | none => do
    let zone ← orError (← trigger.timezone library)
      "with.timezone is required when with.at has no offset"
    let «local» ← orError
      ((library.parseLocal "%Y-%m-%dT%H:%M:%S" text).or (library.parseLocal "%Y-%m-%dT%H:%M" text))
      "with.at must be an RFC 3339 timestamp or a local YYYY-MM-DDTHH:MM[:SS] timestamp"
    let instant ← match library.fromLocalDatetime zone «local» with
      | .single instant => .ok instant
      | .ambiguous earlier later =>
        match (trigger.config.get? "dst").bind Value.asStr with
        | none | some "earliest" => .ok earlier
        | some "latest" => .ok later
        | some _ => .error "with.dst must be earliest or latest"
      | .none => .error "with.at is a nonexistent local time in with.timezone due to DST"
    library.toOffset instant

/-- `cron_next_due`. -/
def cronNextDue (trigger : WorkflowTrigger) (after : Instant) : Except String Instant := do
  trigger.validateKeys ["expression", "timezone", "misfire", "maxCatchUp"]
  let expression ← orError (trigger.textField "expression")
    "with.expression must be a non-empty cron expression"
  let cron ← (library.parseCron expression).mapError fun error =>
    s!"with.expression is not a valid cron expression: {error}"
  let zone ← trigger.timezone library
  let next ← (library.findNextOccurrence cron (zone.getD library.utc) after).mapError fun error =>
    s!"cannot calculate next cron occurrence: {error}"
  library.toOffset next

end Library

/-- The names `with.events` may list. -/
def filesystemEvents : List String := ["created", "modified", "removed", "renamed"]

/-- The debounce of a filesystem trigger in milliseconds. -/
def debounceMs (trigger : WorkflowTrigger) : Except String Nat :=
  match trigger.config.get? "debounceMs" with
  | none => .ok 500
  | some (.number n) => orError n.asU64 "with.debounceMs must be an integer"
  | some _ => .error "with.debounceMs must be an integer"

/-- `filesystem_config`, without the configuration it returns. -/
def filesystemConfig (trigger : WorkflowTrigger) (workspace : Workspace) : Except String Unit := do
  trigger.validateKeys ["root", "events", "debounceMs"]
  let root ← orError (trigger.textField "root")
    "with.root must be a non-empty workspace-relative path"
  if leavesWorkspace root then
    throw "with.root must be a workspace-relative path without . or .. components"
  let base ← workspace.canonical.mapError fun error => s!"cannot resolve workspace: {error}"
  let resolved ← (workspace.canonicalRoot root).mapError fun error =>
    s!"cannot resolve configured root: {error}"
  if !base.isPrefixOf resolved then throw "with.root must resolve inside the workspace"
  if !workspace.isDir resolved then throw "with.root must resolve to an existing directory"
  let events ← orError
    (((trigger.config.get? "events").bind Value.asArray).filter fun events => !events.isEmpty)
    "with.events must be a non-empty array"
  events.forM fun event =>
    if event.asStr.any fun name => name ∈ filesystemEvents then .ok ()
    else .error "with.events may contain only created, modified, removed, or renamed"
  let debounce ← trigger.debounceMs
  if debounce < 10 || 60000 < debounce then
    throw "with.debounceMs must be between 10 and 60000"

/-- The kinds of triggers that are checked; a type of a plugin or `manual` is `other`. -/
inductive Kind
  | datetime | interval | cron | filesystem | startup | other
  deriving DecidableEq, Repr

def kind (trigger : WorkflowTrigger) : Kind :=
  if trigger.nodeType = "kakune.trigger.datetime@1" ||
      trigger.nodeType = "kakune.trigger.date-time@1" then .datetime
  else if trigger.nodeType = "kakune.trigger.interval@1" then .interval
  else if trigger.nodeType = "kakune.trigger.cron@1" then .cron
  else if trigger.nodeType = "kakune.trigger.filesystem@1" then .filesystem
  else if trigger.nodeType = "kakune.trigger.startup@1" then .startup
  else .other

/-- The check of one trigger. -/
def validateEnabled (library : TimeLibrary) (workspace : Workspace) (now : Instant)
    (trigger : WorkflowTrigger) : Except String Unit :=
  match trigger.kind with
  | .datetime => do
    let _ ← trigger.datetimeDue library
    let _ ← trigger.misfireConfig
  | .interval => do
    let _ ← trigger.intervalSeconds
    let _ ← trigger.misfireConfig
  | .cron => do
    let _ ← trigger.cronNextDue library now
    let _ ← trigger.misfireConfig
  | .filesystem => trigger.filesystemConfig workspace
  | .startup => trigger.validateKeys []
  | .other => .ok ()

end WorkflowTrigger

/-- `validate_enabled_triggers`. -/
def validateEnabledTriggers (library : TimeLibrary) (workspace : Workspace) (now : Instant)
    (workflow : WorkflowDocument) : Except String Unit :=
  workflow.triggers.forM (WorkflowTrigger.validateEnabled library workspace now)

/-! ### The clock -/

section Clock

variable {library : TimeLibrary} {workspace : Workspace}

/-- Every cron trigger of the workflow has an occurrence after the moment. -/
def HasCronOccurrences (library : TimeLibrary) (now : Instant) (workflow : WorkflowDocument) :
    Prop :=
  ∀ trigger ∈ workflow.triggers, trigger.kind = .cron →
    ∃ next, trigger.cronNextDue library now = .ok next

/-- A list of checks passes when each of them does. -/
theorem forM_eq_ok_iff {α ε : Type} {check : α → Except ε Unit} {items : List α} :
    items.forM check = .ok () ↔ ∀ item ∈ items, check item = .ok () := by
  induction items with
  | nil => simp [pure, Except.pure]
  | cons item items ih =>
    change (check item >>= fun _ => items.forM check) = .ok () ↔ _
    rw [List.forall_mem_cons, ← ih]
    cases check item with
    | error e => simp [bind, Except.bind]
    | ok result => simp [bind, Except.bind]

/-- Only the cron check depends on the moment. -/
theorem validateEnabled_of_hasOccurrence {trigger : WorkflowTrigger} {before now : Instant}
    (h : trigger.validateEnabled library workspace before = .ok ())
    (hcron : trigger.kind = .cron → ∃ next, trigger.cronNextDue library now = .ok next) :
    trigger.validateEnabled library workspace now = .ok () := by
  unfold WorkflowTrigger.validateEnabled at h ⊢
  cases hkind : trigger.kind with
  | cron =>
    obtain ⟨next, hnext⟩ := hcron hkind
    rw [hkind] at h
    simp only [hnext]
    cases hbefore : trigger.cronNextDue library before with
    | error e =>
      rw [hbefore] at h
      cases h
    | ok due =>
      rw [hbefore] at h
      exact h
  | other => rfl
  | datetime | interval | filesystem | startup =>
    rw [hkind] at h
    exact h

/-- Triggers that passed once pass as long as the cron triggers have occurrences left. -/
theorem validateEnabledTriggers_of_hasCronOccurrences {workflow : WorkflowDocument}
    {before now : Instant}
    (h : validateEnabledTriggers library workspace before workflow = .ok ())
    (hcron : HasCronOccurrences library now workflow) :
    validateEnabledTriggers library workspace now workflow = .ok () := by
  rw [validateEnabledTriggers, forM_eq_ok_iff] at h ⊢
  exact fun trigger htrigger =>
    validateEnabled_of_hasOccurrence (h trigger htrigger) (hcron trigger htrigger)

end Clock

end KakuneCore
