import KakuneCore.Lifecycle.AttemptJournal
import KakuneCore.Lifecycle.Rendering

/-!
# Runs of a mutation attempt

An attempt writes a record before each thing that it does, and the records of one attempt stay in
one file until it is reconciled. The file is limited, and a record that does not fit is refused. The
code reserves no room: an attempt may be authorized in a file without a place for the record of its
outcome. With room for all records that may follow at the authorization, none of them is refused.

The steps are those of the command that makes the attempt and of later commands that reconcile it;
between any two, or in the middle of an append, the process may stop.
-/

namespace KakuneCore

open Attempt LineLog

/-! ### What an observation shows -/

/-- `core_is_ready`. -/
def coreIsReady (core : Option CoreObservation) : Bool :=
  core.any fun core => core.mode = .systemService ∧ core.state = .ready ∧ core.identityVerified

/-- `core_is_absent_or_stopped`. -/
def coreIsAbsentOrStopped (core : Option CoreObservation) (unknown : Option String) : Bool :=
  unknown.isNone && core.all fun core => core.state = .stopped

/-- Whether `ensure_expected_definition` passes. -/
def isExpectedDefinition (expected : ServiceDefinition) (observation : NativeServiceObservation) :
    Bool :=
  observation.installed = .installed && observation.definition.any expected.equivalentTo

/-- `native_effects_are_settled`. -/
def nativeEffectsAreSettled (journal : ServiceAttemptJournal)
    (observation : NativeServiceObservation) : Bool :=
  if observation.pendingOperation then false
  else if observation.managerState ≠ .stopped ∧ observation.managerState ≠ .failed then false
  else if !coreIsAbsentOrStopped observation.core observation.coreUnknown then false
  else
    match observation.installed with
    | .unknown => false
    | .notInstalled => true
    | .installed => isExpectedDefinition journal.expectedDefinition observation

/-- `native_attempt_outcome_is_known`. -/
def nativeAttemptOutcomeIsKnown (journal : ServiceAttemptJournal) : Bool :=
  match journal.status with
  | .authorized => journal.helperPid.isNone
  | .outcomeUnknown => journal.completionObservation.isSome
  | _ => false

/-- `operation_satisfied`. -/
def operationSatisfied (action : ServiceAction) (definition : ServiceDefinition)
    (observation : NativeServiceObservation) : Bool :=
  if observation.pendingOperation || observation.coreUnknown.isSome ||
      (action ≠ .remove && !isExpectedDefinition definition observation) then false
  else
    match action with
    | .install => observation.installed = .installed &&
        observation.definition.any definition.equivalentTo &&
        observation.managerState = .stopped && observation.bootEnabled &&
        coreIsAbsentOrStopped observation.core none
    | .start => observation.managerState = .running && coreIsReady observation.core
    | .stop => observation.managerState = .stopped &&
        coreIsAbsentOrStopped observation.core observation.coreUnknown
    | .remove => observation.installed = .notInstalled &&
        coreIsAbsentOrStopped observation.core none

def ServiceAction.label : ServiceAction → String
  | .install => "service install"
  | .start => "service start"
  | .stop => "service stop"
  | .remove => "service uninstall"

/-! ### Reconciliation -/

inductive Reconciliation
  | failed (error : LifecycleError)
  /-- The file is removed. -/
  | remove
  /-- The completion is recorded, then the reconciliation, and the file is removed. -/
  | settle
  /-- The outcome is recorded as unknown, and the command fails. -/
  | markUnknown
  deriving DecidableEq

/-- `(action) (attempt)`, as the errors begin. -/
def ServiceAttemptJournal.title (journal : ServiceAttemptJournal) : String :=
  journal.action.label ++ " (" ++ journal.attemptId ++ ")"

/-- `reconcile_pending`, for the latest record of the file. -/
def reconcilePending (requiresOwnedHelper : Bool) (journal : ServiceAttemptJournal)
    (observation : NativeServiceObservation) (remaining : Except LifecycleError Unit)
    (expired : Bool) : Reconciliation :=
  let known := nativeAttemptOutcomeIsKnown journal && nativeEffectsAreSettled journal observation
  if journal.schemaVersion ≠ serviceStateSchemaVersion then
    .failed (.unsupportedSchema journal.schemaVersion)
  else match remaining with
  | .error error => .failed error
  | .ok () =>
    if requiresOwnedHelper && !journal.isNativeStep &&
        journal.status ∉ [.prepared, .reconciled] then
      .failed (.unresolvedServiceAttempt ("legacy operation-level native attempt lacks " ++
        "single-step completion evidence; inspect its manager effects before recovery"))
    else if journal.isNativeStep && journal.status = .outcomeUnknown && !known then
      .failed (.unresolvedServiceAttempt (journal.title ++ " has unknown native effects at " ++
        journal.step ++ "; a matching definition alone cannot prove this step completed or that " ++
        "manager work was cancelled"))
    else if journal.isNativeStep && !journal.isFinalStep && (journal.status ≠ .prepared ||
        !("0:".toList.isPrefixOf journal.step.toList) || journal.helperPid.isSome) then
      .failed (.unresolvedServiceAttempt (journal.title ++ " stopped at native step " ++
        journal.step ++ "; inspect the recorded partial resources before recovery"))
    else if journal.status = .prepared then
      match journal.helperPid with
      | none => .remove
      | some pid => .failed (.unresolvedServiceAttempt (journal.title ++
          " was prepared for helper " ++ toString pid ++ " but was not authorized"))
    else if journal.status = .reconciled then .remove
    else match journal.helperPid with
    | some pid => .failed (.unresolvedServiceAttempt (journal.title ++
        " retains unconfirmed helper " ++ toString pid ++
        "; verify helper exit and pending manager work before retrying"))
    | none =>
      if journal.isNativeStep && known then .settle
      else if operationSatisfied journal.action journal.expectedDefinition observation &&
          !observation.pendingOperation then .settle
      else if expired then .failed (.deadlineExpired "service journal reconciliation")
      else if journal.status ≠ .outcomeUnknown then .markUnknown
      else .failed (.unresolvedServiceAttempt journal.title)

/-! ### The records of an attempt -/

namespace ServiceAttemptJournal

variable (journal : ServiceAttemptJournal)

def steps : List NativeMutation := NativeMutation.steps journal.manager journal.action

/-- The record before a step. -/
def prepared (label : String) : ServiceAttemptJournal :=
  { journal with
    step := label
    status := .prepared
    helperPid := none
    helperOwner := none
    completionObservation := none }

def withHelper (pid : Nat) (owner : String) : ServiceAttemptJournal :=
  { journal with helperPid := some pid, helperOwner := some owner }

def authorize : ServiceAttemptJournal := { journal with status := .authorized }

/-- The record of the exit of a helper. -/
def reaped (succeeded : Bool) : ServiceAttemptJournal :=
  { journal with
    helperPid := none
    status := if !succeeded && journal.status = .authorized then .outcomeUnknown
      else journal.status }

/-- The record of a step that has failed. -/
def unconfirmed : ServiceAttemptJournal :=
  { journal with
    status := if journal.status = .authorized then .outcomeUnknown else journal.status
    residualResources := journal.residualResources ++ ["native step " ++ journal.step ++
      " is unconfirmed; no compensating mutation was attempted"] }

/-- The record of a mutation that has failed in the process of the command. -/
def mutationFailed (pid : Option Nat) : ServiceAttemptJournal :=
  { journal with
    status := .outcomeUnknown
    helperPid := pid.or journal.helperPid
    residualResources := journal.residualResources ++ ["authorized " ++ journal.action.label ++
      " mutation has an unconfirmed outcome"] }

def completed (observation : NativeServiceObservation) : ServiceAttemptJournal :=
  { journal with status := .observedComplete, completionObservation := some observation }

def reconciled : ServiceAttemptJournal := { journal with status := .reconciled }

/-- The record that `reconcile_pending` leaves of an outcome that is not known. -/
def markUnknown : ServiceAttemptJournal :=
  { journal with
    status := .outcomeUnknown
    residualResources := journal.residualResources ++
      ["native manager effect is not confirmed; registration was not changed again"] }

/-- The record of `mark_attempt_unknown`. -/
def unknownWith (observation : NativeServiceObservation) : ServiceAttemptJournal :=
  { journal with
    status := .outcomeUnknown
    completionObservation := some observation
    residualResources :=
      if "requested state was not confirmed" ∈ journal.residualResources then
        journal.residualResources
      else journal.residualResources ++ ["requested state was not confirmed"] }

@[simp]
theorem steps_prepared (label : String) : (journal.prepared label).steps = journal.steps := rfl

@[simp]
theorem steps_withHelper (pid : Nat) (owner : String) :
    (journal.withHelper pid owner).steps = journal.steps := rfl

@[simp]
theorem steps_authorize : journal.authorize.steps = journal.steps := rfl

@[simp]
theorem steps_reaped (succeeded : Bool) : (journal.reaped succeeded).steps = journal.steps := rfl

@[simp]
theorem steps_completed (observation : NativeServiceObservation) :
    (journal.completed observation).steps = journal.steps := rfl

@[simp]
theorem status_completed (observation : NativeServiceObservation) :
    (journal.completed observation).status = .observedComplete := rfl

end ServiceAttemptJournal

/-! ### Runs -/

/-- Where the command stands that works on the attempt; each point but `idle`, `mutated` and
`removing` has the record in memory. -/
inductive AttemptPoint
  /-- No command is working on the attempt. -/
  | idle
  | preparing (index : Nat) (journal : ServiceAttemptJournal)
  | launching (index : Nat) (journal : ServiceAttemptJournal)
  | bootstrapping (index : Nat) (journal : ServiceAttemptJournal)
  /-- The helper is authorized. -/
  | working (index : Nat) (journal : ServiceAttemptJournal)
  /-- The exchange with the helper is over. -/
  | reaping (index : Nat) (journal : ServiceAttemptJournal) (succeeded : Bool)
  | unconfirmed (journal : ServiceAttemptJournal)
  | observing (index : Nat) (journal : ServiceAttemptJournal)
  | directPreparing (journal : ServiceAttemptJournal)
  | directAuthorizing (journal : ServiceAttemptJournal)
  | directWorking (journal : ServiceAttemptJournal)
  /-- The mutation is over, and its effect is to be observed. -/
  | mutated
  /-- The completion is recorded. -/
  | settling (journal : ServiceAttemptJournal)
  | removing
  deriving DecidableEq

/-- Where the command stands once the exit of the helper is recorded. -/
def AttemptPoint.behindReap (index : Nat) (journal : ServiceAttemptJournal) (succeeded : Bool) :
    AttemptPoint :=
  if succeeded then
    if index + 1 < journal.steps.length then .observing index journal else .mutated
  else .unconfirmed journal

/-- The native service that the journal is kept for. -/
structure AttemptPaths where
  manager : ServiceManagerKind
  serviceId : String
  attempt : String
  /-- `requires_owned_helper` of the manager. -/
  requiresOwnedHelper : Bool

structure AttemptState where
  run : JournalRun := {}
  point : AttemptPoint := .idle
  /-- A record was refused after the authorization, since it did not fit. -/
  refused : Bool := false

inductive AttemptEvent
  /-- A command begins an attempt. -/
  | begin (attemptId : String) (action : ServiceAction) (definition : ServiceDefinition)
      (prior : NativeServiceObservation)
  | prepare
  | launch (pid : Nat) (owner : String)
  /-- The helper could not be launched, or the exchange with it has failed. -/
  | fail (launched : Bool)
  | ready
  | done
  | reap
  | unreaped
  | recordUnconfirmed
  | observe (observation : NativeServiceObservation)
  /-- The mutation in the process of the command returns, or leaves a helper that is not reaped. -/
  | mutate (result : Except (Option Nat) Unit)
  | complete (observation : NativeServiceObservation)
  | recordFailed (observation : NativeServiceObservation)
  | finish
  | remove
  | reconcile (observation : NativeServiceObservation) (remaining : Except LifecycleError Unit)
      (expired : Bool)
  /-- The command ends, or its process does. -/
  | stop

/-- What a step does: it may write a record, and stands at one of two points afterwards. -/
inductive AttemptPlan
  | stay
  | go (point : AttemptPoint)
  | remove
  | put (journal : ServiceAttemptJournal) (next failed : AttemptPoint)

section Runs

variable (library : JournalLibrary) (paths : AttemptPaths)

/-- `read_attempt_for_service`. -/
def readAttemptForService (file : Option Bytes) :
    Except LifecycleError (Option ServiceAttemptJournal) := do
  match ← readAttemptSnapshot library file with
  | none => .ok none
  | some snapshot =>
    let journal := snapshot.latest
    let requested := canonicalServiceId paths.manager paths.serviceId
    if journal.manager ≠ paths.manager ∨
        canonicalServiceId journal.manager journal.nativeServiceId ≠ requested ∨
        journal.expectedDefinition.manager ≠ paths.manager ∨
        journal.expectedDefinition.canonicalServiceId ≠ requested then
      .error (.unsafeOwnership
        "service attempt identity does not match its machine-wide journal key")
    else .ok (some journal)

/-- The record with which an attempt begins. -/
def firstJournal (attemptId : String) (action : ServiceAction) (definition : ServiceDefinition)
    (prior : NativeServiceObservation) : ServiceAttemptJournal where
  schemaVersion := serviceStateSchemaVersion
  attemptId := attemptId
  manager := definition.manager
  nativeServiceId := definition.serviceId
  action := action
  step := if paths.requiresOwnedHelper then "" else action.label
  expectedDefinition := definition
  priorState := prior
  recoveryGuidance := [if paths.requiresOwnedHelper then
      "Inspect native manager effects and the retained attempt at " ++ paths.attempt ++
        " before retrying; helper timeout does not cancel manager work."
    else
      "Inspect the native manager and reconcile this Kakune service attempt before retrying."]

namespace AttemptState

/-- The latest record, if a command can use it. -/
def latest? (state : AttemptState) : Option ServiceAttemptJournal :=
  (readAttemptForService library paths state.run.file).toOption.join

/-- What a step of the attempt does. -/
def plan (state : AttemptState) (event : AttemptEvent) : AttemptPlan :=
  match event, state.point with
  | .begin attemptId action definition prior, .idle =>
    if state.run.file.isNone ∧ definition.validate library.toDefinitionLibrary = .ok () then
      let journal := firstJournal paths attemptId action definition prior
      .go (if paths.requiresOwnedHelper then .preparing 0 journal else .directPreparing journal)
    else .stay
  | .prepare, .preparing index journal =>
    match journal.steps[index]? with
    | some step =>
      let record := journal.prepared (stepLabel index step)
      .put record (.launching index record) .idle
    | none => .go .mutated
  | .prepare, .directPreparing journal =>
    let record := { journal with status := .prepared }
    .put record (.directAuthorizing record) .idle
  | .launch pid owner, .launching index journal =>
    let record := journal.withHelper pid owner
    .put record (.bootstrapping index record) (.reaping index record false)
  | .fail launched, .launching index journal =>
    .go (if launched then .reaping index journal false else .unconfirmed journal)
  | .ready, .bootstrapping index journal =>
    let record := journal.authorize
    .put record (.working index record) (.reaping index record false)
  | .ready, .directAuthorizing journal =>
    .put journal.authorize (.directWorking journal.authorize) .idle
  | .fail _, .bootstrapping index journal => .go (.reaping index journal false)
  | .fail _, .working index journal => .go (.reaping index journal false)
  | .done, .working index journal => .go (.reaping index journal true)
  | .reap, .reaping index journal succeeded =>
    let record := journal.reaped succeeded
    .put record (.behindReap index record succeeded) (.unconfirmed record)
  | .unreaped, .reaping _ journal _ => .go (.unconfirmed journal)
  | .recordUnconfirmed, .unconfirmed journal => .put journal.unconfirmed .idle .idle
  | .observe observation, .observing index journal =>
    let record := journal.completed observation
    .put record (.preparing (index + 1) record) .idle
  | .mutate (.ok ()), .directWorking _ => .go .mutated
  | .mutate (.error pid), .directWorking journal => .put (journal.mutationFailed pid) .idle .idle
  | .complete observation, .mutated =>
    match state.latest? library paths with
    | some journal =>
      .put (journal.completed observation) (.settling (journal.completed observation)) .idle
    | none => .go .idle
  | .recordFailed observation, .mutated =>
    match state.latest? library paths with
    | some journal =>
      if nativeEffectsAreSettled journal observation && nativeAttemptOutcomeIsKnown journal then
        .put (journal.completed observation) (.settling (journal.completed observation)) .idle
      else if journal.unknownWith observation = journal then .go .idle
      else .put (journal.unknownWith observation) .idle .idle
    | none => .go .idle
  | .finish, .settling journal => .put journal.reconciled .removing .idle
  | .remove, .removing => .remove
  | .reconcile observation remaining expired, .idle =>
    match state.latest? library paths with
    | some journal =>
      match reconcilePending paths.requiresOwnedHelper journal observation remaining expired with
      | .failed _ => .stay
      | .remove => .remove
      | .settle => .put (journal.completed observation) (.settling (journal.completed observation))
          .idle
      | .markUnknown => .put journal.markUnknown .idle .idle
    | none => .stay
  | .stop, _ => .go .idle
  | _, _ => .stay

/-- Whether the file has an authorization of the attempt. -/
def authorized (state : AttemptState) : Bool :=
  state.run.recorded.any fun journal => journal.status = .authorized

end AttemptState

/-- Whether a write is refused because the record does not fit. -/
def isTooLarge : LifecycleError → Bool
  | .messageTooLarge _ => true
  | _ => false

/-- The answer to a write, whole or torn behind some bytes. -/
def writeOutcome (run : JournalRun) (journal : ServiceAttemptJournal) :
    Option Nat → Except LifecycleError Unit
  | none => ((writeAttemptFile library journal).exec run.file).1
  | some written => ((tornWrite library journal written).exec run.file).1.map fun _ => ()

/-- The event of the journal. -/
def journalEvent (journal : ServiceAttemptJournal) : Option Nat → JournalEvent
  | none => .write journal
  | some written => .torn journal written

namespace AttemptState

/-- A record is written; behind a torn write nothing is done any more. -/
def put (state : AttemptState) (journal : ServiceAttemptJournal) (cut : Option Nat)
    (next failed : AttemptPoint) : AttemptState :=
  let run := state.run.step library (journalEvent journal cut)
  match writeOutcome library state.run journal cut with
  | .ok () => { state with run := run, point := if cut.isSome then .idle else next }
  | .error error =>
    { run := run
      point := if cut.isSome then .idle else failed
      refused := state.refused || state.authorized && isTooLarge error }

/-- **One step.** A write in it may be torn. -/
def step (state : AttemptState) (event : AttemptEvent × Option Nat) : AttemptState :=
  match state.plan library paths event.1 with
  | .stay => state
  | .go point => { state with point := point }
  | .remove => { state with run := {}, point := .idle }
  | .put journal next failed => state.put library journal event.2 next failed

end AttemptState

end Runs

/-! ### Sizes -/

section Sizes

variable (library : JournalLibrary)

/-- The bytes of a record with its line break. -/
def lineSize (journal : ServiceAttemptJournal) : Nat :=
  match library.toVec journal with
  | .ok text => text.length + 1
  | .error _ => 0

def recordedSize (journals : List ServiceAttemptJournal) : Nat :=
  (journals.map (lineSize library)).sum

/-- Why a write fails: the record does not fit, or it has no text or does not follow the latest. -/
def FailedWrite (journal : ServiceAttemptJournal) (recorded : List ServiceAttemptJournal)
    (error : LifecycleError) : Prop :=
  error = .messageTooLarge maxAttemptBytes ∧
      maxAttemptBytes < recordedSize library recorded + lineSize library journal ∨
    isTooLarge error = false ∧ ∀ text, library.toVec journal = .ok text →
      validateAttemptSnapshot library.toDefinitionLibrary journal recorded.getLast? ≠ .ok ()

variable {library} {journal : ServiceAttemptJournal} {journals : List ServiceAttemptJournal}
  {texts : List Bytes} {text bytes : Bytes} {run : JournalRun}

theorem lineSize_eq (h : library.toVec journal = .ok text) :
    lineSize library journal = text.length + 1 := by
  rw [lineSize, h]

theorem recordedSize_concat : recordedSize library (journals ++ [journal]) =
    recordedSize library journals + lineSize library journal := by
  simp [recordedSize]

/-- Lines are as long as their records. -/
theorem Written.length_lines (h : Written library journals texts) :
    (lines newline texts).length = recordedSize library journals := by
  induction h with
  | nil => rfl
  | @cons journal text journals texts htext _ ih =>
    have hcons : recordedSize library (journal :: journals) =
        lineSize library journal + recordedSize library journals := List.sum_cons
    rw [lines_cons, List.length_append, List.length_cons, ih, hcons, lineSize_eq htext]
    omega

/-- A read leaves the lines to be appended to, with the separator that is missing. -/
theorem Log.read_size (hdoc : library.Documented) (h : Log library journals bytes)
    (hvalid : ValidHistory library.toDefinitionLibrary none journals) (hne : journals ≠ [])
    (hsize : bytes.length ≤ maxAttemptBytes) :
    ∃ snapshot, readAttemptSnapshot library (some bytes) = .ok (some snapshot) ∧
      journals.getLast? = some snapshot.latest ∧
      (if snapshot.hasTornTail then bytes.take snapshot.validLength else bytes).length +
        (if snapshot.needsSeparator then [newline] else []).length =
          recordedSize library journals := by
  cases h with
  | @ended _ texts part hwritten htorn =>
    obtain ⟨last, hlast⟩ : ∃ last, journals.getLast? = some last :=
      ⟨_, List.getLast?_eq_some_getLast hne⟩
    refine ⟨_, read_ended hdoc hwritten htorn hvalid hlast hsize, hlast, ?_⟩
    rw [← hwritten.length_lines]
    by_cases hpart : part = [] <;> simp [hpart]
  | @unended journals last texts text hwritten htext =>
    refine ⟨_, read_unended hdoc hwritten htext hvalid hsize, List.getLast?_concat, ?_⟩
    rw [recordedSize_concat, ← hwritten.length_lines, lineSize_eq htext]
    simp
    omega

/-! #### Checks are not about sizes -/

def NeverTooLarge {α : Type} (x : Except LifecycleError α) : Prop :=
  ∀ error, x = .error error → isTooLarge error = false

theorem NeverTooLarge.ok {α : Type} {a : α} : NeverTooLarge (.ok a) := by
  intro error h
  cases h

theorem NeverTooLarge.ownership {α : Type} {message : String} :
    NeverTooLarge (.error (.unsafeOwnership message) : Except LifecycleError α) := by
  intro error h
  cases h
  rfl

theorem NeverTooLarge.bind {α β : Type} {x : Except LifecycleError α}
    {f : α → Except LifecycleError β} (hx : NeverTooLarge x) (hf : ∀ a, NeverTooLarge (f a)) :
    NeverTooLarge (x >>= f) := by
  intro error h
  cases x with
  | error other =>
    cases h
    exact hx error rfl
  | ok a => exact hf a error h

theorem NeverTooLarge.ite {α : Type} {p : Prop} [Decidable p] {x y : Except LifecycleError α}
    (hx : NeverTooLarge x) (hy : NeverTooLarge y) : NeverTooLarge (if p then x else y) := by
  split
  · exact hx
  · exact hy

theorem neverTooLarge_validateServiceId (manager : ServiceManagerKind) (serviceId : String) :
    NeverTooLarge (validateServiceId manager serviceId) := .ite .ownership (.ite .ownership .ok)

theorem neverTooLarge_validateFields (definition : ServiceDefinition) :
    NeverTooLarge definition.validateFields := by
  unfold ServiceDefinition.validateFields
  refine .ite .ownership (.ite .ownership (.bind (neverTooLarge_validateServiceId _ _) fun _ => ?_))
  refine .ite .ownership ?_
  split
  · exact .ite .ok .ownership
  · exact .ownership

theorem neverTooLarge_validate (library : DefinitionLibrary) (definition : ServiceDefinition) :
    NeverTooLarge (definition.validate library) := by
  unfold ServiceDefinition.validate
  refine .bind (neverTooLarge_validateFields _) fun _ => ?_
  split
  · exact .ok
  · exact .bind (.bind (neverTooLarge_validateFields _) fun _ => .ok) fun _ => .ite .ok .ownership

/-- No check of a record is about its size. -/
theorem neverTooLarge_validateAttemptSnapshot (library : DefinitionLibrary)
    (journal : ServiceAttemptJournal) (previous : Option ServiceAttemptJournal) :
    NeverTooLarge (validateAttemptSnapshot library journal previous) := by
  unfold validateAttemptSnapshot
  refine .ite (fun error h => ?_) ?_
  · cases h
    rfl
  · refine .bind (neverTooLarge_validateServiceId _ _) fun _ => ?_
    refine .bind (neverTooLarge_validate library _) fun _ => ?_
    exact .ite .ownership (.ite .ownership .ok)

/-! #### When a write fails -/

theorem ensures_prepareAppend_size {snapshot : AttemptFileSnapshot}
    (htext : library.toVec journal = .ok text) (hlatest : journals.getLast? = some snapshot.latest)
    (hsize : (if snapshot.hasTornTail then bytes.take snapshot.validLength else bytes).length +
      (if snapshot.needsSeparator then [newline] else []).length = recordedSize library journals) :
    Ensures (prepareAppend library journal text snapshot)
      (fun _ _ => recordedSize library journals + lineSize library journal ≤ maxAttemptBytes)
      (fun error _ => FailedWrite library journal journals error) (some bytes) := by
  unfold prepareAppend
  refine ensures_bind.mpr (ensures_query.mpr ⟨fun _ _ => ?_, fun error herror => .inr ⟨?_, ?_⟩⟩)
  · refine ensures_bind.mpr (ensures_update.mpr ?_)
    have hfile : (if snapshot.hasTornTail then (some bytes).map (List.take snapshot.validLength)
        else some bytes) =
          some (if snapshot.hasTornTail then bytes.take snapshot.validLength else bytes) := by
      split <;> rfl
    rw [hfile]
    generalize (if snapshot.hasTornTail then bytes.take snapshot.validLength else bytes) = kept
      at hsize ⊢
    have hline := lineSize_eq htext
    refine ensures_bind.mpr (ensures_query.mpr ⟨fun length hlength => ?_, fun e he => ?_⟩)
    · obtain rfl := Except.ok.inj hlength
      dsimp only [Option.getD_some]
      generalize (if snapshot.needsSeparator then [newline] else []) = separator at hsize ⊢
      by_cases hfits : maxAttemptBytes < kept.length + separator.length + (text.length + 1)
      · rw [if_pos hfits]
        refine .inl ⟨rfl, ?_⟩
        omega
      · rw [if_neg hfits]
        change recordedSize library journals + lineSize library journal ≤ maxAttemptBytes
        omega
    · cases he
  · exact neverTooLarge_validateAttemptSnapshot _ _ _ _ herror
  · intro _ _ hvalid
    rw [hlatest, herror] at hvalid
    cases hvalid

/-- **A write fails for its size only if the record does not fit**, and a record that follows the
latest fails for nothing else. -/
theorem ensures_prepareAttemptWrite_size (hdoc : library.Documented) (h : run.Sound library) :
    Ensures (prepareAttemptWrite library journal)
      (fun _ _ => recordedSize library run.recorded + lineSize library journal ≤ maxAttemptBytes)
      (fun error _ => FailedWrite library journal run.recorded error) run.file := by
  unfold prepareAttemptWrite
  refine ensures_bind.mpr (ensures_query.mpr ⟨fun text htext => ?_, fun error herror => ?_⟩)
  · have htext : library.toVec journal = .ok text := by
      cases hvec : library.toVec journal with
      | error error =>
        rw [hvec] at htext
        cases htext
      | ok text' =>
        rw [hvec] at htext
        exact congrArg _ (Except.ok.inj htext)
    by_cases hlong : maxAttemptBytes < text.length + 1
    · rw [if_pos hlong]
      refine .inl ⟨rfl, ?_⟩
      rw [lineSize_eq htext]
      omega
    rw [if_neg hlong]
    obtain ⟨hfile, hnone⟩ | ⟨bytes, hfile, hne, hsize, hlog⟩ := h.shape
    · rw [hfile, hnone]
      refine ensures_bind.mpr (ensures_query.mpr ⟨fun snapshot hread => ?_, fun _ herror => ?_⟩)
      · cases hread
        change recordedSize library [] + lineSize library journal ≤ maxAttemptBytes
        rw [lineSize_eq htext]
        have hempty : recordedSize library [] = 0 := rfl
        omega
      · cases herror
    · obtain ⟨snapshot, hread, hlatest, hroom⟩ := hlog.read_size hdoc h.validated hne hsize
      rw [hfile]
      refine ensures_bind.mpr (ensures_query.mpr ⟨fun found hfound => ?_, fun _ herror => ?_⟩)
      · obtain rfl := Except.ok.inj (hread.symm.trans hfound)
        exact ensures_prepareAppend_size htext hlatest hroom
      · rw [hread] at herror
        cases herror
  · cases hvec : library.toVec journal with
    | error message =>
      rw [hvec] at herror
      obtain rfl := Except.error.inj herror
      refine .inr ⟨rfl, fun text htext => ?_⟩
      rw [hvec] at htext
      cases htext
    | ok text =>
      rw [hvec] at herror
      cases herror

/-- Whole or torn, a write is answered as it is prepared. -/
theorem writeOutcome_eq (cut : Option Nat) : writeOutcome library run journal cut =
    ((prepareAttemptWrite library journal).exec run.file).1.map fun _ => () := by
  cases cut with
  | none =>
    rw [writeOutcome, writeAttemptFile, exec_bind]
    generalize (prepareAttemptWrite library journal).exec run.file = outcome
    obtain ⟨error | write, file⟩ := outcome
    · rfl
    · cases write <;> rfl
  | some written =>
    rw [writeOutcome, tornWrite, exec_bind]
    generalize (prepareAttemptWrite library journal).exec run.file = outcome
    obtain ⟨error | write, file⟩ := outcome
    · rfl
    · cases write <;> rfl

theorem failedWrite_of_writeOutcome (hdoc : library.Documented) (h : run.Sound library)
    {cut : Option Nat} {error : LifecycleError}
    (houtcome : writeOutcome library run journal cut = .error error) :
    FailedWrite library journal run.recorded error := by
  have hprepare : Ensures (prepareAttemptWrite library journal) _ _ run.file :=
    ensures_prepareAttemptWrite_size hdoc h
  rw [writeOutcome_eq] at houtcome
  unfold Ensures at hprepare
  generalize (prepareAttemptWrite library journal).exec run.file = outcome at hprepare houtcome
  obtain ⟨other | write, file⟩ := outcome
  · obtain rfl := Except.error.inj houtcome
    exact hprepare
  · cases houtcome

/-- A record that follows the latest and fits is put down. -/
theorem writeOutcome_of_fits (hdoc : library.Documented) (h : run.Sound library)
    {cut : Option Nat} (htext : library.toVec journal = .ok text)
    (hvalid : validateAttemptSnapshot library.toDefinitionLibrary journal run.recorded.getLast? =
      .ok ())
    (hfits : recordedSize library run.recorded + lineSize library journal ≤ maxAttemptBytes) :
    writeOutcome library run journal cut = .ok () := by
  cases houtcome : writeOutcome library run journal cut with
  | ok _ => rfl
  | error error =>
    obtain ⟨-, hlong⟩ | ⟨-, hinvalid⟩ := failedWrite_of_writeOutcome hdoc h houtcome
    · omega
    · exact absurd hvalid (hinvalid text htext)

/-- A record that follows the latest and does not fit is refused. -/
theorem writeOutcome_of_exceeds (hdoc : library.Documented) (h : run.Sound library)
    {cut : Option Nat} (htext : library.toVec journal = .ok text)
    (hvalid : validateAttemptSnapshot library.toDefinitionLibrary journal run.recorded.getLast? =
      .ok ())
    (hlong : maxAttemptBytes < recordedSize library run.recorded + lineSize library journal) :
    writeOutcome library run journal cut = .error (.messageTooLarge maxAttemptBytes) := by
  have hprepare : Ensures (prepareAttemptWrite library journal) _ _ run.file :=
    ensures_prepareAttemptWrite_size hdoc h
  rw [writeOutcome_eq]
  unfold Ensures at hprepare
  generalize (prepareAttemptWrite library journal).exec run.file = outcome at hprepare
  obtain ⟨error | write, file⟩ := outcome
  · obtain ⟨rfl, -⟩ | ⟨-, hinvalid⟩ := hprepare
    · rfl
    · exact absurd hvalid (hinvalid text htext)
  · exact absurd hprepare (not_le.mpr hlong)

end Sizes

/-! ### Room for the records that may follow -/

/-- The records that later commands may write behind the latest one. -/
def AttemptStatus.cost : AttemptStatus → Nat
  | .authorized => 3
  | .outcomeUnknown => 2
  | .prepared | .observedComplete | .reconciled => 0

namespace AttemptPoint

/-- The records of the steps behind a step. -/
def later (index : Nat) (journal : ServiceAttemptJournal) : Nat :=
  5 * (journal.steps.length - (index + 1))

/-- The records that the command may yet write, with those of the commands behind it. -/
def cost : AttemptPoint → Nat
  | .idle | .removing => 0
  | .preparing index journal => 7 + later index journal
  | .launching index journal => 6 + later index journal
  | .bootstrapping index journal => 5 + later index journal
  | .working index journal | .reaping index journal _ => 4 + later index journal
  | .observing index journal => 8 + later (index + 1) journal
  | .directPreparing _ => 5
  | .directAuthorizing _ => 4
  | .unconfirmed _ | .directWorking _ | .mutated => 3
  | .settling _ => 1

theorem cost_behindReap (index : Nat) (journal : ServiceAttemptJournal) (succeeded : Bool) :
    (behindReap index journal succeeded).cost ≤ 3 + later index journal := by
  unfold behindReap
  split
  · split
    · simp only [cost, later]
      omega
    · simp only [cost]
      omega
  · simp only [cost]
    omega

end AttemptPoint

namespace AttemptState

/-- The records that the latest one leaves room to. -/
def latestCost (state : AttemptState) : Nat :=
  (state.run.recorded.getLast?.map fun journal => journal.status.cost).getD 0

def budget (state : AttemptState) : Nat := max state.point.cost state.latestCost

/-- The next command finds a completion that was not reconciled. -/
def resumes (state : AttemptState) : Bool :=
  state.point = .idle && state.run.recorded.getLast?.any (·.status = .observedComplete)

section Reserved

variable (library : JournalLibrary) (paths : AttemptPaths)

/-- A record has at most `limit` bytes; where the attempt is first authorized, or a completion that
was not reconciled is taken up, **there is room for this record and for all that may follow**. -/
def Reserved (limit : Nat) (state : AttemptState) (event : AttemptEvent × Option Nat) : Prop :=
  match state.plan library paths event.1 with
  | .put journal next _ => lineSize library journal ≤ limit ∧
      (journal.status = .authorized ∧ state.authorized = false ∨ state.resumes = true →
        recordedSize library state.run.recorded +
          (1 + max next.cost journal.status.cost) * limit ≤ maxAttemptBytes)
  | _ => True

end Reserved

end AttemptState

/-! ### What a reconciliation takes up -/

section Reconciliation

variable {requiresOwnedHelper expired : Bool} {journal : ServiceAttemptJournal}
  {observation : NativeServiceObservation} {remaining : Except LifecycleError Unit}

theorem Reconciliation.of_ite {p : Prop} [Decidable p] {error : LifecycleError}
    {rest result : Reconciliation} (h : (if p then .failed error else rest) = result)
    (hfailed : ∀ error, result ≠ .failed error) : rest = result := by
  by_cases hp : p
  · rw [if_pos hp] at h
    exact absurd h.symm (hfailed error)
  · rwa [if_neg hp] at h

/-- Nothing is recorded of an attempt that was not authorized, or that is reconciled; an outcome is
recorded as unknown once. -/
theorem reconcilePending_spec {result : Reconciliation}
    (h : reconcilePending requiresOwnedHelper journal observation remaining expired = result)
    (hfailed : ∀ error, result ≠ .failed error) (hremove : result ≠ .remove) :
    journal.status ≠ .prepared ∧ journal.status ≠ .reconciled ∧
      (result = .markUnknown → journal.status ≠ .outcomeUnknown) := by
  unfold reconcilePending at h
  have h := Reconciliation.of_ite h hfailed
  cases remaining with
  | error error => exact absurd h.symm (hfailed error)
  | ok _ =>
    have h := Reconciliation.of_ite h hfailed
    have h := Reconciliation.of_ite h hfailed
    have h := Reconciliation.of_ite h hfailed
    by_cases hprepared : journal.status = .prepared
    · rw [if_pos hprepared] at h
      cases hpid : journal.helperPid with
      | none =>
        rw [hpid] at h
        exact absurd h.symm hremove
      | some pid =>
        rw [hpid] at h
        exact absurd h.symm (hfailed _)
    rw [if_neg hprepared] at h
    by_cases hreconciled : journal.status = .reconciled
    · rw [if_pos hreconciled] at h
      exact absurd h.symm hremove
    rw [if_neg hreconciled] at h
    refine ⟨hprepared, hreconciled, ?_⟩
    rintro rfl
    cases hpid : journal.helperPid with
    | some pid =>
      rw [hpid] at h
      cases h
    | none =>
      rw [hpid] at h
      dsimp only at h
      split at h
      · cases h
      split at h
      · cases h
      have h := Reconciliation.of_ite h hfailed
      by_cases hunknown : journal.status ≠ .outcomeUnknown
      · exact hunknown
      · rw [if_neg hunknown] at h
        cases h

theorem Reconciliation.failed_ite {p : Prop} [Decidable p] {error : LifecycleError}
    {rest : Reconciliation} (h : ∃ error, rest = .failed error) :
    ∃ error', (if p then .failed error else rest) = .failed error' := by
  by_cases hp : p
  · exact ⟨error, if_pos hp⟩
  · rwa [if_neg hp]

/-- An authorized helper whose exit is not recorded is **never reconciled**. -/
theorem reconcilePending_of_helper {pid : Nat} (hstatus : journal.status = .authorized)
    (hpid : journal.helperPid = some pid) : ∃ error,
      reconcilePending requiresOwnedHelper journal observation remaining expired =
        .failed error := by
  have hprepared : journal.status ≠ .prepared := by simp [hstatus]
  have hreconciled : journal.status ≠ .reconciled := by simp [hstatus]
  unfold reconcilePending
  refine Reconciliation.failed_ite ?_
  cases remaining with
  | error error => exact ⟨error, rfl⟩
  | ok _ =>
    refine Reconciliation.failed_ite (Reconciliation.failed_ite (Reconciliation.failed_ite ?_))
    rw [if_neg hprepared, if_neg hreconciled, hpid]
    exact ⟨_, rfl⟩

end Reconciliation

/-! ### Steps -/

section Steps

variable {library : JournalLibrary} {paths : AttemptPaths} {state : AttemptState}
  {event : AttemptEvent} {journal : ServiceAttemptJournal} {next failed point : AttemptPoint}

/-- A command works with the latest record. -/
theorem AttemptState.getLast?_of_latest? (hdoc : library.Documented)
    (hsound : state.run.Sound library) (h : state.latest? library paths = some journal) :
    state.run.recorded.getLast? = some journal := by
  obtain ⟨snapshot, hread, hlatest⟩ := hsound.read hdoc
  unfold AttemptState.latest? readAttemptForService at h
  rw [hread] at h
  cases snapshot with
  | none => cases h
  | some snapshot =>
    rw [← hlatest]
    change (Except.toOption (if _ then _ else _ : Except LifecycleError _)).join = some journal at h
    split at h
    · cases h
    · exact h

theorem ServiceAttemptJournal.cost_unconfirmed (journal : ServiceAttemptJournal) :
    journal.unconfirmed.status.cost ≤ 2 := by
  unfold ServiceAttemptJournal.unconfirmed
  dsimp only
  split
  · decide
  · cases hstatus : journal.status <;> simp_all [AttemptStatus.cost]

theorem AttemptStatus.cost_le (status : AttemptStatus) : status.cost ≤ 3 := by
  cases status <;> decide

theorem AttemptStatus.two_le_cost {status : AttemptStatus} (hprepared : status ≠ .prepared)
    (hreconciled : status ≠ .reconciled) (hcomplete : status ≠ .observedComplete) :
    2 ≤ status.cost := by
  cases status <;> first | decide | contradiction

theorem AttemptStatus.eq_authorized {status : AttemptStatus} (hprepared : status ≠ .prepared)
    (hreconciled : status ≠ .reconciled) (hunknown : status ≠ .outcomeUnknown)
    (hcomplete : status ≠ .observedComplete) : status = .authorized := by
  cases status <;> first | rfl | contradiction

/-- The records behind a point are paid for at it. -/
theorem AttemptState.cost_le_budget : state.point.cost ≤ state.budget := le_max_left _ _

/-- The records behind the latest one are paid for. -/
theorem AttemptState.latest_le_budget (h : state.run.recorded.getLast? = some journal) :
    journal.status.cost ≤ state.budget := by
  have hlatest : state.latestCost = journal.status.cost := by
    rw [AttemptState.latestCost, h]
    rfl
  exact hlatest ▸ le_max_right _ _

/-- **A record that is put down leaves the costs behind it paid for**, unless a completion is taken
up. -/
theorem AttemptState.cost_of_put (hdoc : library.Documented) (hsound : state.run.Sound library)
    (h : state.plan library paths event = .put journal next failed) :
    failed.cost ≤ state.budget ∧
      (state.resumes = false → 1 + max next.cost journal.status.cost ≤ state.budget) := by
  have hpoint : state.point.cost ≤ state.budget := state.cost_le_budget
  have hstatus : journal.status.cost ≤ 3 := journal.status.cost_le
  unfold AttemptState.plan at h
  split at h
  case h_1 heq =>
    split at h <;> cases h
  case h_2 index base heq =>
    rw [heq] at hpoint
    split at h
    · cases h
      simp only [AttemptPoint.cost, AttemptPoint.later, ServiceAttemptJournal.steps_prepared]
        at hpoint ⊢
      omega
    · cases h
  case h_3 base heq =>
    rw [heq] at hpoint
    cases h
    simp only [AttemptPoint.cost, AttemptStatus.cost] at hpoint ⊢
    omega
  case h_4 pid owner index base heq =>
    rw [heq] at hpoint
    cases h
    simp only [AttemptPoint.cost, AttemptPoint.later, ServiceAttemptJournal.steps_withHelper]
      at hpoint ⊢
    omega
  case h_6 index base heq =>
    rw [heq] at hpoint
    cases h
    simp only [AttemptPoint.cost, AttemptPoint.later, ServiceAttemptJournal.steps_authorize]
      at hpoint ⊢
    omega
  case h_7 base heq =>
    rw [heq] at hpoint
    cases h
    simp only [AttemptPoint.cost] at hpoint ⊢
    omega
  case h_11 index base succeeded heq =>
    rw [heq] at hpoint
    cases h
    have hnext := AttemptPoint.cost_behindReap index (base.reaped succeeded) succeeded
    simp only [AttemptPoint.cost, AttemptPoint.later, ServiceAttemptJournal.steps_reaped]
      at hpoint hnext ⊢
    omega
  case h_13 base heq =>
    rw [heq] at hpoint
    cases h
    have hunconfirmed : base.unconfirmed.status.cost ≤ 2 := base.cost_unconfirmed
    simp only [AttemptPoint.cost] at hpoint ⊢
    omega
  case h_14 observation index base heq =>
    rw [heq] at hpoint
    cases h
    simp only [AttemptPoint.cost, AttemptPoint.later, ServiceAttemptJournal.steps_completed,
      ServiceAttemptJournal.status_completed, AttemptStatus.cost] at hpoint ⊢
    omega
  case h_16 pid base heq =>
    rw [heq] at hpoint
    cases h
    simp only [AttemptPoint.cost, ServiceAttemptJournal.mutationFailed, AttemptStatus.cost]
      at hpoint ⊢
    omega
  case h_17 observation heq =>
    rw [heq] at hpoint
    split at h
    · cases h
      simp only [AttemptPoint.cost, ServiceAttemptJournal.status_completed, AttemptStatus.cost]
          at hpoint ⊢
      omega
    · cases h
  case h_18 observation heq =>
    rw [heq] at hpoint
    split at h
    · split at h
      · cases h
        simp only [AttemptPoint.cost, ServiceAttemptJournal.status_completed, AttemptStatus.cost]
          at hpoint ⊢
        omega
      · split at h
        · cases h
        · cases h
          simp only [AttemptPoint.cost, ServiceAttemptJournal.unknownWith, AttemptStatus.cost]
            at hpoint ⊢
          omega
    · cases h
  case h_19 base heq =>
    rw [heq] at hpoint
    cases h
    simp only [AttemptPoint.cost, ServiceAttemptJournal.reconciled, AttemptStatus.cost] at hpoint ⊢
    omega
  case h_21 observation remaining expired heq =>
    split at h
    · rename_i latest hlatest
      have hlast := AttemptState.getLast?_of_latest? hdoc hsound hlatest
      have hbudget := AttemptState.latest_le_budget hlast
      have hresumes : state.resumes = decide (latest.status = .observedComplete) := by
        rw [AttemptState.resumes, hlast, heq]
        rfl
      split at h
      · cases h
      · cases h
      · rename_i hsettle
        cases h
        obtain ⟨hprepared, hreconciled, -⟩ := reconcilePending_spec hsettle (by simp) (by simp)
        refine ⟨Nat.zero_le _, fun hstate => ?_⟩
        rw [hresumes, decide_eq_false_iff_not] at hstate
        have htwo := AttemptStatus.two_le_cost hprepared hreconciled hstate
        simp only [AttemptPoint.cost, ServiceAttemptJournal.status_completed, AttemptStatus.cost]
        omega
      · rename_i hmark
        cases h
        obtain ⟨hprepared, hreconciled, hunknown⟩ :=
          reconcilePending_spec hmark (by simp) (by simp)
        refine ⟨Nat.zero_le _, fun hstate => ?_⟩
        rw [hresumes, decide_eq_false_iff_not] at hstate
        have hauthorized :=
          AttemptStatus.eq_authorized hprepared hreconciled (hunknown rfl) hstate
        rw [hauthorized] at hbudget
        exact hbudget
    · cases h
  all_goals cases h

/-- What the command does without a record costs nothing, but for the beginning of an attempt. -/
theorem AttemptState.cost_of_go (h : state.plan library paths event = .go point) :
    state.run.file = none ∨ point.cost ≤ state.budget := by
  have hpoint : state.point.cost ≤ state.budget := state.cost_le_budget
  unfold AttemptState.plan at h
  split at h
  case h_1 heq =>
    split at h
    · rename_i hfirst
      exact .inl (Option.isNone_iff_eq_none.mp hfirst.1)
    · cases h
  all_goals refine .inr ?_
  case h_2 index base heq =>
    rw [heq] at hpoint
    split at h
    · cases h
    · cases h
      simp only [AttemptPoint.cost] at hpoint ⊢
      omega
  case h_5 launched index base heq =>
    rw [heq] at hpoint
    cases h
    cases launched with
    | false =>
      change 3 ≤ state.budget
      simp only [AttemptPoint.cost] at hpoint
      omega
    | true =>
      change 4 + AttemptPoint.later index base ≤ state.budget
      simp only [AttemptPoint.cost] at hpoint
      omega
  case h_8 index base heq | h_9 index base heq | h_10 index base heq | h_12 index base heq =>
    rw [heq] at hpoint
    cases h
    simp only [AttemptPoint.cost] at hpoint ⊢
    omega
  case h_15 heq =>
    rw [heq] at hpoint
    cases h
    exact hpoint
  case h_17 heq =>
    split at h
    · cases h
    · cases h
      exact Nat.zero_le _
  case h_18 heq =>
    split at h
    · split at h
      · cases h
      · split at h
        · cases h
          exact Nat.zero_le _
        · cases h
    · cases h
      exact Nat.zero_le _
  case h_21 heq =>
    split at h
    · split at h <;> cases h
    · cases h
  case h_22 =>
    cases h
    exact Nat.zero_le _
  all_goals cases h

/-! ### The first record -/

/-- Where a command may stand while nothing is recorded; the record it begins with is valid. -/
def AttemptPoint.Startable (library : DefinitionLibrary) : AttemptPoint → Prop
  | .idle | .mutated | .removing => True
  | .preparing _ journal => ∀ label, blank label = false →
      validateAttemptSnapshot library (journal.prepared label) none = .ok ()
  | .directPreparing journal =>
      validateAttemptSnapshot library { journal with status := .prepared } none = .ok ()
  | _ => False

theorem blank_stepLabel (index : Nat) (step : NativeMutation) :
    blank (stepLabel index step) = false := by
  have hmem : ':' ∈ (stepLabel index step).toList := by
    have hcolon : ':' ∈ (":\"" : String).toList := by decide
    simp only [stepLabel, String.toList_append, List.mem_append]
    exact .inl (.inl (.inr hcolon))
  rw [← Bool.not_eq_true, blank, List.all_eq_true]
  intro hall
  have hcolon : isWhitespace ':' = true := hall ':' hmem
  revert hcolon
  decide

theorem blank_label (action : ServiceAction) : blank action.label = false := by
  cases action <;> decide

theorem validateServiceId_of_validate {library : DefinitionLibrary} {definition : ServiceDefinition}
    (h : definition.validate library = .ok ()) :
    validateServiceId definition.manager definition.serviceId = .ok () := by
  obtain ⟨_, hfields, -⟩ := except_bind_eq_ok h
  unfold ServiceDefinition.validateFields at hfields
  split at hfields
  · cases hfields
  split at hfields
  · cases hfields
  obtain ⟨_, hid, -⟩ := except_bind_eq_ok hfields
  exact hid

/-- A record that begins an attempt for a valid definition is valid, whatever its step. -/
theorem validate_firstJournal {library : DefinitionLibrary} {definition : ServiceDefinition}
    {record : ServiceAttemptJournal} (h : definition.validate library = .ok ())
    (hschema : record.schemaVersion = serviceStateSchemaVersion)
    (hmanager : record.manager = definition.manager)
    (hservice : record.nativeServiceId = definition.serviceId)
    (hdefinition : record.expectedDefinition = definition) (hstep : blank record.step = false) :
    validateAttemptSnapshot library record none = .ok () := by
  have hid := validateServiceId_of_validate h
  unfold validateAttemptSnapshot
  rw [if_neg (not_not.mpr hschema), hmanager, hservice, hdefinition, hid, h, hstep]
  simp [bind, Except.bind, pure, Except.pure]

/-- An attempt for a definition that is valid begins with a valid record. -/
theorem startable_firstJournal {library : DefinitionLibrary} {definition : ServiceDefinition}
    (attemptId : String) (action : ServiceAction) (prior : NativeServiceObservation)
    (h : definition.validate library = .ok ()) :
    (if paths.requiresOwnedHelper then
      AttemptPoint.preparing 0 (firstJournal paths attemptId action definition prior)
    else .directPreparing (firstJournal paths attemptId action definition prior)).Startable
      library := by
  split
  · intro label hlabel
    exact validate_firstJournal h rfl rfl rfl rfl hlabel
  · rename_i hdirect
    refine validate_firstJournal h rfl rfl rfl rfl ?_
    have hstep : (firstJournal paths attemptId action definition prior).step = action.label := by
      rw [firstJournal, if_neg hdirect]
    rw [hstep]
    exact blank_label action

theorem JournalRun.Sound.recorded_eq_nil {run : JournalRun} (h : run.Sound library)
    (hfile : run.file = none) : run.recorded = [] := by
  obtain ⟨-, hnone⟩ | ⟨bytes, hsome, -⟩ := h.shape
  · exact hnone
  · rw [hfile] at hsome
    cases hsome

/-- The first record is valid. -/
theorem AttemptState.startable_of_put (hdoc : library.Documented) (hsound : state.run.Sound library)
    (hnone : state.run.recorded = []) (hstart : state.point.Startable library.toDefinitionLibrary)
    (h : state.plan library paths event = .put journal next failed) :
    validateAttemptSnapshot library.toDefinitionLibrary journal none = .ok () ∧ failed = .idle := by
  have hlatest : ∀ latest, state.latest? library paths ≠ some latest := by
    intro latest hlatest
    have hlast := AttemptState.getLast?_of_latest? hdoc hsound hlatest
    rw [hnone] at hlast
    cases hlast
  unfold AttemptState.plan at h
  split at h
  case h_2 index base heq =>
    rw [heq] at hstart
    split at h
    · cases h
      exact ⟨hstart _ (blank_stepLabel _ _), rfl⟩
    · cases h
  case h_3 base heq =>
    rw [heq] at hstart
    cases h
    exact ⟨hstart, rfl⟩
  case h_17 | h_18 | h_21 =>
    split at h
    · rename_i hlatest'
      exact absurd hlatest' (hlatest _)
    · cases h
  case h_4 heq | h_6 heq | h_7 heq | h_11 heq | h_13 heq | h_14 heq | h_16 heq | h_19 heq =>
    rw [heq] at hstart
    exact hstart.elim
  case h_1 heq =>
    split at h <;> cases h
  all_goals cases h

theorem AttemptState.startable_of_go (hstart : state.point.Startable library.toDefinitionLibrary)
    (h : state.plan library paths event = .go point) :
    point.Startable library.toDefinitionLibrary := by
  unfold AttemptState.plan at h
  split at h
  case h_1 heq =>
    split at h
    · rename_i hfirst
      cases h
      exact startable_firstJournal _ _ _ hfirst.2
    · cases h
  case h_2 heq =>
    split at h
    · cases h
    · cases h
      trivial
  case h_5 heq | h_8 heq | h_9 heq | h_10 heq | h_12 heq | h_15 heq =>
    rw [heq] at hstart
    exact hstart.elim
  case h_17 | h_18 =>
    repeat' split at h
    all_goals cases h
    all_goals trivial
  case h_21 =>
    repeat' split at h
    all_goals cases h
  case h_22 =>
    cases h
    trivial
  all_goals cases h

/-! ### The invariant -/

/-- **The invariant of runs**: the file is sound, an attempt that is not recorded can be begun, and
once it is authorized there is room for all that may follow. -/
structure AttemptState.Accounted (library : JournalLibrary) (limit : Nat) (state : AttemptState) :
    Prop where
  sound : state.run.Sound library
  startable : state.run.recorded = [] → state.point.Startable library.toDefinitionLibrary
  room : state.authorized = true →
    recordedSize library state.run.recorded + state.budget * limit ≤ maxAttemptBytes
  fits : state.refused = false

theorem AttemptState.Accounted.without_file {limit : Nat} {refused : Bool} (h : refused = false) :
    AttemptState.Accounted library limit ⟨{}, .idle, refused⟩ where
  sound := ⟨trivial, .inl ⟨rfl, rfl⟩⟩
  startable _ := trivial
  room hauthorized := absurd hauthorized Bool.false_ne_true
  fits := h

/-- What a write may leave: it fails, or it puts the record down, or it is cut off before. -/
inductive AttemptState.Wrote (library : JournalLibrary) (state : AttemptState)
    (journal : ServiceAttemptJournal) (next failed : AttemptPoint) : AttemptState → Prop
  | fails {error : LifecycleError} {file : Option Bytes} {point : AttemptPoint} :
    FailedWrite library journal state.run.recorded error → point = failed ∨ point = .idle →
      Wrote library state journal next failed ⟨⟨file, state.run.recorded⟩, point,
        state.refused || state.authorized && isTooLarge error⟩
  | whole {file : Option Bytes} {point : AttemptPoint} : point = next ∨ point = .idle →
      Wrote library state journal next failed
        ⟨⟨file, state.run.recorded ++ [journal]⟩, point, state.refused⟩
  | cut {file : Option Bytes} :
      Wrote library state journal next failed ⟨⟨file, state.run.recorded⟩, .idle, state.refused⟩

theorem AttemptState.wrote_put (hdoc : library.Documented) (hsound : state.run.Sound library)
    (cut : Option Nat) :
    state.Wrote library journal next failed (state.put library journal cut next failed) := by
  have hfailed : ∀ error, writeOutcome library state.run journal cut = .error error →
      FailedWrite library journal state.run.recorded error :=
    fun _ => failedWrite_of_writeOutcome hdoc hsound
  unfold AttemptState.put
  cases cut with
  | none =>
    rw [journalEvent, JournalRun.step]
    simp only [writeOutcome] at hfailed ⊢
    generalize (writeAttemptFile library journal).exec state.run.file = outcome at hfailed ⊢
    obtain ⟨error | result, file⟩ := outcome
    · exact .fails (hfailed error rfl) (.inl rfl)
    · exact .whole (.inl rfl)
  | some written =>
    rw [journalEvent, JournalRun.step]
    simp only [writeOutcome] at hfailed ⊢
    generalize (tornWrite library journal written).exec state.run.file = outcome at hfailed ⊢
    obtain ⟨error | whole, file⟩ := outcome
    · exact .fails (hfailed error rfl) (.inr rfl)
    · cases whole with
      | false => exact .cut
      | true => exact .whole (.inr rfl)

theorem AttemptState.run_put (cut : Option Nat) :
    (state.put library journal cut next failed).run =
      state.run.step library (journalEvent journal cut) := by
  unfold AttemptState.put
  split <;> rfl

/-- With the record there is room for what may follow it. -/
theorem AttemptState.Accounted.room_of_put {limit : Nat} (hdoc : library.Documented)
    (h : state.Accounted library limit)
    (hplan : state.plan library paths event = .put journal next failed)
    (hreserve : journal.status = .authorized ∧ state.authorized = false ∨ state.resumes = true →
      recordedSize library state.run.recorded +
        (1 + max next.cost journal.status.cost) * limit ≤ maxAttemptBytes)
    (hauthorized : state.authorized = true ∨ journal.status = .authorized) :
    recordedSize library state.run.recorded + (1 + max next.cost journal.status.cost) * limit ≤
      maxAttemptBytes := by
  by_cases hresumes : state.resumes = true
  · exact hreserve (.inr hresumes)
  by_cases hfirst : state.authorized = true
  · have hpaid := (AttemptState.cost_of_put hdoc h.sound hplan).2 (by simpa using hresumes)
    exact (Nat.add_le_add_left (Nat.mul_le_mul_right limit hpaid) _).trans (h.room hfirst)
  · exact hreserve (.inl ⟨hauthorized.resolve_left hfirst, by simpa using hfirst⟩)

/-- **A write keeps the invariant.** -/
theorem AttemptState.Accounted.put {limit : Nat} (hdoc : library.Documented)
    (h : state.Accounted library limit)
    (hplan : state.plan library paths event = .put journal next failed)
    (hsize : lineSize library journal ≤ limit)
    (hreserve : journal.status = .authorized ∧ state.authorized = false ∨ state.resumes = true →
      recordedSize library state.run.recorded +
        (1 + max next.cost journal.status.cost) * limit ≤ maxAttemptBytes) (cut : Option Nat) :
    (state.put library journal cut next failed).Accounted library limit := by
  have hroom := h.room_of_put hdoc hplan hreserve
  have hfailed := (AttemptState.cost_of_put hdoc h.sound hplan).1
  have hfirst : state.run.recorded = [] →
      validateAttemptSnapshot library.toDefinitionLibrary journal none = .ok () ∧ failed = .idle :=
    fun hnone => AttemptState.startable_of_put hdoc h.sound hnone (h.startable hnone) hplan
  have hsound : (state.put library journal cut next failed).run.Sound library := by
    rw [AttemptState.run_put]
    refine h.sound.step hdoc fun hfile => ?_
    have hjournal : (journalEvent journal cut).journal = journal := by
      cases cut <;> rfl
    rw [hjournal]
    exact (hfirst (h.sound.recorded_eq_nil hfile)).1
  have hwrote : state.Wrote library journal next failed
      (state.put library journal cut next failed) := AttemptState.wrote_put hdoc h.sound cut
  generalize state.put library journal cut next failed = after at hsound hwrote
  -- what the next point and the latest record may cost was paid for before
  have hsmall : ∀ {point : AttemptPoint} {recorded : Nat}, state.authorized = true →
      point.cost ≤ state.budget → recorded = recordedSize library state.run.recorded →
      recorded + max point.cost state.latestCost * limit ≤ maxAttemptBytes := by
    rintro point _ hauthorized hpoint rfl
    have hbudget : max point.cost state.latestCost ≤ state.budget :=
      max_le hpoint (le_max_right _ _)
    exact (Nat.add_le_add_left (Nat.mul_le_mul_right limit hbudget) _).trans (h.room hauthorized)
  cases hwrote with
  | @fails error file point herror hpoint =>
    refine ⟨hsound, fun hnone => ?_, fun hauthorized => hsmall hauthorized ?_ rfl, ?_⟩
    · obtain rfl | rfl := hpoint
      · rw [(hfirst hnone).2]
        trivial
      · trivial
    · obtain rfl | rfl := hpoint
      · exact hfailed
      · exact Nat.zero_le _
    · obtain ⟨rfl, hlong⟩ | ⟨hother, -⟩ := herror
      · have hauthorized : state.authorized = false := by
          by_contra hauthorized
          have hfits := hroom (.inl (by simpa using hauthorized))
          have hone : limit ≤ (1 + max next.cost journal.status.cost) * limit :=
            Nat.le_mul_of_pos_left limit (by omega)
          omega
        simp [h.fits, hauthorized]
      · simp [h.fits, hother]
  | @whole file point hpoint =>
    refine ⟨hsound, fun hnone => absurd hnone (by simp), fun hauthorized => ?_, h.fits⟩
    have hold : state.authorized = true ∨ journal.status = .authorized := by
      unfold AttemptState.authorized at hauthorized ⊢
      simpa using hauthorized
    have hnext : point.cost ≤ next.cost := by
      obtain rfl | rfl := hpoint
      · exact le_rfl
      · exact Nat.zero_le _
    have hbudget : AttemptState.budget ⟨⟨file, state.run.recorded ++ [journal]⟩, point,
        state.refused⟩ ≤ max next.cost journal.status.cost := by
      unfold AttemptState.budget AttemptState.latestCost
      rw [List.getLast?_concat]
      exact max_le_max_right _ hnext
    rw [recordedSize_concat]
    have hfits := hroom hold
    have hmul := Nat.mul_le_mul_right limit hbudget
    rw [Nat.add_mul, Nat.one_mul] at hfits
    omega
  | cut =>
    exact ⟨hsound, fun _ => trivial, fun hauthorized => hsmall hauthorized (Nat.zero_le _) rfl,
      h.fits⟩

/-- **One step keeps the invariant**, if the room for it is reserved. -/
theorem AttemptState.Accounted.step {limit : Nat} (hdoc : library.Documented)
    (h : state.Accounted library limit) {event : AttemptEvent × Option Nat}
    (hreserved : state.Reserved library paths limit event) :
    (state.step library paths event).Accounted library limit := by
  unfold AttemptState.step
  unfold AttemptState.Reserved at hreserved
  cases hplan : state.plan library paths event.1 with
  | stay => exact h
  | go point =>
    refine ⟨h.sound, fun hnone => AttemptState.startable_of_go (h.startable hnone) hplan,
      fun hauthorized => ?_, h.fits⟩
    have hfile : state.run.file ≠ none := by
      intro hfile
      rw [AttemptState.authorized, h.sound.recorded_eq_nil hfile] at hauthorized
      cases hauthorized
    have hcost := (AttemptState.cost_of_go hplan).resolve_left hfile
    have hbudget : max point.cost state.latestCost ≤ state.budget := max_le hcost (le_max_right _ _)
    exact (Nat.add_le_add_left (Nat.mul_le_mul_right limit hbudget) _).trans (h.room hauthorized)
  | remove => exact .without_file h.fits
  | put journal next failed =>
    rw [hplan] at hreserved
    exact h.put hdoc hplan hreserved.1 hreserved.2 event.2

theorem AttemptState.step_stop (state : AttemptState) (library : JournalLibrary)
    (paths : AttemptPaths) :
    state.step library paths (.stop, none) = { state with point := .idle } := by
  unfold AttemptState.step AttemptState.plan
  cases state.point <;> rfl

/-- A command leaves an authorized helper alone whose exit is not recorded. -/
theorem AttemptState.plan_reconcile_of_helper (hdoc : library.Documented)
    (hsound : state.run.Sound library) (hpoint : state.point = .idle)
    (hlast : state.run.recorded.getLast? = some journal) {pid : Nat}
    (hstatus : journal.status = .authorized) (hpid : journal.helperPid = some pid)
    (observation : NativeServiceObservation) (remaining : Except LifecycleError Unit)
    (expired : Bool) :
    state.plan library paths (.reconcile observation remaining expired) = .stay := by
  unfold AttemptState.plan
  rw [hpoint]
  dsimp only
  split
  · rename_i latest hlatest
    obtain rfl : latest = journal := by
      have hfound := AttemptState.getLast?_of_latest? hdoc hsound hlatest
      exact Option.some.inj (hfound.symm.trans hlast)
    have hfailed : ∃ error, reconcilePending paths.requiresOwnedHelper latest observation remaining
        expired = .failed error := reconcilePending_of_helper hstatus hpid
    obtain ⟨error, herror⟩ := hfailed
    rw [herror]
  · rfl

end Steps

/-- **A journal with room reserved is never full.** In every run in which each record has at most
`limit` bytes, and in which the first authorization of an attempt, and what takes up a completion,
finds room for itself and for all that may follow, no record is refused after the authorization. -/
theorem reserved_journal_is_never_full (library : JournalLibrary) (hdoc : library.Documented)
    (paths : AttemptPaths) (limit : Nat) (events : List (AttemptEvent × Option Nat))
    (hreserved : Runs.Meets (AttemptState.step library paths)
      (AttemptState.Reserved library paths limit) {} events) :
    (Runs.run (AttemptState.step library paths) {} events).refused = false := by
  have hinit : AttemptState.Accounted library limit {} := .without_file rfl
  exact (hreserved.invariant hinit fun state event h hevent => h.step hdoc hevent).fits

/-! ### A sample -/

section Moves

variable {library : JournalLibrary} {paths : AttemptPaths} {state : AttemptState}
  {event : AttemptEvent} {journal : ServiceAttemptJournal} {recorded : List ServiceAttemptJournal}
  {point next failed : AttemptPoint} {text : Bytes}

/-- Where a run stands, and what it has recorded. -/
structure AttemptState.At (library : JournalLibrary) (state : AttemptState) (point : AttemptPoint)
    (recorded : List ServiceAttemptJournal) : Prop where
  sound : state.run.Sound library
  point_eq : state.point = point
  recorded_eq : state.run.recorded = recorded
  not_refused : state.refused = false

theorem AttemptState.At.go (h : state.At library point recorded)
    (hplan : state.plan library paths event = .go next) :
    (state.step library paths (event, none)).At library next recorded := by
  unfold AttemptState.step
  rw [hplan]
  exact ⟨h.sound, rfl, h.recorded_eq, h.not_refused⟩

/-- A write that is not cut short records what it succeeds with. -/
theorem recorded_write (run : JournalRun) :
    (run.step library (.write journal)).recorded =
      if writeOutcome library run journal none = .ok () then run.recorded ++ [journal]
      else run.recorded := by
  rw [JournalRun.step, writeOutcome]
  generalize (writeAttemptFile library journal).exec run.file = outcome
  obtain ⟨result | result, file⟩ := outcome
  · rfl
  · rfl

theorem sound_write {run : JournalRun} (hdoc : library.Documented) (hsound : run.Sound library)
    (hvalid : validateAttemptSnapshot library.toDefinitionLibrary journal run.recorded.getLast? =
      .ok ()) : (run.step library (.write journal)).Sound library := by
  refine hsound.step hdoc fun hfile => ?_
  rw [hsound.recorded_eq_nil hfile] at hvalid
  exact hvalid

/-- A record that follows the latest and fits is added. -/
theorem AttemptState.At.put (hdoc : library.Documented) (h : state.At library point recorded)
    (hplan : state.plan library paths event = .put journal next failed)
    (htext : library.toVec journal = .ok text)
    (hvalid : validateAttemptSnapshot library.toDefinitionLibrary journal recorded.getLast? =
      .ok ())
    (hfits : recordedSize library recorded + lineSize library journal ≤ maxAttemptBytes) :
    (state.step library paths (event, none)).At library next (recorded ++ [journal]) := by
  obtain ⟨hsound, hpoint, rfl, hrefused⟩ := h
  have houtcome : writeOutcome library state.run journal none = .ok () :=
    writeOutcome_of_fits hdoc hsound htext hvalid hfits
  have hrecorded : (state.run.step library (.write journal)).recorded =
      state.run.recorded ++ [journal] := by
    rw [recorded_write, if_pos houtcome]
  unfold AttemptState.step
  rw [hplan]
  dsimp only
  unfold AttemptState.put
  rw [houtcome]
  exact ⟨sound_write hdoc hsound hvalid, rfl, hrecorded, hrefused⟩

/-- Once the attempt is authorized, a record that follows the latest and does not fit is refused. -/
theorem AttemptState.At.refuse (hdoc : library.Documented) (h : state.At library point recorded)
    (hplan : state.plan library paths event = .put journal next failed)
    (htext : library.toVec journal = .ok text)
    (hvalid : validateAttemptSnapshot library.toDefinitionLibrary journal recorded.getLast? =
      .ok ())
    (hauthorized : state.authorized = true)
    (hlong : maxAttemptBytes < recordedSize library recorded + lineSize library journal) :
    (state.step library paths (event, none)).refused = true ∧
      (state.step library paths (event, none)).run.recorded = recorded ∧
      (state.step library paths (event, none)).run.Sound library := by
  obtain ⟨hsound, hpoint, rfl, hrefused⟩ := h
  have houtcome : writeOutcome library state.run journal none =
      .error (.messageTooLarge maxAttemptBytes) :=
    writeOutcome_of_exceeds hdoc hsound htext hvalid hlong
  have hrecorded : (state.run.step library (.write journal)).recorded = state.run.recorded := by
    rw [recorded_write, if_neg (by simp [houtcome])]
  unfold AttemptState.step
  rw [hplan]
  dsimp only
  unfold AttemptState.put
  rw [houtcome]
  refine ⟨?_, hrecorded, sound_write hdoc hsound hvalid⟩
  rw [hrefused, hauthorized]
  rfl

theorem AttemptState.reserved_of_go {limit : Nat} {cut : Option Nat}
    (hplan : state.plan library paths event = .go next) :
    state.Reserved library paths limit (event, cut) := by
  unfold AttemptState.Reserved
  rw [hplan]
  trivial

theorem AttemptState.reserved_of_put {limit : Nat} {cut : Option Nat}
    (hplan : state.plan library paths event = .put journal next failed)
    (hsize : lineSize library journal ≤ limit)
    (hreserve : journal.status = .authorized ∧ state.authorized = false ∨ state.resumes = true →
      recordedSize library state.run.recorded +
        (1 + max next.cost journal.status.cost) * limit ≤ maxAttemptBytes) :
    state.Reserved library paths limit (event, cut) := by
  unfold AttemptState.Reserved
  rw [hplan]
  exact ⟨hsize, hreserve⟩

/-- A command that works takes nothing up. -/
theorem AttemptState.At.resumes_eq (h : state.At library point recorded) (hpoint : point ≠ .idle) :
    state.resumes = false := by
  rw [AttemptState.resumes, h.point_eq, decide_eq_false hpoint]
  rfl

end Moves

section Table

/-- A library that knows the texts of some records. -/
def tableLibrary (table : List (ServiceAttemptJournal × Bytes)) : JournalLibrary where
  digest _ _ _ _ _ _ := ""
  toVec journal :=
    match table.find? (·.1 = journal) with
    | some entry => .ok entry.2
    | none => .error "path contains invalid UTF-8 characters"
  fromSlice bytes :=
    match table.find? fun entry =>
      entry.2 <+: bytes ∧ ∀ c ∈ bytes.drop entry.2.length, c ∈ jsonWhitespace with
    | some entry => .ok entry.1
    | none => .error "EOF while parsing a value"

variable {table : List (ServiceAttemptJournal × Bytes)} {journal : ServiceAttemptJournal}
  {text bytes : Bytes} {entry : ServiceAttemptJournal × Bytes}

theorem mem_of_toVec_tableLibrary (h : (tableLibrary table).toVec journal = .ok text) :
    (journal, text) ∈ table := by
  unfold tableLibrary at h
  dsimp only at h
  split at h
  · rename_i entry hfind
    obtain rfl := Except.ok.inj h
    have hjournal : entry.1 = journal := by simpa using List.find?_some hfind
    rw [← hjournal]
    exact List.mem_of_find?_eq_some hfind
  · cases h

theorem toVec_tableLibrary (hnodup : (table.map Prod.fst).Nodup) (hmem : (journal, text) ∈ table) :
    (tableLibrary table).toVec journal = .ok text := by
  unfold tableLibrary
  dsimp only
  split
  · rename_i entry hfind
    have hjournal : entry.1 = journal := by simpa using List.find?_some hfind
    have heq : entry = (journal, text) :=
      List.inj_on_of_nodup_map hnodup (List.mem_of_find?_eq_some hfind) hmem hjournal
    rw [heq]
  · rename_i hfind
    rw [List.find?_eq_none] at hfind
    exact absurd (decide_eq_true rfl) (hfind _ hmem)

/-- What is read is a text of the table with whitespace behind it. -/
theorem fromSlice_tableLibrary_cases (table : List (ServiceAttemptJournal × Bytes))
    (bytes : Bytes) :
    (∃ entry ∈ table, entry.2 <+: bytes ∧ (∀ c ∈ bytes.drop entry.2.length, c ∈ jsonWhitespace) ∧
      (tableLibrary table).fromSlice bytes = .ok entry.1) ∨
    ∃ error, (tableLibrary table).fromSlice bytes = .error error := by
  unfold tableLibrary
  dsimp only
  split
  · rename_i entry hfind
    have hread := List.find?_some hfind
    rw [decide_eq_true_eq] at hread
    obtain ⟨hbegins, hblanks⟩ := hread
    exact .inl ⟨entry, List.mem_of_find?_eq_some hfind, hbegins, hblanks, rfl⟩
  · exact .inr ⟨_, rfl⟩

theorem fromSlice_tableLibrary (hmem : entry ∈ table) (hbegins : entry.2 <+: bytes)
    (hblanks : ∀ c ∈ bytes.drop entry.2.length, c ∈ jsonWhitespace) :
    ∃ found, (tableLibrary table).fromSlice bytes = .ok found := by
  unfold tableLibrary
  dsimp only
  split
  · exact ⟨_, rfl⟩
  · rename_i hfind
    rw [List.find?_eq_none] at hfind
    exact absurd (decide_eq_true ⟨hbegins, hblanks⟩) (hfind _ hmem)

/-- A table is documented if its texts are lines, and none begins another. -/
theorem documented_tableLibrary (hopens : ∀ entry ∈ table, entry.2.head? = some 123)
    (hlines : ∀ entry ∈ table, newline ∉ entry.2)
    (hparts : (table.map Prod.snd).Pairwise fun text other => ¬ text <+: other ∧ ¬ other <+: text) :
    (tableLibrary table).Documented := by
  have hparts : ∀ entry ∈ table, ∀ other ∈ table, entry.2 <+: other.2 → entry = other := by
    have : Std.Symm fun entry other : ServiceAttemptJournal × Bytes =>
        (entry.2 <+: other.2 → entry = other) ∧ (other.2 <+: entry.2 → other = entry) :=
      ⟨fun _ _ => And.symm⟩
    have hpairs : table.Pairwise fun entry other =>
        (entry.2 <+: other.2 → entry = other) ∧ (other.2 <+: entry.2 → other = entry) :=
      (List.pairwise_map.mp hparts).imp fun h =>
        ⟨fun hle => absurd hle h.1, fun hle => absurd hle h.2⟩
    intro entry hentry other hother
    exact (List.Pairwise.forall_of_forall (fun _ _ => ⟨fun _ => rfl, fun _ => rfl⟩) hpairs hentry
      hother).1
  -- of two texts that begin the same bytes, one begins the other
  have hunique : ∀ {entry other : ServiceAttemptJournal × Bytes} {bytes : Bytes}, entry ∈ table →
      other ∈ table → entry.2 <+: bytes → other.2 <+: bytes → entry = other := by
    intro entry other bytes hentry hother hbegins hbegins'
    obtain hle | hle := List.prefix_or_prefix_of_prefix hbegins hbegins'
    · exact hparts entry hentry other hother hle
    · exact (hparts other hother entry hentry hle).symm
  refine ⟨fun htext => ?_, fun htext => ?_, fun {journal text} blanks htext hblanks => ?_,
    fun {journal text rest} htext hrest => ?_, fun {journal text part} htext hpart hne => ?_⟩
  · exact hopens _ (mem_of_toVec_tableLibrary htext)
  · exact hlines _ (mem_of_toVec_tableLibrary htext)
  · have hmem := mem_of_toVec_tableLibrary htext
    have hbegins : text <+: text ++ blanks := List.prefix_append _ _
    have hdrop : (text ++ blanks).drop text.length = blanks := List.drop_left
    obtain ⟨found, hfound⟩ := fromSlice_tableLibrary hmem hbegins (by rwa [hdrop])
    obtain ⟨entry, hentry, hbegins', -, hread⟩ | ⟨error, herror⟩ :=
      fromSlice_tableLibrary_cases table (text ++ blanks)
    · rw [hread, hunique hentry hmem hbegins' hbegins]
    · rw [hfound] at herror
      cases herror
  · have hmem := mem_of_toVec_tableLibrary htext
    obtain ⟨entry, hentry, hbegins, hblanks, -⟩ | herror :=
      fromSlice_tableLibrary_cases table (text ++ rest)
    · obtain rfl := hunique hentry hmem hbegins (List.prefix_append _ _)
      obtain ⟨c, hc, hnot⟩ := hrest
      rw [List.drop_left] at hblanks
      exact absurd (hblanks c hc) hnot
    · exact herror
  · have hmem := mem_of_toVec_tableLibrary htext
    obtain ⟨entry, hentry, hbegins, -⟩ | herror :=
      fromSlice_tableLibrary_cases table part
    · obtain rfl := hunique hentry hmem (hbegins.trans hpart) List.prefix_rfl
      exact absurd (hpart.eq_of_length_le hbegins.length_le) hne
    · exact herror

end Table

section Sample

def folderName : List Char := List.replicate 100 'd'

/-- A path of so many folders. -/
def longPath (folders : Nat) : String :=
  .ofList ('/' :: lines '/' (List.replicate folders folderName))

def longDefinition (folders : Nat) : ServiceDefinition where
  manager := .linuxSystemd
  serviceId := "kakune-core.service"
  executable := "/usr/bin/kakune"
  arguments := ["service", "run", "--data-dir", longPath folders]
  account := "root"
  dataDir := longPath folders

variable {folders : Nat}

theorem toList_longPath :
    (longPath folders).toList = '/' :: lines '/' (List.replicate folders folderName) :=
  String.toList_ofList

theorem mem_longPath {c : Char} (h : c ∈ (longPath folders).toList) : c = '/' ∨ c = 'd' := by
  rw [toList_longPath, List.mem_cons, lines, List.mem_flatMap] at h
  obtain rfl | ⟨name, hname, hc⟩ := h
  · exact .inl rfl
  · obtain rfl := List.eq_of_mem_replicate hname
    obtain hc | hc := List.mem_append.mp hc
    · exact .inr (List.eq_of_mem_replicate hc)
    · exact .inl (List.mem_singleton.mp hc)

theorem splitOn_longPath : (longPath folders).toList.splitOn '/' =
    [] :: (List.replicate folders folderName ++ [[]]) := by
  have hnames : ∀ name ∈ List.replicate folders folderName, '/' ∉ name := by
    intro name hname
    rw [List.eq_of_mem_replicate hname]
    decide
  have hfirst : ([] ++ '/' :: lines '/' (List.replicate folders folderName)).splitOn '/' = _ :=
    splitOn_append_cons List.not_mem_nil
  rw [toList_longPath, ← splitOn_lines hnames]
  exact hfirst

/-- No folder is a dot or two. -/
theorem mem_pathComponents_longPath {component : PathComponent}
    (h : component ∈ pathComponents (longPath folders)) :
    component = .rootDir ∨ component = .normal folderName := by
  have habsolute : isAbsolutePath (longPath folders) = true := by
    rw [isAbsolutePath, toList_longPath]
    rfl
  unfold pathComponents at h
  rw [habsolute, splitOn_longPath] at h
  simp only [if_true, List.mem_append, List.mem_singleton, List.mem_map, List.mem_filter,
    decide_eq_true_eq] at h
  obtain h | ⟨segment, ⟨hsegment, hne, -⟩, rfl⟩ := h
  · exact .inl h
  · have hfolder : segment = folderName := by
      rw [List.mem_cons, List.mem_append, List.mem_singleton] at hsegment
      obtain h | h | h := hsegment
      · exact absurd h hne
      · exact List.eq_of_mem_replicate h
      · exact absurd h hne
    rw [hfolder, if_neg (by decide)]
    exact .inr rfl

theorem hasControl_longPath : ServiceDefinition.hasControl (longPath folders) = false := by
  rw [ServiceDefinition.hasControl, List.any_eq_false]
  intro c hc
  obtain rfl | rfl := mem_longPath hc <;> decide

/-- The definition is valid, however long its path is. -/
theorem validate_longDefinition (library : DefinitionLibrary) :
    (longDefinition folders).validate library = .ok () := by
  have hcomponents : (pathComponents "/usr/bin/kakune" ++ pathComponents (longPath folders)).any
      (fun component => component ∈ [.curDir, .parentDir]) = false := by
    rw [List.any_append, Bool.or_eq_false_iff]
    refine ⟨by decide, ?_⟩
    rw [List.any_eq_false]
    intro component hcomponent
    obtain rfl | rfl := mem_pathComponents_longPath hcomponent <;> simp
  have habsolute : isAbsolutePath (longPath folders) = true := by
    rw [isAbsolutePath, toList_longPath]
    rfl
  have harguments : ["service", "run", "--data-dir", longPath folders].any
      ServiceDefinition.hasControl = false := by
    simp only [List.any_cons, List.any_nil, hasControl_longPath]
    decide
  have hfields : (longDefinition folders).validateFields = .ok () := by
    unfold ServiceDefinition.validateFields longDefinition
    dsimp only
    have hid : validateServiceId .linuxSystemd "kakune-core.service" = .ok () := by decide
    rw [habsolute, hcomponents, harguments, if_neg (by decide), if_neg Bool.false_ne_true, hid]
    dsimp only [bind, Except.bind]
    rw [if_neg (by decide)]
    exact if_pos rfl
  unfold ServiceDefinition.validate
  rw [hfields]
  rfl

/-! #### The records of a start -/

def longPaths : AttemptPaths where
  manager := .linuxSystemd
  serviceId := "kakune-core.service"
  attempt := "/var/lib/kakune/lifecycle/services/systemd/kakune-core.service/attempt.json"
  requiresOwnedHelper := true

/-- The installed service, which is stopped. -/
def longPrior (folders : Nat) : NativeServiceObservation where
  installed := .installed
  managerState := .stopped
  definition := some (longDefinition folders)
  account := some "root"
  bootEnabled := true

/-- The evidence of the helper, in JSON. -/
def helperEvidence : String :=
  "\x7b\"identity\":\x7b\"pid\":4242,\"start_identity\":\"9125\"," ++
  "\"executable\":\"/usr/bin/kakune\"\x7d,\"owner\":\x7b\"kind\":\"unix_uid\",\"value\":0\x7d\x7d"

def longAttemptId : String := "67e55044-10b1-426f-9247-bb680e5fe0c8"

def longFirst (folders : Nat) : ServiceAttemptJournal :=
  firstJournal longPaths longAttemptId .start (longDefinition folders) (longPrior folders)

def longPrepared (folders : Nat) : ServiceAttemptJournal :=
  (longFirst folders).prepared (stepLabel 0 .start)

def longLaunched (folders : Nat) : ServiceAttemptJournal :=
  (longPrepared folders).withHelper 4242 helperEvidence

def longAuthorized (folders : Nat) : ServiceAttemptJournal := (longLaunched folders).authorize

def longReaped (folders : Nat) : ServiceAttemptJournal := (longAuthorized folders).reaped true

/-! #### Their texts -/

theorem asciiBytes_ofList (chars : List Char) :
    asciiBytes (.ofList chars) = chars.map fun c => .ofNat c.toNat := by
  rw [asciiBytes, String.toList_ofList]

def managerText : Bytes := asciiBytes (
  "\x7b\"manager\":\"linux_systemd\",\"service_id\":\"kakune-core.service\",\"executable\":\"" ++
  "/usr/bin/kakune\",\"arguments\":[\"service\",\"run\",\"--data-dir\",\"")

def accountText : Bytes := asciiBytes
  "\"],\"account\":\"root\",\"boot_policy\":\"automatic\",\"data_dir\":\""

def fingerprintText : Bytes := asciiBytes "\",\"definition_fingerprint\":null\x7d"

def attemptText : Bytes := asciiBytes (
  "\x7b\"schema_version\":1,\"attempt_id\":\"67e55044-10b1-426f-9247-bb680e5fe0c8\"," ++
  "\"manager\":\"linux_systemd\",\"native_service_id\":\"kakune-core.service\"," ++
  "\"action\":\"start\",\"step\":\"0:\\\"start\\\"\",\"expected_definition\":")

def priorText : Bytes := asciiBytes
  ",\"prior_state\":\x7b\"installed\":\"installed\",\"manager_state\":\"stopped\",\"definition\":"

def helperText : Bytes := asciiBytes (
  ",\"account\":\"root\",\"boot_enabled\":true,\"core\":null,\"core_unknown\":null," ++
  "\"diagnostic_location\":null,\"pending_operation\":false\x7d,\"helper_pid\":")

def nullText : Bytes := asciiBytes "null"

def pidText : Bytes := asciiBytes "4242"

def ownerText : Bytes := asciiBytes ",\"helper_owner\":"

def evidenceText : Bytes := asciiBytes (
  "\"\x7b\\\"identity\\\":\x7b\\\"pid\\\":4242,\\\"start_identity\\\":\\\"9125\\\"," ++
  "\\\"executable\\\":\\\"/usr/bin/kakune\\\"\x7d,\\\"owner\\\":\x7b" ++
  "\\\"kind\\\":\\\"unix_uid\\\",\\\"value\\\":0\x7d\x7d\"")

def statusText : Bytes := asciiBytes ",\"status\":\""

def preparedText : Bytes := asciiBytes "prepared"

def authorizedText : Bytes := asciiBytes "authorized"

def guidanceText : Bytes := asciiBytes (
  "\",\"completion_observation\":null,\"residual_resources\":[],\"recovery_guidance\":[" ++
  "\"Inspect native manager effects and the retained attempt at /var/lib/kakune/lifecycle/" ++
  "services/systemd/kakune-core.service/attempt.json before retrying; helper timeout does not " ++
  "cancel manager work.\"]\x7d")

def longDefinitionText (folders : Nat) : Bytes :=
  managerText ++ asciiBytes (longPath folders) ++ accountText ++ asciiBytes (longPath folders) ++
    fingerprintText

/-- What the records of the start have in common. -/
def longText (folders : Nat) : Bytes :=
  attemptText ++ longDefinitionText folders ++ priorText ++ longDefinitionText folders ++ helperText

/-- The rest of a record. -/
def restText (pid owner status : Bytes) : Bytes :=
  pid ++ (ownerText ++ (owner ++ (statusText ++ (status ++ guidanceText))))

def preparedRest : Bytes := restText nullText nullText preparedText

def launchedRest : Bytes := restText pidText evidenceText preparedText

def authorizedRest : Bytes := restText pidText evidenceText authorizedText

def reapedRest : Bytes := restText nullText evidenceText authorizedText

def longTable (folders : Nat) : List (ServiceAttemptJournal × Bytes) :=
  [(longPrepared folders, longText folders ++ preparedRest),
    (longLaunched folders, longText folders ++ launchedRest),
    (longAuthorized folders, longText folders ++ authorizedRest),
    (longReaped folders, longText folders ++ reapedRest)]

def longLibrary (folders : Nat) : JournalLibrary := tableLibrary (longTable folders)

/-- A piece of a line. -/
def Piece (size : Nat) (bytes : Bytes) : Prop := newline ∉ bytes ∧ bytes.length = size

instance (size : Nat) (bytes : Bytes) : Decidable (Piece size bytes) :=
  inferInstanceAs (Decidable (_ ∧ _))

theorem Piece.append {bytes bytes' : Bytes} {m n : Nat} (h : Piece m bytes) (h' : Piece n bytes') :
    Piece (m + n) (bytes ++ bytes') := by
  refine ⟨?_, ?_⟩
  · rw [List.mem_append, not_or]
    exact ⟨h.1, h'.1⟩
  · rw [List.length_append, h.2, h'.2]

theorem piece_managerText : Piece 136 managerText := by
  rw [managerText]
  repeat rw [asciiBytes_append]
  repeat rw [asciiBytes_ofList]
  refine ⟨by decide, rfl⟩

theorem piece_accountText : Piece 58 accountText := by
  rw [accountText, asciiBytes_ofList]
  refine ⟨by decide, rfl⟩

theorem piece_fingerprintText : Piece 32 fingerprintText := by
  rw [fingerprintText, asciiBytes_ofList]
  refine ⟨by decide, rfl⟩

theorem piece_attemptText : Piece 200 attemptText := by
  rw [attemptText]
  repeat rw [asciiBytes_append]
  repeat rw [asciiBytes_ofList]
  refine ⟨by decide, rfl⟩

theorem piece_priorText : Piece 79 priorText := by
  rw [priorText, asciiBytes_ofList]
  refine ⟨by decide, rfl⟩

theorem piece_helperText : Piece 137 helperText := by
  rw [helperText]
  repeat rw [asciiBytes_append]
  repeat rw [asciiBytes_ofList]
  refine ⟨by decide, rfl⟩

theorem piece_nullText : Piece 4 nullText := by
  rw [nullText, asciiBytes_ofList]
  refine ⟨by decide, rfl⟩

theorem piece_pidText : Piece 4 pidText := by
  rw [pidText, asciiBytes_ofList]
  refine ⟨by decide, rfl⟩

theorem piece_ownerText : Piece 16 ownerText := by
  rw [ownerText, asciiBytes_ofList]
  refine ⟨by decide, rfl⟩

theorem piece_evidenceText : Piece 140 evidenceText := by
  rw [evidenceText]
  repeat rw [asciiBytes_append]
  repeat rw [asciiBytes_ofList]
  refine ⟨by decide, rfl⟩

theorem piece_statusText : Piece 11 statusText := by
  rw [statusText, asciiBytes_ofList]
  refine ⟨by decide, rfl⟩

theorem piece_preparedText : Piece 8 preparedText := by
  rw [preparedText, asciiBytes_ofList]
  refine ⟨by decide, rfl⟩

theorem piece_authorizedText : Piece 10 authorizedText := by
  rw [authorizedText, asciiBytes_ofList]
  refine ⟨by decide, rfl⟩

set_option maxRecDepth 2048 in
theorem piece_guidanceText : Piece 277 guidanceText := by
  rw [guidanceText]
  repeat rw [asciiBytes_append]
  repeat rw [asciiBytes_ofList]
  refine ⟨by decide, rfl⟩

theorem piece_longPath (folders : Nat) :
    Piece (101 * folders + 1) (asciiBytes (longPath folders)) := by
  refine ⟨fun h => ?_, ?_⟩
  · obtain ⟨c, hc, hbyte⟩ := List.mem_map.mp h
    obtain rfl | rfl := mem_longPath hc <;> revert hbyte <;> decide
  · rw [asciiBytes, List.length_map, toList_longPath, List.length_cons, lines, List.length_flatMap,
      List.map_replicate, List.sum_replicate, folderName, List.length_append, List.length_replicate]
    simp
    omega

theorem piece_longDefinitionText (folders : Nat) :
    Piece (202 * folders + 228) (longDefinitionText folders) := by
  have h := (((piece_managerText.append (piece_longPath folders)).append piece_accountText).append
    (piece_longPath folders)).append piece_fingerprintText
  have hsize : 136 + (101 * folders + 1) + 58 + (101 * folders + 1) + 32 = 202 * folders + 228 := by
    omega
  rwa [hsize] at h

theorem piece_longText (folders : Nat) : Piece (404 * folders + 872) (longText folders) := by
  have hdefinition := piece_longDefinitionText folders
  have h := (((piece_attemptText.append hdefinition).append piece_priorText).append
    hdefinition).append piece_helperText
  have hsize : 200 + (202 * folders + 228) + 79 + (202 * folders + 228) + 137 =
      404 * folders + 872 := by
    omega
  rwa [hsize] at h

theorem piece_restText {pid owner status : Bytes} {m n k : Nat} (hpid : Piece m pid)
    (howner : Piece n owner) (hstatus : Piece k status) :
    Piece (m + (16 + (n + (11 + (k + 277))))) (restText pid owner status) :=
  hpid.append (piece_ownerText.append (howner.append (piece_statusText.append
    (hstatus.append piece_guidanceText))))

theorem piece_preparedRest : Piece 320 preparedRest := by
  have h := piece_restText piece_nullText piece_nullText piece_preparedText
  exact h

theorem piece_launchedRest : Piece 456 launchedRest := by
  have h := piece_restText piece_pidText piece_evidenceText piece_preparedText
  exact h

theorem piece_authorizedRest : Piece 458 authorizedRest := by
  have h := piece_restText piece_pidText piece_evidenceText piece_authorizedText
  exact h

theorem piece_reapedRest : Piece 458 reapedRest := by
  have h := piece_restText piece_nullText piece_evidenceText piece_authorizedText
  exact h

/-- Texts with different first bytes do not begin each other. -/
theorem apart_of_head? {text other rest rest' : Bytes} {a b : UInt8} (htext : text.head? = some a)
    (hother : other.head? = some b) (hne : a ≠ b) :
    ¬ text ++ rest <+: other ++ rest' ∧ ¬ other ++ rest' <+: text ++ rest := by
  obtain ⟨_, rfl⟩ := List.head?_eq_some_iff.mp htext
  obtain ⟨_, rfl⟩ := List.head?_eq_some_iff.mp hother
  refine ⟨fun h => hne ?_, fun h => hne ?_⟩
  · exact (List.cons_prefix_cons.mp h).1
  · exact (List.cons_prefix_cons.mp h).1.symm

theorem apart_append {common text other : Bytes} (h : ¬ text <+: other ∧ ¬ other <+: text) :
    ¬ common ++ text <+: common ++ other ∧ ¬ common ++ other <+: common ++ text := by
  rwa [List.prefix_append_right_inj, List.prefix_append_right_inj]

theorem head?_nullText : nullText.head? = some 110 := by
  rw [nullText, asciiBytes_ofList]
  rfl

theorem head?_pidText : pidText.head? = some 52 := by
  rw [pidText, asciiBytes_ofList]
  rfl

theorem head?_evidenceText : evidenceText.head? = some 34 := by
  rw [evidenceText]
  repeat rw [asciiBytes_append]
  repeat rw [asciiBytes_ofList]
  rfl

theorem head?_preparedText : preparedText.head? = some 112 := by
  rw [preparedText, asciiBytes_ofList]
  rfl

theorem head?_authorizedText : authorizedText.head? = some 97 := by
  rw [authorizedText, asciiBytes_ofList]
  rfl

/-- None of the rests begins another. -/
theorem rest_apart : [preparedRest, launchedRest, authorizedRest, reapedRest].Pairwise
    fun rest other => ¬ rest <+: other ∧ ¬ other <+: rest := by
  have hpid : ∀ {owner owner' status status' : Bytes},
      ¬ restText nullText owner status <+: restText pidText owner' status' ∧
        ¬ restText pidText owner' status' <+: restText nullText owner status :=
    apart_of_head? head?_nullText head?_pidText (by decide)
  have howner : ∀ {status status' : Bytes},
      ¬ restText nullText nullText status <+: restText nullText evidenceText status' ∧
        ¬ restText nullText evidenceText status' <+: restText nullText nullText status :=
    apart_append (apart_append (apart_of_head? head?_nullText head?_evidenceText (by decide)))
  have hstatus : ¬ launchedRest <+: authorizedRest ∧ ¬ authorizedRest <+: launchedRest :=
    apart_append (apart_append (apart_append (apart_append
      (apart_of_head? head?_preparedText head?_authorizedText (by decide)))))
  refine .cons ?_ (.cons ?_ (.cons ?_ (.cons ?_ .nil)))
  · simp only [List.forall_mem_cons, List.not_mem_nil, false_implies, implies_true, and_true]
    exact ⟨hpid, hpid, howner⟩
  · simp only [List.forall_mem_cons, List.not_mem_nil, false_implies, implies_true, and_true]
    exact ⟨hstatus, hpid.symm⟩
  · simp only [List.forall_mem_cons, List.not_mem_nil, false_implies, implies_true, and_true]
    exact hpid.symm
  · simp

theorem head?_longText : (longText folders).head? = some 123 := by
  have hfirst : attemptText.head? = some 123 := by
    rw [attemptText]
    repeat rw [asciiBytes_append]
    repeat rw [asciiBytes_ofList]
    rfl
  simp only [longText, List.head?_append, hfirst, Option.some_or]

theorem map_snd_longTable : (longTable folders).map Prod.snd =
    [preparedRest, launchedRest, authorizedRest, reapedRest].map (longText folders ++ ·) := by
  simp only [longTable, List.map_cons, List.map_nil]

theorem mem_longTable {entry : ServiceAttemptJournal × Bytes} (h : entry ∈ longTable folders) :
    ∃ rest ∈ [preparedRest, launchedRest, authorizedRest, reapedRest],
      entry.2 = longText folders ++ rest := by
  have hmem : entry.2 ∈ (longTable folders).map Prod.snd := List.mem_map_of_mem h
  rw [map_snd_longTable] at hmem
  obtain ⟨rest, hrest, heq⟩ := List.mem_map.mp hmem
  exact ⟨rest, hrest, heq.symm⟩

theorem newline_not_mem_rest : ∀ rest ∈ [preparedRest, launchedRest, authorizedRest, reapedRest],
    newline ∉ rest := by
  simp only [List.forall_mem_cons, List.not_mem_nil, false_implies, implies_true, and_true]
  exact ⟨piece_preparedRest.1, piece_launchedRest.1, piece_authorizedRest.1, piece_reapedRest.1⟩

theorem documented_longLibrary (folders : Nat) : (longLibrary folders).Documented := by
  refine documented_tableLibrary (fun entry hentry => ?_) (fun entry hentry => ?_) ?_
  · obtain ⟨rest, -, heq⟩ := mem_longTable hentry
    rw [heq, List.head?_append, head?_longText, Option.some_or]
  · obtain ⟨rest, hrest, heq⟩ := mem_longTable hentry
    rw [heq, List.mem_append, not_or]
    exact ⟨(piece_longText folders).1, newline_not_mem_rest rest hrest⟩
  · rw [map_snd_longTable, List.pairwise_map]
    exact rest_apart.imp apart_append

theorem toVec_longLibrary {journal : ServiceAttemptJournal} {text : Bytes}
    (h : (journal, text) ∈ longTable folders) :
    (longLibrary folders).toVec journal = .ok text := by
  have hkeys : (((longTable folders).map Prod.fst).map
      fun journal => (journal.helperPid, journal.status)).Nodup := by
    simp only [longTable, List.map_cons, List.map_nil]
    change [(none, AttemptStatus.prepared), (some 4242, .prepared), (some 4242, .authorized),
      (none, .authorized)].Nodup
    decide
  exact toVec_tableLibrary hkeys.of_map h

/-- The size of a record. -/
theorem lineSize_longLibrary {journal : ServiceAttemptJournal} {rest : Bytes} {size : Nat}
    (h : (journal, longText folders ++ rest) ∈ longTable folders) (hrest : Piece size rest) :
    lineSize (longLibrary folders) journal = 404 * folders + 873 + size := by
  rw [lineSize_eq (toVec_longLibrary h), List.length_append, (piece_longText folders).2, hrest.2]
  omega

/-! #### The start -/

/-- The start of the service, up to the exit of its helper. -/
def longEvents (folders : Nat) : List (AttemptEvent × Option Nat) :=
  [(.begin longAttemptId .start (longDefinition folders) (longPrior folders), none),
    (.prepare, none), (.launch 4242 helperEvidence, none), (.ready, none), (.done, none),
    (.reap, none)]

theorem validate_longRecord (library : DefinitionLibrary) {journal : ServiceAttemptJournal}
    (h : journal ∈ (longTable folders).map Prod.fst) :
    validateAttemptSnapshot library journal none = .ok () := by
  have hdefinition : (longDefinition folders).validate library = .ok () :=
    validate_longDefinition library
  have hlabel := blank_stepLabel 0 .start
  simp only [longTable, List.map_cons, List.map_nil, List.mem_cons, List.not_mem_nil, or_false] at h
  obtain rfl | rfl | rfl | rfl := h <;>
    exact validate_firstJournal hdefinition rfl rfl rfl rfl hlabel

/-- A record of the table may follow one of the same step. -/
theorem validate_longRecord_some (library : DefinitionLibrary)
    {previous journal : ServiceAttemptJournal} (h : journal ∈ (longTable folders).map Prod.fst)
    (hprevious : previous ∈ (longTable folders).map Prod.fst)
    (hstatus : validAttemptTransition previous.status journal.status = true) :
    validateAttemptSnapshot library journal (some previous) = .ok () := by
  refine validate_eq_ok.mpr ⟨validate_longRecord library h, fun before hbefore => ?_⟩
  obtain rfl := Option.some.inj hbefore
  have hcore : ∀ record ∈ (longTable folders).map Prod.fst,
      (record.attemptId, record.manager, record.nativeServiceId, record.action, record.step,
        record.expectedDefinition) = (longAttemptId, .linuxSystemd, "kakune-core.service", .start,
          stepLabel 0 .start, longDefinition folders) := by
    intro record hrecord
    simp only [longTable, List.map_cons, List.map_nil, List.mem_cons, List.not_mem_nil, or_false]
      at hrecord
    obtain rfl | rfl | rfl | rfl := hrecord <;> rfl
  have heq := (hcore _ hprevious).trans (hcore _ h).symm
  simp only [Prod.mk.injEq] at heq
  obtain ⟨hid, hmanager, hservice, haction, hstep, hdefinition⟩ := heq
  unfold ServiceAttemptJournal.follows
  rw [decide_eq_true_iff]
  exact ⟨hid, hmanager, hservice, haction, .inl hstep, hdefinition, .inl hstatus⟩

theorem size_longPrepared : lineSize (longLibrary folders) (longPrepared folders) =
    404 * folders + 873 + 320 :=
  lineSize_longLibrary List.mem_cons_self piece_preparedRest

theorem size_longLaunched : lineSize (longLibrary folders) (longLaunched folders) =
    404 * folders + 873 + 456 :=
  lineSize_longLibrary (.tail _ (.head _)) piece_launchedRest

theorem size_longAuthorized : lineSize (longLibrary folders) (longAuthorized folders) =
    404 * folders + 873 + 458 :=
  lineSize_longLibrary (.tail _ (.tail _ (.head _))) piece_authorizedRest

theorem size_longReaped : lineSize (longLibrary folders) (longReaped folders) =
    404 * folders + 873 + 458 :=
  lineSize_longLibrary (.tail _ (.tail _ (.tail _ (.head _)))) piece_reapedRest

theorem recordedSize_prepared : recordedSize (longLibrary folders) [longPrepared folders] =
    404 * folders + 1193 := by
  rw [recordedSize, List.map_singleton, List.sum_singleton, size_longPrepared]

theorem recordedSize_launched : recordedSize (longLibrary folders)
    [longPrepared folders, longLaunched folders] = 808 * folders + 2522 := by
  rw [recordedSize, List.map_cons, List.map_singleton, List.sum_cons, List.sum_singleton,
    size_longPrepared, size_longLaunched]
  omega

theorem recordedSize_authorized : recordedSize (longLibrary folders)
    [longPrepared folders, longLaunched folders, longAuthorized folders] =
      1212 * folders + 3853 := by
  have hconcat : recordedSize (longLibrary folders)
      ([longPrepared folders, longLaunched folders] ++ [longAuthorized folders]) = _ :=
    recordedSize_concat
  rw [recordedSize_launched, size_longAuthorized] at hconcat
  refine hconcat.trans ?_
  omega

/-- All records up to the authorization fit if the last of them does. -/
theorem recordedSize_le : recordedSize (longLibrary folders) [longPrepared folders] ≤
      1212 * folders + 3853 ∧
    recordedSize (longLibrary folders) [longPrepared folders, longLaunched folders] ≤
      1212 * folders + 3853 := by
  rw [recordedSize_prepared, recordedSize_launched]
  omega

section Start

variable {state : AttemptState}

theorem plan_begin : AttemptState.plan (longLibrary folders) longPaths {}
    (.begin longAttemptId .start (longDefinition folders) (longPrior folders)) =
      .go (.preparing 0 (longFirst folders)) := by
  unfold AttemptState.plan
  dsimp only
  rw [if_pos ⟨rfl, validate_longDefinition _⟩]
  rfl

theorem plan_prepare (h : state.point = .preparing 0 (longFirst folders)) :
    state.plan (longLibrary folders) longPaths .prepare =
      .put (longPrepared folders) (.launching 0 (longPrepared folders)) .idle := by
  unfold AttemptState.plan
  rw [h]
  rfl

theorem plan_launch (h : state.point = .launching 0 (longPrepared folders)) :
    state.plan (longLibrary folders) longPaths (.launch 4242 helperEvidence) =
      .put (longLaunched folders) (.bootstrapping 0 (longLaunched folders))
        (.reaping 0 (longLaunched folders) false) := by
  unfold AttemptState.plan
  rw [h]
  rfl

theorem plan_ready (h : state.point = .bootstrapping 0 (longLaunched folders)) :
    state.plan (longLibrary folders) longPaths .ready =
      .put (longAuthorized folders) (.working 0 (longAuthorized folders))
        (.reaping 0 (longAuthorized folders) false) := by
  unfold AttemptState.plan
  rw [h]
  rfl

theorem plan_done (h : state.point = .working 0 (longAuthorized folders)) :
    state.plan (longLibrary folders) longPaths .done =
      .go (.reaping 0 (longAuthorized folders) true) := by
  unfold AttemptState.plan
  rw [h]

theorem plan_reap (h : state.point = .reaping 0 (longAuthorized folders) true) :
    state.plan (longLibrary folders) longPaths .reap =
      .put (longReaped folders) .mutated (.unconfirmed (longReaped folders)) := by
  unfold AttemptState.plan
  rw [h]
  rfl

theorem at_begun : (AttemptState.step (longLibrary folders) longPaths {}
    (.begin longAttemptId .start (longDefinition folders) (longPrior folders), none)).At
      (longLibrary folders) (.preparing 0 (longFirst folders)) [] := by
  have hinit : AttemptState.At (longLibrary folders) {} .idle [] :=
    ⟨⟨trivial, .inl ⟨rfl, rfl⟩⟩, rfl, rfl, rfl⟩
  exact hinit.go plan_begin

theorem at_prepared (h : state.At (longLibrary folders) (.preparing 0 (longFirst folders)) [])
    (hroom : 1212 * folders + 3853 ≤ maxAttemptBytes) :
    (state.step (longLibrary folders) longPaths (.prepare, none)).At (longLibrary folders)
      (.launching 0 (longPrepared folders)) [longPrepared folders] := by
  have hmem : longPrepared folders ∈ (longTable folders).map Prod.fst := .head _
  refine h.put (documented_longLibrary folders) (plan_prepare h.point_eq)
    (toVec_longLibrary (.head _)) (validate_longRecord _ hmem) ?_
  rw [← recordedSize_concat]
  exact recordedSize_le.1.trans hroom

theorem at_launched
    (h : state.At (longLibrary folders) (.launching 0 (longPrepared folders))
      [longPrepared folders])
    (hroom : 1212 * folders + 3853 ≤ maxAttemptBytes) :
    (state.step (longLibrary folders) longPaths (.launch 4242 helperEvidence, none)).At
      (longLibrary folders) (.bootstrapping 0 (longLaunched folders))
        [longPrepared folders, longLaunched folders] := by
  have hvalid : validateAttemptSnapshot (longLibrary folders).toDefinitionLibrary
      (longLaunched folders) (some (longPrepared folders)) = .ok () :=
    validate_longRecord_some _ (.tail _ (.head _)) (.head _) rfl
  refine h.put (documented_longLibrary folders) (plan_launch h.point_eq)
    (toVec_longLibrary (.tail _ (.head _))) hvalid ?_
  rw [← recordedSize_concat]
  exact recordedSize_le.2.trans hroom

theorem at_authorized
    (h : state.At (longLibrary folders) (.bootstrapping 0 (longLaunched folders))
      [longPrepared folders, longLaunched folders])
    (hroom : 1212 * folders + 3853 ≤ maxAttemptBytes) :
    (state.step (longLibrary folders) longPaths (.ready, none)).At (longLibrary folders)
      (.working 0 (longAuthorized folders))
        [longPrepared folders, longLaunched folders, longAuthorized folders] := by
  have hvalid : validateAttemptSnapshot (longLibrary folders).toDefinitionLibrary
      (longAuthorized folders) (some (longLaunched folders)) = .ok () :=
    validate_longRecord_some _ (.tail _ (.tail _ (.head _))) (.tail _ (.head _)) rfl
  refine h.put (documented_longLibrary folders) (plan_ready h.point_eq)
    (toVec_longLibrary (.tail _ (.tail _ (.head _)))) hvalid ?_
  rw [← recordedSize_concat]
  exact recordedSize_authorized.le.trans hroom

theorem validate_longReaped : validateAttemptSnapshot (longLibrary folders).toDefinitionLibrary
    (longReaped folders) (some (longAuthorized folders)) = .ok () :=
  validate_longRecord_some _ (.tail _ (.tail _ (.tail _ (.head _))))
    (.tail _ (.tail _ (.head _))) rfl

/-- A record that authorizes nothing is small enough, if the path is short. -/
theorem reserved_of_small {event : AttemptEvent} {journal : ServiceAttemptJournal}
    {point next failed : AttemptPoint} {recorded : List ServiceAttemptJournal}
    (h : state.At (longLibrary 1) point recorded) (hpoint : point ≠ .idle)
    (hplan : state.plan (longLibrary 1) longPaths event = .put journal next failed)
    (hsize : lineSize (longLibrary 1) journal ≤ 2048)
    (hold : journal.status = .prepared ∨ state.authorized = true) :
    state.Reserved (longLibrary 1) longPaths 2048 (event, none) := by
  refine AttemptState.reserved_of_put hplan hsize ?_
  rintro (⟨hstatus, hauthorized⟩ | hresumes)
  · obtain hprepared | hauthorized' := hold
    · rw [hprepared] at hstatus
      cases hstatus
    · rw [hauthorized] at hauthorized'
      cases hauthorized'
  · rw [h.resumes_eq hpoint] at hresumes
    cases hresumes

theorem meets_reap (h : state.At (longLibrary 1) (.reaping 0 (longAuthorized 1) true)
      [longPrepared 1, longLaunched 1, longAuthorized 1]) :
    Runs.Meets (AttemptState.step (longLibrary 1) longPaths)
      (AttemptState.Reserved (longLibrary 1) longPaths 2048) state [(.reap, none)] := by
  have hsize : lineSize (longLibrary 1) (longReaped 1) ≤ 2048 := by
    rw [size_longReaped]
    decide
  have hauthorized : state.authorized = true := by
    rw [AttemptState.authorized, h.recorded_eq]
    rfl
  exact ⟨reserved_of_small h (by simp) (plan_reap h.point_eq) hsize (.inr hauthorized), trivial⟩

theorem meets_ready (h : state.At (longLibrary 1) (.bootstrapping 0 (longLaunched 1))
      [longPrepared 1, longLaunched 1]) (hroom : 1212 * 1 + 3853 ≤ maxAttemptBytes) :
    Runs.Meets (AttemptState.step (longLibrary 1) longPaths)
      (AttemptState.Reserved (longLibrary 1) longPaths 2048) state
        [(.ready, none), (.done, none), (.reap, none)] := by
  have hauthorized := at_authorized h hroom
  have hdone := hauthorized.go (plan_done hauthorized.point_eq)
  have hsize : lineSize (longLibrary 1) (longAuthorized 1) ≤ 2048 := by
    rw [size_longAuthorized]
    decide
  refine ⟨AttemptState.reserved_of_put (plan_ready h.point_eq) hsize fun _ => ?_,
    AttemptState.reserved_of_go (plan_done hauthorized.point_eq), meets_reap hdone⟩
  rw [h.recorded_eq, recordedSize_launched]
  decide

theorem meets_launch (h : state.At (longLibrary 1) (.launching 0 (longPrepared 1)) [longPrepared 1])
    (hroom : 1212 * 1 + 3853 ≤ maxAttemptBytes) :
    Runs.Meets (AttemptState.step (longLibrary 1) longPaths)
      (AttemptState.Reserved (longLibrary 1) longPaths 2048) state
        [(.launch 4242 helperEvidence, none), (.ready, none), (.done, none), (.reap, none)] := by
  have hsize : lineSize (longLibrary 1) (longLaunched 1) ≤ 2048 := by
    rw [size_longLaunched]
    decide
  exact ⟨reserved_of_small h (by simp) (plan_launch h.point_eq) hsize (.inl rfl),
    meets_ready (at_launched h hroom) hroom⟩

/-- With a short path there is room for all records. -/
theorem meets_longEvents : Runs.Meets (AttemptState.step (longLibrary 1) longPaths)
    (AttemptState.Reserved (longLibrary 1) longPaths 2048) {} (longEvents 1) := by
  have hroom : 1212 * 1 + 3853 ≤ maxAttemptBytes := by decide
  have hsize : lineSize (longLibrary 1) (longPrepared 1) ≤ 2048 := by
    rw [size_longPrepared]
    decide
  exact ⟨AttemptState.reserved_of_go plan_begin,
    reserved_of_small at_begun (by simp) (plan_prepare at_begun.point_eq) hsize (.inl rfl),
    meets_launch (at_prepared at_begun hroom) hroom⟩

/-- The exit of the helper of a service with a long path is refused. -/
theorem refuse_reap
    (h : state.At (longLibrary folders) (.reaping 0 (longAuthorized folders) true)
      [longPrepared folders, longLaunched folders, longAuthorized folders])
    (hlong : maxAttemptBytes < 1616 * folders + 5184) :
    (state.step (longLibrary folders) longPaths (.reap, none)).refused = true ∧
      (state.step (longLibrary folders) longPaths (.reap, none)).run.recorded =
        [longPrepared folders, longLaunched folders, longAuthorized folders] ∧
      (state.step (longLibrary folders) longPaths (.reap, none)).run.Sound
        (longLibrary folders) := by
  have hauthorized : state.authorized = true := by
    rw [AttemptState.authorized, h.recorded_eq]
    rfl
  have hsize : recordedSize (longLibrary folders)
      [longPrepared folders, longLaunched folders, longAuthorized folders] +
        lineSize (longLibrary folders) (longReaped folders) = 1616 * folders + 5184 := by
    rw [recordedSize_authorized, size_longReaped]
    ring
  refine h.refuse (documented_longLibrary folders) (plan_reap h.point_eq)
    (toVec_longLibrary (.tail _ (.tail _ (.tail _ (.head _))))) validate_longReaped hauthorized ?_
  rw [hsize]
  exact hlong

end Start

/-- The run for so long a path: the exit of the helper is refused. -/
theorem refused_longEvents (hroom : 1212 * folders + 3853 ≤ maxAttemptBytes)
    (hlong : maxAttemptBytes < 1616 * folders + 5184) :
    (Runs.run (AttemptState.step (longLibrary folders) longPaths) {} (longEvents folders)).refused =
      true ∧
    (Runs.run (AttemptState.step (longLibrary folders) longPaths) {}
      (longEvents folders)).run.recorded =
        [longPrepared folders, longLaunched folders, longAuthorized folders] ∧
    (Runs.run (AttemptState.step (longLibrary folders) longPaths) {} (longEvents folders)).run.Sound
      (longLibrary folders) := by
  have hauthorized := at_authorized (at_launched (at_prepared at_begun hroom) hroom) hroom
  exact refuse_reap (hauthorized.go (plan_done hauthorized.point_eq)) hlong

theorem short_start_is_never_refused :
    (Runs.run (AttemptState.step (longLibrary 1) longPaths) {} (longEvents 1)).refused = false :=
  reserved_journal_is_never_full (longLibrary 1) (documented_longLibrary 1) longPaths 2048
    (longEvents 1) meets_longEvents

/-- With the path so long, no later command reconciles the attempt. -/
theorem stuck_longEvents (hroom : 1212 * folders + 3853 ≤ maxAttemptBytes)
    (hlong : maxAttemptBytes < 1616 * folders + 5184) (observation : NativeServiceObservation)
    (remaining : Except LifecycleError Unit) (expired : Bool) :
    ((Runs.run (AttemptState.step (longLibrary folders) longPaths) {} (longEvents folders)).step
      (longLibrary folders) longPaths (.stop, none)).plan (longLibrary folders) longPaths
        (.reconcile observation remaining expired) = .stay := by
  obtain ⟨-, hrecorded, hsound⟩ := refused_longEvents hroom hlong
  generalize Runs.run (AttemptState.step (longLibrary folders) longPaths) {} (longEvents folders) =
    state at *
  rw [AttemptState.step_stop]
  have hlast : state.run.recorded.getLast? = some (longAuthorized folders) := by
    rw [hrecorded]
    rfl
  apply AttemptState.plan_reconcile_of_helper (documented_longLibrary folders)
  · exact hsound
  · rfl
  · exact hlast
  · rfl
  · rfl

/-- The path of the data directory has 3839 bytes. The journal is full when the exit of the helper
is to be recorded, and the attempt is never reconciled. -/
theorem long_start_is_never_reconciled :
    (longLibrary 38).Documented ∧
      (longDefinition 38).validate (longLibrary 38).toDefinitionLibrary = .ok () ∧
      (Runs.run (AttemptState.step (longLibrary 38) longPaths) {} (longEvents 38)).refused = true ∧
      ∀ observation remaining expired,
        ((Runs.run (AttemptState.step (longLibrary 38) longPaths) {} (longEvents 38)).step
          (longLibrary 38) longPaths (.stop, none)).plan (longLibrary 38) longPaths
            (.reconcile observation remaining expired) = .stay := by
  have hroom : 1212 * 38 + 3853 ≤ maxAttemptBytes := by decide
  have hlong : maxAttemptBytes < 1616 * 38 + 5184 := by decide
  exact ⟨documented_longLibrary 38, validate_longDefinition _, (refused_longEvents hroom hlong).1,
    stuck_longEvents hroom hlong⟩

end Sample

end KakuneCore
