import KakuneCore.Lifecycle.Basic

/-!
# Services and their mutation attempts

The definition of a system service, what is observed of it, and the record of an attempt to change
it. A native mutation is authorised one **step** at a time.
-/

namespace KakuneCore

/-! ### Definitions -/

inductive ServiceManagerKind
  | windowsScm
  | linuxSystemd
  | macosLaunchd
  deriving DecidableEq, Repr

inductive BootPolicy
  | automatic
  deriving DecidableEq, Repr

/-- Paths are texts here; the code's are those of the operating system, and one that is no Unicode
is refused when it is encoded. -/
structure ServiceDefinition where
  manager : ServiceManagerKind
  serviceId : String
  executable : String
  arguments : List String
  account : String
  bootPolicy : BootPolicy := .automatic
  dataDir : String
  definitionFingerprint : Option String := none
  deriving DecidableEq, Repr

/-- `Path::is_absolute`. -/
def isAbsolutePath (path : String) : Bool := path.toList.head? = some '/'

inductive PathComponent
  | rootDir
  | curDir
  | parentDir
  | normal (name : List Char)
  deriving DecidableEq, Repr

/-- `Path::components`: repeated separators and inner dots are dropped. -/
def pathComponents (path : String) : List PathComponent :=
  let segments := path.toList.splitOn '/'
  let first : List PathComponent :=
    if isAbsolutePath path then [.rootDir]
    else if segments.head? = some ['.'] then [.curDir]
    else []
  first ++ (segments.filter fun segment => segment ≠ [] ∧ segment ≠ ['.']).map fun segment =>
    if segment = ['.', '.'] then .parentDir else .normal segment

/-- `u8::is_ascii_alphanumeric`, of a character. -/
def isAsciiAlphanumeric (c : Char) : Bool :=
  ('a' ≤ c ∧ c ≤ 'z') ∨ ('A' ≤ c ∧ c ≤ 'Z') ∨ ('0' ≤ c ∧ c ≤ '9')

/-- An identifier is one path component. Its bytes are counted, and they are characters. -/
def validateServiceId (manager : ServiceManagerKind) (serviceId : String) :
    Except LifecycleError Unit :=
  if serviceId = "" ∨ 128 < serviceId.utf8ByteSize ∨ serviceId = "." ∨ serviceId = ".." ∨
      serviceId.toList.any fun c => !(isAsciiAlphanumeric c || c ∈ ['-', '_', '.']) then
    .error (.unsafeOwnership "native service identifier must be one validated path component")
  else if manager = .windowsScm ∧ '.' ∈ serviceId.toList then
    .error (.unsafeOwnership "SCM service identifiers cannot contain periods")
  else .ok ()

/-- `to_ascii_lowercase`. -/
def asciiLowercase (text : String) : String :=
  .ofList (text.toList.map fun c => if 'A' ≤ c ∧ c ≤ 'Z' then .ofNat (c.toNat + 32) else c)

def canonicalServiceId (manager : ServiceManagerKind) (serviceId : String) : String :=
  match manager with
  | .windowsScm => asciiLowercase serviceId
  | .linuxSystemd | .macosLaunchd => serviceId

namespace ServiceDefinition

/-- `canonical_service_id`. -/
def canonicalServiceId (definition : ServiceDefinition) : String :=
  KakuneCore.canonicalServiceId definition.manager definition.serviceId

/-- Whether a text has a NUL or a line break. -/
def hasControl (text : String) : Bool :=
  text.toList.any fun c => c ∈ [Char.ofNat 0, '\r', '\n']

def validateFields (definition : ServiceDefinition) : Except LifecycleError Unit := do
  if !isAbsolutePath definition.executable || !isAbsolutePath definition.dataDir then
    throw (.unsafeOwnership "service executable and data directory must be absolute paths")
  else if (pathComponents definition.executable ++ pathComponents definition.dataDir).any
      fun component => component ∈ [.curDir, .parentDir] then
    throw (.unsafeOwnership "service paths must be normalized absolute paths")
  else
    validateServiceId definition.manager definition.serviceId
    if blank definition.account || hasControl definition.account ||
        definition.arguments.any hasControl then
      throw (.unsafeOwnership "service account or arguments contain invalid control characters")
    else
      match definition.arguments with
      | ["service", "run", "--data-dir", path] =>
        if pathComponents path = pathComponents definition.dataDir then pure ()
        else throw (.unsafeOwnership argumentsMessage)
      | _ => throw (.unsafeOwnership argumentsMessage)
where
  argumentsMessage : String := "service arguments must be exactly `service run --data-dir " ++
    "<definition data path>`, with no secrets or extra options"

end ServiceDefinition

/-- The functions of the libraries for JSON and digests. -/
structure DefinitionLibrary where
  /-- The digest of the encoded fields: manager, canonical identifier, executable, arguments,
  account and data directory. The boot policy has one value. -/
  digest : ServiceManagerKind → String → String → List String → String → String → String

namespace ServiceDefinition

variable (library : DefinitionLibrary) (definition : ServiceDefinition)

def fingerprint : Except LifecycleError String := do
  validateFields { definition with definitionFingerprint := none }
  pure (library.digest definition.manager definition.canonicalServiceId definition.executable
    definition.arguments definition.account definition.dataDir)

def validate : Except LifecycleError Unit := do
  definition.validateFields
  match definition.definitionFingerprint with
  | none => pure ()
  | some fingerprint =>
    if fingerprint = (← definition.fingerprint library) then pure ()
    else throw (.unsafeOwnership "service definition fingerprint does not match its fields")

end ServiceDefinition

/-! ### Observations -/

inductive InstallationObservation
  | installed
  | notInstalled
  | unknown
  deriving DecidableEq, Repr

inductive NativeManagerState
  | stopped
  | starting
  | running
  | stopping
  | failed
  | unknown
  deriving DecidableEq, Repr

inductive ObservedState
  | starting
  | ready
  | stopping
  | stopped
  | failed
  | unknown
  deriving DecidableEq, Repr

structure ProcessIdentity where
  pid : Nat
  startIdentity : String
  executable : String
  deriving DecidableEq, Repr

structure CoreObservation where
  mode : CoreMode
  state : ObservedState
  instanceId : Option String
  owner : Option OwnerIdentity
  process : Option ProcessIdentity
  dataDir : String
  listenAddress : Option String
  diagnosticLocation : Option String
  identityVerified : Bool
  deriving DecidableEq, Repr

structure NativeServiceObservation where
  installed : InstallationObservation
  managerState : NativeManagerState
  definition : Option ServiceDefinition := none
  account : Option String := none
  bootEnabled : Bool := false
  core : Option CoreObservation := none
  coreUnknown : Option String := none
  diagnosticLocation : Option String := none
  pendingOperation : Bool := false
  deriving DecidableEq, Repr

/-- `NativeServiceObservation::absent`. -/
def NativeServiceObservation.absent : NativeServiceObservation where
  installed := .notInstalled
  managerState := .stopped

/-! ### Attempts -/

inductive ServiceAction
  | install
  | start
  | stop
  | remove
  deriving DecidableEq, Repr

inductive NativeMutation
  | register
  | description
  | failurePolicy
  | publish
  | reload
  | enable
  | start
  | stop
  | disable
  | delete
  deriving DecidableEq, Repr

/-- The mutations of an action, in order. -/
def NativeMutation.steps : ServiceManagerKind → ServiceAction → List NativeMutation
  | .windowsScm, .install => [.register, .description, .failurePolicy]
  | .linuxSystemd, .install => [.publish, .reload, .enable]
  | .macosLaunchd, .install => [.publish]
  | _, .start => [.start]
  | _, .stop => [.stop]
  | .linuxSystemd, .remove => [.disable, .delete, .reload]
  | _, .remove => [.delete]

/-- The name of a mutation in JSON, without the quotes. -/
def NativeMutation.name : NativeMutation → String
  | .register => "register"
  | .description => "description"
  | .failurePolicy => "failure_policy"
  | .publish => "publish"
  | .reload => "reload"
  | .enable => "enable"
  | .start => "start"
  | .stop => "stop"
  | .disable => "disable"
  | .delete => "delete"

inductive AttemptStatus
  | prepared
  | authorized
  | observedComplete
  | reconciled
  | outcomeUnknown
  deriving DecidableEq, Repr

structure ServiceAttemptJournal where
  schemaVersion : Nat
  attemptId : String
  manager : ServiceManagerKind
  nativeServiceId : String
  action : ServiceAction
  step : String
  expectedDefinition : ServiceDefinition
  priorState : NativeServiceObservation
  helperPid : Option Nat := none
  helperOwner : Option String := none
  status : AttemptStatus := .prepared
  completionObservation : Option NativeServiceObservation := none
  residualResources : List String := []
  recoveryGuidance : List String := []
  deriving DecidableEq, Repr

/-- `step_label`. -/
def stepLabel (index : Nat) (step : NativeMutation) : String := s!"{index}:\"{step.name}\""

namespace ServiceAttemptJournal

variable (journal : ServiceAttemptJournal)

/-- `step_for`: the number of the step that a journal names. -/
def stepFor : Option Nat :=
  (NativeMutation.steps journal.manager journal.action).zipIdx.findSome? fun (step, index) =>
    if journal.step = stepLabel index step then some index else none

def isNativeStep : Bool := journal.stepFor.isSome

def isFinalStep : Bool :=
  journal.stepFor.any fun index =>
    index + 1 = (NativeMutation.steps journal.manager journal.action).length

/-- `valid_next_step`. -/
def validNextStep (previous next : ServiceAttemptJournal) : Bool :=
  (previous.status = .observedComplete ∧ next.status = .prepared ∧ next.helperPid = none : Bool) &&
    match previous.stepFor, next.stepFor with
    | some before, some after => before + 1 = after
    | _, _ => false

end ServiceAttemptJournal

/-- `valid_attempt_transition`. -/
def validAttemptTransition (previous next : AttemptStatus) : Bool :=
  previous = next ∨ (previous, next) ∈
    [(.prepared, .authorized), (.authorized, .observedComplete), (.authorized, .outcomeUnknown),
      (.observedComplete, .reconciled), (.observedComplete, .outcomeUnknown),
      (.outcomeUnknown, .observedComplete)]

def serviceStateSchemaVersion : Nat := 1

/-- What a record may not change of the record before. -/
def ServiceAttemptJournal.follows (previous journal : ServiceAttemptJournal) : Bool :=
  previous.attemptId = journal.attemptId ∧ previous.manager = journal.manager ∧
    previous.nativeServiceId = journal.nativeServiceId ∧ previous.action = journal.action ∧
    (previous.step = journal.step ∨ previous.validNextStep journal) ∧
    previous.expectedDefinition = journal.expectedDefinition ∧
    (validAttemptTransition previous.status journal.status ∨ previous.validNextStep journal)

/-- `validate_attempt_snapshot`. -/
def validateAttemptSnapshot (library : DefinitionLibrary) (journal : ServiceAttemptJournal)
    (previous : Option ServiceAttemptJournal) : Except LifecycleError Unit := do
  if journal.schemaVersion ≠ serviceStateSchemaVersion then
    throw (.unsupportedSchema journal.schemaVersion)
  else
    validateServiceId journal.manager journal.nativeServiceId
    journal.expectedDefinition.validate library
    if journal.expectedDefinition.manager ≠ journal.manager ∨
        canonicalServiceId journal.manager journal.expectedDefinition.serviceId ≠
          canonicalServiceId journal.manager journal.nativeServiceId ∨ blank journal.step then
      throw (.unsafeOwnership
        "service attempt identity, expected definition, or mutation step is invalid")
    else if previous.any fun previous => !previous.follows journal then
      throw (.unsafeOwnership
        "service attempt journal changes identity or expected definition")
    else pure ()

end KakuneCore
