import KakuneCore.Workflow.Value

/-!
# Lifecycle contracts

The errors, modes and owners that the lifecycle of the Core and of its system service share.
-/

namespace KakuneCore

/-- `LifecycleError`. The texts of I/O and serialization errors are those of the libraries. -/
inductive LifecycleError
  | deadlineExpired (phase : String)
  | ownershipBusy
  | unsafeOwnership (detail : String)
  | unsupportedSchema (version : Nat)
  | unverifiedProcess
  | modeNotControllable (mode : String)
  | messageTooLarge (limit : Nat)
  | authenticationFailed
  | challengeConsumed
  | wrongOwner
  | insecureProtection (detail : String)
  | randomnessFailed
  | unconfirmedSuccess
  | accessDenied (detail : String)
  | managerUnavailable (detail : String)
  | conflictingServiceDefinition (detail : String)
  | serviceNotInstalled
  | unresolvedServiceAttempt (detail : String)
  | serviceStateUnconfirmed
  | helperUnreaped (pid : Nat)
  | io (detail : String)
  | serialization (detail : String)
  deriving DecidableEq, Repr

def maxControlMessageBytes : Nat := 64 * 1024

abbrev Bytes : Type := List UInt8

/-- The bytes of an ASCII text. -/
def asciiBytes (text : String) : Bytes := text.toList.map fun c => .ofNat c.toNat

theorem asciiBytes_append (text rest : String) :
    asciiBytes (text ++ rest) = asciiBytes text ++ asciiBytes rest := by
  rw [asciiBytes, String.toList_append, List.map_append, ← asciiBytes, ← asciiBytes]

inductive CoreMode
  | foreground
  | userDaemon
  | systemService
  deriving DecidableEq, Repr

/-- The `Display` of a mode. -/
def CoreMode.text : CoreMode → String
  | .foreground => "foreground"
  | .userDaemon => "user_daemon"
  | .systemService => "system_service"

inductive OwnerIdentity
  | windowsSid (sid : String)
  | unixUid (uid : Nat)
  | other (identity : String)
  deriving DecidableEq, Repr

def OwnerIdentity.validate : OwnerIdentity → Except LifecycleError Unit
  | .windowsSid sid => if blank sid then .error (.unsafeOwnership "empty Windows SID") else .ok ()
  | .unixUid _ => .ok ()
  | .other identity =>
    if blank identity then .error (.unsafeOwnership "empty OS user identity") else .ok ()

/-- The states of a lifecycle permit. -/
inductive TrackedExecutionState
  | preparation | queued | active
  deriving DecidableEq, Repr

/-- The moves `TaskPermit::transition` allows. -/
def TrackedExecutionState.mayMoveTo : TrackedExecutionState → TrackedExecutionState → Bool
  | preparation, queued | queued, active => true
  | _, _ => false

end KakuneCore
