import KakuneCore.Lifecycle.Ownership
import KakuneCore.Lifecycle.Rendering

/-!
# Observing a daemon and reserving its start

Two procedures read the same evidence about a data directory: `observe_with` says in which state the
daemon is, and `reserve_start` lets a new one start where there is none. The second also removes
what a daemon has left behind.

The main result, `reserveStart_iff_observed_stopped`: with a free administrative lease they agree
exactly when a **stale** record names its own data directory just where its control capability can
be removed, and a record without a process identifier has no dead process beside it.
-/

namespace KakuneCore

/-! ### Evidence -/

/-- The `Display` of an error. -/
def LifecycleError.text : LifecycleError → String
  | .deadlineExpired phase => s!"lifecycle deadline expired during {phase}"
  | .ownershipBusy => "lifecycle ownership is busy"
  | .unsafeOwnership detail => s!"lifecycle ownership evidence is unknown or unsafe: {detail}"
  | .unsupportedSchema version => s!"unsupported lifecycle metadata schema version {version}"
  | .unverifiedProcess => "process identity could not be verified"
  | .modeNotControllable mode => s!"lifecycle operation is not allowed for mode {mode}"
  | .messageTooLarge limit => s!"lifecycle message exceeds the {limit}-byte limit"
  | .authenticationFailed => "lifecycle authentication failed"
  | .challengeConsumed => "lifecycle challenge has already been consumed"
  | .wrongOwner => "lifecycle client OS account does not match the verified owner"
  | .insecureProtection detail =>
    s!"owner-protected capability storage is unavailable or unverified: {detail}"
  | .randomnessFailed => "operating-system cryptographic randomness failed"
  | .unconfirmedSuccess => "lifecycle success was requested without a confirmed state"
  | .accessDenied detail => s!"access to the native service manager was denied: {detail}"
  | .managerUnavailable detail => s!"native service manager is unavailable: {detail}"
  | .conflictingServiceDefinition detail =>
    s!"native service definition conflicts with the requested Kakune definition: {detail}"
  | .serviceNotInstalled => "the requested native service is not installed"
  | .unresolvedServiceAttempt detail =>
    s!"an unresolved service mutation blocks further changes: {detail}"
  | .serviceStateUnconfirmed => "native service or Core did not reach the requested state"
  | .helperUnreaped pid => s!"owned native helper process {pid} could not be confirmed reaped"
  | .io detail => s!"lifecycle I/O failed: {detail}"
  | .serialization detail => s!"lifecycle serialization failed: {detail}"

structure ProcessEvidence where
  identity : ProcessIdentity
  owner : OwnerIdentity
  deriving DecidableEq, Repr

/-- `==` of process identities: paths are equal where their components are. -/
def ProcessIdentity.same (identity other : ProcessIdentity) : Bool :=
  identity.pid = other.pid && identity.startIdentity = other.startIdentity &&
    pathComponents identity.executable = pathComponents other.executable

def verifyProcessIdentity (expected : ProcessIdentity) (observed : ProcessEvidence) :
    Except LifecycleError Unit := do
  expected.validate
  observed.identity.validate
  observed.owner.validate
  if expected.same observed.identity then .ok () else .error .unverifiedProcess

/-- What `symlink_metadata` shows at a path. -/
inductive PathEntry
  | missing
  | link
  | directory (uid mode : Nat)
  | file (uid mode : Nat)
  deriving DecidableEq, Repr

/-- What there is to see of a data directory, of its metadata and of processes. -/
structure StartSite where
  dataDir : String
  dataDirEntry : PathEntry
  /-- The directories above the ownership directory, with their paths. -/
  ancestors : List (String × PathEntry)
  ownershipDirectory : PathEntry
  adminLock : PathEntry
  runtimeLock : PathEntry
  /-- Whether a process holds the runtime lease. -/
  held : Bool
  files : OwnershipFiles
  /-- The control capability of an instance. -/
  capability : String → PathEntry
  effectiveUid : Nat
  evidence : Nat → Except LifecycleError (Option ProcessEvidence)

namespace StartSite

variable (site : StartSite)

/-- The path of the ownership directory. -/
def ownershipPath : String := site.dataDir ++ "/.kakune"

/-- `runtime_lease_is_held`. -/
def runtimeLeaseIsHeld : Except LifecycleError Bool :=
  match site.runtimeLock with
  | .missing => .ok false
  | .file _ _ => .ok site.held
  | _ => .error (.unsafeOwnership "runtime lease path is redirected or not a regular file")

/-! ### The administrative lease -/

/-- A directory of the user that nobody else may enter. -/
def isOwnerOnly (uid mode : Nat) : Bool :=
  uid = site.effectiveUid && mode &&& 0o700 = 0o700 && mode &&& 0o077 = 0

/-- `ensure_ownership_directory`. -/
def ensureOwnershipDirectory : Except LifecycleError StartSite :=
  if !isAbsolutePath site.dataDir then .error (.unsafeOwnership "data directory must be absolute")
  else match site.ownershipDirectory with
  | .link => .error (.unsafeOwnership "ownership directory is a symlink or reparse point")
  | .file _ _ => .error (.unsafeOwnership "ownership path is not a directory")
  | .missing => .ok { site with ownershipDirectory := .directory site.effectiveUid 0o700 }
  | .directory uid mode =>
    if site.isOwnerOnly uid mode then .ok site
    else .error (.unsafeOwnership
      "ownership directory must be current-user-owned and owner-only")

/-- `reject_link_if_present`. -/
def rejectLinkIfPresent (path : String) : PathEntry → Except LifecycleError Unit
  | .link => .error (.unsafeOwnership s!"{path} is a symlink or reparse point")
  | .directory _ _ => .error (.unsafeOwnership s!"{path} is not a regular file")
  | _ => .ok ()

/-- `AdministrativeLease::acquire_for_data_dir`, where nobody holds the lease. -/
def acquireAdministrative (env : OwnershipEnv) : Except LifecycleError StartSite := do
  let canonical ← (env.canonicalize site.dataDir).mapError .io
  let site ← ensureOwnershipDirectory { site with dataDir := canonical }
  rejectLinkIfPresent (site.ownershipPath ++ "/admin.lock") site.adminLock
  match site.adminLock with
  | .missing => .ok { site with adminLock := .file site.effectiveUid 0o600 }
  | _ => .ok site

/-! ### The control capability -/

/-- `validate_owner_kind`. -/
def validateOwnerKind (owner : OwnerIdentity) : Except LifecycleError Unit := do
  owner.validate
  match owner with
  | .unixUid uid => if uid = site.effectiveUid then .ok () else .error .wrongOwner
  | _ => .error (.insecureProtection "Unix capability storage requires a verified UID")

/-- One round of `validate_unix_private_directory`. -/
def validateAncestor (path : String) : PathEntry → Except LifecycleError Unit
  | .directory _ mode =>
    if mode &&& 0o022 ≠ 0 ∧ mode &&& 0o1000 = 0 then
      .error (.insecureProtection s!"{path} is writable by other users")
    else .ok ()
  | .missing => .error (.io "No such file or directory (os error 2)")
  | _ => .error (.insecureProtection s!"{path} is redirected or is not a directory")

/-- `validate_unix_private_directory`, of the ownership directory. -/
def validatePrivateDirectory : Except LifecycleError Unit := do
  site.ancestors.forM fun entry => validateAncestor entry.1 entry.2
  validateAncestor site.ownershipPath site.ownershipDirectory
  match site.ownershipDirectory with
  | .directory uid mode =>
    if uid ≠ site.effectiveUid ∨ mode &&& 0o077 ≠ 0 then
      .error (.insecureProtection
        "capability directory must be owned by the current user with owner-only permissions")
    else .ok ()
  | _ => .ok ()

/-- The checks of `remove_capability`: whether there is a capability to remove. -/
def checkCapability (instanceId : String) (owner : OwnerIdentity) : Except LifecycleError Bool := do
  site.validateOwnerKind owner
  site.validatePrivateDirectory
  match site.capability instanceId with
  | .link => .error (.insecureProtection
      s!"{site.ownershipPath}/control-{instanceId}.key is a symlink")
  | .missing => .ok false
  | .directory _ _ =>
    .error (.insecureProtection "capability file is redirected or not a regular file")
  | .file uid mode =>
    if uid ≠ site.effectiveUid ∨ mode &&& 0o777 ≠ 0o600 then
      .error (.insecureProtection "capability file must be current-user-owned with mode 0600")
    else .ok true

/-- `remove_capability`. -/
def removeCapability (instanceId : String) (owner : OwnerIdentity) :
    Except LifecycleError Bool × StartSite :=
  match site.checkCapability instanceId owner with
  | .ok true =>
    (.ok true, { site with capability := Function.update site.capability instanceId .missing })
  | answer => (answer, site)

end StartSite

/-! ### Observation -/

structure DaemonObservation where
  state : ObservedState
  mode : Option CoreMode := none
  verifiedPid : Option Nat := none
  dataDir : String
  listenAddress : Option String := none
  diagnosticLocation : Option String := none
  controlEndpoint : Option String := none
  identityVerified : Bool
  detail : Option String := none
  instanceId : Option String := none
  owner : Option OwnerIdentity := none
  processIdentity : Option ProcessIdentity := none
  deriving DecidableEq, Repr

namespace DaemonObservation

def stopped (dataDir : String) : DaemonObservation :=
  { state := .stopped, dataDir, identityVerified := true }

def unknown (dataDir detail : String) : DaemonObservation :=
  { state := .unknown, dataDir, identityVerified := false, detail := some detail }

/-- `phase_state`. -/
def phaseState : InstancePhase → ObservedState
  | .starting => .starting
  | .ready => .ready
  | .stopping => .stopping
  | .failed => .failed

def fromRecord (record : RuntimeOwnershipRecord) (verified : Bool) : DaemonObservation where
  state := phaseState record.inst.phase
  mode := some record.inst.mode
  verifiedPid := if verified then some record.inst.processIdentity.pid else none
  dataDir := record.inst.dataDir
  listenAddress := record.inst.listenAddress
  diagnosticLocation := record.inst.diagnosticLocation
  controlEndpoint := record.inst.controlEndpoint
  identityVerified := verified
  instanceId := some record.inst.instanceId
  owner := some record.inst.owner
  processIdentity := some record.inst.processIdentity

end DaemonObservation

section Procedures

variable (env : OwnershipEnv) (site : StartSite)

open DaemonObservation (stopped unknown fromRecord)

/-- `observe_legacy`. -/
def observeLegacy (pid : Option Nat) (held : Bool) : DaemonObservation :=
  if held then unknown site.dataDir ("runtime lease is held with legacy PID-only metadata; " ++
    "legacy PIDs are not shutdown authority")
  else match pid with
  | none =>
    unknown site.dataDir "legacy ownership metadata has no verifiable process identity"
  | some pid =>
    match site.evidence pid with
    | .ok none =>
      { stopped site.dataDir with
        detail := some "obsolete legacy PID-only metadata; no process was signaled" }
    | .ok (some _) => unknown site.dataDir ("legacy PID-only metadata may refer to a live or " ++
        "reused process; it was not trusted")
    | .error error => unknown site.dataDir error.text

/-- What `observe_with` makes of a current record. -/
def observeCurrent (canonical : String) (record : RuntimeOwnershipRecord) (held : Bool) :
    DaemonObservation :=
  let inst := record.inst
  if pathComponents inst.dataDir ≠ pathComponents canonical then
    unknown site.dataDir "ownership metadata names a different canonical data directory"
  else match site.evidence inst.processIdentity.pid with
  | .error error => unknown site.dataDir error.text
  | .ok none =>
    if held then unknown site.dataDir
      "runtime lease is held but recorded process identity is not observable"
    else stopped site.dataDir
  | .ok (some observed) =>
    if (verifyProcessIdentity inst.processIdentity observed).toOption.isNone ∨
        observed.owner ≠ inst.owner then
      if held then unknown site.dataDir
        "runtime lease is held but process identity evidence does not match"
      else stopped site.dataDir
    else if !held then
      unknown site.dataDir "recorded process is live but its runtime lease is not held"
    else fromRecord record true

/-- What `observe_with` does without a record. -/
def observeMissing (held : Bool) : DaemonObservation :=
  match readLegacyPidFile site.files.legacyPid with
  | .ok (some pid) => observeLegacy site (some pid) held
  | .ok none =>
    if held then unknown site.dataDir "runtime lease is held but ownership metadata is missing"
    else stopped site.dataDir
  | .error error => unknown site.dataDir error.text

/-- `observe_with`. -/
def observeWith : DaemonObservation :=
  if !isAbsolutePath site.dataDir then
    unknown site.dataDir "daemon observation requires an absolute data directory"
  else match site.dataDirEntry with
  | .missing => stopped site.dataDir
  | .link | .file _ _ =>
    unknown site.dataDir "selected data location is redirected or is not a directory"
  | .directory _ _ =>
    match env.canonicalize site.dataDir with
    | .error error => unknown site.dataDir s!"cannot resolve selected data location: {error}"
    | .ok canonical =>
      match readOwnershipRecord env site.files.record, site.runtimeLeaseIsHeld with
      | .error error, _ => unknown site.dataDir error.text
      | .ok _, .error error => unknown site.dataDir error.text
      | .ok (some (.current record)), .ok held => observeCurrent site canonical record held
      | .ok (some (.legacy legacy)), .ok held => observeLegacy site legacy.pid held
      | .ok none, .ok held => observeMissing site held

/-! ### Reservation -/

/-- `cleanup_record_if_instance_locked`. -/
def cleanupRecordIfInstanceLocked (expected : String) (files : OwnershipFiles) :
    Except LifecycleError Bool × OwnershipFiles :=
  match readOwnershipRecord env files.record with
  | .error error => (.error error, files)
  | .ok (some (.current record)) =>
    if record.inst.instanceId ≠ expected then (.ok false, files)
    else (.ok true, { files with record := .missing })
  | .ok _ => (.ok false, files)

/-- The observer that `reserve_start` gives to the cleanup of legacy metadata. -/
def processIsAbsent (pid : Nat) : Except LifecycleError Bool :=
  (site.evidence pid).map Option.isNone

/-- Whether evidence is that of the process that the record names. -/
def matchesInstance (inst : CoreInstance) (evidence : Option ProcessEvidence) : Bool :=
  evidence.any fun evidence =>
    evidence.identity.same inst.processIdentity && evidence.owner = inst.owner

/-- What `reserve_start` makes of a current record. -/
def reserveCurrent (record : RuntimeOwnershipRecord) (held : Bool) :
    Except LifecycleError Unit × StartSite :=
  let inst := record.inst
  match site.evidence inst.processIdentity.pid with
  | .error error => (.error error, site)
  | .ok evidence =>
    if held then
      (.error (if inst.mode = .userDaemon then .ownershipBusy
        else .unsafeOwnership s!"data directory is owned by a {inst.mode.text} Core instance"),
        site)
    else if matchesInstance inst evidence then
      (.error (.unsafeOwnership
        "verified Core process is live without its required runtime lease"), site)
    else match cleanupRecordIfInstanceLocked env inst.instanceId site.files with
    | (.error error, files) => (.error error, { site with files })
    | (.ok false, files) =>
      (.error (.unsafeOwnership "ownership record changed while stale state was being reconciled"),
        { site with files })
    | (.ok true, files) =>
      let (answer, site) := { site with files }.removeCapability inst.instanceId inst.owner
      (answer.map fun _ => (), site)

/-- What `reserve_start` makes of a legacy record. -/
def reserveLegacy (legacy : LegacyOwnershipRecord) (held : Bool) :
    Except LifecycleError Unit × StartSite :=
  if held then
    (.error (.unsafeOwnership ("a runtime lease exists with untrusted legacy PID-only metadata; " ++
      "stop the old instance using its original installation or terminal")), site)
  else match legacy.pid.map site.evidence with
  | some (.error error) => (.error error, site)
  | some (.ok (some _)) =>
    (.error (.unsafeOwnership ("legacy PID-only state may refer to a live or reused process; " ++
      "it was not signaled or removed")), site)
  | _ =>
    match cleanupLegacyIfProvenDeadLocked env (processIsAbsent site) (.ok ()) site.files with
    | (.error error, files) => (.error error, { site with files })
    | (.ok true, files) => (.ok (), { site with files })
    | (.ok false, files) =>
      match readOwnershipRecord env files.record with
      | .error error => (.error error, { site with files })
      | .ok none => (.ok (), { site with files })
      | .ok (some _) =>
        (.error (.unsafeOwnership "legacy ownership state could not be safely reconciled"),
          { site with files })

/-- What `reserve_start` does without a record. -/
def reserveMissing (held : Bool) : Except LifecycleError Unit × StartSite :=
  if held then
    (.error (.unsafeOwnership "a runtime lease is held but its ownership metadata is missing"),
      site)
  else match readLegacyPidFile site.files.legacyPid with
  | .error error => (.error error, site)
  | .ok none => (.ok (), site)
  | .ok (some _) =>
    match cleanupLegacyIfProvenDeadLocked env (processIsAbsent site) (.ok ()) site.files with
    | (.error error, files) => (.error error, { site with files })
    | (.ok removed, files) =>
      if !removed && files.legacyPid ≠ .missing then
        (.error (.unsafeOwnership
          ("legacy daemon PID state may refer to a live or reused process; " ++
          "it was retained")), { site with files })
      else (.ok (), { site with files })

/-- `reserve_start`, and what it leaves. -/
def reserveStart : Except LifecycleError Unit × StartSite :=
  match site.acquireAdministrative env with
  | .error error => (.error error, site)
  | .ok site =>
    match readOwnershipRecord env site.files.record, site.runtimeLeaseIsHeld with
    | .error error, _ => (.error error, site)
    | .ok _, .error error => (.error error, site)
    | .ok (some (.current record)), .ok held => reserveCurrent env site record held
    | .ok (some (.legacy legacy)), .ok held => reserveLegacy env site legacy held
    | .ok none, .ok held => reserveMissing env site held

end Procedures

/-! ### Where they agree -/

/-- An existing data directory, by its canonical path. -/
structure StartSite.IsCanonical (site : StartSite) (env : OwnershipEnv) : Prop where
  absolute : isAbsolutePath site.dataDir = true
  directory : ∃ uid mode, site.dataDirEntry = .directory uid mode
  canonical : env.canonicalize site.dataDir = .ok site.dataDir

/-- Nobody holds the runtime lease, and the process of the record is seen to be gone. -/
def IsStale (site : StartSite) (inst : CoreInstance) : Prop :=
  site.runtimeLeaseIsHeld = .ok false ∧
    ∃ evidence, site.evidence inst.processIdentity.pid = .ok evidence ∧
      matchesInstance inst evidence = false

/-- The evidence on which a reservation and an observation agree. -/
structure StartAgrees (env : OwnershipEnv) (site : StartSite) : Prop where
  current : ∀ record, readOwnershipRecord env site.files.record = .ok (some (.current record)) →
    IsStale site record.inst →
      (pathComponents record.inst.dataDir = pathComponents site.dataDir ↔
        (site.checkCapability record.inst.instanceId record.inst.owner).isOk = true)
  legacy : readOwnershipRecord env site.files.record = .ok (some (.legacy ⟨none⟩)) →
    site.runtimeLeaseIsHeld = .ok false →
      ∀ pid, readLegacyPidFile site.files.legacyPid = .ok (some pid) → site.evidence pid ≠ .ok none

section Identity

theorem ProcessIdentity.same_comm (identity other : ProcessIdentity) :
    identity.same other = other.same identity := by
  simp only [same, eq_comm]

theorem ProcessIdentity.validate_of_same {identity other : ProcessIdentity}
    (h : identity.same other = true) (hvalid : identity.validate = .ok ()) :
    other.validate = .ok () := by
  simp only [same, Bool.and_eq_true, decide_eq_true_eq] at h
  obtain ⟨⟨hpid, hstart⟩, hpath⟩ := h
  rw [validate, hpid, hstart, isAbsolutePath_congr hpath] at hvalid
  exact hvalid

/-- **Both procedures compare the same evidence**, where the record is valid. -/
theorem verified_iff {inst : CoreInstance} {observed : ProcessEvidence}
    (howner : inst.owner.validate = .ok ()) (hprocess : inst.processIdentity.validate = .ok ()) :
    ((verifyProcessIdentity inst.processIdentity observed).toOption.isNone = true ∨
        observed.owner ≠ inst.owner) ↔ matchesInstance inst (some observed) = false := by
  rw [matchesInstance, Option.any_some, Bool.and_eq_false_iff, decide_eq_false_iff_not,
    ProcessIdentity.same_comm observed.identity]
  by_cases heq : observed.owner = inst.owner
  · cases hsame : inst.processIdentity.same observed.identity with
    | true =>
      have hobserved := ProcessIdentity.validate_of_same hsame hprocess
      rw [← heq] at howner
      have hverify : verifyProcessIdentity inst.processIdentity observed = .ok () := by
        rw [verifyProcessIdentity, hprocess, hobserved, howner, hsame]
        rfl
      simp [hverify, heq, Except.toOption]
    | false =>
      refine iff_of_true (.inl ?_) (.inl rfl)
      rw [verifyProcessIdentity, hprocess]
      cases observed.identity.validate with
      | error error => rfl
      | ok valid =>
        cases observed.owner.validate with
        | error error => rfl
        | ok valid =>
          rw [hsame]
          rfl
  · exact iff_of_true (.inr heq) (.inr heq)

variable {env : OwnershipEnv}

/-- A current record that is read is valid. -/
theorem validate_of_readOwnershipRecord {entry : FileEntry} {record : RuntimeOwnershipRecord}
    (h : readOwnershipRecord env entry = .ok (some (.current record))) :
    record.validate env = .ok () := by
  cases entry with
  | missing => cases h
  | irregular => cases h
  | unreadable detail => cases h
  | regular bytes =>
    rw [readOwnershipRecord] at h
    split_ifs at h
    cases hvalue : env.json.readValue bytes with
    | none =>
      rw [hvalue] at h
      dsimp only [readDecimalRecord] at h
      split at h <;> cases h
    | some value =>
      rw [hvalue] at h
      dsimp only [readJsonRecord] at h
      split at h
      · split_ifs at h
        all_goals
          cases hrecord : env.recordOfValue value with
          | error text => rw [hrecord] at h; cases h
          | ok found =>
            rw [hrecord] at h
            simp only [Except.mapError, bind, Except.bind] at h
            cases hvalid : found.validate env with
            | error error => rw [hvalid] at h; cases h
            | ok valid =>
              rw [hvalid] at h
              cases h
              exact hvalid
      · cases h

theorem RuntimeOwnershipRecord.validate_inst {record : RuntimeOwnershipRecord}
    (h : record.validate env = .ok ()) :
    record.inst.owner.validate = .ok () ∧ record.inst.processIdentity.validate = .ok () := by
  rw [validate] at h
  split_ifs at h with hversion
  · cases h
  · have hinst : record.inst.validate env = .ok () := h
    rw [CoreInstance.validate] at hinst
    cases howner : record.inst.owner.validate with
    | error error => rw [howner] at hinst; cases hinst
    | ok valid =>
      cases hprocess : record.inst.processIdentity.validate with
      | error error => rw [howner, hprocess] at hinst; cases hinst
      | ok valid => exact ⟨rfl, rfl⟩

end Identity

section Agreement

variable {env : OwnershipEnv} {site acquired : StartSite} {held : Bool}
  {record : RuntimeOwnershipRecord}

open DaemonObservation (phaseState)

@[simp]
theorem DaemonObservation.stopped_state (dataDir : String) :
    (DaemonObservation.stopped dataDir).state = .stopped := rfl

@[simp]
theorem DaemonObservation.unknown_state (dataDir detail : String) :
    (DaemonObservation.unknown dataDir detail).state = .unknown := rfl

theorem DaemonObservation.fromRecord_state_ne (record : RuntimeOwnershipRecord) (verified : Bool) :
    (DaemonObservation.fromRecord record verified).state ≠ .stopped := by
  rw [fromRecord]
  cases record.inst.phase <;> exact nofun

/-- What the process of a record being gone means. -/
def ProcessGone (site : StartSite) (inst : CoreInstance) : Prop :=
  ∃ evidence, site.evidence inst.processIdentity.pid = .ok evidence ∧
    matchesInstance inst evidence = false

/-! #### Current records -/

theorem observeCurrent_stopped_iff (hvalid : record.validate env = .ok ()) :
    (observeCurrent site site.dataDir record held).state = .stopped ↔
      pathComponents record.inst.dataDir = pathComponents site.dataDir ∧ held = false ∧
        ProcessGone site record.inst := by
  obtain ⟨howner, hprocess⟩ := RuntimeOwnershipRecord.validate_inst hvalid
  rw [observeCurrent, ProcessGone]
  by_cases hsame : pathComponents record.inst.dataDir = pathComponents site.dataDir
  swap
  · simp [hsame]
  · rw [if_neg (not_not.mpr hsame)]
    rcases hevidence : site.evidence record.inst.processIdentity.pid with error | _ | observed
    · simp
    · cases held <;> simp [matchesInstance, hsame]
    · dsimp only
      simp only [verified_iff howner hprocess, Except.ok.injEq, exists_eq_left']
      cases matchesInstance record.inst (some observed) with
      | false => cases held <;> simp [hsame]
      | true =>
        cases held with
        | false => simp
        | true => simpa using DaemonObservation.fromRecord_state_ne record true

theorem reserveCurrent_ok_iff
    (hread : readOwnershipRecord env site.files.record = .ok (some (.current record))) :
    (reserveCurrent env site record held).1 = .ok () ↔
      held = false ∧ ProcessGone site record.inst ∧
        (site.checkCapability record.inst.instanceId record.inst.owner).isOk = true := by
  rw [reserveCurrent, ProcessGone]
  rcases hevidence : site.evidence record.inst.processIdentity.pid with error | evidence
  · simp
  · cases held with
    | true => simp
    | false =>
      cases hmatches : matchesInstance record.inst evidence with
      | true => simp [hmatches]
      | false =>
        have hcleanup : cleanupRecordIfInstanceLocked env record.inst.instanceId site.files =
            (.ok true, { site.files with record := .missing }) := by
          rw [cleanupRecordIfInstanceLocked, hread]
          simp
        have hcheck : ({ site with files := { site.files with record := .missing } } :
            StartSite).checkCapability record.inst.instanceId record.inst.owner =
              site.checkCapability record.inst.instanceId record.inst.owner := rfl
        simp only [hcleanup, Bool.false_eq_true, if_false, StartSite.removeCapability, hcheck]
        rcases site.checkCapability record.inst.instanceId record.inst.owner with
          error | _ | _ <;> simp [hmatches, Except.map, Except.isOk, Except.toBool]

/-! #### Process identifiers alone -/

theorem observeLegacy_stopped_iff {pid : Option Nat} :
    (observeLegacy site pid held).state = .stopped ↔
      held = false ∧ ∃ n, pid = some n ∧ site.evidence n = .ok none := by
  cases held with
  | true => cases pid <;> simp [observeLegacy]
  | false =>
    rcases pid with _ | n
    · simp [observeLegacy]
    · rcases hevidence : site.evidence n with error | _ | observed <;>
        simp [observeLegacy, hevidence]

theorem reserveLegacy_ok_iff {legacy : LegacyOwnershipRecord}
    (hread : readOwnershipRecord env site.files.record = .ok (some (.legacy legacy))) :
    (reserveLegacy env site legacy held).1 = .ok () ↔
      held = false ∧ ∃ n, (legacy.pid = some n ∨
        legacy.pid = none ∧ readLegacyPidFile site.files.legacyPid = .ok (some n)) ∧
          site.evidence n = .ok none := by
  obtain ⟨pid⟩ := legacy
  rw [reserveLegacy]
  cases held with
  | true => simp
  | false =>
    rcases pid with _ | n
    · rcases hpid : readLegacyPidFile site.files.legacyPid with error | _ | n
      · simp [cleanupLegacyIfProvenDeadLocked, hread, hpid]
      · simp [cleanupLegacyIfProvenDeadLocked, hread, hpid]
      · rcases hevidence : site.evidence n with error | _ | observed <;>
          simp [cleanupLegacyIfProvenDeadLocked, hread, hpid, processIsAbsent, hevidence,
            Except.map]
    · rcases hevidence : site.evidence n with error | _ | observed <;>
        simp [cleanupLegacyIfProvenDeadLocked, hread, processIsAbsent, hevidence, Except.map]

/-! #### No record -/

/-- No process is known, or the one of the legacy file is gone. -/
def LegacyGone (site : StartSite) : Prop :=
  readLegacyPidFile site.files.legacyPid = .ok none ∨
    ∃ n, readLegacyPidFile site.files.legacyPid = .ok (some n) ∧ site.evidence n = .ok none

theorem observeMissing_stopped_iff :
    (observeMissing site held).state = .stopped ↔ held = false ∧ LegacyGone site := by
  rw [observeMissing, LegacyGone]
  rcases hpid : readLegacyPidFile site.files.legacyPid with error | _ | n
  · simp
  · cases held <;> simp
  · simp [observeLegacy_stopped_iff]

/-- A decimal is read from a legacy file, whatever white space stands around it. -/
theorem readLegacyPidFile_decimal {pid : Nat} {before after : List Char} (hpos : 0 < pid)
    (hpid : pid < 2 ^ 32) (hspace : ∀ c ∈ before ++ after, isWhitespace c = true) :
    readLegacyPidFile (.regular (decimalRecord pid before after)) = .ok (some pid) := by
  obtain ⟨n, rfl⟩ := Nat.exists_eq_succ_of_ne_zero hpos.ne'
  rw [readLegacyPidFile, decimalRecord, Utf8.decode?_encode]
  simp only [parsePid_between hpid hspace]

/-- A legacy file that is read is there. -/
theorem ne_missing_of_readLegacyPidFile {entry : FileEntry} {n : Nat}
    (h : readLegacyPidFile entry = .ok (some n)) : entry ≠ .missing := by
  rintro rfl
  cases h

theorem reserveMissing_ok_iff (hread : readOwnershipRecord env site.files.record = .ok none) :
    (reserveMissing env site held).1 = .ok () ↔ held = false ∧ LegacyGone site := by
  rw [reserveMissing, LegacyGone]
  cases held with
  | true => simp
  | false =>
    rcases hpid : readLegacyPidFile site.files.legacyPid with error | _ | n
    · simp
    · simp
    · have hthere := ne_missing_of_readLegacyPidFile hpid
      rcases hevidence : site.evidence n with error | _ | observed <;>
        simp [cleanupLegacyIfProvenDeadLocked, hread, hpid, processIsAbsent, hevidence, Except.map,
          hthere]

/-! #### The two procedures -/

theorem ensureOwnershipDirectory_eq (h : site.ensureOwnershipDirectory = .ok acquired) :
    ∃ directory, acquired = { site with ownershipDirectory := directory } := by
  rw [StartSite.ensureOwnershipDirectory] at h
  split_ifs at h
  split at h
  · cases h
  · cases h
  · cases h
    exact ⟨_, rfl⟩
  · split_ifs at h
    cases h
    exact ⟨_, rfl⟩

/-- Taking the administrative lease leaves the evidence as it is. -/
theorem acquireAdministrative_eq (hcanonical : site.IsCanonical env)
    (h : site.acquireAdministrative env = .ok acquired) :
    ∃ directory lock, acquired =
      { site with ownershipDirectory := directory, adminLock := lock } := by
  rw [StartSite.acquireAdministrative, hcanonical.canonical] at h
  cases hensure : site.ensureOwnershipDirectory with
  | error error =>
    have : ({ site with dataDir := site.dataDir } : StartSite).ensureOwnershipDirectory =
      .error error := hensure
    simp only [Except.mapError, bind, Except.bind, this] at h
    cases h
  | ok next =>
    have hnext : ({ site with dataDir := site.dataDir } : StartSite).ensureOwnershipDirectory =
      .ok next := hensure
    obtain ⟨directory, rfl⟩ := ensureOwnershipDirectory_eq hensure
    simp only [Except.mapError, bind, Except.bind, hnext] at h
    split at h
    · cases h
    · split at h
      · cases h
        exact ⟨_, _, rfl⟩
      · cases h
        exact ⟨_, _, rfl⟩

/-- A lease that is held, or cannot be inspected, stops both. -/
theorem startAgrees_of_busy (h : site.runtimeLeaseIsHeld ≠ .ok false) : StartAgrees env site :=
  ⟨fun _ _ hstale => absurd hstale.1 h, fun _ hheld => absurd hheld h⟩

/-- Without a current record and a legacy one that names no process there is nothing to disagree
on. -/
theorem startAgrees_of_other
    (hcurrent : ∀ record, readOwnershipRecord env site.files.record ≠ .ok (some (.current record)))
    (hlegacy : readOwnershipRecord env site.files.record ≠ .ok (some (.legacy ⟨none⟩))) :
    StartAgrees env site :=
  ⟨fun record hread => absurd hread (hcurrent record), fun hread => absurd hread hlegacy⟩

theorem startAgrees_current_iff
    (hread : readOwnershipRecord env site.files.record = .ok (some (.current record)))
    (hheld : site.runtimeLeaseIsHeld = .ok false) : StartAgrees env site ↔
      (ProcessGone site record.inst →
        (pathComponents record.inst.dataDir = pathComponents site.dataDir ↔
          (site.checkCapability record.inst.instanceId record.inst.owner).isOk = true)) := by
  constructor
  · intro h hgone
    exact h.current record hread ⟨hheld, hgone⟩
  · refine fun h => ⟨fun other hother hstale => ?_, fun hlegacy => ?_⟩
    · rw [hread] at hother
      cases hother
      exact h hstale.2
    · rw [hread] at hlegacy
      cases hlegacy

theorem startAgrees_legacy_iff
    (hread : readOwnershipRecord env site.files.record = .ok (some (.legacy ⟨none⟩)))
    (hheld : site.runtimeLeaseIsHeld = .ok false) : StartAgrees env site ↔
      ∀ pid, readLegacyPidFile site.files.legacyPid = .ok (some pid) →
        site.evidence pid ≠ .ok none := by
  constructor
  · exact fun h => h.legacy hread hheld
  · refine fun h => ⟨fun other hother => ?_, fun _ _ => h⟩
    rw [hread] at hother
    cases hother

/-- **Reservation and observation** of a data directory whose administrative lease is free agree
exactly on such evidence. -/
theorem reserveStart_iff_observed_stopped (env : OwnershipEnv) (site acquired : StartSite)
    (hcanonical : site.IsCanonical env) (hfree : site.acquireAdministrative env = .ok acquired) :
    ((reserveStart env site).1 = .ok () ↔ (observeWith env site).state = .stopped) ↔
      StartAgrees env acquired := by
  obtain ⟨directory, lock, heq⟩ := acquireAdministrative_eq hcanonical hfree
  have hobserve : observeWith env site = observeWith env acquired := by
    rw [heq]
    rfl
  have hcanonical' : acquired.IsCanonical env := by
    rw [heq]
    exact ⟨hcanonical.absolute, hcanonical.directory, hcanonical.canonical⟩
  obtain ⟨uid, mode, hdirectory⟩ := hcanonical'.directory
  rw [hobserve, reserveStart, hfree, observeWith]
  simp only [hcanonical'.absolute, Bool.not_true, Bool.false_eq_true, if_false, hdirectory,
    hcanonical'.canonical]
  rcases hread : readOwnershipRecord env acquired.files.record with error | _ | record | legacy
  · exact iff_of_true (by simp) (startAgrees_of_other (by simp [hread]) (by simp [hread]))
  · rcases hheld : acquired.runtimeLeaseIsHeld with error | held
    · exact iff_of_true (by simp) (startAgrees_of_busy (by simp [hheld]))
    · dsimp only
      rw [reserveMissing_ok_iff hread, observeMissing_stopped_iff]
      exact iff_of_true Iff.rfl (startAgrees_of_other (by simp [hread]) (by simp [hread]))
  · rcases hheld : acquired.runtimeLeaseIsHeld with error | held
    · exact iff_of_true (by simp) (startAgrees_of_busy (by simp [hheld]))
    · dsimp only
      rw [reserveCurrent_ok_iff hread,
        observeCurrent_stopped_iff (validate_of_readOwnershipRecord hread)]
      cases held with
      | true => exact iff_of_true (by simp) (startAgrees_of_busy (by simp [hheld]))
      | false =>
        rw [startAgrees_current_iff hread hheld]
        by_cases hgone : ProcessGone acquired record.inst
        · simp [hgone, iff_comm]
        · simp [hgone]
  · rcases hheld : acquired.runtimeLeaseIsHeld with error | held
    · exact iff_of_true (by simp) (startAgrees_of_busy (by simp [hheld]))
    · dsimp only
      rw [reserveLegacy_ok_iff hread, observeLegacy_stopped_iff]
      cases held with
      | true => exact iff_of_true (by simp) (startAgrees_of_busy (by simp [hheld]))
      | false =>
        obtain ⟨pid⟩ := legacy
        cases pid with
        | some pid =>
          exact iff_of_true (by simp) (startAgrees_of_other (by simp [hread]) (by simp [hread]))
        | none =>
          rw [startAgrees_legacy_iff hread hheld]
          simp

end Agreement

/-- A data directory with these files, where no process runs. -/
def sampleStartSite (files : OwnershipFiles) : StartSite where
  dataDir := "/data"
  dataDirEntry := .directory 1000 0o700
  ancestors := [("/", .directory 0 0o755), ("/data", .directory 1000 0o700)]
  ownershipDirectory := .directory 1000 0o700
  adminLock := .file 1000 0o600
  runtimeLock := .missing
  held := false
  files
  capability := fun _ => .missing
  effectiveUid := 1000
  evidence := fun _ => .ok none

theorem isAbsolutePath_sample : isAbsolutePath "/data" = true := by decide

theorem sampleStartSite_isCanonical (files : OwnershipFiles) :
    (sampleStartSite files).IsCanonical sampleOwnershipEnv :=
  ⟨isAbsolutePath_sample, ⟨1000, 0o700, rfl⟩, rfl⟩

theorem acquireAdministrative_sample (files : OwnershipFiles) :
    (sampleStartSite files).acquireAdministrative sampleOwnershipEnv =
      .ok (sampleStartSite files) := by
  have hensure :
      (sampleStartSite files).ensureOwnershipDirectory = .ok (sampleStartSite files) := by
    have habsolute : isAbsolutePath (sampleStartSite files).dataDir = true := isAbsolutePath_sample
    rw [StartSite.ensureOwnershipDirectory, habsolute]
    rfl
  have hcanonical : sampleOwnershipEnv.canonicalize (sampleStartSite files).dataDir =
      .ok (sampleStartSite files).dataDir := rfl
  have hsame : { sampleStartSite files with dataDir := (sampleStartSite files).dataDir } =
      sampleStartSite files := rfl
  rw [StartSite.acquireAdministrative, hcanonical]
  simp only [Except.mapError, bind, Except.bind, hsame, hensure]
  rfl

/-- Without any metadata there is no daemon, and one may start. -/
theorem empty_site_is_reserved_and_stopped :
    (reserveStart sampleOwnershipEnv (sampleStartSite ⟨.missing, .missing⟩)).1 = .ok () ↔
      (observeWith sampleOwnershipEnv (sampleStartSite ⟨.missing, .missing⟩)).state = .stopped :=
  (reserveStart_iff_observed_stopped sampleOwnershipEnv (sampleStartSite ⟨.missing, .missing⟩)
    (sampleStartSite ⟨.missing, .missing⟩) (sampleStartSite_isCanonical _)
    (acquireAdministrative_sample _)).mpr (startAgrees_of_other nofun nofun)

/-- A bare decimal record, and a process identifier in the legacy file. -/
def decimalFiles : OwnershipFiles where
  record := .regular (decimalRecord 4321 [] ['\n'])
  legacyPid := .regular (decimalRecord 77 [] [])

/-- **A record without a process identifier beside a dead process**: the daemon is reported as
unknown, and a start is reserved. -/
theorem unknown_daemon_is_replaced :
    (reserveStart sampleOwnershipEnv (sampleStartSite decimalFiles)).1 = .ok () ∧
      (observeWith sampleOwnershipEnv (sampleStartSite decimalFiles)).state = .unknown := by
  have hread : readOwnershipRecord sampleOwnershipEnv (sampleStartSite decimalFiles).files.record =
      .ok (some (.legacy ⟨none⟩)) :=
    readOwnershipRecord_decimal (Json.reference_conforms 127) (by decide) (by decide)
      (List.forall_mem_singleton.mpr (by decide)) (by decide +kernel)
  have hpid : readLegacyPidFile (sampleStartSite decimalFiles).files.legacyPid = .ok (some 77) :=
    readLegacyPidFile_decimal (by decide) (by decide) (by simp)
  have hheld : (sampleStartSite decimalFiles).runtimeLeaseIsHeld = .ok false := rfl
  have hcanonical := sampleStartSite_isCanonical decimalFiles
  constructor
  · rw [reserveStart, acquireAdministrative_sample]
    simp only [hread, hheld]
    exact (reserveLegacy_ok_iff hread).mpr ⟨rfl, 77, .inr ⟨rfl, hpid⟩, rfl⟩
  · rw [observeWith]
    simp only [hcanonical.absolute, hcanonical.canonical, hread, hheld]
    rfl

end KakuneCore
