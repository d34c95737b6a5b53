import KakuneCore.Client.ContextRuns
import KakuneCore.Encoding.Json
import KakuneCore.Runtime.Resolve
import KakuneCore.Store.Installation

/-!
# Initialization

`initialize` prepares one local installation: it creates or reuses the configuration, the database,
the credential of the client and the local context, in this order, and a later failure leaves what
was prepared before it. No call replaces a configuration, a context or the credentials of an
installation that exists. A call after one that has succeeded reuses everything, unless the context
file has outgrown the limit under which it is read: the limit is not checked when the local context
is added.
-/

namespace KakuneCore

/-! ### Reports and errors -/

structure InitializationPaths where
  dataDir : String
  configFile : String
  contextFile : String
  deriving DecidableEq

inductive ComponentState
  | notAttempted
  | created
  | reused
  | incomplete
  deriving DecidableEq, Repr

def ComponentState.isReady : ComponentState → Bool
  | created | reused => true
  | _ => false

structure InitializationReport where
  paths : InitializationPaths
  configuration : ComponentState := .notAttempted
  storage : ComponentState := .notAttempted
  identity : ComponentState := .notAttempted
  clientAccess : ComponentState := .notAttempted
  localContext : ComponentState := .notAttempted
  deriving DecidableEq

def InitializationReport.isComplete (report : InitializationReport) : Bool :=
  report.configuration.isReady && report.storage.isReady && report.identity.isReady &&
    report.clientAccess.isReady && report.localContext.isReady

inductive InitializationFailureCategory
  | invalidResource
  | conflictingResource
  | inaccessibleResource
  | unsupportedStorage
  | storageUpgradeFailed
  | storageFailed
  | clientAccessUnavailable
  | clientAccessInvalid
  | secureCredentialWriteFailed
  | credentialReadbackFailed
  | setupContended
  deriving DecidableEq, Repr

inductive InitializationResource
  | configuration
  | storage
  | installationIdentity
  | clientAccess
  | localContext
  deriving DecidableEq, Repr

inductive InitializationCorrection
  | inspectResource
  | repairOrRestoreStorage
  | runExplicitAuthRecovery
  | retryAfterContention
  deriving DecidableEq, Repr

structure InitializationError where
  report : InitializationReport
  category : InitializationFailureCategory
  resource : InitializationResource
  correction : InitializationCorrection
  deriving DecidableEq

/-! ### Configuration -/

inductive FilesystemSandboxMode
  | auto
  | required
  | disabled
  deriving DecidableEq, Repr

structure ApiConfig where
  listen : String := "127.0.0.1:8787"
  tlsCert : Option String := none
  tlsKey : Option String := none
  allowedHosts : List String := []
  allowedOrigins : List String := []
  requestBodyLimitBytes : Nat := 1048576
  rateLimitRequestsPerMinute : Nat := 120
  deriving DecidableEq

structure CoreConfig where
  api : ApiConfig := {}
  filesystemSandbox : FilesystemSandboxMode := .auto
  deriving DecidableEq

/-- A socket address; the host is as it is shown, an IPv6 address in brackets. -/
structure SocketAddr where
  host : String
  isIpv4 : Bool
  isUnspecified : Bool
  port : Nat
  deriving DecidableEq

def CoreConfig.listenAddr (parseAddr : String → Option SocketAddr) (config : CoreConfig) :
    Except String SocketAddr :=
  match parseAddr config.api.listen with
  | some listen => .ok listen
  | none => .error "api.listen must be a socket address such as 127.0.0.1:8787"

def isExplicitHost (host : String) : Bool :=
  host ≠ "" && !host.toList.any (fun c => c ∈ ['/', '@', '?', '#'] || isWhitespace c)

def isOrigin (origin : String) : Bool :=
  ("http://".toList.isPrefixOf origin.toList || "https://".toList.isPrefixOf origin.toList) &&
    !origin.toList.any isWhitespace

def CoreConfig.validate (parseAddr : String → Option SocketAddr) (config : CoreConfig) :
    Except String Unit := do
  let _ ← config.listenAddr parseAddr
  if config.api.tlsCert.isSome ≠ config.api.tlsKey.isSome then
    .error "api.tlsCert and api.tlsKey must be configured together"
  else if !config.api.allowedHosts.all isExplicitHost then
    .error "api.allowedHosts must contain explicit hostnames or IP addresses"
  else if ¬ (1 ≤ config.api.requestBodyLimitBytes ∧
      config.api.requestBodyLimitBytes ≤ 16 * 1024 * 1024) then
    .error "api.requestBodyLimitBytes must be between 1 and 16777216"
  else if ¬ (1 ≤ config.api.rateLimitRequestsPerMinute ∧
      config.api.rateLimitRequestsPerMinute ≤ 10000) then
    .error "api.rateLimitRequestsPerMinute must be between 1 and 10000"
  else match config.api.allowedOrigins.find? (!isOrigin ·) with
    | some origin => .error ("api.allowedOrigins contains an invalid origin: " ++ origin)
    | none => .ok ()

def localEndpoint (api : ApiConfig) (listen : SocketAddr) : String :=
  let host :=
    if listen.isUnspecified then if listen.isIpv4 then "127.0.0.1" else "[::1]" else listen.host
  let scheme := if api.tlsCert.isSome then "https" else "http"
  scheme ++ "://" ++ host ++ ":" ++ toString listen.port

/-! ### The credential store -/

inductive CredentialAccessError
  | invalidReference
  | unavailable
  | secureWriteFailed
  | readFailed
  deriving DecidableEq, Repr

/-- An implementation of `CredentialAccess`, over what it keeps. -/
structure CredentialAccess (Keys : Type) where
  resolveReference : Option String → Except CredentialAccessError String
  writeSecure : Keys → String → String → Except CredentialAccessError Keys
  read : Keys → String → Except CredentialAccessError String

/-- `SystemCredentialAccess::resolve_reference`. -/
def systemResolveReference (reference : Option String) : Except CredentialAccessError String :=
  let reference := reference.getD "env:KAKUNE_TOKEN"
  if reference = "" ∨ reference = "env:" ∨ reference = "keychain:" then .error .invalidReference
  else .ok reference

/-- A reference that was resolved resolves to itself. -/
def CredentialAccess.Settled {Keys : Type} (access : CredentialAccess Keys) : Prop :=
  ∀ reference resolved, access.resolveReference reference = .ok resolved →
    access.resolveReference (some resolved) = .ok resolved

/-! ### The environment of a call -/

/-- What is the same for all calls: the texts that are read and written, and the credential
store. -/
structure InitEnv (Text Contents Content Keys : Type) where
  paths : InitializationPaths
  parseAddr : String → Option SocketAddr
  parseConfig : Text → Except String CoreConfig
  renderConfig : CoreConfig → Text
  store : StoreEnv Content
  contexts : ContextEnv Contents
  credentials : CredentialAccess Keys

/-- How `publish_new_file` ends for the configuration. -/
inductive ConfigPublication (Text : Type)
  | published
  /-- Another program has written the file in the meantime. -/
  | found (text : Text)
  | failed (error : String)

/-- The first lock that is not acquired. -/
structure LockFailure where
  resource : InitializationResource
  contended : Bool
  deriving DecidableEq

/-- What one call is answered by the system. -/
structure InitAnswers (Text Content : Type) where
  locks : Except LockFailure Unit
  publishConfig : ConfigPublication Text
  store : OpenAnswers Content
  coreId : Except String Unit
  readContexts : Except String Unit
  issue : IssueAnswers
  authorize : Except String Unit
  now : Int
  readLocal : Except String Unit
  /-- The clock, for the collection that stands for an absent file. -/
  fallback : Except String String
  clock : Except String String
  publishContexts : Except String Unit

/-- What a call finds and leaves. -/
structure InstallationFiles (Text Contents Content Keys : Type) where
  config : Option Text
  database : Option (DatabaseFile Content)
  contexts : Option Contents
  keys : Keys

section Initialize

variable {Text Contents Content Keys : Type} (env : InitEnv Text Contents Content Keys)

/-! ### The steps -/

def loadExistingForInitialization (text : Text) : Except String CoreConfig := do
  let config ← (env.parseConfig text).mapError
    ("cannot parse " ++ env.paths.configFile ++ ": " ++ ·)
  config.validate env.parseAddr
  .ok config

/-- `CoreConfig::load_or_create_for_initialization`: the file that it leaves, and the configuration
together with whether it was created. -/
def loadOrCreateForInitialization (publication : ConfigPublication Text) :
    Option Text → Option Text × Except String (CoreConfig × Bool)
  | some text => (some text, (loadExistingForInitialization env text).map (·, false))
  | none =>
    match CoreConfig.validate env.parseAddr {} with
    | .error error => (none, .error error)
    | .ok () =>
      match publication with
      | .published => (some (env.renderConfig {}), .ok ({}, true))
      | .found text => (some text, (loadExistingForInitialization env text).map (·, false))
      | .failed error =>
        (none, .error ("cannot publish configuration " ++ env.paths.configFile ++ ": " ++ error))

/-- `ContextFile::load`. -/
def loadContexts (answers : InitAnswers Text Content) (file : Option Contents) :
    Except String ContextFile :=
  match file with
  | none => .ok (defaultContexts answers.fallback)
  | some contents =>
    match answers.readContexts with
    | .error error => .error error
    | .ok () =>
      if maxContextFileBytes < env.contexts.size contents then
        .error "context files are limited to 1 MiB"
      else do
        let contexts ← (env.contexts.parseContexts contents).mapError
          ("cannot parse " ++ env.contexts.path ++ ": " ++ ·)
        contexts.validate env.contexts.parseUrl
        .ok contexts

def ContextFile.localContext? (file : ContextFile) : Option ConnectionContext :=
  file.contexts.find? fun context => context.id = "local"

/-- Whether a local context belongs to another installation. -/
def ConnectionContext.conflicts (context : ConnectionContext) (coreId : String) : Bool :=
  context.expectedCoreId.any fun expected => expected ≠ coreId

/-- The reference that `initialize` resolves. -/
def referenceValue (coreId : String) : Option ConnectionContext → Option String
  | some context => context.credentialRef
  | none => some ("keychain:kakune/core/" ++ coreId)

def credentialCategory (error : CredentialAccessError) (readback : Bool) :
    InitializationFailureCategory :=
  match error with
  | .invalidReference => .clientAccessInvalid
  | .secureWriteFailed => .secureCredentialWriteFailed
  | .unavailable | .readFailed =>
    if readback then .credentialReadbackFailed else .clientAccessUnavailable

/-- The secret of the client: a new installation is given one, which must then be read back. -/
def accessSecret (answers : InitAnswers Text Content) (isNew : Bool) (reference : String)
    (db : Database Content) (keys : Keys) :
    (Database Content × Keys) × Except InitializationFailureCategory String :=
  if isNew then
    match issueInitialAdminCredential env.store answers.issue isNew db with
    | .error _ => ((db, keys), .error .clientAccessInvalid)
    | .ok (token, issued) =>
      match env.credentials.writeSecure keys reference token with
      | .error _ => ((issued, keys), .error .secureCredentialWriteFailed)
      | .ok written =>
        match env.credentials.read written reference with
        | .error error => ((issued, written), .error (credentialCategory error true))
        | .ok readback =>
          if token ≠ readback then ((issued, written), .error .credentialReadbackFailed)
          else ((issued, written), .ok readback)
  else
    match env.credentials.read keys reference with
    | .error error => ((db, keys), .error (credentialCategory error false))
    | .ok secret => ((db, keys), .ok secret)

/-- `ContextFile::ensure_local_context`: the file that it leaves, and whether it has created the
local context. -/
def ensureLocalContext (answers : InitAnswers Text Content) (request : LocalRequest)
    (file : Option Contents) : Option Contents × Except String Bool :=
  match (if file.isSome then answers.readLocal else .ok ()) with
  | .error error => (file, .error ("cannot read " ++ env.contexts.path ++ ": " ++ error))
  | .ok () =>
    match localContents env.contexts request file answers.fallback answers.clock with
    | .error error => (file, .error error)
    | .ok none => (file, .ok false)
    | .ok (some contents) =>
      match answers.publishContexts with
      | .error error => (file, .error ("cannot publish local context: " ++ error))
      | .ok () => (some contents, .ok true)

/-! ### The call -/

def lockError (failure : LockFailure) : InitializationError where
  report := { paths := env.paths }
  category := if failure.contended then .setupContended else .inaccessibleResource
  resource := failure.resource
  correction := if failure.contended then .retryAfterContention else .inspectResource

def storeCategory (error : String) : InitializationFailureCategory :=
  if containsText error "supported Kakune schema" || containsText error "core identity" ||
      containsText error "empty or is not a regular file" || containsText error "corrupt" ||
      containsText error "newer than this Core supports" then .unsupportedStorage
  else if containsText error "backup" || containsText error "migration" then .storageUpgradeFailed
  else if containsText error "cannot create Kakune data directory" ||
      containsText error "cannot create Kakune database" ||
      containsText error "cannot inspect Kakune database" ||
      containsText error "cannot open Kakune database" ||
      containsText error "cannot configure Kakune database" then .inaccessibleResource
  else .storageFailed

def storeError (report : InitializationReport) (error : String) : InitializationError where
  report := { report with storage := .incomplete }
  category := storeCategory error
  resource := .storage
  correction :=
    if storeCategory error = .storageUpgradeFailed then .repairOrRestoreStorage
    else .inspectResource

def localContextCategory (error : String) : InitializationFailureCategory :=
  if containsText error "different installation" then .conflictingResource
  else if containsText error "publish" || containsText error "write" then .inaccessibleResource
  else .invalidResource

def localContextError (report : InitializationReport)
    (category : InitializationFailureCategory) : InitializationError where
  report := { report with localContext := .incomplete }
  category := category
  resource := .localContext
  correction := .inspectResource

def configurationError (report : InitializationReport)
    (category : InitializationFailureCategory) : InitializationError where
  report := { report with configuration := .incomplete }
  category := category
  resource := .configuration
  correction := .inspectResource

def markAccessFailure (report : InitializationReport) (hasLocalContext : Bool) :
    InitializationReport :=
  { report with
    clientAccess := .incomplete
    localContext := if hasLocalContext then .incomplete else report.localContext }

/-- A failure of the access of the client. -/
def accessError (report : InitializationReport) (hasLocalContext : Bool)
    (category : InitializationFailureCategory) : InitializationError where
  report := markAccessFailure report hasLocalContext
  category := category
  resource := .clientAccess
  correction := .runExplicitAuthRecovery

/-- The part of `initialize` after the database is opened. -/
def initializeClient (answers : InitAnswers Text Content) (config : CoreConfig) (isNew : Bool)
    (db : Database Content) (report : InitializationReport)
    (files : InstallationFiles Text Contents Content Keys) :
    InstallationFiles Text Contents Content Keys ×
      Except InitializationError InitializationReport :=
  match answers.coreId.toOption.bind fun _ => db.coreId? with
  | none => (files, .error
      { report := { report with identity := .incomplete }
        category := .storageFailed
        resource := .installationIdentity
        correction := .repairOrRestoreStorage })
  | some coreId =>
    match loadContexts env answers files.contexts with
    | .error _ => (files, .error (localContextError report .invalidResource))
    | .ok contexts =>
      let local? := contexts.localContext?
      if local?.any (·.conflicts coreId) then
        (files, .error (localContextError report .conflictingResource))
      else
        match env.credentials.resolveReference (referenceValue coreId local?) with
        | .error error =>
          (files, .error (accessError report local?.isSome (credentialCategory error false)))
        | .ok reference =>
          match accessSecret env answers isNew reference db files.keys with
          | ((db, keys), secret) =>
            let files := { files with database := some (.sound db), keys := keys }
            match secret with
            | .error category => (files, .error (accessError report local?.isSome category))
            | .ok secret =>
              if (answers.authorize.bind fun _ => env.store.authorizeScope answers.now secret
                  .admin db.tokens) ≠ .ok true then
                (files, .error (accessError report local?.isSome .clientAccessInvalid))
              else
                let report :=
                  { report with clientAccess := if isNew then .created else .reused }
                match config.listenAddr env.parseAddr with
                | .error _ => (files, .error (configurationError report .invalidResource))
                | .ok listen =>
                  let request : LocalRequest := ⟨coreId, localEndpoint config.api listen, reference⟩
                  match ensureLocalContext env answers request files.contexts with
                  | (contexts, .error error) => ({ files with contexts := contexts },
                      .error (localContextError report (localContextCategory error)))
                  | (contexts, .ok created) =>
                    let report :=
                      { report with localContext := if created then .created else .reused }
                    ({ files with contexts := contexts },
                      if report.isComplete then .ok report
                      else .error ⟨report, .storageFailed, .storage, .inspectResource⟩)

/-- `initialize`: what it leaves, and what it returns. -/
def initializeInstallation (answers : InitAnswers Text Content)
    (files : InstallationFiles Text Contents Content Keys) :
    InstallationFiles Text Contents Content Keys ×
      Except InitializationError InitializationReport :=
  match answers.locks with
  | .error failure => (files, .error (lockError env failure))
  | .ok () =>
    let report : InitializationReport := { paths := env.paths }
    match loadOrCreateForInitialization env answers.publishConfig files.config with
    | (config, .error _) => ({ files with config := config }, .error (configurationError report
        (if config.isSome then .invalidResource else .inaccessibleResource)))
    | (config, .ok (loaded, created)) =>
      let files := { files with config := config }
      let report := { report with configuration := if created then .created else .reused }
      match openForInitialization env.store answers.store files.database with
      | (database, .error error) =>
        ({ files with database := database }, .error (storeError report error))
      | (database, .ok (db, isNew)) =>
        let state : ComponentState := if isNew then .created else .reused
        initializeClient env answers loaded isNew db
          { report with storage := state, identity := state } { files with database := database }

end Initialize

/-! ### What no call takes away -/

/-- The readers of a context file agree, and a document to which a context was added is read back,
with the context at the end of the collection. -/
structure ContextEnv.ReadsBack {Contents : Type} (env : ContextEnv Contents) : Prop where
  agrees : ∀ contents document file, env.parseDocument contents = .ok document →
    env.parseContexts contents = .ok file → env.fromDocument document = .ok file
  default : ∀ file, env.fromDocument (ContextFile.toValue file) = .ok file
  inserted : ∀ document next file context exportedAt selects,
    env.fromDocument document = .ok file →
    insertLocal context exportedAt selects document = .ok next →
    env.fromDocument next = .ok { file with
      contexts := file.contexts ++ [context]
      exportedAt := exportedAt
      activeContextId := if selects then some "local" else file.activeContextId }
  rendered : ∀ document next file context exportedAt selects,
    (∃ contents, env.parseDocument contents = .ok document) ∨
      (∃ file, document = ContextFile.toValue file) →
    insertLocal context exportedAt selects document = .ok next →
    env.fromDocument next = .ok file →
    env.parseContexts (env.renderDocument next) = .ok file ∧
      ∃ read, env.parseDocument (env.renderDocument next) = .ok read ∧
        env.fromDocument read = .ok file

/-- A context file after a call has every context that it had before, in the same place. -/
def KeepsContexts {Contents : Type} (env : ContextEnv Contents) (before after : Option Contents) :
    Prop :=
  ∀ contents file, before = some contents → env.parseContexts contents = .ok file →
    ∃ contents' file', after = some contents' ∧ env.parseContexts contents' = .ok file' ∧
      ∃ added, file'.contexts = file.contexts ++ added

/-- What a call leaves alone: an existing configuration, the contexts, and, where there is a
database, its credentials, its identity and the credential store. -/
structure NonDestructive {Text Contents Content Keys : Type} (env : ContextEnv Contents)
    (before after : InstallationFiles Text Contents Content Keys) : Prop where
  config : ∀ text, before.config = some text → after.config = some text
  contexts : KeepsContexts env before.contexts after.contexts
  database : ∀ file, before.database = some file →
    after.keys = before.keys ∧ ∃ file', after.database = some file' ∧ file.Keeps file'

theorem mapError_eq_ok {α : Type} {x : Except String α} {f : String → String} {a : α}
    (h : x.mapError f = .ok a) : x = .ok a := by
  cases x with
  | error error => cases h
  | ok value => exact congrArg Except.ok (Except.ok.inj h)

section Contexts

variable {Contents : Type} {env : ContextEnv Contents}

theorem KeepsContexts.refl (file : Option Contents) : KeepsContexts env file file :=
  fun contents file hcontents hfile =>
    ⟨contents, file, hcontents, hfile, [], (List.append_nil _).symm⟩

/-- The first part of `ensure_local_context`: the collection and the document that it starts
from. -/
def localDocument (env : ContextEnv Contents) (source : Option Contents)
    (fallback : Except String String) : Except String (ContextFile × Value) :=
  match source with
  | some contents => do
    let document ←
      (env.parseDocument contents).mapError ("cannot parse " ++ env.path ++ ": " ++ ·)
    let contexts ←
      (env.fromDocument document).mapError ("cannot parse " ++ env.path ++ ": " ++ ·)
    contexts.validate env.parseUrl
    .ok (contexts, document)
  | none => .ok (defaultContexts fallback, (defaultContexts fallback).toValue)

/-- The collection with the local context, as it is validated. -/
def withLocal (file : ContextFile) (request : LocalRequest) : ContextFile :=
  { file with
    contexts := file.contexts ++ [request.context]
    activeContextId := if file.activeContextId.isNone then some "local" else file.activeContextId }

/-- The second part: the text that it publishes, if there is no local context. -/
def addLocalContext (env : ContextEnv Contents) (request : LocalRequest)
    (clock : Except String String) (found : ContextFile × Value) :
    Except String (Option Contents) :=
  match found.1.localContext? with
  | some existing =>
    if existing.conflicts request.coreId then
      .error "local context is bound to a different installation"
    else .ok none
  | none => do
    (withLocal found.1 request).validate env.parseUrl
    let exportedAt ← clock
    let next ← insertLocal request.context exportedAt found.1.activeContextId.isNone found.2
    .ok (some (env.renderDocument next))

theorem localContents_eq (request : LocalRequest) (source : Option Contents)
    (fallback clock : Except String String) :
    localContents env request source fallback clock =
      (localDocument env source fallback).bind (addLocalContext env request clock) := by
  cases source with
  | none => rfl
  | some contents =>
    simp only [localDocument]
    cases hdocument : env.parseDocument contents with
    | error error => simp [localContents, hdocument, Except.mapError, bind, Except.bind]
    | ok document =>
      cases hfile : env.fromDocument document with
      | error error => simp [localContents, hdocument, hfile, Except.mapError, bind, Except.bind]
      | ok file =>
        cases hvalid : file.validate env.parseUrl with
        | error error =>
          simp [localContents, hdocument, hfile, hvalid, Except.mapError, bind, Except.bind]
        | ok answer =>
          simp only [localContents, hdocument, hfile, hvalid, Except.mapError, bind, Except.bind]
          rfl

/-- Where the collection and the document come from. -/
theorem localDocument_eq_ok (henv : env.ReadsBack) {source : Option Contents}
    {fallback : Except String String} {file : ContextFile} {document : Value}
    (h : localDocument env source fallback = .ok (file, document)) :
    env.fromDocument document = .ok file ∧
      ((∃ contents, source = some contents ∧ env.parseDocument contents = .ok document ∧
        file.validate env.parseUrl = .ok ()) ∨
      source = none ∧ document = file.toValue ∧ file = defaultContexts fallback) := by
  cases source with
  | none =>
    cases h
    exact ⟨henv.default _, Or.inr ⟨rfl, rfl, rfl⟩⟩
  | some contents =>
    obtain ⟨document', hdocument, h⟩ := except_bind_eq_ok h
    obtain ⟨file', hfile, h⟩ := except_bind_eq_ok h
    obtain ⟨_, hvalid, h⟩ := except_bind_eq_ok h
    cases h
    exact ⟨mapError_eq_ok hfile, Or.inl ⟨contents, rfl, mapError_eq_ok hdocument, hvalid⟩⟩

/-- **A published text** is that of the document with the local context, which it did not have. -/
theorem localContents_eq_some {request : LocalRequest}
    {source : Option Contents} {fallback clock : Except String String} {contents : Contents}
    (h : localContents env request source fallback clock = .ok (some contents)) :
    ∃ document file exportedAt next, localDocument env source fallback = .ok (file, document) ∧
      file.localContext? = none ∧ (withLocal file request).validate env.parseUrl = .ok () ∧
      insertLocal request.context exportedAt file.activeContextId.isNone document = .ok next ∧
      contents = env.renderDocument next := by
  rw [localContents_eq] at h
  obtain ⟨⟨file, document⟩, hfound, h⟩ := except_bind_eq_ok h
  rw [addLocalContext] at h
  split at h
  · split at h <;> cases h
  next hlocal =>
  obtain ⟨_, hvalid, h⟩ := except_bind_eq_ok h
  obtain ⟨exportedAt, -, h⟩ := except_bind_eq_ok h
  obtain ⟨next, hnext, h⟩ := except_bind_eq_ok h
  cases h
  exact ⟨document, file, exportedAt, next, hfound, hlocal, hvalid, hnext, rfl⟩

/-- A collection is left as it is if it has a local context of this installation. -/
theorem localContents_eq_none (henv : env.ReadsBack) {request : LocalRequest}
    {source : Option Contents} {fallback clock : Except String String}
    (h : localContents env request source fallback clock = .ok none) :
    ∃ contents document file context, source = some contents ∧
      env.parseDocument contents = .ok document ∧ env.fromDocument document = .ok file ∧
      file.validate env.parseUrl = .ok () ∧ file.localContext? = some context ∧
      context.conflicts request.coreId = false := by
  rw [localContents_eq] at h
  obtain ⟨⟨file, document⟩, hfound, h⟩ := except_bind_eq_ok h
  rw [addLocalContext] at h
  split at h
  · next context hlocal =>
    split at h
    · cases h
    next hconflict =>
    obtain ⟨hfile, ⟨contents, rfl, hdocument, hvalid⟩ | ⟨-, -, rfl⟩⟩ :=
      localDocument_eq_ok henv hfound
    · exact ⟨contents, document, file, context, rfl, hdocument, hfile, hvalid, hlocal,
        Bool.eq_false_of_not_eq_true hconflict⟩
    · cases hlocal
  · obtain ⟨_, -, h⟩ := except_bind_eq_ok h
    obtain ⟨_, -, h⟩ := except_bind_eq_ok h
    obtain ⟨_, -, h⟩ := except_bind_eq_ok h
    cases h

/-- Whether a context is added does not depend on the context. -/
theorem localContents_ne_some (henv : env.ReadsBack) {request request' : LocalRequest}
    {source : Option Contents} {fallback clock fallback' clock' : Except String String}
    (h : localContents env request source fallback clock = .ok none) (contents : Contents) :
    localContents env request' source fallback' clock' ≠ .ok (some contents) := by
  intro hsome
  obtain ⟨text, document, file, context, rfl, hdocument, hfile, -, hlocal, -⟩ :=
    localContents_eq_none henv h
  obtain ⟨document', file', _, _, hfound, hlocal', -, -, -⟩ := localContents_eq_some hsome
  obtain ⟨hfile', ⟨text', htext, hdocument', -⟩ | ⟨htext, -, -⟩⟩ := localDocument_eq_ok henv hfound
  · cases htext
    obtain rfl := Except.ok.inj (hdocument.symm.trans hdocument')
    obtain rfl := Except.ok.inj (hfile.symm.trans hfile')
    rw [hlocal] at hlocal'
    cases hlocal'
  · cases htext

theorem localContents_of_local {request : LocalRequest} {fallback clock : Except String String}
    {contents : Contents} {document : Value} {file : ContextFile} {context : ConnectionContext}
    (hdocument : env.parseDocument contents = .ok document)
    (hfile : env.fromDocument document = .ok file) (hvalid : file.validate env.parseUrl = .ok ())
    (hlocal : file.localContext? = some context)
    (hconflict : context.conflicts request.coreId = false) :
    localContents env request (some contents) fallback clock = .ok none := by
  have hfound : localDocument env (some contents) fallback = .ok (file, document) := by
    simp only [localDocument, hdocument, Except.mapError, bind, Except.bind, hfile, hvalid]
  rw [localContents_eq, hfound, Except.bind, addLocalContext, hlocal]
  simp only [hconflict]
  rfl

end Contexts

/-! ### A call that succeeds -/

section Runs

variable {Text Contents Content Keys : Type} {env : InitEnv Text Contents Content Keys}

/-- What the part of `initialize` after the database is opened goes through when it succeeds. -/
structure ClientRun (env : InitEnv Text Contents Content Keys)
    (answers : InitAnswers Text Content) (config : CoreConfig) (isNew : Bool)
    (db : Database Content) (files : InstallationFiles Text Contents Content Keys) where
  coreId : String
  contexts : ContextFile
  reference : String
  issued : Database Content
  keys : Keys
  secret : String
  listen : SocketAddr
  file : Option Contents
  created : Bool
  answered : answers.coreId = .ok ()
  identified : db.coreId? = some coreId
  loaded : loadContexts env answers files.contexts = .ok contexts
  unconflicted : contexts.localContext?.any (·.conflicts coreId) = false
  resolved : env.credentials.resolveReference (referenceValue coreId contexts.localContext?) =
    .ok reference
  accessed : accessSecret env answers isNew reference db files.keys = ((issued, keys), .ok secret)
  allowed : answers.authorize = .ok ()
  authorized : env.store.authorizeScope answers.now secret .admin issued.tokens = .ok true
  listened : config.listenAddr env.parseAddr = .ok listen
  ensured : ensureLocalContext env answers ⟨coreId, localEndpoint config.api listen, reference⟩
    files.contexts = (file, .ok created)

namespace ClientRun

variable {answers : InitAnswers Text Content} {config : CoreConfig} {isNew : Bool}
  {db : Database Content} {files : InstallationFiles Text Contents Content Keys}

/-- What the run leaves. -/
def after (run : ClientRun env answers config isNew db files) :
    InstallationFiles Text Contents Content Keys where
  config := files.config
  database := some (.sound run.issued)
  contexts := run.file
  keys := run.keys

def request (run : ClientRun env answers config isNew db files) : LocalRequest :=
  ⟨run.coreId, localEndpoint config.api run.listen, run.reference⟩

/-- What the run adds to the report. -/
def report (run : ClientRun env answers config isNew db files) (report : InitializationReport) :
    InitializationReport :=
  { report with
    clientAccess := if isNew then .created else .reused
    localContext := if run.created then .created else .reused }

end ClientRun

open ClientRun

variable {answers : InitAnswers Text Content} {config : CoreConfig} {isNew : Bool}
  {db : Database Content} {files after : InstallationFiles Text Contents Content Keys}
  {report final : InitializationReport}

theorem initializeClient_eq_ok
    (h : initializeClient env answers config isNew db report files = (after, .ok final)) :
    ∃ run : ClientRun env answers config isNew db files, after = run.after ∧
      final = run.report report := by
  unfold initializeClient at h
  split at h
  · cases h
  next coreId hcoreId =>
  obtain ⟨_, hanswered, hidentified⟩ := Option.bind_eq_some_iff.mp hcoreId
  have hanswered : answers.coreId = .ok () := by
    cases hanswer : answers.coreId with
    | error error =>
      rw [hanswer] at hanswered
      cases hanswered
    | ok answer => rfl
  split at h
  · cases h
  next contexts hloaded =>
  dsimp only at h
  split at h
  · cases h
  next hconflict =>
  split at h
  · cases h
  next reference hresolved =>
  split at h
  · cases h
  next secret haccessed =>
  split at h
  · cases h
  next hauthorized =>
  obtain ⟨_, hallowed, hauthorized⟩ := except_bind_eq_ok (not_not.mp hauthorized)
  split at h
  · cases h
  next listen hlistened =>
  split at h
  · cases h
  next file created hensured =>
  obtain ⟨rfl, hfinal⟩ := Prod.mk.inj h
  rcases ite_eq_iff.mp hfinal with ⟨-, hfinal⟩ | ⟨-, hfinal⟩
  · cases hfinal
    exact ⟨⟨coreId, contexts, reference, _, _, secret, listen, file, created, hanswered,
      hidentified, hloaded, Bool.eq_false_of_not_eq_true hconflict, hresolved,
      Prod.ext rfl haccessed, hallowed, hauthorized, hlistened, hensured⟩, rfl, rfl⟩
  · cases hfinal

/-- Such a run is the run of `initialize`, if what was done before it is ready. -/
theorem ClientRun.initializeClient_eq (run : ClientRun env answers config isNew db files)
    (report : InitializationReport) (hready : (run.report report).isComplete = true) :
    initializeClient env answers config isNew db report files =
      (run.after, .ok (run.report report)) := by
  have hcoreId : (answers.coreId.toOption.bind fun _ => db.coreId?) = some run.coreId := by
    rw [run.answered, run.identified]
    rfl
  have hauthorized : (answers.authorize.bind fun _ => env.store.authorizeScope answers.now
      run.secret .admin run.issued.tokens) = .ok true := by
    rw [run.allowed]
    exact run.authorized
  simp only [initializeClient, hcoreId, run.loaded, run.unconflicted, run.resolved, run.accessed,
    hauthorized, run.listened, run.ensured]
  rw [ClientRun.report] at hready
  simp only [ne_eq, not_true_eq_false, if_false, hready, Bool.false_eq_true]
  rfl

/-! ### What a call that succeeds has settled -/

theorem accessSecret_keeps {reference : String} {keys keys' : Keys} {issued : Database Content}
    {result : Except InitializationFailureCategory String}
    (h : accessSecret env answers isNew reference db keys = ((issued, keys'), result)) :
    (∃ rows, issued = { db with tokens := db.tokens ++ rows }) ∧
      (isNew = false → issued = db ∧ keys' = keys) := by
  have hsame : ∃ rows, db = { db with tokens := db.tokens ++ rows } := ⟨[], by simp⟩
  cases isNew with
  | false =>
    rw [accessSecret, if_neg Bool.false_ne_true] at h
    split at h
    · cases h
      exact ⟨hsame, fun _ => ⟨rfl, rfl⟩⟩
    · cases h
      exact ⟨hsame, fun _ => ⟨rfl, rfl⟩⟩
  | true =>
    rw [accessSecret, if_pos rfl] at h
    refine ⟨?_, fun hnew => Bool.noConfusion hnew⟩
    split at h
    · cases h
      exact hsame
    next token next hissued =>
    obtain ⟨-, row, hnext⟩ := issueInitialAdminCredential_eq_ok hissued
    have hrows : ∃ rows, next = { db with tokens := db.tokens ++ rows } := ⟨[row], hnext⟩
    split at h
    · cases h
      exact hrows
    split at h
    · cases h
      exact hrows
    split at h
    · cases h
      exact hrows
    · cases h
      exact hrows

theorem accessSecret_eq_ok {reference secret : String} {keys keys' : Keys}
    {issued : Database Content}
    (h : accessSecret env answers isNew reference db keys = ((issued, keys'), .ok secret)) :
    env.credentials.read keys' reference = .ok secret := by
  cases isNew with
  | false =>
    rw [accessSecret, if_neg Bool.false_ne_true] at h
    split at h
    · cases h
    · next hread =>
      cases h
      exact hread
  | true =>
    rw [accessSecret, if_pos rfl] at h
    split at h
    · cases h
    split at h
    · cases h
    split at h
    · cases h
    next hread =>
    split at h
    · cases h
    · cases h
      exact hread

theorem loadContexts_eq_ok {contents : Contents} {file : ContextFile}
    (h : loadContexts env answers (some contents) = .ok file) :
    env.contexts.size contents ≤ maxContextFileBytes ∧
      env.contexts.parseContexts contents = .ok file ∧
      file.validate env.contexts.parseUrl = .ok () := by
  simp only [loadContexts] at h
  split at h
  · cases h
  split at h
  · cases h
  next hsize =>
  obtain ⟨_, hparsed, h⟩ := except_bind_eq_ok h
  obtain ⟨_, hvalid, h⟩ := except_bind_eq_ok h
  cases h
  exact ⟨Nat.le_of_not_lt hsize, mapError_eq_ok hparsed, hvalid⟩

theorem ensureLocalContext_eq_ok {request : LocalRequest} {file after : Option Contents}
    {created : Bool} (h : ensureLocalContext env answers request file = (after, .ok created)) :
    (created = false ∧ after = file ∧ localContents env.contexts request file answers.fallback
        answers.clock = .ok none) ∨
      created = true ∧ ∃ contents, after = some contents ∧ localContents env.contexts request file
        answers.fallback answers.clock = .ok (some contents) := by
  rw [ensureLocalContext] at h
  split at h
  · cases h
  split at h
  · cases h
  · next hnone =>
    cases h
    exact Or.inl ⟨rfl, rfl, hnone⟩
  · next contents hsome =>
    split at h
    · cases h
    · cases h
      exact Or.inr ⟨rfl, contents, rfl, hsome⟩

/-- A context file in which both readers find a local context of the installation, with a
credential that resolves to the reference. -/
def IsSettled (env : InitEnv Text Contents Content Keys) (coreId reference : String)
    (contents : Contents) : Prop :=
  ∃ document file context, env.contexts.parseContexts contents = .ok file ∧
    file.validate env.contexts.parseUrl = .ok () ∧
    env.contexts.parseDocument contents = .ok document ∧
    env.contexts.fromDocument document = .ok file ∧ file.localContext? = some context ∧
    context.conflicts coreId = false ∧
    env.credentials.resolveReference context.credentialRef = .ok reference

/-- **A published context file is settled.** -/
theorem isSettled_of_published (henv : env.contexts.ReadsBack) {request : LocalRequest}
    {source : Option Contents} {fallback clock : Except String String} {contents : Contents}
    (hreference : env.credentials.resolveReference (some request.credentialRef) =
      .ok request.credentialRef)
    (h : localContents env.contexts request source fallback clock = .ok (some contents)) :
    IsSettled env request.coreId request.credentialRef contents := by
  obtain ⟨document, file, exportedAt, next, hfound, hlocal, hvalid, hnext, rfl⟩ :=
    localContents_eq_some h
  obtain ⟨hfile, horigin⟩ := localDocument_eq_ok henv hfound
  have hread := henv.inserted document next file request.context exportedAt _ hfile hnext
  have horigin : (∃ contents, env.contexts.parseDocument contents = .ok document) ∨
      ∃ file, document = ContextFile.toValue file := by
    rcases horigin with ⟨contents, -, hdocument, -⟩ | ⟨-, rfl, -⟩
    · exact Or.inl ⟨contents, hdocument⟩
    · exact Or.inr ⟨file, rfl⟩
  obtain ⟨hparsed, read, hdocument, hagain⟩ :=
    henv.rendered document next _ request.context exportedAt _ horigin hnext hread
  refine ⟨read, _, request.context, hparsed, hvalid, hdocument, hagain, ?_, ?_, hreference⟩
  · rw [ContextFile.localContext?] at hlocal ⊢
    rw [List.find?_append, hlocal]
    rfl
  · simp [ConnectionContext.conflicts, LocalRequest.context]

/-- **The context file after a call is settled**, and it is either the one that was read or the
one that was published. -/
theorem ClientRun.settled (henv : env.contexts.ReadsBack) (haccess : env.credentials.Settled)
    (run : ClientRun env answers config isNew db files) :
    ∃ contents, run.file = some contents ∧ IsSettled env run.coreId run.reference contents ∧
      (env.contexts.size contents ≤ maxContextFileBytes ∨ localContents env.contexts run.request
        files.contexts answers.fallback answers.clock = .ok (some contents)) := by
  rcases ensureLocalContext_eq_ok run.ensured with ⟨-, hfile, hnone⟩ | ⟨-, contents, hfile, hsome⟩
  · obtain ⟨contents, document, file, context, hsource, hdocument, hread, hvalid, hlocal,
      hconflict⟩ := localContents_eq_none henv hnone
    have hloaded := run.loaded
    rw [hsource] at hloaded
    obtain ⟨hsize, hparsed, -⟩ := loadContexts_eq_ok hloaded
    have hsame : file = run.contexts :=
      Except.ok.inj (hread.symm.trans (henv.agrees contents document _ hdocument hparsed))
    subst hsame
    have hresolved := run.resolved
    rw [hlocal] at hresolved
    exact ⟨contents, hfile.trans hsource, ⟨document, _, context, hparsed, hvalid, hdocument, hread,
      hlocal, hconflict, hresolved⟩, Or.inl hsize⟩
  · exact ⟨contents, hfile, isSettled_of_published henv (haccess _ _ run.resolved) hsome,
      Or.inr hsome⟩

/-- Nothing stands in the way of a call that has nothing to create. -/
structure InitAnswers.Undisturbed (answers : InitAnswers Text Content) : Prop where
  locks : answers.locks = .ok ()
  store : answers.store.Undisturbed
  coreId : answers.coreId = .ok ()
  readContexts : answers.readContexts = .ok ()
  authorize : answers.authorize = .ok ()
  readLocal : answers.readLocal = .ok ()

/-- **The next call goes through the same steps** and leaves everything as it is, if the context
file is still within its limit. -/
theorem ClientRun.again (henv : env.contexts.ReadsBack) (haccess : env.credentials.Settled)
    (run : ClientRun env answers config isNew db files) {second : InitAnswers Text Content}
    (hsecond : second.Undisturbed)
    (hlasting : env.store.NoneExpires answers.now second.now run.issued.tokens)
    (hsize : ∀ contents, run.file = some contents →
      env.contexts.size contents ≤ maxContextFileBytes) :
    ∃ next : ClientRun env second config false run.issued run.after,
      next.after = run.after ∧ next.created = false := by
  obtain ⟨contents, hfile, ⟨document, file, context, hparsed, hvalid, hdocument, hread, hlocal,
    hconflict, hresolved⟩, -⟩ := run.settled henv haccess
  obtain ⟨⟨rows, hissued⟩, -⟩ := accessSecret_keeps run.accessed
  have hidentified : run.issued.coreId? = some run.coreId := by
    rw [hissued]
    exact run.identified
  have hloaded : loadContexts env second run.after.contexts = .ok file := by
    have hsmall := hsize contents hfile
    rw [after, hfile]
    simp only [loadContexts, hsecond.readContexts, if_neg (Nat.not_lt.mpr hsmall), hparsed,
      Except.mapError, bind, Except.bind, hvalid]
  have haccessed : accessSecret env second false run.reference run.issued run.after.keys =
      ((run.issued, run.keys), .ok run.secret) := by
    rw [after, accessSecret, if_neg Bool.false_ne_true, accessSecret_eq_ok run.accessed]
  have hensured : ensureLocalContext env second run.request run.after.contexts =
      (run.file, .ok false) := by
    have hnone : localContents env.contexts run.request (some contents) second.fallback
        second.clock = .ok none :=
      localContents_of_local hdocument hread hvalid hlocal hconflict
    rw [after, hfile, ensureLocalContext, Option.isSome_some, if_pos rfl, hsecond.readLocal]
    simp only [hnone]
  exact ⟨{
    coreId := run.coreId
    contexts := file
    reference := run.reference
    issued := run.issued
    keys := run.keys
    secret := run.secret
    listen := run.listen
    file := run.file
    created := false
    answered := hsecond.coreId
    identified := hidentified
    loaded := hloaded
    unconflicted := by rw [hlocal]; exact hconflict
    resolved := by rw [hlocal]; exact hresolved
    accessed := haccessed
    allowed := hsecond.authorize
    authorized := env.store.authorizeScope_later hlasting run.authorized
    listened := run.listened
    ensured := hensured }, rfl, rfl⟩

/-! ### What every call keeps -/

theorem ensureLocalContext_keeps (henv : env.contexts.ReadsBack) {request : LocalRequest}
    {file after : Option Contents} {result : Except String Bool}
    (h : ensureLocalContext env answers request file = (after, result)) :
    KeepsContexts env.contexts file after := by
  rw [ensureLocalContext] at h
  split at h
  · cases h
    exact KeepsContexts.refl file
  split at h
  · cases h
    exact KeepsContexts.refl file
  · cases h
    exact KeepsContexts.refl file
  next contents hcontents =>
  split at h
  · cases h
    exact KeepsContexts.refl file
  cases h
  -- the published text is that of the collection with one more context
  intro before found hbefore hfound
  obtain ⟨document, file', exportedAt, next, hdocument, -, -, hnext, rfl⟩ :=
    localContents_eq_some hcontents
  obtain ⟨hread, horigin⟩ := localDocument_eq_ok henv hdocument
  rcases horigin with ⟨contents', hsource, hparsed, -⟩ | ⟨hsource, -, -⟩
  · have hsame : contents' = before := Option.some.inj (hsource.symm.trans hbefore)
    subst hsame
    have hfile : file' = found :=
      Except.ok.inj (hread.symm.trans (henv.agrees contents' document found hparsed hfound))
    subst hfile
    have hinserted := henv.inserted document next file' request.context exportedAt _ hread hnext
    exact ⟨_, _, rfl, (henv.rendered document next _ request.context exportedAt _
      (Or.inl ⟨contents', hparsed⟩) hnext hinserted).1, [request.context], rfl⟩
  · rw [hsource] at hbefore
    cases hbefore

/-- What the part of `initialize` after the database is opened keeps. -/
structure ClientKeeps (env : ContextEnv Contents) (isNew : Bool)
    (before after : InstallationFiles Text Contents Content Keys) : Prop where
  config : after.config = before.config
  contexts : KeepsContexts env before.contexts after.contexts
  existing : isNew = false → after.keys = before.keys ∧ after.database = before.database

theorem ClientKeeps.refl (env : ContextEnv Contents) (isNew : Bool)
    (files : InstallationFiles Text Contents Content Keys) : ClientKeeps env isNew files files :=
  ⟨rfl, KeepsContexts.refl files.contexts, fun _ => ⟨rfl, rfl⟩⟩

theorem initializeClient_keeps (henv : env.contexts.ReadsBack)
    (hfiles : files.database = some (.sound db)) :
    ClientKeeps env.contexts isNew files
      (initializeClient env answers config isNew db report files).1 := by
  unfold initializeClient
  split
  · exact ClientKeeps.refl _ _ _
  split
  · exact ClientKeeps.refl _ _ _
  dsimp only
  split
  · exact ClientKeeps.refl _ _ _
  split
  · exact ClientKeeps.refl _ _ _
  next reference _ =>
  have haccess : isNew = false →
      (accessSecret env answers isNew reference db files.keys).1.1 = db ∧
        (accessSecret env answers isNew reference db files.keys).1.2 = files.keys :=
    (accessSecret_keeps rfl).2
  generalize accessSecret env answers isNew reference db files.keys = accessed at haccess ⊢
  obtain ⟨⟨issued, keys⟩, secret⟩ := accessed
  have hkept : ∀ contexts, KeepsContexts env.contexts files.contexts contexts →
      ClientKeeps env.contexts isNew files
        ⟨files.config, some (.sound issued), contexts, keys⟩ := by
    refine fun contexts hcontexts => ⟨rfl, hcontexts, fun hnew => ?_⟩
    obtain ⟨rfl, rfl⟩ := haccess hnew
    exact ⟨rfl, hfiles.symm⟩
  have hbefore := hkept files.contexts (KeepsContexts.refl files.contexts)
  dsimp only
  split
  · exact hbefore
  split
  · exact hbefore
  split
  · exact hbefore
  split
  · next hensured => exact hkept _ (ensureLocalContext_keeps henv hensured)
  · next hensured => exact hkept _ (ensureLocalContext_keeps henv hensured)

theorem ClientKeeps.nonDestructive {env : ContextEnv Contents}
    {files after : InstallationFiles Text Contents Content Keys} {config : Option Text}
    {database : Option (DatabaseFile Content)}
    (h : ClientKeeps env files.database.isNone
      { files with config := config, database := database } after)
    (hconfig : ∀ text, files.config = some text → config = some text)
    (hdatabase : ∀ file, files.database = some file →
      ∃ file', database = some file' ∧ file.Keeps file') :
    NonDestructive env files after := by
  refine ⟨fun text htext => h.config.trans (hconfig text htext), h.contexts, fun file hfile => ?_⟩
  obtain ⟨hkeys, hafter⟩ := h.existing (by rw [hfile]; rfl)
  obtain ⟨file', hfile', hkeeps⟩ := hdatabase file hfile
  exact ⟨hkeys, file', hafter.trans hfile', hkeeps⟩

/-- **No call is destructive**, whether it succeeds or fails. -/
theorem initializeInstallation_keeps (henv : env.contexts.ReadsBack)
    (answers : InitAnswers Text Content) (files : InstallationFiles Text Contents Content Keys) :
    NonDestructive env.contexts files (initializeInstallation env answers files).1 := by
  have hrefl : ∀ config, (∀ text, files.config = some text → config = some text) →
      NonDestructive env.contexts files { files with config := config } :=
    fun config hconfig => ⟨hconfig, KeepsContexts.refl files.contexts,
      fun file hfile => ⟨rfl, file, hfile, DatabaseFile.Keeps.refl file⟩⟩
  unfold initializeInstallation
  split
  · exact hrefl files.config fun _ h => h
  have hconfig : ∀ text, files.config = some text →
      (loadOrCreateForInitialization env answers.publishConfig files.config).1 = some text := by
    intro text htext
    rw [htext]
    rfl
  generalize loadOrCreateForInitialization env answers.publishConfig files.config = loaded at *
  obtain ⟨config, loaded⟩ := loaded
  dsimp only at hconfig ⊢
  split
  · next h =>
    cases h
    exact hrefl config hconfig
  next config' loaded created h =>
  cases h
  have hdatabase : ∀ file, files.database = some file → ∃ after,
      (openForInitialization env.store answers.store files.database).1 = some after ∧
        file.Keeps after := by
    intro file hfile
    rw [hfile]
    exact openForInitialization_keeps env.store answers.store file
  cases hopened : openForInitialization env.store answers.store files.database with
  | mk database opened =>
    rw [hopened] at hdatabase
    cases opened with
    | error error => exact ⟨hconfig, KeepsContexts.refl files.contexts,
        fun file hfile => ⟨rfl, hdatabase file hfile⟩⟩
    | ok opened =>
      obtain ⟨db, isNew⟩ := opened
      obtain ⟨rfl, rfl, -, -⟩ := openForInitialization_eq_ok hopened
      exact (initializeClient_keeps henv rfl).nonDestructive hconfig hdatabase

/-! ### Calling again -/

theorem loadOrCreateForInitialization_eq_ok
    (hdefault : env.parseConfig (env.renderConfig {}) = .ok {})
    {publication : ConfigPublication Text} {file after : Option Text} {created : Bool}
    (h : loadOrCreateForInitialization env publication file = (after, .ok (config, created))) :
    ∃ text, after = some text ∧ loadExistingForInitialization env text = .ok config := by
  have hexisting : ∀ text, (some text, (loadExistingForInitialization env text).map (·, false)) =
      (after, Except.ok (config, created)) →
      ∃ text, after = some text ∧ loadExistingForInitialization env text = .ok config := by
    intro text h
    obtain ⟨rfl, h⟩ := Prod.mk.inj h
    cases hloaded : loadExistingForInitialization env text with
    | error error =>
      rw [hloaded] at h
      cases h
    | ok loaded =>
      rw [hloaded] at h
      cases h
      exact ⟨text, rfl, hloaded⟩
  cases file with
  | some text => exact hexisting text h
  | none =>
    simp only [loadOrCreateForInitialization] at h
    split at h
    · cases h
    next hvalid =>
    split at h
    · cases h
      refine ⟨_, rfl, ?_⟩
      simp only [loadExistingForInitialization, hdefault, Except.mapError, bind, Except.bind,
        hvalid]
    · exact hexisting _ h
    · cases h

/-- The steps of a call that succeeds. -/
theorem initializeInstallation_eq_ok (hdefault : env.parseConfig (env.renderConfig {}) = .ok {})
    (h : initializeInstallation env answers files = (after, .ok final)) :
    ∃ text config created db,
      ∃ run : ClientRun env answers config files.database.isNone db
        { files with config := some text, database := some (.sound db) },
      loadOrCreateForInitialization env answers.publishConfig files.config =
        (some text, .ok (config, created)) ∧
      loadExistingForInitialization env text = .ok config ∧ db.Ready ∧
      db.coreId? = some ((files.database.bind DatabaseFile.coreId?).getD answers.store.coreId) ∧
      after = run.after := by
  unfold initializeInstallation at h
  split at h
  · cases h
  dsimp only at h
  split at h
  · cases h
  next file config created hloaded =>
  obtain ⟨text, rfl, htext⟩ := loadOrCreateForInitialization_eq_ok hdefault hloaded
  split at h
  · cases h
  next database db isNew hopened =>
  obtain ⟨rfl, rfl, hready, hcoreId⟩ := openForInitialization_eq_ok hopened
  obtain ⟨run, hafter, -⟩ := initializeClient_eq_ok h
  exact ⟨text, config, created, db, run, hloaded, htext, hready, hcoreId, hafter⟩

/-- The report of a call that reuses everything. -/
def reusedReport (paths : InitializationPaths) : InitializationReport :=
  ⟨paths, .reused, .reused, .reused, .reused, .reused⟩

theorem ClientRun.initializeInstallation_eq {second : InitAnswers Text Content} {text : Text}
    (hsecond : second.Undisturbed) (htext : loadExistingForInitialization env text = .ok config)
    (hready : db.Ready) (hconfig : files.config = some text)
    (hdatabase : files.database = some (.sound db))
    (next : ClientRun env second config false db files) (hcreated : next.created = false) :
    initializeInstallation env second files = (next.after, .ok (reusedReport env.paths)) := by
  obtain ⟨config', database, contexts, keys⟩ := files
  cases hconfig
  cases hdatabase
  have hloaded : loadOrCreateForInitialization env second.publishConfig (some text) =
      (some text, .ok (config, false)) := by
    rw [loadOrCreateForInitialization, htext]
    rfl
  have hreport : next.report ⟨env.paths, .reused, .reused, .reused, .notAttempted,
      .notAttempted⟩ = reusedReport env.paths := by
    simp [ClientRun.report, hcreated, reusedReport]
  have hclient := next.initializeClient_eq
    ⟨env.paths, .reused, .reused, .reused, .notAttempted, .notAttempted⟩ (by rw [hreport]; rfl)
  rw [hreport] at hclient
  simp only [initializeInstallation, hsecond.locks, hloaded, hready.open hsecond.store]
  exact hclient

/-- The local context that a call adds, where there is none. -/
def initialRequest (env : InitEnv Text Contents Content Keys) (answers : InitAnswers Text Content)
    (files : InstallationFiles Text Contents Content Keys) : Option LocalRequest := do
  let loaded ← (loadOrCreateForInitialization env answers.publishConfig files.config).2.toOption
  let listen ← (loaded.1.listenAddr env.parseAddr).toOption
  let coreId := (files.database.bind DatabaseFile.coreId?).getD answers.store.coreId
  let reference ← (env.credentials.resolveReference (referenceValue coreId none)).toOption
  some ⟨coreId, localEndpoint loaded.1.api listen, reference⟩

/-- The context file has a local context, or its document has at most one mebibyte when the local
context is added to it and it is printed. -/
def LocalContextFits (env : InitEnv Text Contents Content Keys) (answers : InitAnswers Text Content)
    (files : InstallationFiles Text Contents Content Keys) : Prop :=
  ∀ request contents, initialRequest env answers files = some request →
    localContents env.contexts request files.contexts answers.fallback answers.clock =
      .ok (some contents) →
    env.contexts.size contents ≤ maxContextFileBytes

/-- Where a context is added, none was loaded. -/
theorem localContext?_eq_none (henv : env.contexts.ReadsBack) {request : LocalRequest}
    {source : Option Contents} {contexts : ContextFile} {contents : Contents}
    (hloaded : loadContexts env answers source = .ok contexts)
    (hcontents : localContents env.contexts request source answers.fallback answers.clock =
      .ok (some contents)) : contexts.localContext? = none := by
  obtain ⟨document, file, _, _, hfound, hlocal, -, -, -⟩ := localContents_eq_some hcontents
  obtain ⟨hread, ⟨text, rfl, hdocument, -⟩ | ⟨rfl, -, -⟩⟩ := localDocument_eq_ok henv hfound
  · obtain ⟨-, hparsed, -⟩ := loadContexts_eq_ok hloaded
    have hsame : file = contexts :=
      Except.ok.inj (hread.symm.trans (henv.agrees text document _ hdocument hparsed))
    rwa [hsame] at hlocal
  · cases hloaded
    rfl

/-- A context that is added is the one of the initial request. -/
theorem ClientRun.request_eq (henv : env.contexts.ReadsBack)
    {text : Text} {created : Bool} {contents : Contents}
    (hloaded : loadOrCreateForInitialization env answers.publishConfig files.config =
      (some text, .ok (config, created)))
    (hcoreId : db.coreId? =
      some ((files.database.bind DatabaseFile.coreId?).getD answers.store.coreId))
    (run : ClientRun env answers config isNew db
      { files with config := some text, database := some (.sound db) })
    (hcontents : localContents env.contexts run.request files.contexts answers.fallback
      answers.clock = .ok (some contents)) :
    initialRequest env answers files = some run.request := by
  have hidentified : run.coreId =
      (files.database.bind DatabaseFile.coreId?).getD answers.store.coreId :=
    Option.some.inj (run.identified.symm.trans hcoreId)
  have hlocal : run.contexts.localContext? = none := localContext?_eq_none henv run.loaded hcontents
  have hresolved := run.resolved
  rw [hlocal, hidentified] at hresolved
  simp only [initialRequest, hloaded, Except.toOption, Option.bind_eq_bind, Option.bind_some,
    run.listened, hresolved]
  rw [← hidentified]
  rfl

/-- The credentials of an installation. -/
def InstallationFiles.tokens (files : InstallationFiles Text Contents Content Keys) :
    List StoredToken :=
  (files.database.map DatabaseFile.tokens).getD []

/-- **No initialization is destructive**: it keeps an existing configuration, every context, and the
identity and credentials of an existing database together with the credential store. After one that
has succeeded, the next one reuses every component and changes nothing **exactly if** the context
file had a local context or is within its limit when it is given one. -/
theorem initialization_is_repeatable_iff (henv : env.contexts.ReadsBack)
    (hdefault : env.parseConfig (env.renderConfig {}) = .ok {})
    (haccess : env.credentials.Settled) (first second : InitAnswers Text Content)
    (files : InstallationFiles Text Contents Content Keys) :
    NonDestructive env.contexts files (initializeInstallation env first files).1 ∧
      ∀ after report, initializeInstallation env first files = (after, .ok report) →
        second.Undisturbed → env.store.NoneExpires first.now second.now after.tokens →
        (initializeInstallation env second after = (after, .ok (reusedReport env.paths)) ↔
          LocalContextFits env first files) := by
  refine ⟨initializeInstallation_keeps henv first files, fun after report hfirst hsecond hlasting =>
    ?_⟩
  obtain ⟨text, config, created, db, run, hloaded, htext, hready, hcoreId, rfl⟩ :=
    initializeInstallation_eq_ok hdefault hfirst
  obtain ⟨contents, hfile, -, hsize⟩ := run.settled henv haccess
  constructor
  · -- what is published is the file that the second call has read
    intro hagain request published hrequest hpublished
    obtain ⟨_, _, _, _, next, -, -, -, -, -⟩ := initializeInstallation_eq_ok hdefault hagain
    have hread : loadContexts env second run.file = .ok next.contexts := next.loaded
    rcases ensureLocalContext_eq_ok run.ensured with ⟨-, -, hnone⟩ | ⟨-, added, hadded, hsome⟩
    · exact absurd hpublished (localContents_ne_some henv hnone published)
    · obtain rfl : run.request = request := Option.some.inj
        ((run.request_eq henv hloaded hcoreId hsome).symm.trans hrequest)
      obtain rfl : added = published :=
        Option.some.inj (Except.ok.inj (hsome.symm.trans hpublished))
      exact (loadContexts_eq_ok (hadded ▸ hread)).1
  · intro hfits
    have hsmall : ∀ contents, run.file = some contents →
        env.contexts.size contents ≤ maxContextFileBytes := by
      intro text' htext'
      obtain rfl : contents = text' := Option.some.inj (hfile.symm.trans htext')
      rcases hsize with hsize | hcontents
      · exact hsize
      · exact hfits run.request contents (run.request_eq henv hloaded hcoreId hcontents) hcontents
    obtain ⟨next, hafter, hcreated⟩ := run.again henv haccess hsecond hlasting hsmall
    have hreadyAfter : run.issued.Ready := by
      obtain ⟨⟨rows, hissued⟩, -⟩ := accessSecret_keeps run.accessed
      rw [hissued]
      exact ⟨hready.recognized, hready.versioned, hready.latest, hready.identified⟩
    rw [next.initializeInstallation_eq hsecond htext hreadyAfter rfl rfl hcreated, hafter]

end Runs

/-! ### Documents as context files -/

/-- A document is read field by field. -/
theorem contextsOfValue_eq_some_iff {value : Value} {file : ContextFile} :
    contextsOfValue value = some file ↔
      (value.get? "format").bind Value.asStr = some file.format ∧
      (value.get? "exportedAt").bind Value.asStr = some file.exportedAt ∧
      textOfField (value.get? "activeContextId") = some file.activeContextId ∧
      (∃ revision, ((value.get? "revision").map Value.asU64).getD (some 0) = some revision ∧
        file.revision = .ofNat revision) ∧
      ((value.get? "contexts").bind Value.asArray).bind (·.mapM contextOfValue) =
        some file.contexts := by
  obtain ⟨format, exportedAt, active, revision, contexts⟩ := file
  cases hrevision : value.get? "revision" with
  | none =>
    simp only [contextsOfValue, hrevision, Option.bind_eq_bind, Option.bind_eq_some_iff,
      Option.map_none, Option.getD_none, Option.some.injEq, ContextFile.mk.injEq, ↓existsAndEq]
    grind
  | some value =>
    simp only [contextsOfValue, hrevision, Option.bind_eq_bind, Option.bind_eq_some_iff,
      Option.map_some, Option.getD_some, Option.some.injEq, ContextFile.mk.injEq, ↓existsAndEq]
    grind

theorem contextsOfValue_insertLocal {document next : Value} {file : ContextFile}
    {context : ConnectionContext} {exportedAt : String} {selects : Bool}
    (hfile : contextsOfValue document = some file)
    (hnext : insertLocal context exportedAt selects document = .ok next) :
    contextsOfValue next = some { file with
      contexts := file.contexts ++ [context]
      exportedAt := exportedAt
      activeContextId := if selects then some "local" else file.activeContextId } := by
  unfold insertLocal at hnext
  split at hnext
  · next fields =>
    split at hnext
    · next contexts hcontexts =>
      cases hnext
      rw [contextsOfValue_eq_some_iff] at hfile ⊢
      obtain ⟨hformat, -, hactive, hrevision, hread⟩ := hfile
      simp only [Value.get?] at hformat hactive hrevision hread
      rw [hcontexts] at hread
      have happended : (contexts ++ [context.toValue]).mapM contextOfValue =
          some (file.contexts ++ [context]) := by
        rw [List.mapM_append, show contexts.mapM contextOfValue = some file.contexts from hread]
        simp [contextOfValue_toValue]
      cases selects with
      | false =>
        simp [Value.get?, StrMap.get?_insert, hformat, hactive, hrevision, happended, Value.asArray,
          Value.asStr]
      | true =>
        simp [Value.get?, StrMap.get?_insert, hformat, hrevision, happended, Value.asArray,
          Value.asStr, textOfField]
    · cases hnext
  · cases hnext

/-- Documents are read back, whatever their size. -/
theorem documentEnv_readsBack (size : Value → Nat) :
    ContextEnv.ReadsBack { documentEnv with size := size } := by
  have hread : ∀ document file, documentEnv.fromDocument document = .ok file →
      contextsOfValue document = some file := by
    intro document file h
    simp only [documentEnv] at h
    split at h
    · next found hfound =>
      cases h
      exact hfound
    · cases h
  have hwritten : ∀ document file, contextsOfValue document = some file →
      documentEnv.fromDocument document = .ok file := by
    intro document file h
    simp only [documentEnv, h]
  refine ⟨fun contents document file hdocument hfile => ?_, documentEnv_faithful,
    fun document next file context exportedAt selects hfile hnext => ?_,
    fun document next file context exportedAt selects _ _ hfile => ⟨hfile, next, rfl, hfile⟩⟩
  · cases hdocument
    exact hfile
  · exact hwritten _ _ (contextsOfValue_insertLocal (hread _ _ hfile) hnext)

theorem systemResolveReference_settled {reference : Option String} {resolved : String}
    (h : systemResolveReference reference = .ok resolved) :
    systemResolveReference (some resolved) = .ok resolved := by
  simp only [systemResolveReference] at h ⊢
  split at h
  · cases h
  · next hvalid =>
    cases h
    rw [Option.getD_some, if_neg hvalid]

/-- A keyring that keeps what is stored. -/
def keyringAccess : CredentialAccess (StrMap String) where
  resolveReference := systemResolveReference
  writeSecure keys reference secret := .ok (StrMap.insert keys reference secret)
  read keys reference :=
    match StrMap.get? keys reference with
    | some secret => .ok secret
    | none => .error .unavailable

/-- A client whose texts are what they say. -/
def documentInitEnv (size : Value → Nat) : InitEnv CoreConfig Value Unit (StrMap String) where
  paths := ⟨"data", "kakune.yaml", "contexts.json"⟩
  parseAddr _ := some ⟨"127.0.0.1", true, false, 8787⟩
  parseConfig := .ok
  renderConfig := id
  store :=
    { tokenHash := id
      parseScopes := fun _ => .ok [.admin]
      parseTime := fun _ => .error "invalid time"
      blank := () }
  contexts := { documentEnv with size := size }
  credentials := keyringAccess

/-- Every step succeeds. -/
def quietAnswers : InitAnswers CoreConfig Unit where
  locks := .ok ()
  publishConfig := .published
  store :=
    { directory := .ok ()
      create := .ok ()
      inspect := .ok ()
      prepare := .ok ()
      backup := .ok ()
      connect := .ok ()
      coreId := "core"
      upgrade := fun _ _ => .ok () }
  coreId := .ok ()
  readContexts := .ok ()
  issue := ⟨.ok (), "0", "1", .ok "T"⟩
  authorize := .ok ()
  now := 0
  readLocal := .ok ()
  fallback := .ok "T"
  clock := .ok "T"
  publishContexts := .ok ()

theorem quietAnswers_undisturbed : quietAnswers.Undisturbed :=
  ⟨rfl, ⟨rfl, rfl, rfl, rfl⟩, rfl, rfl, rfl, rfl⟩

/-- Nothing is there yet. -/
def noFiles : InstallationFiles CoreConfig Value Unit (StrMap String) := ⟨none, none, none, []⟩

theorem noExpiry (now later : Int) (tokens : List StoredToken)
    (h : ∀ row ∈ tokens, row.expiresAt = none) :
    (documentInitEnv fun _ => 0).store.NoneExpires now later tokens := by
  intro row hrow _
  rw [h row hrow]
  rfl

/-- **A first initialization is repeated** without effect. -/
theorem first_initialization_is_repeatable :
    let first := initializeInstallation (documentInitEnv fun _ => 0) quietAnswers noFiles
    first.2 = .ok ⟨⟨"data", "kakune.yaml", "contexts.json"⟩, .created, .created, .created,
        .created, .created⟩ ∧
      initializeInstallation (documentInitEnv fun _ => 0) quietAnswers first.1 =
        (first.1, .ok (reusedReport ⟨"data", "kakune.yaml", "contexts.json"⟩)) := by
  intro first
  have hreport : first.2 = .ok ⟨⟨"data", "kakune.yaml", "contexts.json"⟩, .created, .created,
      .created, .created, .created⟩ := by decide
  refine ⟨hreport, ?_⟩
  have hlasting : (documentInitEnv fun _ => 0).store.NoneExpires 0 0 first.1.tokens :=
    noExpiry 0 0 _ (by decide)
  exact ((initialization_is_repeatable_iff (documentEnv_readsBack fun _ => 0) rfl
    (fun _ _ h => systemResolveReference_settled h) quietAnswers quietAnswers noFiles).2 first.1 _
    (Prod.ext rfl hreport) quietAnswers_undisturbed hlasting).mpr fun _ _ _ _ => Nat.zero_le _

/-! ### A context file that outgrows its limit -/

/-- The bytes of a string, as it is written in a document. -/
def writtenSize (text : String) : Nat :=
  2 + ((text.toList.flatMap Json.escapeChar).map Char.utf8Size).sum

mutual

/-- The bytes that `serde_json::to_vec_pretty` writes for a value at a depth. -/
def prettySize (depth : Nat) : Value → Nat
  | .null => 4
  | .bool true => 4
  | .bool false => 5
  | .number number => (Json.renderNumber (fun _ => ['0', '.', '0']) number).length
  | .string text => writtenSize text
  | .array [] => 2
  | .array (item :: items) => prettyItems depth (item :: items) + 2 * depth + 2
  | .object [] => 2
  | .object (field :: fields) => prettyFields depth (field :: fields) + 2 * depth + 2

/-- Each item has a line of its own, and a comma or the end of the last line behind it. -/
def prettyItems (depth : Nat) : List Value → Nat
  | [] => 0
  | item :: items => 2 * (depth + 1) + prettySize (depth + 1) item + 2 + prettyItems depth items

def prettyFields (depth : Nat) : List (String × Value) → Nat
  | [] => 0
  | (key, value) :: fields =>
    2 * (depth + 1) + writtenSize key + 2 + prettySize (depth + 1) value + 2 +
      prettyFields depth fields

end

/-- A text that needs no escapes. -/
def plainText (length : Nat) : String := String.ofList (List.replicate length 'a')

theorem writtenSize_plainText (length : Nat) : writtenSize (plainText length) = length + 2 := by
  have hsize : (((List.replicate length 'a').flatMap Json.escapeChar).map Char.utf8Size).sum =
      length := by
    induction length with
    | zero => rfl
    | succ n ih =>
      rw [List.replicate_succ, List.flatMap_cons, List.map_append, List.sum_append, ih,
        show ((Json.escapeChar 'a').map Char.utf8Size).sum = 1 by decide]
      omega
  rw [writtenSize, plainText, String.toList_ofList, hsize]
  omega

/-- A collection without contexts, with a note of another program. -/
def notedDocument (note : String) : Value :=
  .object [("contexts", .array []), ("exportedAt", .string "T"),
    ("format", .string "kakune-contexts/v1"), ("note", .string note)]

theorem prettySize_notedDocument (note : String) :
    prettySize 0 (notedDocument note) = writtenSize note + 87 := by
  have hkeys : writtenSize "contexts" = 10 ∧ writtenSize "exportedAt" = 12 ∧
      writtenSize "format" = 8 ∧ writtenSize "note" = 6 ∧ writtenSize "T" = 3 ∧
      writtenSize "kakune-contexts/v1" = 20 := by decide +kernel
  obtain ⟨h1, h2, h3, h4, h5, h6⟩ := hkeys
  simp only [notedDocument, prettySize, prettyFields, h1, h2, h3, h4, h5, h6]
  omega

/-- The local context of the first call. -/
def coreRequest : LocalRequest :=
  ⟨"core", "http://127.0.0.1:8787", "keychain:kakune/core/core"⟩

/-- The same collection with the local context. -/
def grownDocument (note : String) : Value :=
  .object [("activeContextId", .string "local"),
    ("contexts", .array [coreRequest.context.toValue]), ("exportedAt", .string "T"),
    ("format", .string "kakune-contexts/v1"), ("note", .string note)]

theorem prettySize_grownDocument (note : String) :
    prettySize 0 (grownDocument note) = writtenSize note + 335 := by
  have hkeys : writtenSize "contexts" = 10 ∧ writtenSize "exportedAt" = 12 ∧
      writtenSize "format" = 8 ∧ writtenSize "note" = 6 ∧ writtenSize "T" = 3 ∧
      writtenSize "kakune-contexts/v1" = 20 ∧ writtenSize "activeContextId" = 17 ∧
      writtenSize "local" = 7 := by decide +kernel
  have hcontext : prettySize 2 coreRequest.context.toValue = 210 := by decide +kernel
  obtain ⟨h1, h2, h3, h4, h5, h6, h7, h8⟩ := hkeys
  simp only [grownDocument, prettySize, prettyFields, prettyItems, h1, h2, h3, h4, h5, h6, h7, h8,
    hcontext]
  omega

/-- A client that counts bytes. -/
def countingEnv : InitEnv CoreConfig Value Unit (StrMap String) := documentInitEnv (prettySize 0)

/-- Only the context file is there. -/
def notedFiles (note : String) : InstallationFiles CoreConfig Value Unit (StrMap String) :=
  ⟨none, none, some (notedDocument note), []⟩

/-- The database of a new installation. -/
def coreDatabase : Database Unit :=
  ((⟨[], none, none, [], ()⟩ : Database Unit).migrate quietAnswers.store).1

/-- The first call on a context file that is within its limit. -/
def notedRun {note : String} (h : prettySize 0 (notedDocument note) ≤ maxContextFileBytes) :
    ClientRun countingEnv quietAnswers {} true coreDatabase
      { notedFiles note with config := some {}, database := some (.sound coreDatabase) } where
  coreId := "core"
  contexts := emptyContexts "T"
  reference := "keychain:kakune/core/core"
  issued := { coreDatabase with tokens := [⟨"1", "kakune_0", "Initial local administrator",
    "[\"admin\"]", "T", none, none⟩] }
  keys := [("keychain:kakune/core/core", "kakune_0")]
  secret := "kakune_0"
  listen := ⟨"127.0.0.1", true, false, 8787⟩
  file := some (grownDocument note)
  created := true
  answered := rfl
  identified := rfl
  loaded := by
    have hread : ¬ maxContextFileBytes < countingEnv.contexts.size (notedDocument note) :=
      Nat.not_lt.mpr h
    simp only [loadContexts, notedFiles, quietAnswers, if_neg hread]
    rfl
  unconflicted := rfl
  resolved := by decide
  accessed := rfl
  allowed := rfl
  authorized := rfl
  listened := rfl
  ensured := rfl

/-- The report of a first call that finds a context file. -/
def createdReport : InitializationReport :=
  ⟨⟨"data", "kakune.yaml", "contexts.json"⟩, .created, .created, .created, .created, .created⟩

theorem initializeInstallation_noted {note : String}
    (h : prettySize 0 (notedDocument note) ≤ maxContextFileBytes) :
    initializeInstallation countingEnv quietAnswers (notedFiles note) =
      ((notedRun h).after, .ok createdReport) :=
  (notedRun h).initializeClient_eq ⟨⟨"data", "kakune.yaml", "contexts.json"⟩, .created, .created,
    .created, .notAttempted, .notAttempted⟩ rfl

theorem loadContexts_of_large {Text Contents Content Keys : Type}
    {env : InitEnv Text Contents Content Keys} {answers : InitAnswers Text Content}
    {contents : Contents} (hanswer : answers.readContexts = .ok ())
    (h : maxContextFileBytes < env.contexts.size contents) :
    loadContexts env answers (some contents) = .error "context files are limited to 1 MiB" := by
  simp only [loadContexts, hanswer, if_pos h]

theorem initializeInstallation_grown {note : String}
    (hsmall : prettySize 0 (notedDocument note) ≤ maxContextFileBytes)
    (hlarge : maxContextFileBytes < prettySize 0 (grownDocument note)) :
    initializeInstallation countingEnv quietAnswers (notedRun hsmall).after =
      ((notedRun hsmall).after, .error ⟨⟨⟨"data", "kakune.yaml", "contexts.json"⟩, .reused,
        .reused, .reused, .notAttempted, .incomplete⟩, .invalidResource, .localContext,
        .inspectResource⟩) := by
  have hopened : initializeInstallation countingEnv quietAnswers (notedRun hsmall).after =
      initializeClient countingEnv quietAnswers {} false (notedRun hsmall).issued
        ⟨⟨"data", "kakune.yaml", "contexts.json"⟩, .reused, .reused, .reused, .notAttempted,
          .notAttempted⟩ (notedRun hsmall).after := rfl
  have hcoreId : (quietAnswers.coreId.toOption.bind fun _ => (notedRun hsmall).issued.coreId?) =
      some "core" := rfl
  have hload : loadContexts countingEnv quietAnswers (notedRun hsmall).after.contexts =
      .error "context files are limited to 1 MiB" := loadContexts_of_large rfl hlarge
  rw [hopened]
  simp only [initializeClient, hcoreId, hload]
  rfl

/-- **A first call makes the context file unreadable**: it succeeds, and the next one with the same
options fails, since the file with the local context is larger than what is read. -/
theorem grown_context_file_is_unreadable : countingEnv.contexts.ReadsBack ∧
    countingEnv.credentials.Settled ∧ quietAnswers.Undisturbed ∧
    ∃ after, initializeInstallation countingEnv quietAnswers (notedFiles (plainText 1048400)) =
        (after, .ok createdReport) ∧
      countingEnv.store.NoneExpires quietAnswers.now quietAnswers.now after.tokens ∧
      initializeInstallation countingEnv quietAnswers after =
        (after, .error ⟨⟨⟨"data", "kakune.yaml", "contexts.json"⟩, .reused, .reused, .reused,
          .notAttempted, .incomplete⟩, .invalidResource, .localContext, .inspectResource⟩) := by
  have hsmall : prettySize 0 (notedDocument (plainText 1048400)) ≤ maxContextFileBytes := by
    rw [prettySize_notedDocument, writtenSize_plainText]
    decide
  have hlarge : maxContextFileBytes < prettySize 0 (grownDocument (plainText 1048400)) := by
    rw [prettySize_grownDocument, writtenSize_plainText]
    decide
  have hsettled : countingEnv.credentials.Settled :=
    fun _ _ h => systemResolveReference_settled h
  generalize plainText 1048400 = note at hsmall hlarge ⊢
  exact ⟨documentEnv_readsBack _, hsettled, quietAnswers_undisturbed, (notedRun hsmall).after,
    initializeInstallation_noted hsmall, fun _ _ h => h, initializeInstallation_grown hsmall hlarge⟩

end KakuneCore
