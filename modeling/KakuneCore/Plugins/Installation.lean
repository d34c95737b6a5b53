import KakuneCore.Client.Contexts
import KakuneCore.Planner.Catalog
import KakuneCore.Plugins.PackageDigest
import KakuneCore.Services.Removal

/-!
# Installing plugins

A plugin is installed from a package that was staged and reviewed. `commit` checks the package, its
manifest and the catalog it would be part of, moves the package to its destination, and publishes
the row of the plugin. These are separate steps on the file system and on the store; each of them
may fail, and the process may stop before any of them.
-/

namespace KakuneCore

/-! ### Packages on the disk -/

structure PluginManifest where
  id : String
  name : String
  version : String
  /-- `contributes.nodes`. -/
  nodes : Option (List String)
  deriving DecidableEq

/-- What the installation rests on: the data directory, the hash, and the readers of URLs, manifests
and node definitions. -/
structure InstallEnv where
  dataDir : String
  sha256 : Bytes → String
  parseUrl : String → Option Url
  /-- `PluginManifest::load` of a file of a package. -/
  loadManifest : PackageEntry → String → Except String PluginManifest
  /-- `load_node_definition`: the node type of a declaration. -/
  loadNodeType : PackageEntry → String → Except String String

/-- The directories that are plugin packages, by their paths. -/
abbrev PluginDisk : Type := String → Option PackageEntry

def joinPath (root name : String) : String := root ++ "/" ++ name

/-- The path of the directory that a path is in. -/
def parentPath (path : String) : String :=
  .ofList ((path.toList.reverse.dropWhile (· ≠ '/')).tail).reverse

/-- The last component of a path. -/
def fileName (path : String) : String :=
  .ofList (path.toList.reverse.takeWhile (· ≠ '/')).reverse

theorem parentPath_joinPath {root name : String} (h : '/' ∉ name.toList) :
    parentPath (joinPath root name) = root := by
  have hname : ∀ c ∈ name.toList.reverse, (decide (c ≠ '/')) = true := fun c hc =>
    decide_eq_true fun heq => h (heq ▸ List.mem_reverse.mp hc)
  have hchars : (joinPath root name).toList.reverse =
      name.toList.reverse ++ '/' :: root.toList.reverse := by
    simp [joinPath, String.toList_append]
  rw [parentPath, hchars, List.dropWhile_append_of_pos hname,
    List.dropWhile_cons_of_neg (by decide), List.tail_cons, List.reverse_reverse,
    String.ofList_toList]

/-- `directory_digest`. -/
def directoryDigest (env : InstallEnv) (disk : PluginDisk) (path : String) :
    Except String String :=
  match disk path with
  | some package => packageDigest env.sha256 package
  | none => .error "cannot inspect plugin package root: No such file or directory (os error 2)"

def pluginManifestNames : List String := ["kakune.plugin.json", "kakune-plugin.json"]

/-- `path.is_file()` for a file directly in a package. -/
def hasFile (package : PackageEntry) (name : String) : Bool :=
  match package with
  | .directory entries => entries.any fun entry =>
      entry.1 = Utf8.encode name.toList && match entry.2 with
        | .file _ => true
        | _ => false
  | _ => false

/-- `find_manifest`: the name of the manifest of a package. -/
def findManifest (disk : PluginDisk) (path : String) : Except String String :=
  match (disk path).bind fun package => pluginManifestNames.find? (hasFile package) with
  | some name => .ok name
  | none => .error
      "plugin source must contain one of kakune.plugin.json, kakune-plugin.json"

/-! ### The registry -/

/-- The loop of `register_manifest` over the declarations of a manifest. -/
def collectNodeTypes (env : InstallEnv) (package : PackageEntry)
    (registered additions : List String) : List String → Except String (List String)
  | [] => .ok additions
  | declaration :: declarations => do
    let nodeType ← env.loadNodeType package declaration
    if isBuiltinNodeType nodeType then
      .error ("plugin node type " ++ nodeType ++ " is already provided by the built-in catalog")
    else if nodeType ∈ registered ∨ nodeType ∈ additions then
      .error ("plugin node type " ++ nodeType ++ " is already registered")
    else collectNodeTypes env package registered (additions ++ [nodeType]) declarations

/-- `register_manifest`: the node types of a package join those that are registered. The digest that
is taken again at the end is that of the same package. -/
def registerManifest (env : InstallEnv) (package : PackageEntry) (registered : List String)
    (manifest : PluginManifest) : Except String (List String) :=
  match manifest.nodes with
  | none | some [] => .error ("plugin " ++ manifest.id ++ " declares no node definitions")
  | some declarations => do
    let _ ← (packageDigest env.sha256 package).mapError ("cannot digest plugin package: " ++ ·)
    let additions ← collectNodeTypes env package registered [] declarations
    .ok (registered ++ additions)

/-- `register_manifest_path`. -/
def registerManifestPath (env : InstallEnv) (disk : PluginDisk) (registered : List String)
    (manifestPath : String) : Except String (List String) :=
  match disk (parentPath manifestPath) with
  | none => .error "cannot load plugin manifest: cannot read the manifest"
  | some package => do
    let manifest ← (env.loadManifest package (fileName manifestPath)).mapError
      ("cannot load plugin manifest: " ++ ·)
    registerManifest env package registered manifest

/-- The registration of one row after another. -/
def registerRows (env : InstallEnv) (disk : PluginDisk) (describe : PluginRow → String) :
    List String → List PluginRow → Except String (List String)
  | registered, [] => .ok registered
  | registered, row :: rows => do
    let registered ← (registerManifestPath env disk registered row.manifestPath).mapError
      (describe row ++ ·)
    registerRows env disk describe registered rows

/-- `load_installed_plugin_registry`. -/
def loadInstalledPluginRegistry (env : InstallEnv) (disk : PluginDisk) (rows : List PluginRow) :
    Except String (List String) :=
  registerRows env disk (fun row => "cannot load installed plugin " ++ row.id ++ ": ") []
    (rows.filter fun row => row.enabled)

/-- `validate_prospective_catalog`: the candidate is read from the package at `path`. -/
def validateProspectiveCatalog (env : InstallEnv) (disk : PluginDisk) (rows : List PluginRow)
    (candidate : PluginManifest) (path : String) : Except String Unit :=
  if 10000 < rows.length then .error "installed plugin catalog exceeds its validation limit"
  else do
    let registered ← registerRows env disk (fun _ => "installed plugin catalog is not valid: ") []
      (rows.filter fun row => row.enabled && row.id ≠ candidate.id)
    match disk path with
    | none => .error "prospective plugin catalog is not valid: cannot digest plugin package"
    | some package =>
      let _ ← (registerManifest env package registered candidate).mapError
        ("prospective plugin catalog is not valid: " ++ ·)
      .ok ()

/-! ### The store -/

/-- The other columns of a row of `installed_plugins`. -/
structure PluginDetails where
  name : String
  installedAt : String
  policy : Value
  resolvedLock : Value
  provenance : Value
  deriving DecidableEq

/-- A row of `prepared_plugin_installs`. -/
structure PreparedPlugin where
  id : String
  pluginId : String
  version : String
  digest : String
  policy : Value
  resolvedLock : Value
  provenance : Value
  deriving DecidableEq

/-- The column `staged_path`, as `prepare` writes it. -/
def PreparedPlugin.stagedPath (env : InstallEnv) (prepared : PreparedPlugin) : String :=
  env.dataDir ++ "/plugin-staging/" ++ prepared.id

/-- `InstalledPluginRecord`. -/
structure InstalledPlugin where
  install : PluginInstall
  details : PluginDetails

/-- The packages on the disk, the tables of the store, the other columns of the installed plugins,
and the prepared installations. -/
structure PluginState where
  disk : PluginDisk
  tables : Tables
  details : String → Option PluginDetails
  prepared : List PreparedPlugin

/-- `prepared_plugin_install`. -/
def PluginState.preparedInstall (state : PluginState) (id : String) : Option PreparedPlugin :=
  state.prepared.find? fun prepared => prepared.id = id

/-- `validate_plugin_source`. -/
def validatePluginSource (parseUrl : String → Option Url) (source : String) : Except String Unit :=
  if source = "" || source.utf8ByteSize > 4096 || source.toList.any fun c => c ∈ ['\r', '\n'] then
    .error "invalid plugin source"
  else if source.startsWith "git:" then
    match parseUrl (source.drop 4).toString with
    | none => .error "invalid plugin source"
    | some url =>
      if url.username ≠ "" || url.password.isSome || url.query.isSome then
        .error "plugin source must not contain credentials or query parameters"
      else .ok ()
  else .ok ()

/-- `upsert_plugin_install_with_source` with all the columns; the answer is that of the database. -/
def PluginState.publish (env : InstallEnv) (state : PluginState) (source : String)
    (record : InstalledPlugin) (answer : Except String Unit) : Except String PluginState := do
  validatePluginSource env.parseUrl source
  answer
  let tables ← state.tables.upsertPluginInstall record.install
  .ok { state with
    tables := tables
    details := Function.update state.details record.install.id (some record.details) }

/-! ### The commit of a prepared installation -/

/-- A staged package whose manifest was read. -/
structure ReviewedPlugin where
  prepared : PreparedPlugin
  manifest : PluginManifest
  /-- `requestedSource` of the resolved lock. -/
  source : String
  deriving DecidableEq

structure CommitPlan extends ReviewedPlugin where
  /-- The destination has the content already. -/
  alreadyStaged : Bool
  deriving DecidableEq

/-- Where the package is moved to. -/
def ReviewedPlugin.destination (env : InstallEnv) (reviewed : ReviewedPlugin) : String :=
  env.dataDir ++ "/plugins/" ++ reviewed.manifest.id ++ "/" ++ reviewed.manifest.version ++ "-" ++
    .ofList ((reviewed.prepared.digest.toList.drop 7).take 12)

/-- The row that the commit publishes. -/
def CommitPlan.record (env : InstallEnv) (plan : CommitPlan) (manifestName clock : String) :
    InstalledPlugin where
  install := {
    id := plan.manifest.id
    version := plan.manifest.version
    digest := plan.prepared.digest
    manifestPath := joinPath (plan.destination env) manifestName
    enabled := true }
  details := {
    name := plan.manifest.name
    installedAt := clock
    policy := plan.prepared.policy
    resolvedLock := plan.prepared.resolvedLock
    provenance := plan.prepared.provenance }

section Checks

variable (env : InstallEnv)

def openPrepared (state : PluginState) (id expected : String) : Except String PreparedPlugin :=
  match state.preparedInstall id with
  | none => .error ("prepared plugin installation " ++ id ++ " was not found")
  | some prepared =>
    if prepared.digest = expected then .ok prepared
    else .error "the approved digest does not match the prepared installation"

def checkStaged (disk : PluginDisk) (prepared : PreparedPlugin) : Except String Unit := do
  let actual ← directoryDigest env disk (prepared.stagedPath env)
  if prepared.digest = actual then .ok ()
  else .error "prepared plugin content changed after inspection; prepare it again"

/-- `PluginManifest::load` of a manifest in a directory. -/
def readManifest (disk : PluginDisk) (path name : String) : Except String PluginManifest :=
  match disk path with
  | some package => env.loadManifest package name
  | none => .error "cannot read plugin manifest"

def reviewManifest (disk : PluginDisk) (prepared : PreparedPlugin) :
    Except String ReviewedPlugin := do
  let name ← findManifest disk (prepared.stagedPath env)
  let manifest ← readManifest env disk (prepared.stagedPath env) name
  if manifest.id ≠ prepared.pluginId || manifest.version ≠ prepared.version then
    .error "prepared plugin manifest changed after inspection; prepare it again"
  else match (prepared.resolvedLock.get? "requestedSource").bind Value.asStr with
    | some source => .ok ⟨prepared, manifest, source⟩
    | none => .error "prepared plugin has no update source"

def locateDestination (disk : PluginDisk) (reviewed : ReviewedPlugin) :
    Except String CommitPlan :=
  if (disk (reviewed.destination env)).isSome then do
    let existing ← directoryDigest env disk (reviewed.destination env)
    if existing = reviewed.prepared.digest then .ok { reviewed with alreadyStaged := true }
    else .error "plugin activation destination contains different content"
  else .ok { reviewed with alreadyStaged := false }

/-- `fs::rename` of a directory. -/
def renameDirectory (disk : PluginDisk) (source destination : String) : Except String PluginDisk :=
  match disk source, disk destination with
  | some package, none =>
    .ok (Function.update (Function.update disk source none) destination (some package))
  | none, _ => .error "No such file or directory (os error 2)"
  | some _, some _ => .error "Directory not empty (os error 39)"

end Checks

/-- Where a commit is. The name of a phase says what it does next. -/
inductive CommitPhase
  | opening (id expected : String)
  | digesting (prepared : PreparedPlugin)
  | loading (prepared : PreparedPlugin)
  | locating (reviewed : ReviewedPlugin)
  | listing (plan : CommitPlan)
  | checking (plan : CommitPlan) (rows : List PluginRow)
  | creating (plan : CommitPlan)
  | moving (plan : CommitPlan)
  | finding (plan : CommitPlan)
  | stamping (plan : CommitPlan) (manifestName : String)
  | publishing (plan : CommitPlan) (record : InstalledPlugin)
  | undoing (plan : CommitPlan) (error : String)
  | clearing (plan : CommitPlan) (record : InstalledPlugin)
  | cleaning (plan : CommitPlan) (record : InstalledPlugin)
  | finished (result : Except String InstalledPlugin)
  | stopped

/-- The steps of a commit. -/
inductive CommitStep
  | opening | digesting | loading | locating | listing | checking | creating | moving | finding
  | stamping | publishing | undoing | clearing | cleaning
  deriving DecidableEq

namespace CommitPhase

/-- The step that a phase takes next. -/
def step? : CommitPhase → Option CommitStep
  | opening .. => some .opening
  | digesting _ => some .digesting
  | loading _ => some .loading
  | locating _ => some .locating
  | listing _ => some .listing
  | checking .. => some .checking
  | creating _ => some .creating
  | moving _ => some .moving
  | finding _ => some .finding
  | stamping .. => some .stamping
  | publishing .. => some .publishing
  | undoing .. => some .undoing
  | clearing .. => some .clearing
  | cleaning .. => some .cleaning
  | finished _ | stopped => none

/-- A step has its result or ends the commit with an error. -/
def after {α : Type} (next : α → CommitPhase) : Except String α → CommitPhase
  | .ok a => next a
  | .error error => .finished (.error error)

end CommitPhase

/-- What happens in a step: its operation is done, it fails, or the process stops before it. -/
inductive StepOutcome
  | done
  | failed (error : String)
  | stopped
  deriving DecidableEq

structure CommitAnswer where
  outcome : StepOutcome := .done
  /-- The time, where the step asks for it. -/
  clock : String := ""
  /-- What a deletion leaves of a package. -/
  left : Option PackageEntry := none

/-- An operation of the step, whose error has a prefix. -/
def CommitAnswer.fails (answer : CommitAnswer) (description : String) : Except String Unit :=
  match answer.outcome with
  | .failed error => .error (description ++ error)
  | _ => .ok ()

/-- What a phase does next, when the process does not stop. -/
def commitStep (env : InstallEnv) (answer : CommitAnswer) (state : PluginState) :
    CommitPhase → PluginState × CommitPhase
  | .opening id expected => (state, .after .digesting do
      answer.fails "Kakune database error: "
      openPrepared state id expected)
  | .digesting prepared => (state, .after (fun _ => .loading prepared) do
      answer.fails ""
      checkStaged env state.disk prepared)
  | .loading prepared => (state, .after .locating do
      answer.fails ""
      reviewManifest env state.disk prepared)
  | .locating reviewed => (state, .after .listing do
      answer.fails ""
      locateDestination env state.disk reviewed)
  | .listing plan => (state, .after (fun _ => .checking plan state.tables.listInstalledPlugins)
      (answer.fails "Kakune database error: "))
  | .checking plan rows => (state, .after (fun _ => .creating plan) do
      answer.fails ""
      validateProspectiveCatalog env state.disk rows plan.manifest (plan.prepared.stagedPath env))
  | .creating plan => (state, .after (fun _ => .moving plan)
      (answer.fails "cannot create plugin installation directory: "))
  | .moving plan =>
    if plan.alreadyStaged then (state, .finding plan)
    else match (do
        answer.fails ""
        renameDirectory state.disk (plan.prepared.stagedPath env) (plan.destination env)) with
      | .ok disk => ({ state with disk := disk }, .finding plan)
      | .error error => (state, .finished (.error ("cannot commit plugin package: " ++ error)))
  | .finding plan => (state, .after (.stamping plan) do
      answer.fails ""
      findManifest state.disk (plan.destination env))
  | .stamping plan manifestName =>
    (state, .after (fun _ => .publishing plan (plan.record env manifestName answer.clock))
      (answer.fails ""))
  | .publishing plan record =>
    match state.publish env plan.source record (answer.fails "Kakune database error: ") with
    | .ok next => (next, .clearing plan record)
    | .error error =>
      (state, if plan.alreadyStaged then .finished (.error error) else .undoing plan error)
  | .undoing plan error =>
    match (do
        answer.fails ""
        renameDirectory state.disk (plan.destination env) (plan.prepared.stagedPath env)) with
    | .ok disk => ({ state with disk := disk }, .finished (.error error))
    | .error _ => (state, .finished (.error error))
  | .clearing plan record =>
    match answer.fails "Kakune database error: " with
    | .ok () => ({ state with
        prepared := state.prepared.filter fun prepared => prepared.id ≠ plan.prepared.id },
        .cleaning plan record)
    | .error error => (state, .finished (.error error))
  | .cleaning plan record =>
    (if plan.alreadyStaged then
        { state with disk := Function.update state.disk (plan.prepared.stagedPath env) answer.left }
      else state,
      .finished (.ok record))
  | .finished result => (state, .finished result)
  | .stopped => (state, .stopped)

/-- **One step of a commit.** -/
def advanceCommit (env : InstallEnv) (answer : CommitAnswer) (state : PluginState)
    (phase : CommitPhase) : PluginState × CommitPhase :=
  if phase.step?.isNone then (state, phase)
  else if answer.outcome = .stopped then (state, .stopped)
  else commitStep env answer state phase

end KakuneCore
