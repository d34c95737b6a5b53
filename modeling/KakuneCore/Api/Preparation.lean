import KakuneCore.Api.Submission
import KakuneCore.Planner.Accepted
import KakuneCore.Scheduling.Triggers
import KakuneCore.Store.PluginContent

/-!
# Preparation of an execution

What stands between a workflow source and its admission: the plan is compiled and given a finite
deadline, and on the canonical path the plugins of its nodes, at any depth, are collected with the
content they were loaded with. The executions endpoint takes the other path, which **collects no
plugins**, so the guarantee that an execution under way holds the pins of its plugins is one about
the canonical path.
-/

namespace KakuneCore

/-! ### Deadlines -/

/-- The milliseconds of a unit. -/
def durationUnit : String → Option Nat
  | "ms" => some 1
  | "s" => some 1000
  | "m" => some 60000
  | "h" => some 3600000
  | _ => none

/-- `parse_duration`, in milliseconds. -/
def parseDuration (text : String) : Except String Nat :=
  let isDigit : Char → Bool := fun c => '0' ≤ c && c ≤ '9'
  let value := (trimText text).toList
  let number := value.takeWhile isDigit
  let amount := number.foldl (fun amount c => 10 * amount + (c.toNat - 48)) 0
  if value.all isDigit then .error "workflow policy.timeout must use a unit such as 30s or 2m"
  else if amount = 0 || 2 ^ 64 ≤ amount then
    .error "workflow policy.timeout must be a positive duration"
  else
    match durationUnit (String.ofList (value.dropWhile isDigit)) with
    | none => .error "workflow policy.timeout supports ms, s, m, or h"
    | some multiplier =>
      if amount * multiplier < 2 ^ 64 then .ok (amount * multiplier)
      else .error "workflow policy.timeout is too large"

/-- `ensure_finite_execution_timeout`, with the policy it leaves. -/
def ensureFiniteExecutionTimeout (policy : WorkflowPolicy) : Except String WorkflowPolicy := do
  let timeout := policy.timeout.getD "300s"
  let duration ← parseDuration timeout
  if 3600000 < duration then throw "workflow timeout must not exceed 3,600 seconds"
  else pure { policy with timeout := some timeout }

/-! ### The plugins of a plan -/

/-- A node type of the catalog, with the package its plugin was loaded from. A path that is missing
or is no text is `none`. -/
structure CatalogNode extends RegisteredPluginNode where
  manifestId : String
  version : String
  manifestPath : Option String
  contentDigest : String

abbrev PluginCatalog : Type := StrMap CatalogNode

/-- What the planner reads of the catalog. -/
def PluginCatalog.registry (catalog : PluginCatalog) : PluginRegistry :=
  catalog.map fun entry => (entry.1, entry.2.toRegisteredPluginNode)

/-- The plugin of a node, as it is to be pinned. -/
structure PluginVersion where
  pluginId : String
  version : String
  path : String
  digest : String
  deriving DecidableEq, Repr

namespace PluginVersion

/-- The order of the tuples in the set. -/
def key (version : PluginVersion) : List String :=
  [version.pluginId, version.version, version.path, version.digest]

/-- `BTreeSet::insert`. -/
def insertInto (versions : List PluginVersion) (version : PluginVersion) : List PluginVersion :=
  if version ∈ versions then versions
  else versions.orderedInsert (fun a b => a.key ≤ b.key) version

theorem mem_insertInto {versions : List PluginVersion} {version other : PluginVersion} :
    other ∈ insertInto versions version ↔ other = version ∨ other ∈ versions := by
  rw [insertInto]
  split
  · next hmem =>
    refine ⟨.inr, fun h => ?_⟩
    rcases h with rfl | h
    · exact hmem
    · exact h
  · exact List.mem_orderedInsert _

/-- What `admit_plan_with_plugin_versions` asks of the store. -/
def requirement (version : PluginVersion) : Tables.PluginRequirement where
  pluginId := version.pluginId
  version := some version.version
  manifestPath := some version.path
  digest := some version.digest

end PluginVersion

namespace WorkflowNode

/-- What the loop pushes for a node: the nodes of its body, then those of its branches. -/
def pushed (node : WorkflowNode) : List WorkflowNode :=
  (node.body.toList.flatMap fun body => body.nodes) ++
    node.branches.flatMap fun branch => branch.2.nodes

mutual

/-- The nodes in the order in which the loop pops them, the last pushed first. -/
def popped : List WorkflowNode → List WorkflowNode
  | [] => []
  | node :: nodes => popped nodes ++ poppedFrom node

def poppedFrom : WorkflowNode → List WorkflowNode
  | ⟨id, nodeType, config, inputs, on, retry, branches, body⟩ =>
    ⟨id, nodeType, config, inputs, on, retry, branches, body⟩ ::
      (poppedBranches branches ++ poppedBody body)

def poppedBranches : List (String × WorkflowSubgraph) → List WorkflowNode
  | [] => []
  | (_, ⟨_, nodes, _⟩) :: branches => poppedBranches branches ++ popped nodes

def poppedBody : Option WorkflowSubgraph → List WorkflowNode
  | none => []
  | some ⟨_, nodes, _⟩ => popped nodes

end

theorem popped_append (nodes nodes' : List WorkflowNode) :
    popped (nodes ++ nodes') = popped nodes' ++ popped nodes := by
  induction nodes with
  | nil => rw [List.nil_append, popped, List.append_nil]
  | cons node nodes ih => rw [List.cons_append, popped, popped, ih, List.append_assoc]

theorem poppedBranches_eq (branches : List (String × WorkflowSubgraph)) :
    poppedBranches branches = popped (branches.flatMap fun branch => branch.2.nodes) := by
  induction branches with
  | nil => rw [List.flatMap_nil, poppedBranches, popped]
  | cons branch branches ih =>
    obtain ⟨name, entry, nodes, outputs⟩ := branch
    rw [List.flatMap_cons, popped_append, poppedBranches, ih]

theorem poppedFrom_eq (node : WorkflowNode) : poppedFrom node = node :: popped node.pushed := by
  obtain ⟨id, nodeType, config, inputs, on, retry, branches, body⟩ := node
  have hbody : poppedBody body = popped (body.toList.flatMap fun body => body.nodes) := by
    cases body with
    | none => rw [poppedBody, Option.toList_none, List.flatMap_nil, popped]
    | some body =>
      obtain ⟨entry, nodes, outputs⟩ := body
      rw [poppedBody, Option.toList_some, List.flatMap_singleton]
  rw [poppedFrom, pushed, popped_append, poppedBranches_eq, hbody]

/-- The loop: the last node is popped, and what it pushes comes next. -/
theorem popped_concat (nodes : List WorkflowNode) (node : WorkflowNode) :
    popped (nodes ++ [node]) = node :: popped (nodes ++ node.pushed) := by
  rw [popped_append, popped_append, popped, popped, List.nil_append, poppedFrom_eq,
    List.cons_append]

/-- A node that stands in the list or in a graph below it, at any depth. -/
inductive Within (nodes : List WorkflowNode) : WorkflowNode → Prop
  | top {node : WorkflowNode} : node ∈ nodes → Within nodes node
  | nested {node child : WorkflowNode} {graph : WorkflowSubgraph} :
      Within nodes node → graph ∈ node.ownedGraphs → child ∈ graph.nodes → Within nodes child

theorem mem_pushed {node child : WorkflowNode} {graph : WorkflowSubgraph}
    (hgraph : graph ∈ node.ownedGraphs) (hchild : child ∈ graph.nodes) : child ∈ node.pushed := by
  rw [pushed, List.mem_append, List.mem_flatMap, List.mem_flatMap]
  rcases List.mem_append.mp hgraph with hgraph | hgraph
  · obtain ⟨branch, hbranch, rfl⟩ := List.mem_map.mp hgraph
    exact .inr ⟨branch, hbranch, hchild⟩
  · exact .inl ⟨graph, hgraph, hchild⟩

theorem mem_popped {nodes : List WorkflowNode} {node : WorkflowNode} (h : node ∈ nodes) :
    node ∈ popped nodes := by
  induction nodes with
  | nil => cases h
  | cons first nodes ih =>
    rw [popped, List.mem_append, poppedFrom_eq]
    rcases List.mem_cons.mp h with rfl | h
    · exact .inr List.mem_cons_self
    · exact .inl (ih h)

mutual

/-- A popped node pushes nodes that are popped. -/
theorem popped_pushed (node : WorkflowNode) :
    ∀ nodes, node ∈ popped nodes → node.pushed ⊆ popped nodes
  | [], h => by
    rw [popped] at h
    cases h
  | first :: nodes, h => by
    rw [popped] at h ⊢
    rcases List.mem_append.mp h with h | h
    · exact fun child hchild => List.mem_append_left _ (popped_pushed node nodes h hchild)
    · exact fun child hchild => List.mem_append_right _ (poppedFrom_pushed node first h hchild)

theorem poppedFrom_pushed (node : WorkflowNode) :
    ∀ first, node ∈ poppedFrom first → node.pushed ⊆ poppedFrom first
  | ⟨id, nodeType, config, inputs, on, retry, branches, body⟩, h => by
    rw [poppedFrom] at h
    rcases List.mem_cons.mp h with rfl | h
    · rw [poppedFrom_eq]
      exact fun child hchild => List.mem_cons_of_mem _ (mem_popped hchild)
    · rw [poppedFrom]
      refine List.Subset.trans ?_ (List.subset_cons_self _ _)
      rcases List.mem_append.mp h with h | h
      · exact fun child hchild => List.mem_append_left _
          (poppedBranches_pushed node branches h hchild)
      · exact fun child hchild => List.mem_append_right _ (poppedBody_pushed node body h hchild)

theorem poppedBranches_pushed (node : WorkflowNode) :
    ∀ branches, node ∈ poppedBranches branches → node.pushed ⊆ poppedBranches branches
  | [], h => by
    rw [poppedBranches] at h
    cases h
  | (_, ⟨_, nodes, _⟩) :: branches, h => by
    rw [poppedBranches] at h ⊢
    rcases List.mem_append.mp h with h | h
    · exact fun child hchild => List.mem_append_left _
        (poppedBranches_pushed node branches h hchild)
    · exact fun child hchild => List.mem_append_right _ (popped_pushed node nodes h hchild)

theorem poppedBody_pushed (node : WorkflowNode) :
    ∀ body, node ∈ poppedBody body → node.pushed ⊆ poppedBody body
  | none, h => by
    rw [poppedBody] at h
    cases h
  | some ⟨_, nodes, _⟩, h => by
    rw [poppedBody] at h ⊢
    exact popped_pushed node nodes h

end

/-- The loop reaches the nodes at every depth. -/
theorem Within.mem_popped {nodes : List WorkflowNode} {node : WorkflowNode}
    (h : Within nodes node) : node ∈ popped nodes := by
  induction h with
  | top hnode => exact WorkflowNode.mem_popped hnode
  | nested _ hgraph hchild ih => exact popped_pushed _ _ ih (mem_pushed hgraph hchild)

end WorkflowNode

/-- One turn of the loop. `packageDigest` is the digest of the package of a manifest, as it is on
disk. -/
def collectPlugin (catalog : PluginCatalog) (packageDigest : String → Except String String)
    (versions : List PluginVersion) (node : WorkflowNode) : Except String (List PluginVersion) :=
  match catalog.get? node.nodeType with
  | none => .ok versions
  | some plugin =>
    match plugin.manifestPath with
    | none => .error "plugin catalog does not have a valid manifest path"
    | some path => do
      let digest ← packageDigest path
      if digest ≠ plugin.contentDigest then throw "plugin content changed since catalog loading"
      else
        pure (PluginVersion.insertInto versions
          { pluginId := plugin.manifestId, version := plugin.version, path, digest })

/-- The plugins of the nodes, at any depth. -/
def collectPlugins (catalog : PluginCatalog) (packageDigest : String → Except String String)
    (nodes : List WorkflowNode) : Except String (List PluginVersion) :=
  (WorkflowNode.popped nodes).foldlM (collectPlugin catalog packageDigest) []

section Collect

variable {catalog : PluginCatalog} {packageDigest : String → Except String String}
  {versions versions' : List PluginVersion}

/-- The plugin of a node is among the versions. -/
def HasVersion (versions : List PluginVersion) (plugin : CatalogNode) : Prop :=
  ∃ version ∈ versions, version.pluginId = plugin.manifestId

theorem collectPlugin_eq_ok {node : WorkflowNode}
    (h : collectPlugin catalog packageDigest versions node = .ok versions') :
    versions ⊆ versions' ∧
      ∀ plugin, catalog.get? node.nodeType = some plugin → HasVersion versions' plugin := by
  rw [collectPlugin] at h
  split at h
  · next hnone =>
    cases h
    refine ⟨List.Subset.refl _, fun plugin hplugin => ?_⟩
    rw [hnone] at hplugin
    cases hplugin
  · next plugin hplugin =>
    split at h
    · cases h
    · next path hpath =>
      obtain ⟨digest, -, h⟩ := except_bind_eq_ok h
      split at h
      · cases h
      · cases h
        refine ⟨fun version hversion => PluginVersion.mem_insertInto.mpr (.inr hversion),
          fun other hother => ?_⟩
        rw [hplugin] at hother
        cases hother
        exact ⟨_, PluginVersion.mem_insertInto.mpr (.inl rfl), rfl⟩

theorem foldlM_collectPlugin {nodes : List WorkflowNode}
    (h : nodes.foldlM (collectPlugin catalog packageDigest) versions = .ok versions') :
    versions ⊆ versions' ∧ ∀ node ∈ nodes, ∀ plugin,
      catalog.get? node.nodeType = some plugin → HasVersion versions' plugin := by
  induction nodes generalizing versions with
  | nil =>
    cases h
    exact ⟨List.Subset.refl _, fun node hnode => absurd hnode List.not_mem_nil⟩
  | cons first nodes ih =>
    obtain ⟨next, hnext, hrest⟩ := except_bind_eq_ok h
    obtain ⟨hkept, hfirst⟩ := collectPlugin_eq_ok hnext
    obtain ⟨hkept', hnodes⟩ := ih hrest
    refine ⟨List.Subset.trans hkept hkept', fun node hnode plugin hplugin => ?_⟩
    rcases List.mem_cons.mp hnode with rfl | hnode
    · obtain ⟨version, hversion, hid⟩ := hfirst plugin hplugin
      exact ⟨version, hkept' hversion, hid⟩
    · exact hnodes node hnode plugin hplugin

/-- The plugins of the nodes at every depth are collected. -/
theorem hasVersion_of_collectPlugins {nodes : List WorkflowNode}
    (h : collectPlugins catalog packageDigest nodes = .ok versions) {node : WorkflowNode}
    (hnode : WorkflowNode.Within nodes node) {plugin : CatalogNode}
    (hplugin : catalog.get? node.nodeType = some plugin) : HasVersion versions plugin :=
  (foldlM_collectPlugin h).2 node hnode.mem_popped plugin hplugin

end Collect

/-! ### Preparation -/

/-- What an admission is prepared from: the decoded source with its revision, the catalog of the
Core, the values of the run, the request key with its hash, and the answers of the outside. -/
structure Preparation where
  document : WorkflowDocument
  workflowRevision : String
  catalog : PluginCatalog
  inputValues : Value := .object []
  triggerValues : Value := .object []
  identity : Option (String × String) := none
  /-- `validate_provider_profiles`. -/
  profiles : Except String Unit := .ok ()
  packageDigest : String → Except String String
  executionId : String
  createdAt : String

namespace Preparation

/-- `diagnostics_message`. -/
def diagnosticsMessage (diagnostics : List Diagnostic) : String :=
  "; ".intercalate (diagnostics.map fun diagnostic => diagnostic.message)

/-- The checks on the values, and `planner::compile`. -/
def compiled (preparation : Preparation) : Except String CompiledWorkflow :=
  if preparation.inputValues.asObject.isNone || preparation.triggerValues.asObject.isNone then
    .error "execution inputs and trigger values must be objects"
  else (compile preparation.document preparation.catalog.registry).mapError diagnosticsMessage

/-- What is handed to the store. -/
def prepared (preparation : Preparation) (compiled : CompiledWorkflow) (policy : WorkflowPolicy)
    (plugins : List PluginVersion) : PreparedExecution where
  executionId := preparation.executionId
  workflowName := compiled.ir.metadata.id
  workflowRevision := preparation.workflowRevision
  plan := { compiled.plan with
    policy
    inputValues := preparation.inputValues
    triggerValues := preparation.triggerValues }
  plugins := plugins.map PluginVersion.requirement
  createdAt := preparation.createdAt

/-- `prepare_execution_with_context_request`, up to the call of the store. -/
def prepareExecutionWithContextRequest (preparation : Preparation) :
    Except String PreparedExecution := do
  let compiled ← preparation.compiled
  let policy ← ensureFiniteExecutionTimeout compiled.plan.policy
  preparation.profiles
  pure (preparation.prepared compiled policy [])

/-- `prepare_canonical_execution_with_eligibility`, up to the transaction. -/
def prepareCanonicalExecution (preparation : Preparation) : Except String PreparedExecution := do
  let compiled ← preparation.compiled
  preparation.profiles
  let policy ← ensureFiniteExecutionTimeout compiled.plan.policy
  let plugins ← collectPlugins preparation.catalog preparation.packageDigest compiled.ir.nodes
  if 10000 < plugins.length then throw "too many plugin references"
  else pure (preparation.prepared compiled policy plugins)

/-- The admission that a submitter asks for. -/
def admission (preparation : Preparation) : Submitter → Except String Tables.Admission
  | .api => preparation.prepareExecutionWithContextRequest.map fun prepared =>
    prepared.admission preparation.identity false false
  | .management => preparation.prepareCanonicalExecution.map fun prepared =>
    prepared.admission preparation.identity true false
  | .scheduler => preparation.prepareCanonicalExecution.map fun prepared =>
    prepared.admission none true true

theorem except_map_eq_ok {ε α β : Type} {x : Except ε α} {f : α → β} {b : β}
    (h : x.map f = .ok b) : ∃ a, x = .ok a ∧ f a = b := by
  cases x with
  | error e => cases h
  | ok a => exact ⟨a, rfl, Except.ok.inj h⟩

/-- The plan has the nodes of the document. -/
theorem compiled_eq_ok {preparation : Preparation} {compiled : CompiledWorkflow}
    (h : preparation.compiled = .ok compiled) : compiled.ir = preparation.document ∧
      compiled.plan.nodes.map PlannedNode.node = preparation.document.nodes := by
  rw [Preparation.compiled] at h
  split at h
  · cases h
  · cases hcompile : compile preparation.document preparation.catalog.registry with
    | error diagnostics =>
      rw [hcompile] at h
      cases h
    | ok result =>
      rw [hcompile] at h
      cases h
      obtain ⟨-, -, rfl⟩ := compile_eq_ok hcompile
      refine ⟨rfl, ?_⟩
      have hnode : PlannedNode.node ∘ planNode preparation.document.nodes = id := rfl
      rw [planOf, List.map_map, hnode, List.map_id]

theorem prepareExecutionWithContextRequest_eq_ok {preparation : Preparation}
    {prepared : PreparedExecution}
    (h : preparation.prepareExecutionWithContextRequest = .ok prepared) :
    prepared.executionId = preparation.executionId ∧
      prepared.plan.nodes.map PlannedNode.node = preparation.document.nodes := by
  obtain ⟨compiled, hcompiled, h⟩ := except_bind_eq_ok h
  obtain ⟨policy, -, h⟩ := except_bind_eq_ok h
  obtain ⟨-, -, h⟩ := except_bind_eq_ok h
  cases h
  exact ⟨rfl, (compiled_eq_ok hcompiled).2⟩

theorem prepareCanonicalExecution_eq_ok {preparation : Preparation} {prepared : PreparedExecution}
    (h : preparation.prepareCanonicalExecution = .ok prepared) :
    prepared.executionId = preparation.executionId ∧
      prepared.plan.nodes.map PlannedNode.node = preparation.document.nodes ∧
      ∀ node, WorkflowNode.Within preparation.document.nodes node →
        ∀ plugin, preparation.catalog.get? node.nodeType = some plugin →
          ∃ requirement ∈ prepared.plugins, requirement.pluginId = plugin.manifestId := by
  obtain ⟨compiled, hcompiled, h⟩ := except_bind_eq_ok h
  obtain ⟨-, -, h⟩ := except_bind_eq_ok h
  obtain ⟨policy, -, h⟩ := except_bind_eq_ok h
  obtain ⟨plugins, hplugins, h⟩ := except_bind_eq_ok h
  obtain ⟨hir, hnodes⟩ := compiled_eq_ok hcompiled
  rw [hir] at hplugins
  split at h
  · cases h
  · cases h
    refine ⟨rfl, hnodes, fun node hnode plugin hplugin => ?_⟩
    obtain ⟨version, hversion, hid⟩ := hasVersion_of_collectPlugins hplugins hnode hplugin
    exact ⟨version.requirement, List.mem_map_of_mem hversion, hid⟩

/-- What a submitter asks for: the plan has the nodes of the document, and on the canonical path the
plugin of every node in it is required. -/
theorem admission_eq_ok {preparation : Preparation} {submitter : Submitter}
    {admission : Tables.Admission} (h : preparation.admission submitter = .ok admission) :
    admission.executionId = preparation.executionId ∧
      admission.plan.nodes.map PlannedNode.node = preparation.document.nodes ∧
      (submitter ≠ .api → ∀ node, WorkflowNode.Within preparation.document.nodes node →
        ∀ plugin, preparation.catalog.get? node.nodeType = some plugin →
          ∃ requirement ∈ admission.plugins, requirement.pluginId = plugin.manifestId) := by
  cases submitter with
  | api =>
    obtain ⟨prepared, hprepared, h⟩ := except_map_eq_ok h
    cases h
    obtain ⟨hid, hnodes⟩ := prepareExecutionWithContextRequest_eq_ok hprepared
    exact ⟨hid, hnodes, fun hne => absurd rfl hne⟩
  | management =>
    obtain ⟨prepared, hprepared, h⟩ := except_map_eq_ok h
    cases h
    obtain ⟨hid, hnodes, hplugins⟩ := prepareCanonicalExecution_eq_ok hprepared
    exact ⟨hid, hnodes, fun _ => hplugins⟩
  | scheduler =>
    obtain ⟨prepared, hprepared, h⟩ := except_map_eq_ok h
    cases h
    obtain ⟨hid, hnodes, hplugins⟩ := prepareCanonicalExecution_eq_ok hprepared
    exact ⟨hid, hnodes, fun _ => hplugins⟩

end Preparation

/-! ### Runs -/

/-- An admission through one of the three submitters, or any other call that reaches executions,
plugins and pins. -/
inductive AdmissionStep
  | submit (submitter : Submitter) (preparation : Preparation)
  | call (c : PluginCall)

namespace AdmissionStep

/-- The call that reaches the store. -/
def pluginCall : AdmissionStep → Option PluginCall
  | submit submitter preparation =>
    match preparation.admission submitter with
    | .ok admission => some (.create admission)
    | .error _ => none
  | call c => some c

def apply (tables : Tables) (step : AdmissionStep) : Tables :=
  match step.pluginCall with
  | some c => c.apply tables
  | none => tables

/-- An admission through the executions endpoint uses no installed plugin, at any depth. -/
def PinsPlugins (tables : Tables) : AdmissionStep → Prop
  | submit .api preparation => ∀ node, WorkflowNode.Within preparation.document.nodes node →
    ∀ plugin, preparation.catalog.get? node.nodeType = some plugin →
      tables.plugin plugin.manifestId = none
  | _ => True

end AdmissionStep

/-- The tables before step `n`. -/
def admissionTables (steps : List AdmissionStep) (n : Nat) : Tables :=
  Runs.run AdmissionStep.apply {} (steps.take n)

/-- Step `k` admits an execution. -/
structure AdmitsAt (steps : List AdmissionStep) (k : Nat) (submitter : Submitter)
    (preparation : Preparation) (admission : Tables.Admission) : Prop where
  step : steps[k]? = some (.submit submitter preparation)
  prepared : preparation.admission submitter = .ok admission
  created : ∃ record tables', (admissionTables steps k).createExecutionWithPlanGuarded admission =
    .ok ((record, true), tables')

/-- The execution has a row that has not ended, before step `m`. -/
def UnderWay (steps : List AdmissionStep) (executionId : String) (m : Nat) : Prop :=
  ∃ row ∈ (admissionTables steps m).executions, row.id = executionId ∧ ¬row.status.IsTerminal

section Runs

variable {steps : List AdmissionStep} {k n : Nat}

/-- The tables of a run. -/
structure Tables.AdmissionsSound (tables : Tables) : Prop where
  plugins : tables.PluginsSound
  ids : tables.UniqueIds

theorem AdmissionStep.sound_apply {tables : Tables} (h : tables.AdmissionsSound)
    (step : AdmissionStep) : (step.apply tables).AdmissionsSound := by
  rw [apply]
  split
  · next c _ =>
    exact ⟨(c.pluginStep tables h.plugins.ids).sound h.plugins, (c.losesEnded_apply h.ids).2⟩
  · exact h

theorem sound_admissionTables (steps : List AdmissionStep) (n : Nat) :
    (admissionTables steps n).AdmissionsSound :=
  Runs.invariant _ ⟨Tables.pluginsSound_empty, List.nodup_nil⟩ fun _ step h => step.sound_apply h

theorem AdmissionStep.losesEnded_apply {tables : Tables} (h : tables.AdmissionsSound)
    (step : AdmissionStep) : tables.LosesEnded (step.apply tables) := by
  rw [apply]
  split
  · next c _ => exact (c.losesEnded_apply h.ids).1
  · exact .refl

theorem losesEnded_admissionTables (steps : List AdmissionStep) (n : Nat) :
    (admissionTables steps n).LosesEnded (admissionTables steps (n + 1)) := by
  cases hstep : steps[n]? with
  | none =>
    have hlength : steps.length ≤ n := List.getElem?_eq_none_iff.mp hstep
    rw [admissionTables, admissionTables, List.take_of_length_le hlength,
      List.take_of_length_le (by omega)]
    exact .refl
  | some step =>
    have hnext : admissionTables steps (n + 1) = step.apply (admissionTables steps n) :=
      Runs.exists_step_of_getElem? hstep
    rw [hnext]
    exact step.losesEnded_apply (sound_admissionTables steps n)

theorem Tables.admitExecution_of_created {tables tables' : Tables} {admission : Admission}
    {record : ExecutionRecord}
    (h : tables.createExecutionWithPlanGuarded admission = .ok ((record, true), tables')) :
    tables.admitExecution admission = .ok (record, tables') := by
  obtain ⟨found, -, hrest⟩ := except_bind_eq_ok h
  cases found with
  | some other => cases hrest
  | none =>
    obtain ⟨⟨⟩, -, hrest⟩ := except_bind_eq_ok hrest
    obtain ⟨⟨other, next⟩, hadmit, hrest⟩ := except_bind_eq_ok hrest
    cases hrest
    exact hadmit

/-- The plugin that a requirement of an admitted execution names is pinned, with its content. -/
theorem Tables.mem_pins_of_admitExecution {tables tables' : Tables} {admission : Admission}
    {record : ExecutionRecord} (h : tables.admitExecution admission = .ok (record, tables'))
    (hsound : tables'.PluginsSound) {requirement : PluginRequirement}
    (hrequirement : requirement ∈ admission.plugins) {plugin : PluginRow}
    (hplugin : tables.plugin requirement.pluginId = some plugin) :
    plugin.pin admission.executionId ∈ tables'.pins := by
  obtain ⟨status, pinned, -, hpin, -, hpins, hplugins, -⟩ := admitExecution_eq_ok h
  obtain ⟨pin, hmem, hexecution, hid⟩ := (pinPlugins_eq_ok hpin).2 requirement hrequirement
  rw [← hpins] at hmem
  obtain ⟨current, hcurrent, hcontent⟩ := hsound.pinned pin hmem
  obtain ⟨hmemPlugin, hpluginId⟩ := Table.mem_of_lookup hplugin
  rw [← hplugins] at hmemPlugin
  have hcurrentId : current.id = plugin.id := by
    rw [hpluginId, ← hid, hcontent]
    rfl
  obtain rfl := hsound.eq_of_id hmemPlugin hcurrent hcurrentId
  rw [hcontent, hexecution] at hmem
  exact hmem

end Runs

/-- **An execution under way holds the pins of its plugins**, in every run whose admissions through
the executions endpoint use no plugins: from the admission on, and as long as the execution has not
ended, it has a pin on the installed plugin of every node of its plan, at any depth, with the
content the plugin had at admission. -/
theorem executions_hold_their_pins (steps : List AdmissionStep)
    (h : Runs.Meets AdmissionStep.apply AdmissionStep.PinsPlugins {} steps) (k n : Nat)
    (submitter : Submitter) (preparation : Preparation) (admission : Tables.Admission)
    (hadmits : AdmitsAt steps k submitter preparation admission) (hkn : k < n)
    (hlive : ∀ m, k < m → m ≤ n → UnderWay steps admission.executionId m) :
    (∃ row ∈ (admissionTables steps (k + 1)).plans,
      row.executionId = admission.executionId ∧ row.plan = admission.plan) ∧
    ∀ node, WorkflowNode.Within (admission.plan.nodes.map PlannedNode.node) node →
      ∀ entry, preparation.catalog.get? node.nodeType = some entry →
        ∀ plugin, (admissionTables steps k).plugin entry.manifestId = some plugin →
          plugin.pin admission.executionId ∈ (admissionTables steps n).pins := by
  obtain ⟨record, tables', hcreated⟩ := hadmits.created
  have hadmit := Tables.admitExecution_of_created hcreated
  have hnext : admissionTables steps (k + 1) = tables' := by
    have hrun : admissionTables steps (k + 1) =
        (AdmissionStep.submit submitter preparation).apply (admissionTables steps k) :=
      Runs.exists_step_of_getElem? hadmits.step
    rw [hrun, AdmissionStep.apply, AdmissionStep.pluginCall, hadmits.prepared]
    change StoreCall.apply _ (.create admission) = tables'
    rw [StoreCall.apply, hcreated]
    rfl
  obtain ⟨-, hnodes, hrequired⟩ := Preparation.admission_eq_ok hadmits.prepared
  refine ⟨?_, fun node hnode entry hentry plugin hplugin => ?_⟩
  · obtain ⟨status, pinned, -, -, -, -, -, hplans, -⟩ := Tables.admitExecution_eq_ok hadmit
    rw [hnext, hplans]
    exact ⟨_, List.mem_append_right _ (List.mem_singleton_self _), rfl, rfl⟩
  · rw [hnodes] at hnode
    have hsubmitter : submitter ≠ .api := by
      rintro rfl
      have hcondition := h.getElem? hadmits.step node hnode entry hentry
      have hinstalled : (admissionTables steps k).plugin entry.manifestId = none := hcondition
      rw [hplugin] at hinstalled
      cases hinstalled
    obtain ⟨requirement, hrequirement, hid⟩ := hrequired hsubmitter node hnode entry hentry
    rw [← hid] at hplugin
    have hbase : plugin.pin admission.executionId ∈ (admissionTables steps (k + 1)).pins := by
      have hsound := (sound_admissionTables steps (k + 1)).plugins
      rw [hnext] at hsound ⊢
      exact Tables.mem_pins_of_admitExecution hadmit hsound hrequirement hplugin
    -- from there on, a pin is lost only when its execution ends
    clear hplugin hid
    induction n, hkn using Nat.le_induction with
    | base => exact hbase
    | succ n hkn ih =>
      have hbefore := ih fun m hm hmn => hlive m hm (hmn.trans n.le_succ)
      obtain ⟨row, hrow, hrowId, hrunning⟩ := hlive (n + 1) (hkn.trans n.le_succ) le_rfl
      by_contra hlost
      exact hrunning (losesEnded_admissionTables steps n _ hbefore hlost row hrow hrowId)

/-- The plugin node of the concrete runs, in the body of a foreach. -/
def pluginNode : WorkflowNode := { id := "b", nodeType := "p.node@1" }

def foreachPluginDocument : WorkflowDocument :=
  sampleDocument "a"
    [{ id := "a", nodeType := "kakune.flow.foreach@1",
       config := [("maxConcurrency", .number (.int 1))],
       inputs := [("items", .literal (.array []))],
       body := some { entry := "b", nodes := [pluginNode] } }]

/-- The catalog knows the node type of the installed plugin. -/
def samplePreparation : Preparation where
  document := foreachPluginDocument
  workflowRevision := "r1"
  catalog := [("p.node@1", {
    manifestId := "p"
    version := "1.0.0"
    manifestPath := some "plugins/p/1.0.0/plugin.json"
    contentDigest := "sha256:1" })]
  packageDigest := fun _ => .ok "sha256:1"
  executionId := "e1"
  createdAt := "2026-01-01T00:00:00Z"

theorem within_samplePreparation :
    WorkflowNode.Within samplePreparation.document.nodes pluginNode :=
  .nested (.top List.mem_cons_self) List.mem_cons_self List.mem_cons_self

/-- The plugin is installed and the workflow stored; a submitter asks for a run. -/
def submittedSteps (submitter : Submitter) : List AdmissionStep :=
  [.call (.upsert samplePlugin),
    .call (.workflows [{ id := "sample", revision := "r1", status := "enabled" }]),
    .submit submitter samplePreparation]

/-- What the management endpoint admits. -/
def managementAdmission : Tables.Admission where
  executionId := "e1"
  workflowName := "sample"
  workflowRevision := "r1"
  plan := { planOf foreachPluginDocument with policy := { timeout := some "300s" } }
  requireCurrentRevision := true
  plugins := [{
    pluginId := "p"
    version := some "1.0.0"
    manifestPath := some "plugins/p/1.0.0/plugin.json"
    digest := some "sha256:1" }]
  createdAt := "2026-01-01T00:00:00Z"

/-- The management endpoint pins the plugin of the nested node. -/
theorem management_pins_the_nested_plugin :
    samplePlugin.row.pin "e1" ∈ (admissionTables (submittedSteps .management) 3).pins := by
  have hadmits : AdmitsAt (submittedSteps .management) 2 .management samplePreparation
      managementAdmission := ⟨rfl, rfl, _, _, rfl⟩
  have hlive : ∀ m, 2 < m → m ≤ 3 → UnderWay (submittedSteps .management) "e1" m := by
    intro m hm hm'
    obtain rfl : m = 3 := by omega
    exact ⟨_, List.mem_singleton_self _, rfl, by decide⟩
  exact (executions_hold_their_pins (submittedSteps .management)
    ⟨trivial, trivial, trivial, trivial⟩
    2 3 .management samplePreparation managementAdmission hadmits (by decide) hlive).2 pluginNode
    within_samplePreparation _ rfl samplePlugin.row rfl

/-- The executions endpoint admits the same run without a pin. -/
theorem endpoint_takes_no_pin :
    WorkflowNode.Within samplePreparation.document.nodes pluginNode ∧
      (samplePreparation.catalog.get? pluginNode.nodeType).map CatalogNode.manifestId = some "p" ∧
      (admissionTables (submittedSteps .api) 2).plugin "p" = some samplePlugin.row ∧
      ((admissionTables (submittedSteps .api) 3).executions.map fun row => (row.id, row.status)) =
        [("e1", .running)] ∧
      (admissionTables (submittedSteps .api) 3).pins = [] :=
  ⟨within_samplePreparation, by decide +kernel⟩

end KakuneCore
