import KakuneCore.Planner.PlanView

/-!
# What the checks look at

The checks of the parser and of the planner look at a node's inputs and graphs in few places; of the
nodes around it they see the **skeleton** only: id, type, config, routes and retry policy. A
function of a list of nodes that sees skeletons only has the same value for two lists of the same
skeletons, and `validateSubgraph_congr` turns an agreement of the nodes, one by one, into one of
whole graphs.
-/

namespace KakuneCore

/-! ### Skeletons -/

/-- A node without its inputs and its graphs. -/
def WorkflowNode.skeleton (node : WorkflowNode) : WorkflowNode :=
  { node with inputs := [], branches := [], body := none }

/-- A function that sees the skeletons of the nodes only. -/
def SeesSkeletons {α : Sort*} (f : List WorkflowNode → α) : Prop :=
  ∀ nodes, f (nodes.map WorkflowNode.skeleton) = f nodes

/-- Two lists of nodes of the same skeletons. -/
def SameSkeletons (nodes nodes' : List WorkflowNode) : Prop :=
  nodes.map WorkflowNode.skeleton = nodes'.map WorkflowNode.skeleton

theorem SeesSkeletons.eq {α : Sort*} {f : List WorkflowNode → α} (hf : SeesSkeletons f)
    {nodes nodes' : List WorkflowNode} (h : SameSkeletons nodes nodes') : f nodes = f nodes' := by
  rw [← hf nodes, h, hf nodes']

theorem sameSkeletons_around {before after : List WorkflowNode} {node node' : WorkflowNode}
    (h : node.skeleton = node'.skeleton) :
    SameSkeletons (before ++ node :: after) (before ++ node' :: after) := by
  simp [SameSkeletons, h]

theorem seesSkeletons_ids : SeesSkeletons nodeIds := by
  intro nodes
  rw [nodeIds, List.map_map]
  rfl

theorem seesSkeletons_isEmpty : SeesSkeletons (List.isEmpty : List WorkflowNode → Bool) := by
  intro nodes
  cases nodes with
  | nil => rfl
  | cons node nodes => rfl

theorem seesSkeletons_incoming : SeesSkeletons incoming := by
  intro nodes
  funext id
  rw [incoming, List.flatMap_map]
  rfl

theorem nodeById_skeletons (nodes : List WorkflowNode) (id : String) :
    nodeById (nodes.map WorkflowNode.skeleton) id =
      (nodeById nodes id).map WorkflowNode.skeleton := by
  rw [nodeById, ← List.map_reverse, List.find?_map]
  rfl

theorem seesSkeletons_controlSuccessors : SeesSkeletons controlSuccessors := by
  intro nodes
  funext id
  rw [controlSuccessors, nodeById_skeletons, Option.map_map]
  rfl

theorem seesSkeletons_controlPredecessors : SeesSkeletons controlPredecessors := by
  intro nodes
  funext id
  rw [controlPredecessors, List.flatMap_map]
  rfl

theorem seesSkeletons_searchFuel : SeesSkeletons searchFuel := by
  intro nodes
  rw [searchFuel, List.flatMap_map]
  rfl

theorem seesSkeletons_reachableNodes : SeesSkeletons reachableNodes := by
  intro nodes
  funext entry
  rw [reachableNodes, seesSkeletons_controlSuccessors, seesSkeletons_searchFuel]
  rfl

theorem seesSkeletons_controlReaches : SeesSkeletons controlReaches := by
  intro nodes
  funext source target
  rw [controlReaches, seesSkeletons_controlSuccessors, seesSkeletons_searchFuel]
  rfl

theorem seesSkeletons_controlAncestors : SeesSkeletons controlAncestors := by
  intro nodes
  funext target
  rw [controlAncestors, seesSkeletons_controlPredecessors, seesSkeletons_searchFuel]
  rfl

theorem seesSkeletons_visit : SeesSkeletons visit := by
  intro nodes
  funext depth
  induction depth with
  | zero => rfl
  | succ depth ih =>
    funext id state
    rw [visit, visit, nodeById_skeletons, ih]
    rcases nodeById nodes id with - | node
    · rfl
    · rfl

theorem seesSkeletons_ensureAcyclic : SeesSkeletons ensureAcyclic := by
  intro nodes
  rw [ensureAcyclic, seesSkeletons_visit, List.length_map, List.foldlM_map]
  rfl

theorem checkEach_map {α β : Type} {check : β → Except String Unit} (f : α → β) (xs : List α) :
    checkEach check (xs.map f) = checkEach (fun x => check (f x)) xs := by
  induction xs with
  | nil => rfl
  | cons x xs ih => rw [List.map_cons, checkEach, checkEach, ih]

theorem seesSkeletons_validateTargets : SeesSkeletons validateTargets := by
  intro nodes
  funext routeField field
  have hids : (nodes.map WorkflowNode.skeleton).map WorkflowNode.id = nodes.map WorkflowNode.id :=
    seesSkeletons_ids nodes
  rw [validateTargets, validateTargets, checkEach_map, hids]
  rfl

theorem seesSkeletons_validateConvergences : SeesSkeletons validateConvergences := by
  intro nodes
  funext field
  rw [validateConvergences, validateConvergences, checkEach_map, seesSkeletons_incoming]
  rfl

theorem seesSkeletons_lexicalBindingsBeforeNode : SeesSkeletons lexicalBindingsBeforeNode := by
  intro nodes
  funext consumer inherited
  rw [lexicalBindingsBeforeNode, lexicalBindingsBeforeNode, seesSkeletons_controlAncestors,
    List.filter_map, List.filterMap_map]
  rfl

theorem seesSkeletons_lexicalBindingsForOutputs : SeesSkeletons lexicalBindingsForOutputs := by
  intro nodes
  funext inherited
  rw [lexicalBindingsForOutputs, lexicalBindingsForOutputs, List.filterMap_map]
  rfl

theorem seesSkeletons_validateFromReference : SeesSkeletons validateFromReference := by
  intro nodes
  funext lexical consumer pointer name source
  simp only [validateFromReference, seesSkeletons_controlReaches nodes, nodeById_skeletons]
  split
  · rfl
  · rcases splitOnceDot source with - | ⟨producerId, output⟩
    · rfl
    · dsimp only
      rcases nodeById nodes producerId with - | producer
      · rfl
      · rfl

theorem seesSkeletons_validateOutputBinding : SeesSkeletons validateOutputBinding := by
  intro nodes
  funext entry lexical name binding
  rcases binding with - | source | - | -
  · rfl
  · simp only [validateOutputBinding, seesSkeletons_reachableNodes nodes, nodeById_skeletons]
    split
    · rfl
    · rcases splitOnceDot source with - | ⟨nodeId, output⟩
      · rfl
      · dsimp only
        rcases nodeById nodes nodeId with - | node
        · rfl
        · rfl
  · rfl
  · rfl

theorem seesSkeletons_nodeDiagnostics (plugins : PluginRegistry) :
    SeesSkeletons (nodeDiagnostics plugins) := by
  intro nodes
  funext entry inherited pointer node
  simp only [nodeDiagnostics, validateBindingReference, seesSkeletons_reachableNodes nodes,
    seesSkeletons_lexicalBindingsBeforeNode nodes, seesSkeletons_validateFromReference nodes]

theorem seesSkeletons_nestedDiagnostics (policy : WorkflowPolicy) (plugins : PluginRegistry) :
    SeesSkeletons (nestedDiagnostics policy plugins) := by
  intro nodes
  funext inherited pointer index rest
  induction rest generalizing index with
  | nil => rfl
  | cons node rest ih =>
    rw [nestedDiagnostics, nestedDiagnostics, ih, seesSkeletons_lexicalBindingsBeforeNode]

/-! ### Agreeing bindings -/

/-- Two bindings the parser does not tell apart: one binding, or two expressions that are checked
alike. -/
inductive BindingAgrees : WorkflowBinding → WorkflowBinding → Prop
  | same (binding : WorkflowBinding) : BindingAgrees binding binding
  | expr {expr expr' : Value} :
      (∀ levels field, validateExpression levels expr field =
        validateExpression levels expr' field) →
      BindingAgrees (.expr expr) (.expr expr')

/-- Bindings under the same names that agree one by one. -/
abbrev InputsAgree (inputs inputs' : StrMap WorkflowBinding) : Prop :=
  List.Forall₂
    (fun entry entry' => entry.1 = entry'.1 ∧ BindingAgrees entry.2 entry'.2) inputs inputs'

section Agreement

variable {inputs inputs' : StrMap WorkflowBinding}

theorem InputsAgree.refl (inputs : StrMap WorkflowBinding) : InputsAgree inputs inputs :=
  List.forall₂_same.mpr fun entry _ => ⟨rfl, .same entry.2⟩

theorem InputsAgree.around (before after : StrMap WorkflowBinding) (name : String)
    {binding binding' : WorkflowBinding} (h : BindingAgrees binding binding') :
    InputsAgree (before ++ (name, binding) :: after) (before ++ (name, binding') :: after) :=
  List.rel_append (InputsAgree.refl before) (.cons ⟨rfl, h⟩ (InputsAgree.refl after))

theorem InputsAgree.contains (h : InputsAgree inputs inputs') (name : String) :
    StrMap.contains inputs name = StrMap.contains inputs' name := by
  induction h with
  | nil => rfl
  | @cons entry entry' inputs inputs' hentry _ ih =>
    obtain ⟨key, binding⟩ := entry
    obtain ⟨key', binding'⟩ := entry'
    obtain ⟨rfl, -⟩ : key = key' ∧ _ := hentry
    rw [StrMap.contains, StrMap.contains, StrMap.get?_cons, StrMap.get?_cons]
    split
    · rfl
    · exact ih

theorem InputsAgree.validateBindings (h : InputsAgree inputs inputs') (field : String) :
    validateBindings inputs field = validateBindings inputs' field := by
  unfold KakuneCore.validateBindings
  induction h with
  | nil => rfl
  | @cons entry entry' inputs inputs' hentry _ ih =>
    obtain ⟨key, binding⟩ := entry
    obtain ⟨key', binding'⟩ := entry'
    obtain ⟨rfl, hbinding⟩ : key = key' ∧ _ := hentry
    rw [checkEach, checkEach, ih]
    cases hbinding with
    | same => rfl
    | expr hexpr => simp only [hexpr]

/-- The local references of agreeing bindings are the same. -/
theorem validateLocals_congr {bindings bindings' : List WorkflowBinding}
    (h : List.Forall₂ BindingAgrees bindings bindings') (lexical : List String) (field : String) :
    validateLocals lexical field bindings = validateLocals lexical field bindings' := by
  unfold validateLocals
  induction h with
  | nil => rfl
  | cons hbinding _ ih =>
    rw [checkEach, checkEach, ih]
    cases hbinding with
    | same => rfl
    | expr => rfl

theorem InputsAgree.values (h : InputsAgree inputs inputs') :
    List.Forall₂ BindingAgrees inputs.values inputs'.values := by
  rw [StrMap.values, StrMap.values, List.forall₂_map_left_iff, List.forall₂_map_right_iff]
  exact h.imp fun _ _ hentry => hentry.2

end Agreement

/-! ### Agreeing nodes -/

/-- Two nodes the parser does not tell apart, given the check of nested graphs. -/
structure NodeAgrees (check : SubgraphCheck) (node node' : WorkflowNode) : Prop where
  skeleton : node.skeleton = node'.skeleton
  inputs : InputsAgree node.inputs node'.inputs
  structured : ∀ field lexical,
    validateStructuredNode check node field lexical =
      validateStructuredNode check node' field lexical

section Nodes

variable {check : SubgraphCheck} {node node' : WorkflowNode} {nodes nodes' : List WorkflowNode}

theorem NodeAgrees.refl (node : WorkflowNode) : NodeAgrees check node node :=
  ⟨rfl, .refl _, fun _ _ => rfl⟩

theorem forall₂_nodeAgrees_around (before after : List WorkflowNode)
    (h : NodeAgrees check node node') :
    List.Forall₂ (NodeAgrees check) (before ++ node :: after) (before ++ node' :: after) :=
  List.rel_append (List.forall₂_same.mpr fun _ _ => .refl _)
    (.cons h (List.forall₂_same.mpr fun _ _ => .refl _))

theorem NodeAgrees.id_eq (h : NodeAgrees check node node') : node.id = node'.id :=
  (congrArg WorkflowNode.id h.skeleton : node.skeleton.id = node'.skeleton.id)

theorem NodeAgrees.nodeType_eq (h : NodeAgrees check node node') : node.nodeType = node'.nodeType :=
  (congrArg WorkflowNode.nodeType h.skeleton : node.skeleton.nodeType = node'.skeleton.nodeType)

theorem NodeAgrees.config_eq (h : NodeAgrees check node node') : node.config = node'.config :=
  (congrArg WorkflowNode.config h.skeleton : node.skeleton.config = node'.skeleton.config)

theorem NodeAgrees.validateRetry (h : NodeAgrees check node node') (field : String) :
    validateRetry node field = validateRetry node' field :=
  (congrArg (KakuneCore.validateRetry · field) h.skeleton :
    KakuneCore.validateRetry node.skeleton field = KakuneCore.validateRetry node'.skeleton field)

theorem NodeAgrees.validateAiNode (h : NodeAgrees check node node') (field : String) :
    validateAiNode node field = validateAiNode node' field := by
  simp only [KakuneCore.validateAiNode, h.id_eq, h.nodeType_eq, h.config_eq, h.inputs.contains]

theorem sameSkeletons_of_nodeAgrees (h : List.Forall₂ (NodeAgrees check) nodes nodes') :
    SameSkeletons nodes nodes' := by
  rw [SameSkeletons, ← List.forall₂_eq_eq_eq, List.forall₂_map_left_iff,
    List.forall₂_map_right_iff]
  exact h.imp fun _ _ hnode => hnode.skeleton

theorem checkDistinct_congr {α : Type} {id : α → String} {before after : α → Except String Unit}
    {duplicate : String → String} {seen : List String} {xs ys : List α}
    (h : List.Forall₂ (fun x y => id x = id y ∧ before x = before y ∧ after x = after y) xs ys) :
    checkDistinct id before after duplicate seen xs =
      checkDistinct id before after duplicate seen ys := by
  induction h generalizing seen with
  | nil => rfl
  | cons hxy _ ih =>
    obtain ⟨hid, hbefore, hafter⟩ := hxy
    rw [checkDistinct, checkDistinct, hid, hbefore, hafter, ih]

theorem checkEach_congr {α : Type} {check : α → Except String Unit} {xs ys : List α}
    (h : List.Forall₂ (fun x y => check x = check y) xs ys) :
    checkEach check xs = checkEach check ys := by
  induction h with
  | nil => rfl
  | cons hxy _ ih => rw [checkEach, checkEach, hxy, ih]

/-- **Agreeing graphs** are checked alike, when nested graphs are. -/
theorem validateSubgraph_congr {levels : Nat} {entry : String}
    {outputs outputs' : StrMap WorkflowBinding}
    (hnodes : List.Forall₂ (NodeAgrees (validateSubgraph levels)) nodes nodes')
    (houtputs : InputsAgree outputs outputs') :
    validateSubgraph (levels + 1) ⟨entry, nodes, outputs⟩ =
      validateSubgraph (levels + 1) ⟨entry, nodes', outputs'⟩ := by
  have hskeletons := sameSkeletons_of_nodeAgrees hnodes
  have hids : nodes.map WorkflowNode.id = nodes'.map WorkflowNode.id :=
    seesSkeletons_ids.eq hskeletons
  have hempty : nodes.isEmpty = nodes'.isEmpty := seesSkeletons_isEmpty.eq hskeletons
  have hlocals : List.Forall₂ BindingAgrees
      (nodes.flatMap (·.inputs.values) ++ outputs.values)
      (nodes'.flatMap (·.inputs.values) ++ outputs'.values) :=
    List.rel_append (List.rel_flatMap hnodes fun _ _ hnode => hnode.inputs.values) houtputs.values
  funext field scope outer
  have hdistinct (lexical : List String) :
      checkDistinct WorkflowNode.id
        (fun node => do
          validateId "subgraph node.id" node.id
          validateNodeType "subgraph node.type" node.nodeType)
        (fun node => do
          validateBindings node.inputs "subgraph node.inputs"
          validateAiNode node field
          validateStructuredNode (validateSubgraph levels) node field lexical
          validateRetry node field)
        (fun id => s!"{field} contains duplicate node id {id}") [] nodes =
      checkDistinct WorkflowNode.id
        (fun node => do
          validateId "subgraph node.id" node.id
          validateNodeType "subgraph node.type" node.nodeType)
        (fun node => do
          validateBindings node.inputs "subgraph node.inputs"
          validateAiNode node field
          validateStructuredNode (validateSubgraph levels) node field lexical
          validateRetry node field)
        (fun id => s!"{field} contains duplicate node id {id}") [] nodes' := by
    refine checkDistinct_congr (hnodes.imp fun node node' hnode => ⟨hnode.id_eq, ?_, ?_⟩)
    · simp only [hnode.id_eq, hnode.nodeType_eq]
    · simp only [hnode.inputs.validateBindings, hnode.validateAiNode, hnode.structured,
        hnode.validateRetry]
  simp only [validateSubgraph]
  rw [hempty, hids, seesSkeletons_validateTargets.eq hskeletons,
    seesSkeletons_validateConvergences.eq hskeletons, seesSkeletons_ensureAcyclic.eq hskeletons,
    houtputs.validateBindings, validateLocals_congr hlocals, hdistinct]

/-- Two nested graphs the check of a control node does not tell apart. -/
structure GraphAgrees (check : SubgraphCheck) (graph graph' : WorkflowSubgraph) : Prop where
  check_eq : check graph = check graph'
  outputs : ∀ name, StrMap.contains graph.outputs name = StrMap.contains graph'.outputs name

theorem GraphAgrees.refl (graph : WorkflowSubgraph) : GraphAgrees check graph graph :=
  ⟨rfl, fun _ => rfl⟩

/-- Branches under the same names that agree one by one. -/
abbrev BranchesAgree (check : SubgraphCheck)
    (branches branches' : List (String × WorkflowSubgraph)) :
    Prop :=
  List.Forall₂ (fun entry entry' => entry.1 = entry'.1 ∧ GraphAgrees check entry.2 entry'.2)
    branches branches'

theorem BranchesAgree.contains {branches branches' : List (String × WorkflowSubgraph)}
    (h : BranchesAgree check branches branches') (name : String) :
    StrMap.contains branches name = StrMap.contains branches' name := by
  induction h with
  | nil => rfl
  | @cons entry entry' _ _ hentry _ ih =>
    obtain ⟨key, graph⟩ := entry
    obtain ⟨key', graph'⟩ := entry'
    obtain ⟨rfl, -⟩ : key = key' ∧ _ := hentry
    rw [StrMap.contains, StrMap.contains, StrMap.get?_cons, StrMap.get?_cons]
    split
    · rfl
    · exact ih

/-- The check of a control node looks at the names of its inputs and at its graphs. -/
theorem validateStructuredNode_congr (hskeleton : node.skeleton = node'.skeleton)
    (hinputs : ∀ name, StrMap.contains node.inputs name = StrMap.contains node'.inputs name)
    (hbranches : BranchesAgree check node.branches node'.branches)
    (hbody : Option.Rel (GraphAgrees check) node.body node'.body) (field : String)
    (lexical : List String) :
    validateStructuredNode check node field lexical =
      validateStructuredNode check node' field lexical := by
  obtain ⟨id, nodeType, config, inputs, on, retry, branches, body⟩ := node
  obtain ⟨id', nodeType', config', inputs', on', retry', branches', body'⟩ := node'
  simp only [WorkflowNode.skeleton, WorkflowNode.mk.injEq, true_and, and_true] at hskeleton
  obtain ⟨rfl, rfl, rfl, rfl, rfl⟩ := hskeleton
  dsimp only at hinputs hbranches hbody
  have hempty : branches.isEmpty = branches'.isEmpty := by
    cases hbranches with
    | nil => rfl
    | cons => rfl
  have hnone : body.isNone = body'.isNone := by
    cases hbody with
    | some => rfl
    | none => rfl
  simp only [validateStructuredNode, WorkflowNode.kind, WorkflowNode.variableName, hinputs, hempty,
    hnone]
  split
  · -- the branches of a switch are checked one by one
    have hbranch : ∀ entry other : String × WorkflowSubgraph,
        entry.1 = other.1 ∧ GraphAgrees check entry.2 other.2 →
        (do validateId "switch branch" entry.1
            check entry.2 s!"{field} {id} branch {entry.1}" .switch lexical
            ensure (!entry.2.outputs.contains "branch")
              s!"{field} {id} branch {entry.1} cannot define reserved output branch") =
          (do validateId "switch branch" other.1
              check other.2 s!"{field} {id} branch {other.1}" .switch lexical
              ensure (!other.2.outputs.contains "branch")
                s!"{field} {id} branch {other.1} cannot define reserved output branch") := by
      rintro entry other ⟨hname, hgraph⟩
      simp only [hname, hgraph.check_eq, hgraph.outputs]
    have heach := checkEach_congr (hbranches.imp fun entry other h => hbranch entry other h)
    simp only [validateSwitch, validateControlKeys, validateSwitchCases, validateSwitchDefault,
      hnone, hinputs, hbranches.contains, heach]
  · simp only [validateForeach, validateControlKeys, validateForeachConfig, hempty, hinputs]
    cases hbody with
    | some hgraph => simp only [hgraph.check_eq]
    | none => rfl
  · simp only [validateLoop, validateControlKeys, validateLoopConfig, hempty, hinputs]
    cases hbody with
    | some hgraph => simp only [hgraph.check_eq, hgraph.outputs]
    | none => rfl
  all_goals rfl

theorem BranchesAgree.refl (branches : List (String × WorkflowSubgraph)) :
    BranchesAgree check branches branches :=
  List.forall₂_same.mpr fun entry _ => ⟨rfl, .refl entry.2⟩

theorem BranchesAgree.around (before after : List (String × WorkflowSubgraph)) (name : String)
    {graph graph' : WorkflowSubgraph} (h : GraphAgrees check graph graph') :
    BranchesAgree check (before ++ (name, graph) :: after) (before ++ (name, graph') :: after) :=
  List.rel_append (BranchesAgree.refl before) (.cons ⟨rfl, h⟩ (BranchesAgree.refl after))

theorem bodyAgrees_refl (body : Option WorkflowSubgraph) :
    Option.Rel (GraphAgrees check) body body := by
  cases body with
  | none => exact .none
  | some graph => exact .some (.refl graph)

/-- Nodes agree when their inputs and graphs do. -/
theorem NodeAgrees.of_parts (hskeleton : node.skeleton = node'.skeleton)
    (hinputs : InputsAgree node.inputs node'.inputs)
    (hbranches : BranchesAgree check node.branches node'.branches)
    (hbody : Option.Rel (GraphAgrees check) node.body node'.body) : NodeAgrees check node node' :=
  ⟨hskeleton, hinputs,
    validateStructuredNode_congr hskeleton hinputs.contains hbranches hbody⟩

/-- Two triggers the parser does not tell apart. -/
structure TriggerAgrees (trigger trigger' : WorkflowTrigger) : Prop where
  id_eq : trigger.id = trigger'.id
  nodeType_eq : trigger.nodeType = trigger'.nodeType
  map : InputsAgree trigger.map trigger'.map

/-- **Agreeing documents** are both valid or both refused. -/
theorem validate_congr {doc : WorkflowDocument} {outputs : StrMap WorkflowBinding}
    {triggers : List WorkflowTrigger}
    (hnodes : List.Forall₂ (NodeAgrees (validateSubgraph 32)) doc.nodes nodes)
    (houtputs : InputsAgree doc.outputs outputs)
    (htriggers : List.Forall₂ TriggerAgrees doc.triggers triggers) :
    doc.validate = { doc with nodes, outputs, triggers }.validate := by
  have hskeletons := sameSkeletons_of_nodeAgrees hnodes
  have hids : doc.nodes.map WorkflowNode.id = nodes.map WorkflowNode.id :=
    seesSkeletons_ids.eq hskeletons
  have hempty : doc.triggers.isEmpty = triggers.isEmpty := by
    rw [Bool.eq_iff_iff, List.isEmpty_iff_length_eq_zero, List.isEmpty_iff_length_eq_zero,
      htriggers.length_eq]
  have htriggerChecks :
      checkDistinct WorkflowTrigger.id
        (fun trigger => do
          validateId "trigger.id" trigger.id
          validateNodeType "trigger.type" trigger.nodeType)
        (fun trigger => validateBindings trigger.map "trigger.map")
        (fun id => s!"duplicate trigger id: {id}") [] doc.triggers =
      checkDistinct WorkflowTrigger.id
        (fun trigger => do
          validateId "trigger.id" trigger.id
          validateNodeType "trigger.type" trigger.nodeType)
        (fun trigger => validateBindings trigger.map "trigger.map")
        (fun id => s!"duplicate trigger id: {id}") [] triggers := by
    refine checkDistinct_congr (htriggers.imp fun trigger trigger' h => ⟨h.id_eq, ?_, ?_⟩)
    · simp only [h.id_eq, h.nodeType_eq]
    · exact h.map.validateBindings "trigger.map"
  have hnodeChecks :
      checkDistinct WorkflowNode.id
        (fun node => do
          validateId "node.id" node.id
          validateNodeType "node.type" node.nodeType)
        (fun node => do
          validateBindings node.inputs "node.inputs"
          validateAiNode node "node")
        (fun id => s!"duplicate node id: {id}") [] doc.nodes =
      checkDistinct WorkflowNode.id
        (fun node => do
          validateId "node.id" node.id
          validateNodeType "node.type" node.nodeType)
        (fun node => do
          validateBindings node.inputs "node.inputs"
          validateAiNode node "node")
        (fun id => s!"duplicate node id: {id}") [] nodes := by
    refine checkDistinct_congr (hnodes.imp fun node node' h => ⟨h.id_eq, ?_, ?_⟩)
    · simp only [h.id_eq, h.nodeType_eq]
    · simp only [h.inputs.validateBindings, h.validateAiNode]
  have hstructured :
      checkEach (fun node => do
        validateStructuredNode (validateSubgraph 32) node "node" []
        validateRetry node "node") doc.nodes =
      checkEach (fun node => do
        validateStructuredNode (validateSubgraph 32) node "node" []
        validateRetry node "node") nodes := by
    refine checkEach_congr (hnodes.imp fun node node' h => ?_)
    simp only [h.structured, h.validateRetry]
  simp only [WorkflowDocument.validate]
  rw [hempty, seesSkeletons_isEmpty.eq hskeletons, htriggerChecks, hnodeChecks, hids,
    seesSkeletons_validateTargets.eq hskeletons, houtputs.validateBindings,
    seesSkeletons_ensureAcyclic.eq hskeletons, seesSkeletons_validateConvergences.eq hskeletons,
    hstructured]

end Nodes

end KakuneCore
