import KakuneCore.Planner.LexicalScope
import KakuneCore.Planner.Literals

/-!
# Replacing a literal

A document with a hole for the value of a literal inside an expression is a function of that value,
`DocumentHole`. The parser, the graph limits and the catalog do not tell two fillings apart; the
reference checks, the plan view and the secret detector take what the value **looks like** for what
it means. `literal_is_opaque_iff` says for which pairs of values the literal can be replaced without
a trace.
-/

namespace KakuneCore

/-! ### Holes of a graph -/

namespace WorkflowNode

/-- A node with an expression among its inputs. -/
def withInput (node : WorkflowNode) (before after : StrMap WorkflowBinding) (name : String)
    (expr : Value) : WorkflowNode :=
  { node with inputs := before ++ (name, .expr expr) :: after }

/-- A node with a graph among its branches. -/
def withBranch (node : WorkflowNode) (before after : List (String × WorkflowSubgraph))
    (name : String) (graph : WorkflowSubgraph) : WorkflowNode :=
  { node with branches := before ++ (name, graph) :: after }

def withBody (node : WorkflowNode) (graph : WorkflowSubgraph) : WorkflowNode :=
  { node with body := some graph }

end WorkflowNode

/-- An input whose references the planner checks: the nodes of its graph, the names of its lexical
scope, its node and its name. -/
structure LiteralSite where
  nodes : List WorkflowNode
  lexical : List String
  consumer : WorkflowNode
  name : String

/-- A reference is in order there: its `$name` is in scope, or it names an output of a node that
reaches the consumer, of a type that fits the input. -/
structure LiteralSite.Allows (site : LiteralSite) (source : String) : Prop where
  available : startsWithDollar source = true → localAvailable site.lexical source = true
  produced : startsWithDollar source = false → ∃ producerId output producer,
    splitOnceDot source = some (producerId, output) ∧
      nodeById site.nodes producerId = some producer ∧
      controlReaches site.nodes producerId site.consumer.id = true ∧
      (∀ definition, nodeDefinition producer.nodeType = some definition →
        definition.dynamicOutputs = true ∨ (portKind definition.outputs output).isSome = true) ∧
      ∀ expected actual, inputKind site.consumer.nodeType site.name = some expected →
        outputKind producer.nodeType output = some actual →
          expected = .any ∨ actual = .any ∨ expected = actual

theorem unknownOutput_eq_nil {producer : WorkflowNode} {output pointer : String} :
    unknownOutput producer output pointer = [] ↔
      ∀ definition, nodeDefinition producer.nodeType = some definition →
        definition.dynamicOutputs = true ∨ (portKind definition.outputs output).isSome = true := by
  unfold unknownOutput
  rcases nodeDefinition producer.nodeType with - | definition
  · simp
  · rcases hdynamic : definition.dynamicOutputs
    · simp [hdynamic, Option.isSome_iff_ne_none]
    · simp [hdynamic]

theorem incompatibleType_eq_nil {source name : String} {consumer producer : WorkflowNode}
    {output pointer : String} :
    incompatibleType source name consumer producer output pointer = [] ↔
      ∀ expected actual, inputKind consumer.nodeType name = some expected →
        outputKind producer.nodeType output = some actual →
          expected = .any ∨ actual = .any ∨ expected = actual := by
  unfold incompatibleType
  rcases inputKind consumer.nodeType name with - | expected
  · simp
  · rcases outputKind producer.nodeType output with - | actual
    · simp
    · simp
      tauto

/-- **`validate_from_reference`** has nothing to report about a reference that is in order. -/
theorem LiteralSite.validateFromReference_eq_nil (site : LiteralSite) (pointer source : String) :
    validateFromReference site.nodes site.lexical site.consumer pointer site.name source = [] ↔
      site.Allows source := by
  unfold validateFromReference
  by_cases hdollar : startsWithDollar source = true
  · by_cases havailable : localAvailable site.lexical source = true
    · simp only [hdollar, havailable, if_true, true_iff]
      exact ⟨fun _ => havailable, fun h => by simp [hdollar] at h⟩
    · simp only [hdollar, havailable, if_true]
      exact iff_of_false (List.cons_ne_nil _ _) fun h => havailable (h.available hdollar)
  · have hplain : startsWithDollar source = false := by simpa using hdollar
    simp only [hplain, Bool.false_eq_true, if_false]
    constructor
    · intro h
      refine ⟨fun hd => absurd hd hdollar, fun _ => ?_⟩
      rcases hsplit : splitOnceDot source with - | ⟨producerId, output⟩
      · simp [hsplit] at h
      · rcases hnode : nodeById site.nodes producerId with - | producer
        · simp [hsplit, hnode] at h
        · simp only [hsplit, hnode, List.append_eq_nil_iff, unknownOutput_eq_nil,
            incompatibleType_eq_nil] at h
          obtain ⟨⟨hreach, houtput⟩, htype⟩ := h
          refine ⟨producerId, output, producer, rfl, hnode, ?_, houtput, htype⟩
          by_contra hnot
          simp [hnot] at hreach
    · intro h
      obtain ⟨producerId, output, producer, hsplit, hnode, hreach, houtput, htype⟩ :=
        h.produced hplain
      simp only [hsplit, hnode, hreach, if_true, List.nil_append, List.append_eq_nil_iff,
        unknownOutput_eq_nil, incompatibleType_eq_nil]
      exact ⟨houtput, htype⟩

/-- A graph with a hole for a literal of an input or output expression, of its own or of a graph
nested in it. An input also has a site, in which the hole is filled with `null`. -/
inductive GraphHole (hole : Value → Value) :
    List String → (Value → WorkflowSubgraph) → Option LiteralSite → Prop
  | input (inherited : List String) (entry : String) (outputs : StrMap WorkflowBinding)
      (before after : List WorkflowNode) (node : WorkflowNode)
      (bindings bindings' : StrMap WorkflowBinding) (name : String) :
      GraphHole hole inherited
        (fun value => ⟨entry,
          before ++ node.withInput bindings bindings' name (hole value) :: after, outputs⟩)
        (some ⟨before ++ node :: after,
          lexicalBindingsBeforeNode (before ++ node :: after) node inherited,
          node.withInput bindings bindings' name (hole .null), name⟩)
  | output (inherited : List String) (entry : String) (nodes : List WorkflowNode)
      (bindings bindings' : StrMap WorkflowBinding) (name : String) :
      GraphHole hole inherited
        (fun value => ⟨entry, nodes, bindings ++ (name, .expr (hole value)) :: bindings'⟩) none
  | branch (inherited : List String) (entry : String) (outputs : StrMap WorkflowBinding)
      (before after : List WorkflowNode) (node : WorkflowNode)
      (branches branches' : List (String × WorkflowSubgraph)) (name : String)
      {graph : Value → WorkflowSubgraph} {site : Option LiteralSite} :
      GraphHole hole (plannerNames (before ++ node :: after) inherited node) graph site →
      GraphHole hole inherited
        (fun value => ⟨entry,
          before ++ node.withBranch branches branches' name (graph value) :: after, outputs⟩) site
  | body (inherited : List String) (entry : String) (outputs : StrMap WorkflowBinding)
      (before after : List WorkflowNode) (node : WorkflowNode)
      {graph : Value → WorkflowSubgraph} {site : Option LiteralSite} :
      GraphHole hole (plannerNames (before ++ node :: after) inherited node) graph site →
      GraphHole hole inherited
        (fun value => ⟨entry, before ++ node.withBody (graph value) :: after, outputs⟩) site

/-- Graphs whose nodes and outputs agree at every nesting depth. -/
theorem graphAgrees_of {graph graph' : WorkflowSubgraph}
    (h : ∀ levels, graph.entry = graph'.entry ∧
      List.Forall₂ (NodeAgrees (validateSubgraph levels)) graph.nodes graph'.nodes ∧
        InputsAgree graph.outputs graph'.outputs) (levels : Nat) :
    GraphAgrees (validateSubgraph levels) graph graph' := by
  cases levels with
  | zero => exact ⟨rfl, (h 0).2.2.contains⟩
  | succ levels =>
    obtain ⟨entry, nodes, outputs⟩ := graph
    obtain ⟨entry', nodes', outputs'⟩ := graph'
    obtain ⟨rfl, hnodes, houtputs⟩ := h levels
    exact ⟨validateSubgraph_congr hnodes houtputs, houtputs.contains⟩

section Around

variable {before after : List WorkflowNode} {node node' : WorkflowNode}

theorem nestedMetrics_append (depth : Nat) (metrics : GraphMetrics)
    (nodes nodes' : List WorkflowNode) :
    nestedMetrics depth metrics (nodes ++ nodes') =
      nestedMetrics depth (nestedMetrics depth metrics nodes) nodes' := by
  induction nodes generalizing metrics with
  | nil => rfl
  | cons node nodes ih => rw [List.cons_append, nestedMetrics, nestedMetrics, ih]

theorem branchMetrics_append (depth : Nat) (metrics : GraphMetrics)
    (branches branches' : List (String × WorkflowSubgraph)) :
    branchMetrics depth metrics (branches ++ branches') =
      branchMetrics depth (branchMetrics depth metrics branches) branches' := by
  induction branches generalizing metrics with
  | nil => rfl
  | cons entry branches ih =>
    obtain ⟨name, graph⟩ := entry
    rw [List.cons_append, branchMetrics, branchMetrics, ih]

theorem graphMetrics_around {entry : String} {outputs : StrMap WorkflowBinding} {depth : Nat}
    (hroutes : node.on = node'.on)
    (h : ∀ metrics, nodeMetrics depth metrics node = nodeMetrics depth metrics node') :
    graphMetrics ⟨entry, before ++ node :: after, outputs⟩ depth =
      graphMetrics ⟨entry, before ++ node' :: after, outputs⟩ depth := by
  simp only [graphMetrics, nestedMetrics_append, nestedMetrics, h, List.length_append,
    List.length_cons, List.flatMap_append, List.flatMap_cons, hroutes]

theorem validateNodesCatalog_around {plugins : PluginRegistry}
    (h : validateNodeCatalog plugins node = validateNodeCatalog plugins node') :
    validateNodesCatalog plugins (before ++ node :: after) =
      validateNodesCatalog plugins (before ++ node' :: after) := by
  induction before with
  | nil => simp only [List.nil_append, validateNodesCatalog, h]
  | cons first before ih => simp only [List.cons_append, validateNodesCatalog, ih]

theorem validateBranchCatalog_around {plugins : PluginRegistry}
    {before after : List (String × WorkflowSubgraph)} {name : String}
    {graph graph' : WorkflowSubgraph}
    (h : validateNodesCatalog plugins graph.nodes = validateNodesCatalog plugins graph'.nodes) :
    validateBranchCatalog plugins (before ++ (name, graph) :: after) =
      validateBranchCatalog plugins (before ++ (name, graph') :: after) := by
  induction before with
  | nil => simp only [List.nil_append, validateBranchCatalog, h]
  | cons first before ih => simp only [List.cons_append, validateBranchCatalog, ih]

theorem nestedDiagnostics_append (policy : WorkflowPolicy) (plugins : PluginRegistry)
    (all : List WorkflowNode) (inherited : List String) (pointer : String) (index : Nat)
    (nodes nodes' : List WorkflowNode) :
    nestedDiagnostics policy plugins all inherited pointer index (nodes ++ nodes') =
      nestedDiagnostics policy plugins all inherited pointer index nodes ++
        nestedDiagnostics policy plugins all inherited pointer (index + nodes.length) nodes' := by
  induction nodes generalizing index with
  | nil => rfl
  | cons node nodes ih =>
    rw [List.cons_append, nestedDiagnostics, nestedDiagnostics, ih, List.length_cons,
      List.append_assoc, Nat.add_assoc, Nat.add_comm 1]

theorem plannerNames_around (hskeleton : node.skeleton = node'.skeleton) (inherited : List String) :
    plannerNames (before ++ node :: after) inherited node =
      plannerNames (before ++ node' :: after) inherited node' := by
  have hid : node.id = node'.id :=
    (congrArg WorkflowNode.id hskeleton : node.skeleton.id = node'.skeleton.id)
  have hkind : node.kind = node'.kind :=
    (congrArg WorkflowNode.kind hskeleton : node.skeleton.kind = node'.skeleton.kind)
  rw [plannerNames, plannerNames, hkind, seesSkeletons_lexicalBindingsBeforeNode.eq
    (sameSkeletons_around hskeleton), lexicalBindingsBeforeNode, lexicalBindingsBeforeNode, hid]

/-- **One node is replaced** by one of the same skeleton: the graph is accepted as before, if the
node with its own graphs is. -/
theorem validateScopeSemantics_around {policy : WorkflowPolicy} {plugins : PluginRegistry}
    {entry : String} {outputs : StrMap WorkflowBinding} {inherited : List String} {P : Prop}
    (hskeleton : node.skeleton = node'.skeleton)
    (h : ∀ pointer,
      (nodeDiagnostics plugins (before ++ node' :: after) entry inherited pointer node = [] ∧
        nodeNestedDiagnostics policy plugins
          (plannerNames (before ++ node' :: after) inherited node') pointer node = []) ↔
      (nodeDiagnostics plugins (before ++ node' :: after) entry inherited pointer node' = [] ∧
        nodeNestedDiagnostics policy plugins
          (plannerNames (before ++ node' :: after) inherited node') pointer node' = []) ∧ P)
    (pointer : String) :
    validateScopeSemantics policy plugins
      ⟨entry, before ++ node :: after, outputs⟩ inherited pointer
        = [] ↔
      validateScopeSemantics policy plugins ⟨entry, before ++ node' :: after, outputs⟩ inherited
        pointer = [] ∧ P := by
  have hsame : SameSkeletons (before ++ node :: after) (before ++ node' :: after) :=
    sameSkeletons_around hskeleton
  have hlexical := @plannerNames_around before after node node' hskeleton inherited
  rw [plannerNames, seesSkeletons_lexicalBindingsBeforeNode.eq hsame] at hlexical
  have hnode := h s!"{pointer}/nodes/{before.length}"
  simp only [validateScopeSemantics, graphDiagnostics, nestedDiagnostics_append, nestedDiagnostics,
    List.zipIdx_append, List.zipIdx_cons, List.flatMap_append, List.flatMap_cons,
    List.append_eq_nil_iff, Nat.zero_add, (seesSkeletons_nodeDiagnostics plugins).eq hsame,
    (seesSkeletons_nestedDiagnostics policy plugins).eq hsame,
    seesSkeletons_validateOutputBinding.eq hsame, seesSkeletons_lexicalBindingsForOutputs.eq hsame,
    seesSkeletons_lexicalBindingsBeforeNode.eq hsame, hlexical]
  rw [plannerNames] at hnode ⊢
  tauto

theorem branchDiagnostics_append (policy : WorkflowPolicy) (plugins : PluginRegistry)
    (lexical : List String) (pointer : String)
    (branches branches' : List (String × WorkflowSubgraph)) :
    branchDiagnostics policy plugins lexical pointer (branches ++ branches') =
      branchDiagnostics policy plugins lexical pointer branches ++
        branchDiagnostics policy plugins lexical pointer branches' := by
  induction branches with
  | nil => rfl
  | cons entry branches ih =>
    obtain ⟨name, graph⟩ := entry
    rw [List.cons_append, branchDiagnostics, branchDiagnostics, ih, List.append_assoc]

theorem contains_around {α : Type} (before after : StrMap α) (name key : String) (x y : α) :
    StrMap.contains (before ++ (name, x) :: after) key =
      StrMap.contains (before ++ (name, y) :: after) key := by
  simp only [StrMap.contains]
  induction before with
  | nil =>
    rw [List.nil_append, List.nil_append, StrMap.get?_cons, StrMap.get?_cons]
    split
    · rfl
    · rfl
  | cons entry before ih =>
    obtain ⟨first, z⟩ := entry
    rw [List.cons_append, List.cons_append, StrMap.get?_cons, StrMap.get?_cons]
    split
    · rfl
    · exact ih

section Inputs

variable {bindings bindings' : StrMap WorkflowBinding} {name : String}

/-- The catalog does not look into expressions. -/
theorem validateNode_withInput (definition : NodeDefinition) (pointer : String)
    (expr expr' : Value) :
    validateNode (node.withInput bindings bindings' name expr) definition pointer =
      validateNode (node.withInput bindings bindings' name expr') definition pointer := by
  have hcontains (key : String) :=
    contains_around bindings bindings' name key (.expr expr) (.expr expr')
  have hmember (kind : ValueKind) (pointer : String) :
      validateLiteralType (.expr expr) kind pointer =
        validateLiteralType (.expr expr') kind pointer := rfl
  simp only [validateNode, WorkflowNode.withInput, hcontains, List.flatMap_append,
    List.flatMap_cons, hmember]
  rfl

/-- The references of an expression are checked one by one. -/
theorem nodeDiagnostics_withInput {hole : Value → Value} (hhole : LiteralHole hole)
    {nodes : List WorkflowNode} {plugins : PluginRegistry} {entry : String}
    {inherited : List String}
    {pointer : String} (value : Value) :
    nodeDiagnostics plugins nodes entry inherited pointer
        (node.withInput bindings bindings' name (hole value)) = [] ↔
      nodeDiagnostics plugins nodes entry inherited pointer
        (node.withInput bindings bindings' name (hole .null)) = [] ∧
        ∀ source, Mentions value source →
          LiteralSite.Allows ⟨nodes, lexicalBindingsBeforeNode nodes node inherited,
            node.withInput bindings bindings' name (hole .null), name⟩ source := by
  have hlexical (expr : Value) : lexicalBindingsBeforeNode nodes
      (node.withInput bindings bindings' name expr) inherited =
        lexicalBindingsBeforeNode nodes node inherited := rfl
  have hrest (expr : Value) : validateRoutes (node.withInput bindings bindings' name expr) =
      validateRoutes node := rfl
  have hinputs (expr : Value) : (node.withInput bindings bindings' name expr).inputs =
      bindings ++ (name, .expr expr) :: bindings' := rfl
  have htype (expr : Value) : (node.withInput bindings bindings' name expr).nodeType =
      node.nodeType := rfl
  have hid (expr : Value) : (node.withInput bindings bindings' name expr).id = node.id := rfl
  -- the checks see the id and the type of the consumer
  have hconsumer : validateFromReference nodes (lexicalBindingsBeforeNode nodes node inherited)
        (node.withInput bindings bindings' name (hole value)) =
      validateFromReference nodes (lexicalBindingsBeforeNode nodes node inherited)
        (node.withInput bindings bindings' name (hole .null)) := rfl
  have hsources : (expressionSources (hole value)).flatMap
        (validateFromReference nodes (lexicalBindingsBeforeNode nodes node inherited)
          (node.withInput bindings bindings' name (hole .null)) pointer name) = [] ↔
      (expressionSources (hole .null)).flatMap
        (validateFromReference nodes (lexicalBindingsBeforeNode nodes node inherited)
          (node.withInput bindings bindings' name (hole .null)) pointer name) = [] ∧
        ∀ source, Mentions value source →
          LiteralSite.Allows ⟨nodes, lexicalBindingsBeforeNode nodes node inherited,
            node.withInput bindings bindings' name (hole .null), name⟩ source := by
    simp only [List.flatMap_eq_nil_iff, mem_expressionSources_iff, hhole.mentions value, or_imp,
      forall_and,
      ← LiteralSite.validateFromReference_eq_nil _ pointer]
  simp only [nodeDiagnostics, hid, htype, hrest, hlexical,
    validateNode_withInput _ pointer (hole value) (hole .null)]
  by_cases hunknown : (!isBuiltinNodeType node.nodeType && !plugins.contains node.nodeType) = true
  · simp only [hunknown, if_true, List.append_eq_nil_iff, List.cons_ne_nil, and_false, false_and]
  · simp only [hunknown, Bool.false_eq_true, if_false, hinputs, validateBindingReference, hconsumer,
      bindingSources, List.flatMap_append, List.flatMap_cons, List.append_eq_nil_iff, hsources]
    tauto

end Inputs

end Around

namespace GraphHole

variable {hole : Value → Value} {inherited : List String} {graph : Value → WorkflowSubgraph}
  {site : Option LiteralSite}

/-- **The parser does not tell two fillings apart.** -/
theorem agrees (h : GraphHole hole inherited graph site) (hhole : LiteralHole hole)
    (value value' : Value) (levels : Nat) :
    (graph value).entry = (graph value').entry ∧
      List.Forall₂ (NodeAgrees (validateSubgraph levels)) (graph value).nodes (graph value').nodes ∧
        InputsAgree (graph value).outputs (graph value').outputs := by
  have hbinding : BindingAgrees (.expr (hole value)) (.expr (hole value')) :=
    .expr (hhole.validateExpression value value')
  induction h generalizing levels with
  | input inherited entry outputs before after node bindings bindings' name =>
    refine ⟨rfl, forall₂_nodeAgrees_around before after (.of_parts rfl ?_ ?_ ?_), .refl outputs⟩
    · exact .around bindings bindings' name hbinding
    · exact .refl node.branches
    · exact bodyAgrees_refl node.body
  | output inherited entry nodes bindings bindings' name =>
    exact ⟨rfl, List.forall₂_same.mpr fun _ _ => .refl _, .around bindings bindings' name hbinding⟩
  | branch inherited entry outputs before after node branches branches' name _ ih =>
    refine ⟨rfl, forall₂_nodeAgrees_around before after (.of_parts rfl ?_ ?_ ?_), .refl outputs⟩
    · exact .refl node.inputs
    · exact .around branches branches' name (graphAgrees_of ih levels)
    · exact bodyAgrees_refl node.body
  | body inherited entry outputs before after node _ ih =>
    refine ⟨rfl, forall₂_nodeAgrees_around before after (.of_parts rfl ?_ ?_ ?_), .refl outputs⟩
    · exact .refl node.inputs
    · exact .refl node.branches
    · exact .some (graphAgrees_of ih levels)

/-- The size of the graph does not depend on the filling. -/
theorem graphMetrics (h : GraphHole hole inherited graph site) (value value' : Value)
    (depth : Nat) :
    KakuneCore.graphMetrics (graph value) depth = KakuneCore.graphMetrics (graph value') depth := by
  induction h generalizing depth with
  | input inherited entry outputs before after node bindings bindings' name =>
    exact graphMetrics_around rfl fun metrics => rfl
  | output inherited entry nodes bindings bindings' name => rfl
  | branch inherited entry outputs before after node branches branches' name _ ih =>
    refine graphMetrics_around rfl fun metrics => ?_
    simp only [WorkflowNode.withBranch, nodeMetrics, branchMetrics_append, branchMetrics, ih]
  | body inherited entry outputs before after node _ ih =>
    refine graphMetrics_around rfl fun metrics => ?_
    simp only [WorkflowNode.withBody, nodeMetrics, bodyMetrics, ih]

/-- Neither do the node types. -/
theorem validateNodesCatalog (h : GraphHole hole inherited graph site)
    (plugins : PluginRegistry) (value value' : Value) :
    KakuneCore.validateNodesCatalog plugins (graph value).nodes =
      KakuneCore.validateNodesCatalog plugins (graph value').nodes := by
  induction h with
  | input inherited entry outputs before after node bindings bindings' name =>
    exact validateNodesCatalog_around rfl
  | output inherited entry nodes bindings bindings' name => rfl
  | branch inherited entry outputs before after node branches branches' name _ ih =>
    refine validateNodesCatalog_around ?_
    simp only [WorkflowNode.withBranch, validateNodeCatalog, validateBranchCatalog_around ih]
  | body inherited entry outputs before after node _ ih =>
    refine validateNodesCatalog_around ?_
    simp only [WorkflowNode.withBody, validateNodeCatalog, validateBodyCatalog, ih]

/-- **The planner's checks**: an accepted graph stays accepted when the references mentioned in the
literal are. -/
theorem validateScopeSemantics (h : GraphHole hole inherited graph site) (hhole : LiteralHole hole)
    (policy : WorkflowPolicy) (plugins : PluginRegistry) (value : Value) (pointer : String) :
    KakuneCore.validateScopeSemantics policy plugins (graph value) inherited pointer = [] ↔
      KakuneCore.validateScopeSemantics policy plugins (graph .null) inherited pointer = [] ∧
        ∀ found, site = some found → ∀ source, Mentions value source →
          found.Allows source := by
  induction h generalizing pointer with
  | input inherited entry outputs before after node bindings bindings' name =>
    dsimp only
    refine validateScopeSemantics_around ?_ (fun pointer => ?_) pointer
    · rfl
    · have hskeleton : (node.withInput bindings bindings' name (hole .null)).skeleton =
          node.skeleton := rfl
      have hnested (lexical : List String) (expr : Value) :
          nodeNestedDiagnostics policy plugins lexical pointer
              (node.withInput bindings bindings' name expr) =
            nodeNestedDiagnostics policy plugins lexical pointer node := by
        obtain ⟨id, nodeType, config, inputs, on, retry, branches, body⟩ := node
        simp only [WorkflowNode.withInput, nodeNestedDiagnostics]
      simp only [hnested, Option.some.injEq, forall_eq']
      rw [(seesSkeletons_nodeDiagnostics plugins).eq (sameSkeletons_around hskeleton),
        nodeDiagnostics_withInput hhole value]
      tauto
  | output inherited entry nodes bindings bindings' name =>
    simp only [KakuneCore.validateScopeSemantics, graphDiagnostics, List.flatMap_append,
      List.flatMap_cons, validateOutputBinding]
    simp
  | branch inherited entry outputs before after node branches branches' name _ ih =>
    dsimp only
    refine validateScopeSemantics_around ?_ (fun pointer => ?_) pointer
    · rfl
    · have hskeleton (graph : WorkflowSubgraph) :
          node.skeleton = (node.withBranch branches branches' name graph).skeleton := rfl
      have hnested (lexical : List String) (graph : WorkflowSubgraph) :
          nodeNestedDiagnostics policy plugins lexical pointer
              (node.withBranch branches branches' name graph) =
            branchDiagnostics policy plugins lexical pointer branches ++
              (KakuneCore.validateScopeSemantics policy plugins graph lexical
                  s!"{pointer}/branches/{escapePointer name}" ++
                branchDiagnostics policy plugins lexical pointer branches') ++
              bodyDiagnostics policy plugins lexical pointer node.body := by
        obtain ⟨id, nodeType, config, inputs, on, retry, branches, body⟩ := node
        simp only [WorkflowNode.withBranch, nodeNestedDiagnostics, branchDiagnostics_append,
          branchDiagnostics]
      rw [← plannerNames_around (hskeleton _)]
      simp only [hnested, List.append_eq_nil_iff, ih]
      tauto
  | body inherited entry outputs before after node _ ih =>
    dsimp only
    refine validateScopeSemantics_around ?_ (fun pointer => ?_) pointer
    · rfl
    · have hskeleton (graph : WorkflowSubgraph) :
          node.skeleton = (node.withBody graph).skeleton := rfl
      have hnested (lexical : List String) (graph : WorkflowSubgraph) :
          nodeNestedDiagnostics policy plugins lexical pointer (node.withBody graph) =
            branchDiagnostics policy plugins lexical pointer node.branches ++
              KakuneCore.validateScopeSemantics policy plugins graph lexical
                s!"{pointer}/body" := by
        obtain ⟨id, nodeType, config, inputs, on, retry, branches, body⟩ := node
        simp only [WorkflowNode.withBody, nodeNestedDiagnostics, bodyDiagnostics]
      rw [← plannerNames_around (hskeleton _)]
      simp only [hnested, List.append_eq_nil_iff, ih]
      tauto

end GraphHole

/-! ### What the plan view shows -/

/-- Two lists are shown alike, sorted and each entry once, when they have the same members. -/
theorem shown_eq_iff {xs ys : List String} :
    (xs.insertionSort (· ≤ ·)).dedup = (ys.insertionSort (· ≤ ·)).dedup ↔ ∀ x, x ∈ xs ↔ x ∈ ys := by
  have hmem (xs : List String) (x : String) : x ∈ (xs.insertionSort (· ≤ ·)).dedup ↔ x ∈ xs := by
    rw [List.mem_dedup, List.mem_insertionSort]
  have hsorted (xs : List String) : (xs.insertionSort (· ≤ ·)).dedup.Pairwise (· ≤ ·) :=
    (List.pairwise_insertionSort (· ≤ ·) xs).sublist (List.dedup_sublist _)
  constructor
  · intro h x
    rw [← hmem xs, ← hmem ys, h]
  · intro h
    refine List.Perm.eq_of_pairwise' (hsorted xs) (hsorted ys) ?_
    refine (List.perm_ext_iff_of_nodup (List.nodup_dedup _) (List.nodup_dedup _)).mpr fun x => ?_
    rw [hmem, hmem, h]

/-- Some `from` member of the value, at any depth, names the producer. -/
def NamesNode (value : Value) (producer : String) : Prop :=
  ∃ source, Mentions value source ∧ referencedNode source = some producer

/-- The consumer names the producer outside the literal. -/
def LiteralSite.Lists (site : LiteralSite) (producer : String) : Prop :=
  site.consumer.BindsFrom producer ∨ site.consumer.MentionsNode producer

section Around

variable {before after : List WorkflowNode} {node node' : WorkflowNode}

theorem seesSkeletons_planNodeView (scopeId : String) : SeesSkeletons (planNodeView scopeId) := by
  intro nodes
  funext node
  simp only [planNodeView, List.filter_map, List.map_map]
  rfl

theorem nestedPlanScopes_append (scopeId : String) (nodes nodes' : List WorkflowNode) :
    nestedPlanScopes scopeId (nodes ++ nodes') =
      nestedPlanScopes scopeId nodes ++ nestedPlanScopes scopeId nodes' := by
  induction nodes with
  | nil => rfl
  | cons node nodes ih =>
    rw [List.cons_append, nestedPlanScopes, nestedPlanScopes, ih, List.append_assoc]

theorem branchPlanScopes_append (idPrefix : String)
    (branches branches' : List (String × WorkflowSubgraph)) :
    branchPlanScopes idPrefix (branches ++ branches') =
      branchPlanScopes idPrefix branches ++ branchPlanScopes idPrefix branches' := by
  induction branches with
  | nil => rfl
  | cons entry branches ih =>
    obtain ⟨name, graph⟩ := entry
    rw [List.cons_append, branchPlanScopes, branchPlanScopes, ih, List.append_assoc]

theorem listedNodes_append (nodes nodes' : List WorkflowNode) :
    listedNodes (nodes ++ nodes') = listedNodes nodes ++ listedNodes nodes' := by
  induction nodes with
  | nil => rfl
  | cons node nodes ih =>
    rw [List.cons_append, listedNodes, listedNodes, ih, List.cons_append, List.append_assoc]

theorem branchNodes_append (branches branches' : List (String × WorkflowSubgraph)) :
    branchNodes (branches ++ branches') = branchNodes branches ++ branchNodes branches' := by
  induction branches with
  | nil => rfl
  | cons entry branches ih =>
    obtain ⟨name, graph⟩ := entry
    rw [List.cons_append, branchNodes, branchNodes, ih, List.append_assoc]

/-- **One node is replaced** by one of the same skeleton: the scopes are those of before, if the
node is shown as before and so are its graphs. -/
theorem appendPlanScope_around {scopeId scopeKind entry : String} {outputs : StrMap WorkflowBinding}
    (hskeleton : node.skeleton = node'.skeleton) :
    appendPlanScope scopeId scopeKind ⟨entry, before ++ node :: after, outputs⟩ =
        appendPlanScope scopeId scopeKind ⟨entry, before ++ node' :: after, outputs⟩ ↔
      planNodeView scopeId (before ++ node' :: after) node =
          planNodeView scopeId (before ++ node' :: after) node' ∧
        nodePlanScopes scopeId node = nodePlanScopes scopeId node' := by
  have hsame : SameSkeletons (before ++ node :: after) (before ++ node' :: after) :=
    sameSkeletons_around hskeleton
  simp only [appendPlanScope, (seesSkeletons_planNodeView scopeId).eq hsame,
    nestedPlanScopes_append,
    nestedPlanScopes, List.map_append, List.map_cons, List.cons.injEq, PlanScopeView.mk.injEq,
    true_and, and_true, List.append_cancel_left_eq, List.append_cancel_right_eq]

end Around

/-- The producers an expression among the inputs of a node names, beside those of the other
inputs. -/
theorem mentionsNode_withInput {node : WorkflowNode} {bindings bindings' : StrMap WorkflowBinding}
    {name : String} {expr : Value} {producer : String} :
    (node.withInput bindings bindings' name expr).MentionsNode producer ↔
      ({ node with inputs := bindings ++ bindings' }).MentionsNode producer ∨
        NamesNode expr producer := by
  simp only [NamesNode, WorkflowNode.MentionsNode, WorkflowNode.withInput, List.mem_append,
    List.mem_cons,
    Prod.mk.injEq, WorkflowBinding.expr.injEq]
  constructor
  · rintro ⟨name', expr', source, hbefore | ⟨rfl, rfl⟩ | hafter, hmentions, hproducer⟩
    · exact .inl ⟨name', expr', source, .inl hbefore, hmentions, hproducer⟩
    · exact .inr ⟨source, hmentions, hproducer⟩
    · exact .inl ⟨name', expr', source, .inr hafter, hmentions, hproducer⟩
  · rintro (⟨name', expr', source, hbefore | hafter, hrest⟩ | ⟨source, hrest⟩)
    · exact ⟨name', expr', source, .inl hbefore, hrest⟩
    · exact ⟨name', expr', source, .inr (.inr hafter), hrest⟩
    · exact ⟨name, expr, source, .inr (.inl ⟨rfl, rfl⟩), hrest⟩

/-- What is shown for a node with a hole among its inputs. -/
theorem mem_planNodeView_withInput {hole : Value → Value} (hhole : LiteralHole hole)
    {scopeId : String}
    {nodes : List WorkflowNode} {node : WorkflowNode} {bindings bindings' : StrMap WorkflowBinding}
    {name : String} {value : Value} {producer : String} :
    producer ∈ (planNodeView scopeId nodes
        (node.withInput bindings bindings' name (hole value))).dataDependencies ↔
      ((node.withInput bindings bindings' name (hole .null)).BindsFrom producer ∨
          (node.withInput bindings bindings' name (hole .null)).MentionsNode producer) ∨
        NamesNode value producer := by
  have hbinds : (node.withInput bindings bindings' name (hole value)).BindsFrom producer ↔
      (node.withInput bindings bindings' name (hole .null)).BindsFrom producer := by
    simp [WorkflowNode.BindsFrom, WorkflowNode.withInput]
  have hnames : NamesNode (hole value) producer ↔
      NamesNode (hole .null) producer ∨ NamesNode value producer := by
    simp only [NamesNode, hhole.mentions value, or_and_right, exists_or]
  rw [mem_planNodeView_iff, hbinds, mentionsNode_withInput, mentionsNode_withInput, hnames]
  simp only [or_assoc]

namespace GraphHole

variable {hole : Value → Value} {inherited : List String} {graph : Value → WorkflowSubgraph}
  {site : Option LiteralSite}

/-- **The plan view** shows the same scopes when the two values name the same producers. -/
theorem appendPlanScope_eq_iff (h : GraphHole hole inherited graph site) (hhole : LiteralHole hole)
    (scopeId scopeKind : String) (value value' : Value) :
    appendPlanScope scopeId scopeKind (graph value) =
      appendPlanScope scopeId scopeKind (graph value') ↔
      ∀ found, site = some found → ∀ producer,
        found.Lists producer ∨ (NamesNode value producer ↔ NamesNode value' producer) := by
  induction h generalizing scopeId scopeKind with
  | input inherited entry outputs before after node bindings bindings' name =>
    have hskeleton : (node.withInput bindings bindings' name (hole value)).skeleton =
        (node.withInput bindings bindings' name (hole value')).skeleton := rfl
    have hnested (expr : Value) :
        nodePlanScopes scopeId (node.withInput bindings bindings' name expr) =
        nodePlanScopes scopeId node := by
      obtain ⟨id, nodeType, config, inputs, on, retry, branches, body⟩ := node
      simp only [WorkflowNode.withInput, nodePlanScopes]
    dsimp only
    rw [appendPlanScope_around hskeleton, hnested, hnested, and_iff_left rfl]
    generalize hnodes :
        before ++ node.withInput bindings bindings' name (hole value') :: after = nodes
    simp only [Option.some.injEq, forall_eq']
    have hshows (value : Value) (producer : String) :
        LiteralSite.Lists ⟨before ++ node :: after,
              lexicalBindingsBeforeNode (before ++ node :: after) node inherited,
              node.withInput bindings bindings' name (hole .null), name⟩ producer ∨
            NamesNode value producer ↔
          producer ∈ (node.withInput bindings bindings' name (hole value)).inputs.values.flatMap
            collectBindingDependencies := by
      rw [LiteralSite.Lists, ← @mem_planNodeView_withInput hole hhole scopeId nodes, planNodeView,
        List.mem_dedup, List.mem_insertionSort]
    have hdistrib (p q r : Prop) : p ∨ (q ↔ r) ↔ (p ∨ q ↔ p ∨ r) := by tauto
    simp only [hdistrib, hshows, ← shown_eq_iff]
    refine ⟨fun h => congrArg PlanNodeView.dataDependencies h, fun h => ?_⟩
    simp only [planNodeView, PlanNodeView.mk.injEq, h, true_and]
    refine ⟨rfl, rfl, rfl, rfl, rfl, rfl⟩
  | output inherited entry nodes bindings bindings' name =>
    simp [appendPlanScope]
  | branch inherited entry outputs before after node branches branches' name _ ih =>
    have hnested (graph : WorkflowSubgraph) :
        nodePlanScopes scopeId (node.withBranch branches branches' name graph) =
          branchPlanScopes s!"{scopeId}/{node.id}/branches/" branches ++
            (appendPlanScope (s!"{scopeId}/{node.id}/branches/" ++ name) "branch" graph ++
              branchPlanScopes s!"{scopeId}/{node.id}/branches/" branches') ++
            bodyPlanScopes s!"{scopeId}/{node.id}/body" node.body := by
      obtain ⟨id, nodeType, config, inputs, on, retry, branches, body⟩ := node
      simp only [WorkflowNode.withBranch, nodePlanScopes, branchPlanScopes_append, branchPlanScopes]
    dsimp only
    rw [appendPlanScope_around (by rfl), hnested, hnested, List.append_cancel_right_eq,
      List.append_cancel_left_eq, List.append_cancel_right_eq, ih]
    refine and_iff_right ?_
    simp only [planNodeView, WorkflowNode.withBranch, List.map_append, List.map_cons]
    rfl
  | body inherited entry outputs before after node _ ih =>
    have hnested (graph : WorkflowSubgraph) : nodePlanScopes scopeId (node.withBody graph) =
        branchPlanScopes s!"{scopeId}/{node.id}/branches/" node.branches ++
          appendPlanScope s!"{scopeId}/{node.id}/body" "body" graph := by
      obtain ⟨id, nodeType, config, inputs, on, retry, branches, body⟩ := node
      simp only [WorkflowNode.withBody, nodePlanScopes, bodyPlanScopes]
    dsimp only
    rw [appendPlanScope_around (by rfl), hnested, hnested, List.append_cancel_left_eq, ih]
    refine and_iff_right ?_
    rfl

/-- The producers the runtime waits for do not depend on the filling. -/
theorem map_dependencies (h : GraphHole hole inherited graph site) (hhole : LiteralHole hole)
    (value value' : Value) :
    (nodesOf (graph value)).map WorkflowNode.dependencies =
      (nodesOf (graph value')).map WorkflowNode.dependencies := by
  induction h with
  | input inherited entry outputs before after node bindings bindings' name =>
    have hnode (expr : Value) : (node.withInput bindings bindings' name expr).dependencies =
        bindings.values.flatMap bindingDependencies ++
          (bindingDependencies (.expr expr) ++ bindings'.values.flatMap bindingDependencies) := by
      simp [WorkflowNode.dependencies, WorkflowNode.withInput, StrMap.values]
    have howned (expr : Value) : ownedNodes (node.withInput bindings bindings' name expr) =
        ownedNodes node := by
      obtain ⟨id, nodeType, config, inputs, on, retry, branches, body⟩ := node
      simp only [WorkflowNode.withInput, ownedNodes]
    simp only [nodesOf, listedNodes_append, listedNodes, List.map_append, List.map_cons, howned,
      hnode,
      bindingDependencies, bindingReferences, hhole.expressionReferences value value']
  | output inherited entry nodes bindings bindings' name => rfl
  | branch inherited entry outputs before after node branches branches' name _ ih =>
    have hnode (graph : WorkflowSubgraph) :
        (node.withBranch branches branches' name graph).dependencies = node.dependencies := rfl
    have howned (graph : WorkflowSubgraph) :
        ownedNodes (node.withBranch branches branches' name graph) =
          branchNodes branches ++ (nodesOf graph ++ branchNodes branches') ++
            bodyNodes node.body := by
      obtain ⟨id, nodeType, config, inputs, on, retry, branches, body⟩ := node
      simp only [WorkflowNode.withBranch, ownedNodes, branchNodes_append, branchNodes]
    simp only [nodesOf, listedNodes_append, listedNodes, List.map_append, List.map_cons, howned,
      hnode] at ih ⊢
    rw [ih]
  | body inherited entry outputs before after node _ ih =>
    have hnode (graph : WorkflowSubgraph) :
        (node.withBody graph).dependencies = node.dependencies := rfl
    have howned (graph : WorkflowSubgraph) : ownedNodes (node.withBody graph) =
        branchNodes node.branches ++ nodesOf graph := by
      obtain ⟨id, nodeType, config, inputs, on, retry, branches, body⟩ := node
      simp only [WorkflowNode.withBody, ownedNodes, bodyNodes]
    simp only [nodesOf, listedNodes_append, listedNodes, List.map_append, List.map_cons, howned,
      hnode] at ih ⊢
    rw [ih]

/-- Nor do the producers the plan records. -/
theorem map_plannedDependencies (h : GraphHole hole inherited graph site) (value value' : Value) :
    (graph value).nodes.map plannedDependencies = (graph value').nodes.map plannedDependencies := by
  cases h with
  | input inherited entry outputs before after node bindings bindings' name =>
    simp [plannedDependencies, WorkflowNode.withInput, StrMap.values]
  | output inherited entry nodes bindings bindings' name => rfl
  | branch inherited entry outputs before after node branches branches' name _ =>
    simp only [List.map_append, List.map_cons]
    rfl
  | body inherited entry outputs before after node _ =>
    simp only [List.map_append, List.map_cons]
    rfl

end GraphHole

/-! ### Holes of a document -/

/-- A document with a hole for a literal: in an expression of its graph, or of the map of a
trigger. -/
inductive DocumentHole (hole : Value → Value) :
    (Value → WorkflowDocument) → Option LiteralSite → Prop
  | graph (doc : WorkflowDocument) {graph : Value → WorkflowSubgraph} {site : Option LiteralSite} :
      GraphHole hole [] graph site →
      DocumentHole hole (fun value => { doc with
        entry := (graph value).entry, nodes := (graph value).nodes,
        outputs := (graph value).outputs })
        site
  | trigger (doc : WorkflowDocument) (before after : List WorkflowTrigger)
      (trigger : WorkflowTrigger)
      (bindings bindings' : StrMap WorkflowBinding) (name : String) :
      DocumentHole hole (fun value => { doc with
        triggers := before ++
          { trigger with map := bindings ++ (name, .expr (hole value)) :: bindings' } :: after })
        none

theorem compile_isOk_iff {doc : WorkflowDocument} {plugins : PluginRegistry} :
    (∃ compiled, compile doc plugins = .ok compiled) ↔
      doc.validate = .ok () ∧ validateSemantics doc plugins = [] ∧
        validateNodesCatalog plugins doc.nodes = .ok () := by
  unfold compile WorkflowDocument.validateWithPlugins
  rcases doc.validate with error | ⟨⟩
  · simp
  · rcases validateSemantics doc plugins with - | ⟨diagnostic, diagnostics⟩
    · rcases validateNodesCatalog plugins doc.nodes with error | ⟨⟩
      · simp [bind, Except.bind]
      · simp [bind, Except.bind]
    · simp

namespace DocumentHole

variable {hole : Value → Value} {doc : Value → WorkflowDocument} {site : Option LiteralSite}

theorem validate (h : DocumentHole hole doc site) (hhole : LiteralHole hole)
    (value value' : Value) :
    (doc value).validate = (doc value').validate := by
  cases h with
  | @graph doc graph _ hgraph =>
    obtain ⟨hentry, hnodes, houtputs⟩ := hgraph.agrees hhole value value' 32
    have htriggers : List.Forall₂ TriggerAgrees doc.triggers doc.triggers :=
      List.forall₂_same.mpr fun trigger _ => ⟨rfl, rfl, .refl trigger.map⟩
    dsimp only
    rw [← hentry]
    exact @validate_congr _ { doc with
      entry := (graph value).entry, nodes := (graph value).nodes, outputs := (graph value).outputs }
      _ _ hnodes houtputs htriggers
  | trigger doc before after trigger bindings bindings' name =>
    have hmap : InputsAgree (bindings ++ (name, .expr (hole value)) :: bindings')
        (bindings ++ (name, .expr (hole value')) :: bindings') :=
      .around bindings bindings' name (.expr (hhole.validateExpression value value'))
    have hsame (triggers : List WorkflowTrigger) : List.Forall₂ TriggerAgrees triggers triggers :=
      List.forall₂_same.mpr fun trigger _ => ⟨rfl, rfl, .refl trigger.map⟩
    exact @validate_congr _ { doc with triggers := _ } _ _
      (List.forall₂_same.mpr fun node _ => .refl node) (.refl doc.outputs)
      (List.rel_append (hsame before) (.cons ⟨rfl, rfl, hmap⟩ (hsame after)))

theorem validateSemantics (h : DocumentHole hole doc site) (hhole : LiteralHole hole)
    (plugins : PluginRegistry) (value : Value) :
    KakuneCore.validateSemantics (doc value) plugins = [] ↔
      KakuneCore.validateSemantics (doc .null) plugins = [] ∧
        ∀ found, site = some found → ∀ source, Mentions value source → found.Allows source := by
  cases h with
  | @graph doc graph _ hgraph =>
    have hscopes := hgraph.validateScopeSemantics hhole doc.policy plugins value ""
    have hmetrics := hgraph.graphMetrics value .null 0
    simp only [KakuneCore.validateSemantics, WorkflowDocument.graph, List.append_eq_nil_iff,
      hmetrics,
      hscopes]
    tauto
  | trigger doc before after trigger bindings bindings' name =>
    simp [KakuneCore.validateSemantics, WorkflowDocument.graph]

theorem validateNodesCatalog (h : DocumentHole hole doc site) (plugins : PluginRegistry)
    (value value' : Value) :
    KakuneCore.validateNodesCatalog plugins (doc value).nodes =
      KakuneCore.validateNodesCatalog plugins (doc value').nodes := by
  cases h with
  | graph doc hgraph => exact hgraph.validateNodesCatalog plugins value value'
  | trigger doc before after trigger bindings bindings' name => rfl

/-- What the plan records and what the runtime waits for does not depend on the filling. -/
theorem dependencies (h : DocumentHole hole doc site) (hhole : LiteralHole hole)
    (value value' : Value) :
    (planOf (doc value)).nodes.map PlannedNode.dataDependencies =
        (planOf (doc value')).nodes.map PlannedNode.dataDependencies ∧
      (nodesOf (doc value).graph).map WorkflowNode.dependencies =
        (nodesOf (doc value').graph).map WorkflowNode.dependencies := by
  have hplanned (doc : WorkflowDocument) : (planOf doc).nodes.map PlannedNode.dataDependencies =
      doc.nodes.map plannedDependencies := by
    rw [planOf, List.map_map]
    rfl
  rw [hplanned, hplanned]
  cases h with
  | graph doc hgraph =>
    exact ⟨hgraph.map_plannedDependencies value value', hgraph.map_dependencies hhole value value'⟩
  | trigger doc before after trigger bindings bindings' name => exact ⟨rfl, rfl⟩

/-- The scopes of the plan view. -/
theorem appendPlanScope_eq_iff (h : DocumentHole hole doc site) (hhole : LiteralHole hole)
    (value value' : Value) :
    appendPlanScope "workflow" "workflow" (doc value).graph =
        appendPlanScope "workflow" "workflow" (doc value').graph ↔
      ∀ found, site = some found → ∀ producer,
        found.Lists producer ∨ (NamesNode value producer ↔ NamesNode value' producer) := by
  cases h with
  | graph doc hgraph => exact hgraph.appendPlanScope_eq_iff hhole "workflow" "workflow" value value'
  | trigger doc before after trigger bindings bindings' name =>
    simp [WorkflowDocument.graph]

end DocumentHole

/-- **The literal is opaque** for the replacement of one value by another in a compiled document:
the document is still accepted, with the recorded, the shown and the awaited producers of before and
the same answer about secrets; evaluation returns the new value as it is. -/
structure Opaque (hole : Value → Value) (doc : Value → WorkflowDocument) (plugins : PluginRegistry)
    (compiled : CompiledWorkflow) (value value' : Value) : Prop where
  accepted : ∃ compiled', compile (doc value') plugins = .ok compiled' ∧
    compiled'.plan.nodes.map PlannedNode.dataDependencies =
      compiled.plan.nodes.map PlannedNode.dataDependencies
  shown : ∀ revision, (planView (doc value') revision plugins).scopes =
    (planView (doc value) revision plugins).scopes
  awaited : (nodesOf (doc value').graph).map WorkflowNode.dependencies =
    (nodesOf (doc value).graph).map WorkflowNode.dependencies
  secret : bindingUsesSecret (.expr (hole value')) = bindingUsesSecret (.expr (hole value))
  evaluated : ∀ outputs locals nested,
    evaluateExpressionArgument outputs locals nested (.object [("literal", value')]) = pure value'

/-- **One value looks like another** to whoever reads it as an expression: its `from` texts are
references in order, it names the same producers, up to those the consumer names anyway, and one has
a member `secret` when the other has, unless the expression has one elsewhere. -/
structure LooksAlike (hole : Value → Value) (site : Option LiteralSite) (value value' : Value) :
    Prop where
  references : ∀ found, site = some found → ∀ source, Mentions value' source → found.Allows source
  producers : ∀ found, site = some found → ∀ producer,
    found.Lists producer ∨ (NamesNode value producer ↔ NamesNode value' producer)
  secret : NamesSecret (hole .null) ∨ (NamesSecret value ↔ NamesSecret value')

theorem bindingUsesSecret_eq_iff {hole : Value → Value} (hhole : LiteralHole hole)
    (value value' : Value) :
    bindingUsesSecret (.expr (hole value')) = bindingUsesSecret (.expr (hole value)) ↔
      (NamesSecret (hole .null) ∨ (NamesSecret value ↔ NamesSecret value')) := by
  rw [bindingUsesSecret, bindingUsesSecret, Bool.eq_iff_iff, expressionUsesSecret_iff,
    expressionUsesSecret_iff, hhole.namesSecret value, hhole.namesSecret value']
  tauto

/-- **Literals are opaque in expressions** exactly for replacements by a value that looks like the
one replaced. -/
theorem literal_is_opaque_iff {hole : Value → Value} {doc : Value → WorkflowDocument}
    {site : Option LiteralSite} (hhole : LiteralHole hole) (hdoc : DocumentHole hole doc site)
    (plugins : PluginRegistry) (value value' : Value) (compiled : CompiledWorkflow)
    (h : compile (doc value) plugins = .ok compiled) :
    Opaque hole doc plugins compiled value value' ↔ LooksAlike hole site value value' := by
  obtain ⟨hvalid, hsemantics, hcatalog⟩ := compile_isOk_iff.mp ⟨compiled, h⟩
  obtain ⟨-, -, rfl⟩ := compile_eq_ok h
  obtain ⟨hrecorded, hawaited⟩ := hdoc.dependencies hhole value' value
  have hvalid' : (doc value').validate = .ok () := by rw [hdoc.validate hhole value' value, hvalid]
  have hcatalog' : validateNodesCatalog plugins (doc value').nodes = .ok () := by
    rw [hdoc.validateNodesCatalog plugins value' value, hcatalog]
  have hscopes (doc : WorkflowDocument) (revision : Option String) (hdoc : doc.validate = .ok ()) :
      (planView doc revision plugins).scopes = appendPlanScope "workflow" "workflow" doc.graph := by
    rw [planView, hdoc]
  have hshown : (∀ revision, (planView (doc value') revision plugins).scopes =
        (planView (doc value) revision plugins).scopes) ↔
      ∀ found, site = some found → ∀ producer,
        found.Lists producer ∨ (NamesNode value producer ↔ NamesNode value' producer) := by
    simp only [hscopes _ _ hvalid, hscopes _ _ hvalid', forall_const]
    rw [← hdoc.appendPlanScope_eq_iff hhole]
    exact eq_comm
  constructor
  · rintro ⟨⟨compiled', hcompiled, -⟩, hview, -, hsecret, -⟩
    obtain ⟨-, hsemantics', -⟩ := compile_isOk_iff.mp ⟨compiled', hcompiled⟩
    exact ⟨((hdoc.validateSemantics hhole plugins value').mp hsemantics').2, hshown.mp hview,
      (bindingUsesSecret_eq_iff hhole value value').mp hsecret⟩
  · rintro ⟨hreferences, hproducers, hsecret⟩
    have hnull := ((hdoc.validateSemantics hhole plugins value).mp hsemantics).1
    obtain ⟨compiled', hcompiled⟩ := compile_isOk_iff.mpr
      ⟨hvalid', (hdoc.validateSemantics hhole plugins value').mpr ⟨hnull, hreferences⟩, hcatalog'⟩
    obtain ⟨-, -, rfl⟩ := compile_eq_ok hcompiled
    exact ⟨⟨_, hcompiled, hrecorded⟩, hshown.mpr hproducers, hawaited,
      (bindingUsesSecret_eq_iff hhole value value').mpr hsecret, fun _ _ _ => rfl⟩

/-! ### A concrete document -/

/-- An expression over one literal. -/
def literalHole (value : Value) : Value :=
  expressionOf [.object [("literal", value)]] (.string "concat")

theorem literalHole_isHole : LiteralHole literalHole := .here [] [] (.string "concat")

/-- A node that reads a file. -/
def readerNode : WorkflowNode where
  id := "a"
  nodeType := "kakune.fs.read-text@1"
  inputs := [("path", .literal (.string "notes.txt"))]
  on := [("success", .one "b")]

/-- A log node without its message. -/
def loggerNode : WorkflowNode where
  id := "b"
  nodeType := "kakune.log@1"

/-- The message of the log node. -/
def messageSite : LiteralSite where
  nodes := [readerNode, loggerNode]
  lexical := []
  consumer := loggerNode.withInput [] [] "message" (literalHole .null)
  name := "message"

theorem literalDocument_isHole :
    DocumentHole literalHole (fun value => fileLogDocument (.expr (literalHole value)))
      (some messageSite) :=
  .graph (fileLogDocument (.literal .null))
    (.input [] "a" [] [readerNode] [] loggerNode [] [] "message")

/-- One text for another. -/
theorem text_literal_is_opaque :
    Opaque literalHole (fun value => fileLogDocument (.expr (literalHole value))) []
      ⟨fileLogDocument (.expr (literalHole (.string "old"))),
        planOf (fileLogDocument (.expr (literalHole (.string "old"))))⟩
      (.string "old") (.string "new") := by
  have hnone {text source : String} : ¬ Mentions (.string text) source := by rintro ⟨⟩
  have hsecret {text : String} : ¬ NamesSecret (.string text) := by rintro ⟨⟩
  refine (literal_is_opaque_iff literalHole_isHole literalDocument_isHole [] (.string "old")
    (.string "new") _ (by rfl)).mpr ⟨fun _ _ source h => absurd h hnone, fun _ _ producer => ?_, ?_⟩
  · exact .inr (iff_of_false (fun ⟨_, h, _⟩ => hnone h) fun ⟨_, h, _⟩ => hnone h)
  · exact .inr (iff_of_false hsecret hsecret)

/-- A literal with a `from` member: the document is refused, although the literal is data. -/
theorem from_in_a_literal_is_no_reference :
    ∃ compiled, compile (fileLogDocument (.expr (literalHole (.string "old")))) [] = .ok compiled ∧
      ¬ Opaque literalHole (fun value => fileLogDocument (.expr (literalHole value))) [] compiled
        (.string "old") (.object [("from", .string "nowhere.text")]) := by
  refine ⟨⟨_, planOf (fileLogDocument (.expr (literalHole (.string "old"))))⟩, by rfl, fun h => ?_⟩
  obtain ⟨compiled', hcompiled, -⟩ := h.accepted
  have hrefused : ∃ diagnostics, compile (fileLogDocument (.expr (literalHole
      (.object [("from", .string "nowhere.text")])))) [] = .error diagnostics := ⟨_, rfl⟩
  obtain ⟨diagnostics, hrefused⟩ := hrefused
  rw [hcompiled] at hrefused
  cases hrefused

end KakuneCore
