import KakuneCore.Planner.NestedGraphs

/-!
# The plan view

`plan_view` shows an accepted document scope by scope: every graph with its nodes, and for every
node the producers its inputs name. Three functions compute these producers: `compile` reads the
`from` bindings, the runtime follows an expression through `from`, `expr` and `args`, and the plan
view visits every member of an expression, literals included.

`Mentions` and `Reads` say what the last two look for, and `dependencies_agree_iff` says on which
documents the three answers coincide.
-/

namespace KakuneCore

/-! ### References inside an expression -/

/-- `Mentions value source`: some object at any depth of `value` has the member
`from: source`. -/
inductive Mentions : Value → String → Prop
  | here {fields : List (String × Value)} {source : String} :
      StrMap.get? fields "from" = some (.string source) → Mentions (.object fields) source
  | member {fields : List (String × Value)} {key source : String} {value : Value} :
      (key, value) ∈ fields → Mentions value source → Mentions (.object fields) source
  | item {items : List Value} {value : Value} {source : String} :
      value ∈ items → Mentions value source → Mentions (.array items) source

/-- `Reads value source`: the object `value` has the member `from: source`, or its `expr` or one
of its `args` reads `source`. -/
inductive Reads : Value → String → Prop
  | here {fields : List (String × Value)} {source : String} :
      StrMap.get? fields "from" = some (.string source) → Reads (.object fields) source
  | expr {fields : List (String × Value)} {value : Value} {source : String} :
      StrMap.get? fields "expr" = some value → Reads value source → Reads (.object fields) source
  | args {fields : List (String × Value)} {items : List Value} {value : Value}
      {source : String} :
      StrMap.get? fields "args" = some (.array items) → value ∈ items → Reads value source →
      Reads (.object fields) source

/-- What is read is mentioned. -/
theorem Reads.mentions {value : Value} {source : String} (h : Reads value source) :
    Mentions value source := by
  induction h with
  | here hfrom => exact .here hfrom
  | expr hexpr _ ih => exact .member (StrMap.mem_of_get? hexpr) ih
  | args hargs hmem _ ih => exact .member (StrMap.mem_of_get? hargs) (.item hmem ih)

theorem mem_fromMember {fields : List (String × Value)} {source : String} :
    source ∈ (((StrMap.get? fields "from").bind Value.asStr).map fun text => [text]).getD [] ↔
      StrMap.get? fields "from" = some (.string source) := by
  rcases StrMap.get? fields "from" with - | value
  · simp
  · rcases value with - | _ | _ | text | _ | _ <;> simp [Value.asStr, eq_comm]

mutual

theorem mentions_of_mem_expressionSources {source : String} : ∀ value : Value,
    source ∈ expressionSources value → Mentions value source
  | .object fields, h => by
    rw [expressionSources, List.mem_append] at h
    rcases h with hfrom | hmember
    · exact .here (mem_fromMember.mp hfrom)
    · obtain ⟨key, value, hmem, hvalue⟩ := mentions_of_mem_fields fields hmember
      exact .member hmem hvalue
  | .array items, h => by
    rw [expressionSources] at h
    obtain ⟨value, hmem, hvalue⟩ := mentions_of_mem_items items h
    exact .item hmem hvalue
  | .null, h | .bool _, h | .number _, h | .string _, h => by
    simp [expressionSources] at h

theorem mentions_of_mem_fields {source : String} : ∀ fields : List (String × Value),
    source ∈ expressionSourcesFields fields →
      ∃ key value, (key, value) ∈ fields ∧ Mentions value source
  | [], h => by simp [expressionSourcesFields] at h
  | (key, value) :: fields, h => by
    rw [expressionSourcesFields, List.mem_append] at h
    rcases h with hvalue | hrest
    · exact ⟨key, value, List.mem_cons_self, mentions_of_mem_expressionSources value hvalue⟩
    · obtain ⟨key', value', hmem, hmentions⟩ := mentions_of_mem_fields fields hrest
      exact ⟨key', value', List.mem_cons_of_mem _ hmem, hmentions⟩

theorem mentions_of_mem_items {source : String} : ∀ items : List Value,
    source ∈ expressionSourcesItems items → ∃ value ∈ items, Mentions value source
  | [], h => by simp [expressionSourcesItems] at h
  | item :: items, h => by
    rw [expressionSourcesItems, List.mem_append] at h
    rcases h with hitem | hrest
    · exact ⟨item, List.mem_cons_self, mentions_of_mem_expressionSources item hitem⟩
    · obtain ⟨value, hmem, hmentions⟩ := mentions_of_mem_items items hrest
      exact ⟨value, List.mem_cons_of_mem _ hmem, hmentions⟩

end

theorem mem_expressionSourcesFields {fields : List (String × Value)} {source : String} :
    source ∈ expressionSourcesFields fields ↔
      ∃ key value, (key, value) ∈ fields ∧ source ∈ expressionSources value := by
  induction fields with
  | nil => simp [expressionSourcesFields]
  | cons entry fields ih =>
    obtain ⟨key, value⟩ := entry
    simp only [expressionSourcesFields, List.mem_append, ih, List.mem_cons, Prod.mk.injEq]
    constructor
    · rintro (hvalue | ⟨key', value', hmem, hvalue⟩)
      · exact ⟨key, value, .inl ⟨rfl, rfl⟩, hvalue⟩
      · exact ⟨key', value', .inr hmem, hvalue⟩
    · rintro ⟨key', value', ⟨rfl, rfl⟩ | hmem, hvalue⟩
      · exact .inl hvalue
      · exact .inr ⟨key', value', hmem, hvalue⟩

theorem mem_expressionSourcesItems {items : List Value} {source : String} :
    source ∈ expressionSourcesItems items ↔ ∃ value ∈ items, source ∈ expressionSources value := by
  induction items with
  | nil => simp [expressionSourcesItems]
  | cons item items ih => simp [expressionSourcesItems, ih]

/-- **The planner's checks visit exactly the mentioned references.** -/
theorem mem_expressionSources_iff {value : Value} {source : String} :
    source ∈ expressionSources value ↔ Mentions value source := by
  refine ⟨mentions_of_mem_expressionSources value, fun h => ?_⟩
  induction h with
  | here hfrom =>
    rw [expressionSources]
    exact List.mem_append_left _ (mem_fromMember.mpr hfrom)
  | member hmem _ ih =>
    rw [expressionSources]
    exact List.mem_append_right _ (mem_expressionSourcesFields.mpr ⟨_, _, hmem, ih⟩)
  | item hmem _ ih =>
    rw [expressionSources]
    exact mem_expressionSourcesItems.mpr ⟨_, hmem, ih⟩

mutual

theorem reads_of_mem_expressionReferences {source : String} : ∀ value : Value,
    source ∈ expressionReferences value → Reads value source
  | .object fields, h => by
    rw [expressionReferences, List.mem_append, List.mem_append] at h
    rcases h with (hfrom | hexpr) | hargs
    · exact .here (mem_fromMember.mp hfrom)
    · obtain ⟨value, hget, hvalue⟩ := reads_of_mem_exprReferences fields hexpr
      exact .expr hget hvalue
    · obtain ⟨value, hget, hvalue⟩ := reads_of_mem_argsReferences fields hargs
      obtain ⟨items, rfl, item, hmem, hitem⟩ := hvalue
      exact .args hget hmem hitem
  | .null, h | .bool _, h | .number _, h | .string _, h | .array _, h => by
    simp [expressionReferences] at h

theorem reads_of_mem_exprReferences {source : String} : ∀ fields : List (String × Value),
    source ∈ exprReferences fields →
      ∃ value, StrMap.get? fields "expr" = some value ∧ Reads value source
  | [], h => by simp [exprReferences] at h
  | (key, value) :: fields, h => by
    rw [exprReferences] at h
    rw [StrMap.get?_cons]
    split_ifs at h ⊢ with hkey
    · exact ⟨value, rfl, reads_of_mem_expressionReferences value h⟩
    · exact reads_of_mem_exprReferences fields h

theorem reads_of_mem_argsReferences {source : String} : ∀ fields : List (String × Value),
    source ∈ argsReferences fields →
      ∃ value, StrMap.get? fields "args" = some value ∧
        ∃ items, value = .array items ∧ ∃ item ∈ items, Reads item source
  | [], h => by simp [argsReferences] at h
  | (key, value) :: fields, h => by
    rw [argsReferences] at h
    rw [StrMap.get?_cons]
    split_ifs at h ⊢ with hkey
    · exact ⟨value, rfl, reads_of_mem_arrayReferences value h⟩
    · exact reads_of_mem_argsReferences fields h

theorem reads_of_mem_arrayReferences {source : String} : ∀ value : Value,
    source ∈ arrayReferences value →
      ∃ items, value = .array items ∧ ∃ item ∈ items, Reads item source
  | .array items, h => by
    rw [arrayReferences] at h
    exact ⟨items, rfl, reads_of_mem_itemsReferences items h⟩
  | .null, h | .bool _, h | .number _, h | .string _, h | .object _, h => by
    simp [arrayReferences] at h

theorem reads_of_mem_itemsReferences {source : String} : ∀ items : List Value,
    source ∈ itemsReferences items → ∃ item ∈ items, Reads item source
  | [], h => by simp [itemsReferences] at h
  | item :: items, h => by
    rw [itemsReferences, List.mem_append] at h
    rcases h with hitem | hrest
    · exact ⟨item, List.mem_cons_self, reads_of_mem_expressionReferences item hitem⟩
    · obtain ⟨value, hmem, hvalue⟩ := reads_of_mem_itemsReferences items hrest
      exact ⟨value, List.mem_cons_of_mem _ hmem, hvalue⟩

end

theorem exprReferences_of_get? {fields : List (String × Value)} {value : Value}
    (h : StrMap.get? fields "expr" = some value) :
    exprReferences fields = expressionReferences value := by
  induction fields with
  | nil => simp at h
  | cons entry fields ih =>
    obtain ⟨key, first⟩ := entry
    rw [StrMap.get?_cons] at h
    rw [exprReferences]
    split_ifs at h ⊢ with hkey
    · rw [Option.some.inj h]
    · exact ih h

theorem argsReferences_of_get? {fields : List (String × Value)} {items : List Value}
    (h : StrMap.get? fields "args" = some (.array items)) :
    argsReferences fields = itemsReferences items := by
  induction fields with
  | nil => simp at h
  | cons entry fields ih =>
    obtain ⟨key, first⟩ := entry
    rw [StrMap.get?_cons] at h
    rw [argsReferences]
    split_ifs at h ⊢ with hkey
    · rw [Option.some.inj h, arrayReferences]
    · exact ih h

theorem mem_itemsReferences {items : List Value} {source : String} :
    source ∈ itemsReferences items ↔ ∃ item ∈ items, source ∈ expressionReferences item := by
  induction items with
  | nil => simp [itemsReferences]
  | cons item items ih => simp [itemsReferences, ih]

/-- **The runtime waits for exactly the references that are read.** -/
theorem mem_expressionReferences_iff {value : Value} {source : String} :
    source ∈ expressionReferences value ↔ Reads value source := by
  refine ⟨reads_of_mem_expressionReferences value, fun h => ?_⟩
  induction h with
  | here hfrom =>
    rw [expressionReferences]
    exact List.mem_append_left _ (List.mem_append_left _ (mem_fromMember.mpr hfrom))
  | expr hget _ ih =>
    rw [expressionReferences, exprReferences_of_get? hget]
    exact List.mem_append_left _ (List.mem_append_right _ ih)
  | args hget hmem _ ih =>
    rw [expressionReferences, argsReferences_of_get? hget]
    exact List.mem_append_right _ (mem_itemsReferences.mpr ⟨_, hmem, ih⟩)

/-! ### The view -/

mutual

/-- `collect_expression_dependencies`. -/
def collectExpressionDependencies : Value → List String
  | .array items => collectItemDependencies items
  | .object fields =>
    (((StrMap.get? fields "from").bind Value.asStr).bind referencedNode).toList ++
      collectFieldDependencies fields
  | _ => []

/-- `collect_expression_dependencies` over the items of an array. -/
def collectItemDependencies : List Value → List String
  | [] => []
  | item :: items => collectExpressionDependencies item ++ collectItemDependencies items

/-- `collect_expression_dependencies` over the members of an object. -/
def collectFieldDependencies : List (String × Value) → List String
  | [] => []
  | (_, value) :: fields => collectExpressionDependencies value ++ collectFieldDependencies fields

end

def collectBindingDependencies : WorkflowBinding → List String
  | .from source => (referencedNode source).toList
  | .expr expr => collectExpressionDependencies expr
  | _ => []

structure PlanNodeView where
  id : String
  nodeType : String
  dataDependencies : List String
  controlDependencies : List String
  routes : StrMap (List String)
  branches : StrMap String
  body : Option String
  deriving DecidableEq, Repr

structure PlanScopeView where
  id : String
  kind : String
  entry : String
  nodes : List PlanNodeView
  deriving DecidableEq, Repr

/-- One node of a scope. The producers are sorted and listed once. -/
def planNodeView (scopeId : String) (nodes : List WorkflowNode) (node : WorkflowNode) :
    PlanNodeView where
  id := node.id
  nodeType := node.nodeType
  dataDependencies :=
    ((node.inputs.values.flatMap collectBindingDependencies).insertionSort (· ≤ ·)).dedup
  controlDependencies :=
    (nodes.filter fun candidate => node.id ∈ candidate.targets).map WorkflowNode.id
  routes := node.on.map fun route => (route.1, route.2.iter)
  branches := node.branches.map fun branch =>
    (branch.1, s!"{scopeId}/{node.id}/branches/{branch.1}")
  body := node.body.map fun _ => s!"{scopeId}/{node.id}/body"

mutual

/-- `append_plan_scope`: the scope of a graph, then those of the graphs its nodes own. -/
def appendPlanScope (scopeId scopeKind : String) : WorkflowSubgraph → List PlanScopeView
  | ⟨entry, nodes, _⟩ =>
    ⟨scopeId, scopeKind, entry, nodes.map (planNodeView scopeId nodes)⟩ ::
      nestedPlanScopes scopeId nodes

def nestedPlanScopes (scopeId : String) : List WorkflowNode → List PlanScopeView
  | [] => []
  | node :: nodes => nodePlanScopes scopeId node ++ nestedPlanScopes scopeId nodes

def nodePlanScopes (scopeId : String) : WorkflowNode → List PlanScopeView
  | ⟨id, _, _, _, _, _, branches, body⟩ =>
    branchPlanScopes s!"{scopeId}/{id}/branches/" branches ++
      bodyPlanScopes s!"{scopeId}/{id}/body" body

def branchPlanScopes (idPrefix : String) : List (String × WorkflowSubgraph) → List PlanScopeView
  | [] => []
  | (branch, graph) :: branches =>
    appendPlanScope (idPrefix ++ branch) "branch" graph ++ branchPlanScopes idPrefix branches

def bodyPlanScopes (scopeId : String) : Option WorkflowSubgraph → List PlanScopeView
  | none => []
  | some graph => appendPlanScope scopeId "body" graph

end

mutual

/-- A graph and the graphs below it, in the order in which `append_plan_scope` visits them. -/
def graphsOf : WorkflowSubgraph → List WorkflowSubgraph
  | ⟨entry, nodes, outputs⟩ => ⟨entry, nodes, outputs⟩ :: nestedGraphsOf nodes

def nestedGraphsOf : List WorkflowNode → List WorkflowSubgraph
  | [] => []
  | node :: nodes => nodeGraphsOf node ++ nestedGraphsOf nodes

def nodeGraphsOf : WorkflowNode → List WorkflowSubgraph
  | ⟨_, _, _, _, _, _, branches, body⟩ => branchGraphsOf branches ++ bodyGraphsOf body

def branchGraphsOf : List (String × WorkflowSubgraph) → List WorkflowSubgraph
  | [] => []
  | (_, graph) :: branches => graphsOf graph ++ branchGraphsOf branches

def bodyGraphsOf : Option WorkflowSubgraph → List WorkflowSubgraph
  | none => []
  | some graph => graphsOf graph

end

mutual

/-- The nodes of a graph and of the graphs below it, each followed by those it owns: the order in
which `collect_runtime_limits` visits them. -/
def nodesOf : WorkflowSubgraph → List WorkflowNode
  | ⟨_, nodes, _⟩ => listedNodes nodes

def listedNodes : List WorkflowNode → List WorkflowNode
  | [] => []
  | node :: nodes => node :: (ownedNodes node ++ listedNodes nodes)

def ownedNodes : WorkflowNode → List WorkflowNode
  | ⟨_, _, _, _, _, _, branches, body⟩ => branchNodes branches ++ bodyNodes body

def branchNodes : List (String × WorkflowSubgraph) → List WorkflowNode
  | [] => []
  | (_, graph) :: branches => nodesOf graph ++ branchNodes branches

def bodyNodes : Option WorkflowSubgraph → List WorkflowNode
  | none => []
  | some graph => nodesOf graph

end

/-- The limits `collect_runtime_limits` finds in the `with` map of a node, those that fit `u32`. -/
def parallelismLimits (node : WorkflowNode) : List Nat :=
  (["maxConcurrency", "maxParallelNodes"].filterMap fun key =>
    (node.config.get? key).bind Value.asU64).filter (· < 2 ^ 32)

structure PlanBoundsView where
  nodeCount : Nat
  controlEdgeCount : Nat
  nestingDepth : Nat
  maximumNodes : Nat := maxNodes
  maximumControlEdges : Nat := maxEdges
  maximumNestingDepth : Nat := 32
  loopIterationLimits : List Nat
  retryAttemptLimits : List Nat
  parallelismLimits : List Nat
  workflowTimeout : Option String
  deriving DecidableEq, Repr

def planBounds (doc : WorkflowDocument) : PlanBoundsView where
  nodeCount := (graphMetrics doc.graph 0).nodeCount
  controlEdgeCount := (graphMetrics doc.graph 0).edgeCount
  nestingDepth := (graphMetrics doc.graph 0).maximumDepth
  loopIterationLimits :=
    (nodesOf doc.graph).filterMap fun node => (node.config.get? "maxIterations").bind Value.asU64
  retryAttemptLimits := (nodesOf doc.graph).filterMap fun node =>
    node.retry.map RetryPolicy.maxAttempts
  parallelismLimits := (nodesOf doc.graph).flatMap KakuneCore.parallelismLimits
  workflowTimeout := doc.policy.timeout

/-- Whether the planner, the runtime or a plugin knows a node type. -/
def capabilityOf (plugins : PluginRegistry) (nodeType : String) : String :=
  if (nodeDefinition nodeType).isSome || isBuiltinNodeType nodeType || plugins.contains nodeType
  then "available" else "unavailable"

structure PlanView where
  format : String := "kakune-plan/v1"
  workflowId : Option String
  workflowRevision : Option String
  scopes : List PlanScopeView
  bounds : PlanBoundsView
  capabilityAvailability : StrMap String
  diagnostics : List Diagnostic
  deriving DecidableEq, Repr

/-- `plan_view`, from the decoded document on. A document that does not validate has no scopes. -/
def planView (doc : WorkflowDocument) (revision : Option String) (plugins : PluginRegistry) :
    PlanView :=
  match doc.validate with
  | .error error =>
    { workflowId := none, workflowRevision := revision, scopes := [],
      bounds := ⟨0, 0, 0, maxNodes, maxEdges, 32, [], [], [], none⟩,
      capabilityAvailability := [],
      diagnostics := [{ code := "yaml.invalid", message := error, pointer := "" }] }
  | .ok () =>
    { workflowId := some doc.metadata.id, workflowRevision := revision,
      scopes := appendPlanScope "workflow" "workflow" doc.graph, bounds := planBounds doc,
      capabilityAvailability := (nodesOf doc.graph).foldl
        (fun found node => found.insert node.nodeType (capabilityOf plugins node.nodeType)) [],
      diagnostics := validateSemantics doc plugins }

/-! ### What a scope shows -/

/-- The scope of a graph, whatever its id and kind. -/
def ShowsGraph (scope : PlanScopeView) (graph : WorkflowSubgraph) : Prop :=
  ∃ id kind, scope = ⟨id, kind, graph.entry, graph.nodes.map (planNodeView id graph.nodes)⟩

mutual

theorem appendPlanScope_shows (scopeId scopeKind : String) : ∀ graph : WorkflowSubgraph,
    List.Forall₂ ShowsGraph (appendPlanScope scopeId scopeKind graph) (graphsOf graph)
  | ⟨entry, nodes, outputs⟩ => by
    rw [appendPlanScope, graphsOf]
    exact .cons ⟨scopeId, scopeKind, rfl⟩ (nestedPlanScopes_shows scopeId nodes)

theorem nestedPlanScopes_shows (scopeId : String) : ∀ nodes : List WorkflowNode,
    List.Forall₂ ShowsGraph (nestedPlanScopes scopeId nodes) (nestedGraphsOf nodes)
  | [] => .nil
  | node :: nodes => by
    rw [nestedPlanScopes, nestedGraphsOf]
    exact List.rel_append (nodePlanScopes_shows scopeId node) (nestedPlanScopes_shows scopeId nodes)

theorem nodePlanScopes_shows (scopeId : String) : ∀ node : WorkflowNode,
    List.Forall₂ ShowsGraph (nodePlanScopes scopeId node) (nodeGraphsOf node)
  | ⟨id, _, _, _, _, _, branches, body⟩ => by
    rw [nodePlanScopes, nodeGraphsOf]
    exact List.rel_append (branchPlanScopes_shows _ branches) (bodyPlanScopes_shows _ body)

theorem branchPlanScopes_shows (idPrefix : String) :
    ∀ branches : List (String × WorkflowSubgraph),
      List.Forall₂ ShowsGraph (branchPlanScopes idPrefix branches) (branchGraphsOf branches)
  | [] => .nil
  | (branch, graph) :: branches => by
    rw [branchPlanScopes, branchGraphsOf]
    exact List.rel_append (appendPlanScope_shows _ _ graph)
      (branchPlanScopes_shows idPrefix branches)

theorem bodyPlanScopes_shows (scopeId : String) : ∀ body : Option WorkflowSubgraph,
    List.Forall₂ ShowsGraph (bodyPlanScopes scopeId body) (bodyGraphsOf body)
  | none => .nil
  | some graph => appendPlanScope_shows scopeId "body" graph

end

/-- A graph owns the graphs its nodes carry. -/
def Owns (g h : WorkflowSubgraph) : Prop := ∃ node ∈ g.nodes, h ∈ node.ownedGraphs

theorem mem_branchGraphsOf {branches : List (String × WorkflowSubgraph)} {h : WorkflowSubgraph} :
    h ∈ branchGraphsOf branches ↔ ∃ g ∈ branches.map Prod.snd, h ∈ graphsOf g := by
  induction branches with
  | nil => simp [branchGraphsOf]
  | cons entry branches ih =>
    obtain ⟨branch, graph⟩ := entry
    simp [branchGraphsOf, ih]

theorem mem_bodyGraphsOf {body : Option WorkflowSubgraph} {h : WorkflowSubgraph} :
    h ∈ bodyGraphsOf body ↔ ∃ g ∈ body.toList, h ∈ graphsOf g := by
  rcases body with - | graph
  · simp [bodyGraphsOf]
  · simp [bodyGraphsOf]

theorem mem_nodeGraphsOf {node : WorkflowNode} {h : WorkflowSubgraph} :
    h ∈ nodeGraphsOf node ↔ ∃ g ∈ node.ownedGraphs, h ∈ graphsOf g := by
  obtain ⟨id, nodeType, config, inputs, on, retry, branches, body⟩ := node
  rw [nodeGraphsOf, List.mem_append, mem_branchGraphsOf, mem_bodyGraphsOf]
  constructor
  · rintro (⟨g, hg, hmem⟩ | ⟨g, hg, hmem⟩)
    · exact ⟨g, List.mem_append_left _ hg, hmem⟩
    · exact ⟨g, List.mem_append_right _ hg, hmem⟩
  · rintro ⟨g, hg, hmem⟩
    rcases List.mem_append.mp hg with hg | hg
    · exact .inl ⟨g, hg, hmem⟩
    · exact .inr ⟨g, hg, hmem⟩

theorem mem_nestedGraphsOf {nodes : List WorkflowNode} {h : WorkflowSubgraph} :
    h ∈ nestedGraphsOf nodes ↔ ∃ node ∈ nodes, ∃ g ∈ node.ownedGraphs, h ∈ graphsOf g := by
  induction nodes with
  | nil => simp [nestedGraphsOf]
  | cons node nodes ih => simp [nestedGraphsOf, ih, mem_nodeGraphsOf]

theorem mem_graphsOf {g h : WorkflowSubgraph} :
    h ∈ graphsOf g ↔ h = g ∨ ∃ g', Owns g g' ∧ h ∈ graphsOf g' := by
  obtain ⟨entry, nodes, outputs⟩ := g
  rw [graphsOf, List.mem_cons, mem_nestedGraphsOf]
  refine or_congr_right ⟨?_, ?_⟩
  · rintro ⟨node, hnode, g', hg', hmem⟩
    exact ⟨g', ⟨node, hnode, hg'⟩, hmem⟩
  · rintro ⟨g', ⟨node, hnode, hg'⟩, hmem⟩
    exact ⟨node, hnode, g', hg', hmem⟩

mutual

theorem owns_of_mem_graphsOf {h : WorkflowSubgraph} : ∀ g : WorkflowSubgraph,
    h ∈ graphsOf g → Relation.ReflTransGen Owns g h
  | ⟨entry, nodes, outputs⟩, hmem => by
    rw [graphsOf, List.mem_cons] at hmem
    rcases hmem with rfl | hmem
    · exact .refl
    · obtain ⟨node, hnode, g, hg, hreach⟩ := owns_of_mem_nestedGraphsOf nodes hmem
      exact .head ⟨node, hnode, hg⟩ hreach

theorem owns_of_mem_nestedGraphsOf {h : WorkflowSubgraph} : ∀ nodes : List WorkflowNode,
    h ∈ nestedGraphsOf nodes →
      ∃ node ∈ nodes, ∃ g ∈ node.ownedGraphs, Relation.ReflTransGen Owns g h
  | [], hmem => by simp [nestedGraphsOf] at hmem
  | node :: nodes, hmem => by
    rw [nestedGraphsOf, List.mem_append] at hmem
    rcases hmem with hfirst | hrest
    · obtain ⟨g, hg, hreach⟩ := owns_of_mem_nodeGraphsOf node hfirst
      exact ⟨node, List.mem_cons_self, g, hg, hreach⟩
    · obtain ⟨node', hnode, g, hg, hreach⟩ := owns_of_mem_nestedGraphsOf nodes hrest
      exact ⟨node', List.mem_cons_of_mem _ hnode, g, hg, hreach⟩

theorem owns_of_mem_nodeGraphsOf {h : WorkflowSubgraph} : ∀ node : WorkflowNode,
    h ∈ nodeGraphsOf node → ∃ g ∈ node.ownedGraphs, Relation.ReflTransGen Owns g h
  | ⟨_, _, _, _, _, _, branches, body⟩, hmem => by
    rw [nodeGraphsOf, List.mem_append] at hmem
    rcases hmem with hbranch | hbody
    · obtain ⟨g, hg, hreach⟩ := owns_of_mem_branchGraphsOf branches hbranch
      exact ⟨g, List.mem_append_left _ hg, hreach⟩
    · obtain ⟨g, hg, hreach⟩ := owns_of_mem_bodyGraphsOf body hbody
      exact ⟨g, List.mem_append_right _ hg, hreach⟩

theorem owns_of_mem_branchGraphsOf {h : WorkflowSubgraph} :
    ∀ branches : List (String × WorkflowSubgraph), h ∈ branchGraphsOf branches →
      ∃ g ∈ branches.map Prod.snd, Relation.ReflTransGen Owns g h
  | [], hmem => by simp [branchGraphsOf] at hmem
  | (branch, graph) :: branches, hmem => by
    rw [branchGraphsOf, List.mem_append] at hmem
    rcases hmem with hfirst | hrest
    · exact ⟨graph, List.mem_cons_self, owns_of_mem_graphsOf graph hfirst⟩
    · obtain ⟨g, hg, hreach⟩ := owns_of_mem_branchGraphsOf branches hrest
      exact ⟨g, List.mem_cons_of_mem _ hg, hreach⟩

theorem owns_of_mem_bodyGraphsOf {h : WorkflowSubgraph} : ∀ body : Option WorkflowSubgraph,
    h ∈ bodyGraphsOf body → ∃ g ∈ body.toList, Relation.ReflTransGen Owns g h
  | none, hmem => by simp [bodyGraphsOf] at hmem
  | some graph, hmem =>
    ⟨graph, List.mem_singleton_self graph, owns_of_mem_graphsOf graph hmem⟩

end

/-- The listed graphs are those reached by following ownership. -/
theorem mem_graphsOf_iff_owns {g h : WorkflowSubgraph} :
    h ∈ graphsOf g ↔ Relation.ReflTransGen Owns g h := by
  refine ⟨owns_of_mem_graphsOf g, fun hreach => ?_⟩
  induction hreach using Relation.ReflTransGen.head_induction_on with
  | refl => exact mem_graphsOf.mpr (.inl rfl)
  | head hstep _ ih => exact mem_graphsOf.mpr (.inr ⟨_, hstep, ih⟩)

/-- **The scopes of a document** are its own graph and the graphs that occur in it. -/
theorem mem_graphsOf_iff {g h : WorkflowSubgraph} :
    h ∈ graphsOf g ↔ h = g ∨ ∃ n, Occurs g.nodes h n := by
  rw [mem_graphsOf_iff_owns]
  constructor
  · intro hreach
    induction hreach with
    | refl => exact .inl rfl
    | tail _ hstep ih =>
      obtain ⟨node, hnode, hg⟩ := hstep
      rcases ih with rfl | ⟨n, hocc⟩
      · exact .inr ⟨1, .here hnode hg⟩
      · exact .inr ⟨n + 1, .deeper hocc hnode hg⟩
  · rintro (rfl | ⟨n, hocc⟩)
    · exact .refl
    · induction hocc with
      | here hnode hg => exact .single ⟨_, hnode, hg⟩
      | deeper _ hnode hg ih => exact .tail ih ⟨_, hnode, hg⟩

/-! ### The producers of a node -/

/-- Some `from` binding of the node names the producer. -/
def WorkflowNode.BindsFrom (node : WorkflowNode) (producer : String) : Prop :=
  ∃ name source, (name, .from source) ∈ node.inputs ∧ referencedNode source = some producer

/-- Some `from` member, at any depth of an expression of the node, names the producer. -/
def WorkflowNode.MentionsNode (node : WorkflowNode) (producer : String) : Prop :=
  ∃ name expr source, (name, .expr expr) ∈ node.inputs ∧ Mentions expr source ∧
    referencedNode source = some producer

/-- Some reference that an expression of the node reads names the producer. -/
def WorkflowNode.ReadsNode (node : WorkflowNode) (producer : String) : Prop :=
  ∃ name expr source, (name, .expr expr) ∈ node.inputs ∧ Reads expr source ∧
    referencedNode source = some producer

theorem WorkflowNode.ReadsNode.mentionsNode {node : WorkflowNode} {producer : String}
    (h : node.ReadsNode producer) : node.MentionsNode producer := by
  obtain ⟨name, expr, source, hinput, hreads, hnode⟩ := h
  exact ⟨name, expr, source, hinput, hreads.mentions, hnode⟩

theorem mem_plannedDependencies_iff {node : WorkflowNode} {producer : String} :
    producer ∈ plannedDependencies node ↔ node.BindsFrom producer := by
  rw [plannedDependencies, List.mem_filterMap]
  constructor
  · rintro ⟨binding, hmem, hnode⟩
    obtain ⟨⟨name, binding'⟩, hinput, rfl⟩ := List.mem_map.mp hmem
    rcases binding' with _ | source | _ | _
    · simp at hnode
    · exact ⟨name, source, hinput, hnode⟩
    · simp at hnode
    · simp at hnode
  · rintro ⟨name, source, hinput, hnode⟩
    exact ⟨.from source, List.mem_map_of_mem hinput, hnode⟩

/-- A list of references found in the bindings, one kind in `from` bindings and one in
expressions, names the producers of both kinds. -/
theorem exists_source_iff (node : WorkflowNode) (producer : String)
    (found : WorkflowBinding → List String) (Finds : Value → String → Prop)
    (hfrom : ∀ source, found (.from source) = [source])
    (hexpr : ∀ expr source, source ∈ found (.expr expr) ↔ Finds expr source)
    (hliteral : ∀ literal, found (.literal literal) = [])
    (hsecret : ∀ secret, found (.secret secret) = []) :
    (∃ binding ∈ node.inputs.values, ∃ source ∈ found binding,
        referencedNode source = some producer) ↔
      node.BindsFrom producer ∨ ∃ name expr source, (name, .expr expr) ∈ node.inputs ∧
        Finds expr source ∧ referencedNode source = some producer := by
  constructor
  · rintro ⟨binding, hmem, source, hsource, hnode⟩
    obtain ⟨⟨name, binding'⟩, hinput, rfl⟩ := List.mem_map.mp hmem
    rcases binding' with literal | source' | expr | secret
    · simp [hliteral] at hsource
    · rw [hfrom, List.mem_singleton] at hsource
      subst hsource
      exact .inl ⟨name, source, hinput, hnode⟩
    · exact .inr ⟨name, expr, source, hinput, (hexpr expr source).mp hsource, hnode⟩
    · simp [hsecret] at hsource
  · rintro (⟨name, source, hinput, hnode⟩ | ⟨name, expr, source, hinput, hfinds, hnode⟩)
    · exact ⟨.from source, List.mem_map_of_mem hinput, source, by simp [hfrom], hnode⟩
    · exact ⟨.expr expr, List.mem_map_of_mem hinput, source, (hexpr expr source).mpr hfinds, hnode⟩

/-- **What the runtime waits for.** -/
theorem mem_dependencies_iff {node : WorkflowNode} {producer : String} :
    producer ∈ node.dependencies ↔ node.BindsFrom producer ∨ node.ReadsNode producer := by
  have hsources := exists_source_iff node producer bindingReferences Reads (fun _ => rfl)
    (fun _ _ => mem_expressionReferences_iff) (fun _ => rfl) (fun _ => rfl)
  rw [WorkflowNode.ReadsNode, ← hsources]
  simp only [WorkflowNode.dependencies, bindingDependencies, List.mem_flatMap, List.mem_filterMap]

theorem toList_referencedNode (source : String) :
    (referencedNode source).toList = [source].filterMap referencedNode := by
  rcases h : referencedNode source with - | producer
  · simp [h]
  · simp [h]

mutual

theorem collectExpressionDependencies_eq : ∀ value : Value,
    collectExpressionDependencies value = (expressionSources value).filterMap referencedNode
  | .object fields => by
    rw [collectExpressionDependencies, expressionSources, List.filterMap_append,
      collectFieldDependencies_eq fields]
    rcases (StrMap.get? fields "from").bind Value.asStr with - | source
    · rfl
    · exact congrArg (· ++ _) (toList_referencedNode source)
  | .array items => by
    rw [collectExpressionDependencies, expressionSources, collectItemDependencies_eq items]
  | .null | .bool _ | .number _ | .string _ => by
    simp [collectExpressionDependencies, expressionSources]

theorem collectItemDependencies_eq : ∀ items : List Value,
    collectItemDependencies items = (expressionSourcesItems items).filterMap referencedNode
  | [] => rfl
  | item :: items => by
    rw [collectItemDependencies, expressionSourcesItems, List.filterMap_append,
      collectExpressionDependencies_eq item, collectItemDependencies_eq items]

theorem collectFieldDependencies_eq : ∀ fields : List (String × Value),
    collectFieldDependencies fields = (expressionSourcesFields fields).filterMap referencedNode
  | [] => rfl
  | (_, value) :: fields => by
    rw [collectFieldDependencies, expressionSourcesFields, List.filterMap_append,
      collectExpressionDependencies_eq value, collectFieldDependencies_eq fields]

end

theorem collectBindingDependencies_eq (binding : WorkflowBinding) :
    collectBindingDependencies binding = (bindingSources binding).filterMap referencedNode := by
  rcases binding with literal | source | expr | secret
  · rfl
  · rw [collectBindingDependencies, bindingSources, toList_referencedNode]
  · exact collectExpressionDependencies_eq expr
  · rfl

/-- **What the plan view shows.** -/
theorem mem_planNodeView_iff {scopeId : String} {nodes : List WorkflowNode} {node : WorkflowNode}
    {producer : String} :
    producer ∈ (planNodeView scopeId nodes node).dataDependencies ↔
      node.BindsFrom producer ∨ node.MentionsNode producer := by
  have hsources := exists_source_iff node producer bindingSources Mentions (fun _ => rfl)
    (fun _ _ => mem_expressionSources_iff) (fun _ => rfl) (fun _ => rfl)
  rw [WorkflowNode.MentionsNode, ← hsources]
  simp only [planNodeView, List.mem_dedup, List.mem_insertionSort, List.mem_flatMap,
    collectBindingDependencies_eq, List.mem_filterMap]

/-! ### Where the three agree -/

/-- The producers listed for a node are those the runtime waits for. -/
def ListsDependencies (listed : List String) (node : WorkflowNode) : Prop :=
  ∀ producer, producer ∈ listed ↔ producer ∈ node.dependencies

/-- **Plan dependencies agree**: at every node of the plan the recorded producers, and at every node
of every scope the shown producers, are those the runtime waits for. -/
structure DependenciesAgree (doc : WorkflowDocument) (plan : ExecutionPlan) (view : PlanView) :
    Prop where
  recorded : List.Forall₂
    (fun (planned : PlannedNode) node =>
      planned.id = node.id ∧ ListsDependencies planned.dataDependencies node)
    plan.nodes doc.nodes
  shown : List.Forall₂
    (fun (scope : PlanScopeView) graph => List.Forall₂
      (fun (shown : PlanNodeView) node =>
        shown.id = node.id ∧ ListsDependencies shown.dataDependencies node)
      scope.nodes graph.nodes)
    view.scopes (graphsOf doc.graph)

theorem listsDependencies_plannedDependencies_iff {node : WorkflowNode} :
    ListsDependencies (plannedDependencies node) node ↔
      ∀ producer, node.ReadsNode producer → node.BindsFrom producer := by
  simp only [ListsDependencies, mem_plannedDependencies_iff, mem_dependencies_iff]
  exact forall_congr' fun producer => by tauto

theorem listsDependencies_planNodeView_iff {scopeId : String} {nodes : List WorkflowNode}
    {node : WorkflowNode} :
    ListsDependencies (planNodeView scopeId nodes node).dataDependencies node ↔
      ∀ producer, node.MentionsNode producer →
        node.BindsFrom producer ∨ node.ReadsNode producer := by
  simp only [ListsDependencies, mem_planNodeView_iff, mem_dependencies_iff]
  refine forall_congr' fun producer => ⟨fun h hmentions => h.mp (.inr hmentions), fun h => ?_⟩
  constructor
  · rintro (hbinds | hmentions)
    · exact .inl hbinds
    · exact h hmentions
  · rintro (hbinds | hreads)
    · exact .inl hbinds
    · exact .inr hreads.mentionsNode

theorem forall₂_map_iff {α β : Type} {f : α → β} {R : β → α → Prop} {xs : List α} :
    List.Forall₂ R (xs.map f) xs ↔ ∀ x ∈ xs, R (f x) x := by
  rw [List.forall₂_map_left_iff, List.forall₂_same]

/-- The recorded producers of an accepted document. -/
theorem recorded_iff {doc : WorkflowDocument} :
    List.Forall₂
      (fun (planned : PlannedNode) node =>
        planned.id = node.id ∧ ListsDependencies planned.dataDependencies node)
      (planOf doc).nodes doc.nodes ↔
      ∀ node ∈ doc.nodes, ∀ producer, node.ReadsNode producer → node.BindsFrom producer := by
  rw [planOf, forall₂_map_iff]
  refine forall₂_congr fun node _ => ?_
  rw [← listsDependencies_plannedDependencies_iff]
  exact and_iff_right rfl

/-- Along matching lists, a relation that depends on the second entry only. -/
theorem forall₂_iff_forall {α β : Type} {S R : α → β → Prop} {P : β → Prop}
    (hR : ∀ x y, S x y → (R x y ↔ P y)) {xs : List α} {ys : List β} (h : List.Forall₂ S xs ys) :
    List.Forall₂ R xs ys ↔ ∀ y ∈ ys, P y := by
  induction h with
  | nil => simp
  | cons hS _ ih => simp [hR _ _ hS, ih]

/-- The producers an accepted document is shown with. -/
theorem shown_iff {doc : WorkflowDocument} :
    List.Forall₂
      (fun (scope : PlanScopeView) graph => List.Forall₂
        (fun (shown : PlanNodeView) node =>
          shown.id = node.id ∧ ListsDependencies shown.dataDependencies node)
        scope.nodes graph.nodes)
      (appendPlanScope "workflow" "workflow" doc.graph) (graphsOf doc.graph) ↔
      ∀ graph ∈ graphsOf doc.graph, ∀ node ∈ graph.nodes, ∀ producer,
        node.MentionsNode producer → node.BindsFrom producer ∨ node.ReadsNode producer := by
  refine forall₂_iff_forall ?_ (appendPlanScope_shows "workflow" "workflow" doc.graph)
  rintro scope graph ⟨id, kind, rfl⟩
  rw [forall₂_map_iff]
  refine forall₂_congr fun node _ => ?_
  rw [← listsDependencies_planNodeView_iff]
  exact and_iff_right rfl

/-- Every node that an expression mentions is also bound by a `from` input of the same node; below
the top level it is enough that it is read. -/
structure PlainlyBound (doc : WorkflowDocument) : Prop where
  top : ∀ node ∈ doc.nodes, ∀ producer, node.MentionsNode producer → node.BindsFrom producer
  nested : ∀ graph n, Occurs doc.nodes graph n → ∀ node ∈ graph.nodes, ∀ producer,
    node.MentionsNode producer → node.BindsFrom producer ∨ node.ReadsNode producer

/-- **The dependencies of an accepted document agree** exactly when its expressions mention no node
that is not plainly bound as well. -/
theorem dependencies_agree_iff (doc : WorkflowDocument) (plugins : PluginRegistry)
    (revision : Option String) (compiled : CompiledWorkflow)
    (h : compile doc plugins = .ok compiled) :
    DependenciesAgree doc compiled.plan (planView doc revision plugins) ↔ PlainlyBound doc := by
  obtain ⟨hvalid, -, rfl⟩ := compile_eq_ok h
  have hscopes : (planView doc revision plugins).scopes =
      appendPlanScope "workflow" "workflow" doc.graph := by
    rw [planView, hvalid]
  constructor
  · rintro ⟨hrecorded, hshown⟩
    rw [recorded_iff] at hrecorded
    rw [hscopes, shown_iff] at hshown
    refine ⟨fun node hnode producer hmentions => ?_, fun graph n hocc node hnode => ?_⟩
    · have htop := hshown doc.graph (mem_graphsOf_iff.mpr (.inl rfl)) node hnode producer hmentions
      rcases htop with hbinds | hreads
      · exact hbinds
      · exact hrecorded node hnode producer hreads
    · exact hshown graph (mem_graphsOf_iff.mpr (.inr ⟨n, hocc⟩)) node hnode
  · rintro ⟨htop, hnested⟩
    refine ⟨recorded_iff.mpr fun node hnode producer hreads => ?_, ?_⟩
    · exact htop node hnode producer hreads.mentionsNode
    · rw [hscopes, shown_iff]
      intro graph hgraph node hnode producer hmentions
      rcases mem_graphsOf_iff.mp hgraph with rfl | ⟨n, hocc⟩
      · exact .inl (htop node hnode producer hmentions)
      · exact hnested graph n hocc node hnode producer hmentions

/-- A log node behind a node that reads a file. -/
def fileLogDocument (message : WorkflowBinding) : WorkflowDocument :=
  sampleDocument "a"
    [{ id := "a", nodeType := "kakune.fs.read-text@1",
       inputs := [("path", .literal (.string "notes.txt"))], on := [("success", .one "b")] },
     { id := "b", nodeType := "kakune.log@1", inputs := [("message", message)] }]

theorem not_occurs_fileLogDocument {message : WorkflowBinding} {graph : WorkflowSubgraph}
    {n : Nat} :
    ¬ Occurs (fileLogDocument message).nodes graph n := by
  intro h
  induction h with
  | here hnode hg =>
    simp only [fileLogDocument, sampleDocument, List.mem_cons, List.not_mem_nil, or_false] at hnode
    rcases hnode with rfl | rfl
    · simp [WorkflowNode.ownedGraphs] at hg
    · simp [WorkflowNode.ownedGraphs] at hg
  | deeper _ _ _ ih => exact ih

/-- The message bound directly. -/
theorem fileLogDocument_dependencies_agree :
    compile (fileLogDocument (.from "a.text")) [] =
        .ok ⟨fileLogDocument (.from "a.text"), planOf (fileLogDocument (.from "a.text"))⟩ ∧
      DependenciesAgree (fileLogDocument (.from "a.text"))
        (planOf (fileLogDocument (.from "a.text")))
        (planView (fileLogDocument (.from "a.text")) none []) := by
  have hc : compile (fileLogDocument (.from "a.text")) [] =
      .ok ⟨fileLogDocument (.from "a.text"), planOf (fileLogDocument (.from "a.text"))⟩ := by rfl
  refine ⟨hc, (dependencies_agree_iff _ [] none _ hc).mpr ⟨?_, ?_⟩⟩
  · intro node hnode producer hmentions
    obtain ⟨name, expr, source, hinput, -⟩ := hmentions
    simp only [fileLogDocument, sampleDocument, List.mem_cons, List.not_mem_nil, or_false] at hnode
    rcases hnode with rfl | rfl
    · simp at hinput
    · simp at hinput
  · intro graph n hocc
    exact absurd hocc not_occurs_fileLogDocument

/-- The message built by an expression. -/
def fileLogExpression : Value :=
  .object [("args", .array [.object [("from", .string "a.text")]]), ("op", .string "concat")]

/-- The node an expression reads is waited for and shown, and not recorded. -/
theorem expression_dependency_is_not_recorded :
    ∃ compiled, compile (fileLogDocument (.expr fileLogExpression)) [] = .ok compiled ∧
      ¬ DependenciesAgree (fileLogDocument (.expr fileLogExpression)) compiled.plan
        (planView (fileLogDocument (.expr fileLogExpression)) none []) := by
  refine ⟨⟨_, planOf (fileLogDocument (.expr fileLogExpression))⟩, by rfl, fun h => ?_⟩
  have hrecorded := recorded_iff.mp h.recorded _ (List.mem_cons_of_mem _ List.mem_cons_self) "a"
    ⟨"message", fileLogExpression, "a.text", List.mem_cons_self,
      .args rfl List.mem_cons_self (.here rfl), by decide⟩
  rw [← mem_plannedDependencies_iff] at hrecorded
  simp [plannedDependencies, StrMap.values] at hrecorded

end KakuneCore
