import KakuneCore.Workflow.ControlGraph
import KakuneCore.Runtime.Resolve

/-!
# What an accepted document satisfies

`WorkflowDocument.validate` and the semantic analysis end in `Except` and in a list of
diagnostics. This file turns acceptance into facts about graphs: `GraphFacts` is what the
validator establishes for one graph, `ReferenceFacts` what the analysis establishes, and
`Validated` and `Analysed` say that these hold for a graph **and for every graph the runtime can
enter from it**. The recursion of both follows the nesting, which the validator bounds.
-/

namespace KakuneCore

/-! ### Inversion of checks -/

theorem check_bind_eq_ok {ε β : Type} {x : Except ε Unit} {f : Unit → Except ε β} {b : β} :
    x >>= f = .ok b ↔ x = .ok () ∧ f () = .ok b := by
  cases x with
  | error e =>
    constructor
    · intro h; cases h
    · rintro ⟨h, -⟩; cases h
  | ok a =>
    constructor
    · intro h; exact ⟨rfl, h⟩
    · rintro ⟨-, h⟩; exact h

theorem ensure_eq_ok {condition : Bool} {message : String} :
    ensure condition message = .ok () ↔ condition = true := by
  cases condition <;> simp [ensure]

theorem checkEach_eq_ok {α : Type} {check : α → Except String Unit} {xs : List α} :
    checkEach check xs = .ok () ↔ ∀ x ∈ xs, check x = .ok () := by
  induction xs with
  | nil => simp [checkEach]
  | cons x xs ih => simp [checkEach, check_bind_eq_ok, ih]

theorem checkDistinct_eq_ok {α : Type} {id : α → String} {before after : α → Except String Unit}
    {duplicate : String → String} {seen : List String} {items : List α}
    (h : checkDistinct id before after duplicate seen items = .ok ()) :
    (items.map id).Nodup ∧ (∀ i ∈ items, id i ∉ seen) ∧
      ∀ i ∈ items, before i = .ok () ∧ after i = .ok () := by
  induction items generalizing seen with
  | nil => simp
  | cons item items ih =>
    simp only [checkDistinct, check_bind_eq_ok, ensure_eq_ok, decide_eq_true_eq] at h
    obtain ⟨hbefore, hseen, hafter, hrest⟩ := h
    obtain ⟨hnd, hnot, hall⟩ := ih hrest
    refine ⟨?_, ?_, ?_⟩
    · rw [List.map_cons, List.nodup_cons]
      refine ⟨fun hmem => ?_, hnd⟩
      obtain ⟨i, hi, hid⟩ := List.mem_map.mp hmem
      exact hnot i hi (hid ▸ List.mem_cons_self)
    · simp only [List.mem_cons, forall_eq_or_imp]
      exact ⟨hseen, fun i hi hmem => hnot i hi (List.mem_cons_of_mem _ hmem)⟩
    · simp only [List.mem_cons, forall_eq_or_imp]
      exact ⟨⟨hbefore, hafter⟩, hall⟩

/-! ### Graphs the runtime can enter -/

/-- The graphs a node can run: the branches of a switch, the body of a foreach or a loop. -/
def WorkflowNode.subgraphs (node : WorkflowNode) : List WorkflowSubgraph :=
  match node.kind with
  | .switch => node.branches.map Prod.snd
  | .foreach | .loop => node.body.toList
  | _ => []

/-- The graphs a node carries, whatever its type. -/
def WorkflowNode.ownedGraphs (node : WorkflowNode) : List WorkflowSubgraph :=
  node.branches.map Prod.snd ++ node.body.toList

theorem WorkflowNode.subgraphs_subset (node : WorkflowNode) :
    node.subgraphs ⊆ node.ownedGraphs := by
  unfold WorkflowNode.subgraphs
  split
  · exact List.subset_append_left _ _
  · exact List.subset_append_right _ _
  · exact List.subset_append_right _ _
  · exact List.nil_subset _

/-- The scope in which the validator enters the graphs of a node, if it enters them. -/
def NodeKind.graphScope : NodeKind → Option SubgraphScope
  | .switch => some .switch
  | .foreach => some .foreach
  | .loop => some .loop
  | _ => none

/-- `Nested g h`: the runtime can come to run `h` while it runs `g`. -/
def Nested : WorkflowSubgraph → WorkflowSubgraph → Prop :=
  Relation.ReflTransGen fun g h => ∃ node ∈ g.nodes, h ∈ node.subgraphs

/-- A graph without control nodes has no other graph nested in it. -/
theorem Nested.eq_of_flat {g h : WorkflowSubgraph} (hn : Nested g h)
    (hflat : ∀ node ∈ g.nodes, node.subgraphs = []) : h = g := by
  induction hn with
  | refl => rfl
  | tail _ hstep ih =>
    obtain ⟨node, hnode, hsub⟩ := hstep
    subst ih
    rw [hflat node hnode] at hsub
    cases hsub

/-- The references of the input bindings of a node. -/
def WorkflowNode.references (node : WorkflowNode) : List String :=
  node.inputs.values.flatMap bindingReferences

theorem WorkflowNode.mem_dependencies {node : WorkflowNode} {producer : String} :
    producer ∈ node.dependencies ↔
      ∃ source ∈ node.references, referencedNode source = some producer := by
  simp only [dependencies, references, bindingDependencies, List.mem_flatMap, List.mem_filterMap]
  constructor
  · rintro ⟨binding, hb, source, hs, hp⟩
    exact ⟨source, ⟨binding, hb, hs⟩, hp⟩
  · rintro ⟨source, ⟨binding, hb, hs⟩, hp⟩
    exact ⟨binding, hb, source, hs, hp⟩

/-! ### The validator -/

/-- What `validate_retry` establishes for a node. -/
def RetryFacts (node : WorkflowNode) : Prop :=
  ∀ retry, node.retry = some retry →
    (1 ≤ retry.maxAttempts ∧ retry.maxAttempts ≤ 10) ∧
      (node.kind.isExternalEffect = true → node.declaresIdempotent = true)

/-- What the validator establishes for one graph. -/
structure GraphFacts (graph : WorkflowSubgraph) : Prop where
  nodup : (nodeIds graph.nodes).Nodup
  valid : ∀ node ∈ graph.nodes, isValidId node.id = true
  entry_mem : graph.entry ∈ nodeIds graph.nodes
  targets_mem : ∀ node ∈ graph.nodes, ∀ target ∈ node.targets, target ∈ nodeIds graph.nodes
  acyclic : Acyclic graph.nodes
  writer : ∀ node ∈ graph.nodes, node.kind = .setVariable →
    node.inputs.contains "value" = true ∧ node.variableName.isSome = true
  retry : ∀ node ∈ graph.nodes, RetryFacts node
  branches : ∀ node ∈ graph.nodes, node.kind = .switch → ∀ branch ∈ node.branches,
    isValidId branch.1 = true

/-- A graph and the graphs below it, `levels` deep, satisfy `GraphFacts`. -/
def Validated : (levels : Nat) → WorkflowSubgraph → Prop
  | 0, _ => False
  | levels + 1, graph =>
    GraphFacts graph ∧ ∀ node ∈ graph.nodes, ∀ h ∈ node.subgraphs, Validated levels h

theorem retryFacts_of_validateRetry {node : WorkflowNode} {field : String}
    (h : validateRetry node field = .ok ()) : RetryFacts node := by
  intro retry hr
  simp only [validateRetry, hr, check_bind_eq_ok, ensure_eq_ok, Bool.and_eq_true,
    decide_eq_true_eq, Bool.or_eq_true, Bool.not_eq_true'] at h
  obtain ⟨⟨⟨hattempts, -⟩, -⟩, h2⟩ := h
  refine ⟨hattempts, fun hk => ?_⟩
  rcases h2 with h2 | h2
  · rw [hk] at h2; cases h2
  · exact h2

theorem targets_mem_of_validateTargets {nodes : List WorkflowNode} {routeField field : String}
    (h : validateTargets nodes routeField field = .ok ()) :
    ∀ node ∈ nodes, ∀ target ∈ node.targets, target ∈ nodeIds nodes := by
  intro node hn target ht
  obtain ⟨targets, hts, hmem⟩ := List.mem_flatMap.mp ht
  obtain ⟨⟨route, targets'⟩, hon, rfl⟩ := List.mem_map.mp hts
  have hroute := checkEach_eq_ok.mp (checkEach_eq_ok.mp h node hn) _ hon
  simp only [check_bind_eq_ok] at hroute
  obtain ⟨-, -, hall⟩ := hroute
  simpa [ensure_eq_ok] using checkEach_eq_ok.mp hall target hmem

/-- A structured node that passes hands every graph it can run to `check`. -/
theorem check_of_validateStructuredNode {check : SubgraphCheck} {node : WorkflowNode}
    {field : String} {lexical : List String}
    (h : validateStructuredNode check node field lexical = .ok ()) :
    ∀ g ∈ node.subgraphs, ∃ field scope, node.kind.graphScope = some scope ∧
      check g field scope lexical = .ok () := by
  intro g hg
  unfold WorkflowNode.subgraphs at hg
  split at hg
  case h_1 hk =>
    obtain ⟨⟨name, branch⟩, hb, rfl⟩ := List.mem_map.mp hg
    simp only [validateStructuredNode, hk, validateSwitch, check_bind_eq_ok] at h
    obtain ⟨-, -, -, h⟩ := h
    split at h
    · cases h
    · simp only [check_bind_eq_ok] at h
      have hbranch := checkEach_eq_ok.mp h.2.2.2 _ hb
      simp only [check_bind_eq_ok] at hbranch
      exact ⟨_, _, by rw [hk]; rfl, hbranch.2.1⟩
  case h_2 hk =>
    rw [Option.mem_toList] at hg
    simp only [validateStructuredNode, hk, validateForeach, check_bind_eq_ok, hg] at h
    obtain ⟨-, -, -, -, hcheck⟩ := h
    exact ⟨_, _, by rw [hk]; rfl, hcheck⟩
  case h_3 hk =>
    rw [Option.mem_toList] at hg
    simp only [validateStructuredNode, hk, validateLoop, check_bind_eq_ok, hg] at h
    obtain ⟨-, -, -, -, hcheck, -⟩ := h
    exact ⟨_, _, by rw [hk]; rfl, hcheck⟩
  case h_4 => cases hg

theorem branches_of_validateStructuredNode {check : SubgraphCheck} {node : WorkflowNode}
    {field : String} {lexical : List String}
    (h : validateStructuredNode check node field lexical = .ok ()) (hk : node.kind = .switch) :
    ∀ branch ∈ node.branches, isValidId branch.1 = true := by
  intro branch hb
  simp only [validateStructuredNode, hk, validateSwitch, check_bind_eq_ok] at h
  obtain ⟨-, -, -, h⟩ := h
  split at h
  · cases h
  · simp only [check_bind_eq_ok] at h
    have hbranch := checkEach_eq_ok.mp h.2.2.2 _ hb
    simp only [check_bind_eq_ok, validateId, ensure_eq_ok] at hbranch
    exact hbranch.1

theorem writer_of_validateStructuredNode {check : SubgraphCheck} {node : WorkflowNode}
    {field : String} {lexical : List String}
    (h : validateStructuredNode check node field lexical = .ok ()) (hk : node.kind = .setVariable) :
    node.inputs.contains "value" = true ∧ node.variableName.isSome = true := by
  simp only [validateStructuredNode, hk, check_bind_eq_ok, ensure_eq_ok, Bool.and_eq_true] at h
  exact h.2

theorem validated_of_validateSubgraph {levels : Nat} {graph : WorkflowSubgraph} {field : String}
    {scope : SubgraphScope} {outer : List String}
    (h : validateSubgraph levels graph field scope outer = .ok ()) : Validated levels graph := by
  induction levels generalizing graph field scope outer with
  | zero => cases h
  | succ levels ih =>
    simp only [validateSubgraph, check_bind_eq_ok, ensure_eq_ok, decide_eq_true_eq] at h
    obtain ⟨-, hdistinct, hentry, htargets, -, -, -, hacyclic⟩ := h
    obtain ⟨hnd, -, hnodes⟩ := checkDistinct_eq_ok hdistinct
    simp only [check_bind_eq_ok, validateId, ensure_eq_ok] at hnodes
    refine ⟨⟨hnd, fun node hn => ?_, hentry, targets_mem_of_validateTargets htargets,
      acyclic_of_ensureAcyclic hnd hacyclic, fun node hn hk => ?_, fun node hn => ?_,
      fun node hn hk => ?_⟩, fun node hn g hg => ?_⟩
    all_goals obtain ⟨⟨hid, -⟩, -, -, hstructured, hretry⟩ := hnodes node hn
    · exact hid
    · exact writer_of_validateStructuredNode hstructured hk
    · exact retryFacts_of_validateRetry hretry
    · exact branches_of_validateStructuredNode hstructured hk
    · obtain ⟨field', scope', -, hcheck⟩ := check_of_validateStructuredNode hstructured g hg
      exact ih hcheck

/-- **An accepted document**: its graph satisfies `GraphFacts`, and so does every graph the
runtime can enter from it. -/
theorem validated_of_validate {doc : WorkflowDocument} (h : doc.validate = .ok ()) :
    Validated 33 doc.graph := by
  simp only [WorkflowDocument.validate, check_bind_eq_ok, ensure_eq_ok, decide_eq_true_eq] at h
  obtain ⟨-, -, -, -, -, -, -, -, -, -, -, hdistinct, hentry, htargets, -, -, hacyclic, -,
    hnodes⟩ := h
  obtain ⟨hnd, -, hids⟩ := checkDistinct_eq_ok hdistinct
  simp only [check_bind_eq_ok, validateId, ensure_eq_ok] at hids
  have hstructured : ∀ node ∈ doc.nodes,
      validateStructuredNode (validateSubgraph 32) node "node" [] = .ok () ∧
        validateRetry node "node" = .ok () := by
    intro node hn
    have hnode := checkEach_eq_ok.mp hnodes node hn
    simp only [check_bind_eq_ok] at hnode
    exact hnode
  refine ⟨⟨hnd, fun node hn => ?_, hentry, targets_mem_of_validateTargets htargets,
    acyclic_of_ensureAcyclic hnd hacyclic,
    fun node hn hk => writer_of_validateStructuredNode (hstructured node hn).1 hk,
    fun node hn => retryFacts_of_validateRetry (hstructured node hn).2,
    fun node hn hk => branches_of_validateStructuredNode (hstructured node hn).1 hk⟩,
    fun node hn g hg => ?_⟩
  · obtain ⟨⟨hid, -⟩, -⟩ := hids node hn
    exact hid
  · obtain ⟨field', scope', -, hcheck⟩ :=
      check_of_validateStructuredNode (hstructured node hn).1 g hg
    exact validated_of_validateSubgraph hcheck

theorem Validated.facts {levels : Nat} {graph : WorkflowSubgraph} (h : Validated levels graph) :
    GraphFacts graph := by
  cases levels with
  | zero => exact h.elim
  | succ levels => exact h.1

/-! ### The semantic analysis -/

/-- The references of the input bindings of a node that the planner checks. -/
def WorkflowNode.sources (node : WorkflowNode) : List String :=
  node.inputs.values.flatMap bindingSources

mutual

theorem expressionReferences_subset : ∀ value : Value,
    expressionReferences value ⊆ expressionSources value
  | .object fields => by
    rw [expressionReferences, expressionSources]
    refine List.append_subset.mpr ⟨List.append_subset.mpr ⟨?_, ?_⟩, ?_⟩
    · exact List.subset_append_left _ _
    · exact List.subset_append_of_subset_right _ (exprReferences_subset fields)
    · exact List.subset_append_of_subset_right _ (argsReferences_subset fields)
  | .null | .bool _ | .number _ | .string _ | .array _ => by
    rw [expressionReferences]
    · exact List.nil_subset _
    · intro fields h; cases h

theorem exprReferences_subset : ∀ fields : List (String × Value),
    exprReferences fields ⊆ expressionSourcesFields fields
  | [] => List.nil_subset _
  | (key, value) :: fields => by
    rw [exprReferences, expressionSourcesFields]
    split
    · exact List.subset_append_of_subset_left _ (expressionReferences_subset value)
    · exact List.subset_append_of_subset_right _ (exprReferences_subset fields)

theorem argsReferences_subset : ∀ fields : List (String × Value),
    argsReferences fields ⊆ expressionSourcesFields fields
  | [] => List.nil_subset _
  | (key, value) :: fields => by
    rw [argsReferences, expressionSourcesFields]
    split
    · exact List.subset_append_of_subset_left _ (arrayReferences_subset value)
    · exact List.subset_append_of_subset_right _ (argsReferences_subset fields)

theorem arrayReferences_subset : ∀ value : Value,
    arrayReferences value ⊆ expressionSources value
  | .array items => by
    rw [arrayReferences, expressionSources]
    exact itemsReferences_subset items
  | .null | .bool _ | .number _ | .string _ | .object _ => by
    rw [arrayReferences]
    · exact List.nil_subset _
    · intro items h; cases h

theorem itemsReferences_subset : ∀ items : List Value,
    itemsReferences items ⊆ expressionSourcesItems items
  | [] => List.nil_subset _
  | item :: items => by
    rw [itemsReferences, expressionSourcesItems]
    exact List.append_subset.mpr
      ⟨List.subset_append_of_subset_left _ (expressionReferences_subset item),
        List.subset_append_of_subset_right _ (itemsReferences_subset items)⟩

end

/-- **The planner checks every reference the runtime waits for.** -/
theorem WorkflowNode.references_subset_sources (node : WorkflowNode) :
    node.references ⊆ node.sources := by
  intro source hs
  obtain ⟨binding, hb, hs⟩ := List.mem_flatMap.mp hs
  refine List.mem_flatMap.mpr ⟨binding, hb, ?_⟩
  cases binding with
  | «from» source => exact hs
  | expr expr => exact expressionReferences_subset expr hs
  | literal _ => exact hs
  | secret _ => exact hs

/-- What the analysis establishes for one reference of a node. -/
structure ReferenceFacts (nodes : List WorkflowNode) (lexical : List String)
    (consumer : WorkflowNode) (source : String) : Prop where
  available : startsWithDollar source = true → localAvailable lexical source = true
  produced : startsWithDollar source = false → ∃ producer output,
    splitOnceDot source = some (producer, output) ∧ producer ∈ nodeIds nodes ∧
      controlReaches nodes producer consumer.id = true

/-- The references of a graph and of the graphs below it, `levels` deep, pass the analysis. -/
def Analysed : (levels : Nat) → List String → WorkflowSubgraph → Prop
  | 0, _, _ => False
  | levels + 1, lexical, graph =>
    (∀ node ∈ graph.nodes, ∀ source ∈ node.sources,
      ReferenceFacts graph.nodes (lexicalBindingsBeforeNode graph.nodes node lexical) node source) ∧
    ∀ node ∈ graph.nodes, ∀ h ∈ node.subgraphs,
      Analysed levels
        (childLexicalBindings (lexicalBindingsBeforeNode graph.nodes node lexical) node.kind) h

theorem referenceFacts_of_validateFromReference {nodes : List WorkflowNode}
    {lexical : List String} {consumer : WorkflowNode} {pointer name source : String}
    (h : validateFromReference nodes lexical consumer pointer name source = []) :
    ReferenceFacts nodes lexical consumer source := by
  unfold validateFromReference at h
  refine ⟨fun hd => ?_, fun hd => ?_⟩
  · rw [if_pos hd] at h
    by_contra hav
    rw [if_neg hav] at h
    cases h
  · rw [if_neg (by simp [hd])] at h
    cases hsplit : splitOnceDot source with
    | none => rw [hsplit] at h; cases h
    | some parts =>
      obtain ⟨producer, output⟩ := parts
      rw [hsplit] at h
      cases hnode : nodeById nodes producer with
      | none => simp only [hnode] at h; cases h
      | some found =>
        obtain ⟨hmem, hid⟩ := nodeById_mem hnode
        simp only [hnode, List.append_eq_nil_iff] at h
        refine ⟨producer, output, rfl, hid ▸ List.mem_map_of_mem hmem, ?_⟩
        by_contra hr
        rw [if_neg hr] at h
        exact List.cons_ne_nil _ _ h.1.1

theorem bindingReference_of_nodeDiagnostics {plugins : PluginRegistry}
    {nodes : List WorkflowNode} {entry : String} {inherited : List String} {pointer : String}
    {node : WorkflowNode} (h : nodeDiagnostics plugins nodes entry inherited pointer node = [])
    {name : String} {binding : WorkflowBinding} (hin : (name, binding) ∈ node.inputs) :
    validateBindingReference nodes (lexicalBindingsBeforeNode nodes node inherited) node pointer
      name binding = [] := by
  have hchecks := (List.append_eq_nil_iff.mp h).2
  split at hchecks
  · cases hchecks
  · exact List.flatMap_eq_nil_iff.mp (List.append_eq_nil_iff.mp hchecks).2 _ hin

theorem referenceFacts_of_nodeDiagnostics {plugins : PluginRegistry} {nodes : List WorkflowNode}
    {entry : String} {inherited : List String} {pointer : String} {node : WorkflowNode}
    (h : nodeDiagnostics plugins nodes entry inherited pointer node = []) :
    ∀ source ∈ node.sources,
      ReferenceFacts nodes (lexicalBindingsBeforeNode nodes node inherited) node source := by
  intro source hs
  obtain ⟨binding, hb, hs⟩ := List.mem_flatMap.mp hs
  obtain ⟨⟨name, binding'⟩, hin, rfl⟩ := List.mem_map.mp hb
  have hinputs := bindingReference_of_nodeDiagnostics h hin
  exact referenceFacts_of_validateFromReference (List.flatMap_eq_nil_iff.mp hinputs _ hs)

theorem nodeDiagnostics_of_graphDiagnostics {policy : WorkflowPolicy} {plugins : PluginRegistry}
    {graph : WorkflowSubgraph} {inherited : List String} {pointer : String}
    (h : graphDiagnostics policy plugins graph inherited pointer = []) {node : WorkflowNode}
    (hn : node ∈ graph.nodes) : ∃ pointer,
      nodeDiagnostics plugins graph.nodes graph.entry inherited pointer node = [] := by
  have hnodes := (List.append_eq_nil_iff.mp (List.append_eq_nil_iff.mp h).1).2
  obtain ⟨index, hindex⟩ := List.mem_iff_getElem?.mp hn
  have hmem : (node, index) ∈ graph.nodes.zipIdx := by
    rw [List.mem_zipIdx_iff_getElem?]
    exact hindex
  exact ⟨_, List.flatMap_eq_nil_iff.mp hnodes _ hmem⟩

/-- The diagnostics of the graphs of a node are among those of its graph. -/
theorem nodeNested_subset_nestedDiagnostics (policy : WorkflowPolicy) (plugins : PluginRegistry)
    (all : List WorkflowNode) (inherited : List String) (pointer : String) (index : Nat)
    {nodes : List WorkflowNode} {node : WorkflowNode} (hn : node ∈ nodes) : ∃ pointer',
      nodeNestedDiagnostics policy plugins
        (childLexicalBindings (lexicalBindingsBeforeNode all node inherited) node.kind)
        pointer' node ⊆ nestedDiagnostics policy plugins all inherited pointer index nodes := by
  induction nodes generalizing index with
  | nil => cases hn
  | cons first rest ih =>
    rw [nestedDiagnostics]
    rcases List.mem_cons.mp hn with rfl | hn
    · exact ⟨_, List.subset_append_left _ _⟩
    · obtain ⟨pointer', hsub⟩ := ih (index + 1) hn
      exact ⟨pointer', List.subset_append_of_subset_right _ hsub⟩

theorem scope_subset_branchDiagnostics (policy : WorkflowPolicy) (plugins : PluginRegistry)
    (lexical : List String) (pointer : String) {branches : List (String × WorkflowSubgraph)}
    {name : String} {graph : WorkflowSubgraph} (hb : (name, graph) ∈ branches) : ∃ pointer',
      validateScopeSemantics policy plugins graph lexical pointer' ⊆
        branchDiagnostics policy plugins lexical pointer branches := by
  induction branches with
  | nil => cases hb
  | cons first rest ih =>
    obtain ⟨name', graph'⟩ := first
    rw [branchDiagnostics]
    rcases List.mem_cons.mp hb with hb | hb
    · cases hb
      exact ⟨_, List.subset_append_left _ _⟩
    · obtain ⟨pointer', hsub⟩ := ih hb
      exact ⟨pointer', List.subset_append_of_subset_right _ hsub⟩

/-- The diagnostics of a graph are among those of the node that carries it. -/
theorem scope_subset_nodeNestedDiagnostics (policy : WorkflowPolicy) (plugins : PluginRegistry)
    (lexical : List String) (pointer : String) {node : WorkflowNode} {graph : WorkflowSubgraph}
    (hg : graph ∈ node.ownedGraphs) : ∃ pointer',
      validateScopeSemantics policy plugins graph lexical pointer' ⊆
        nodeNestedDiagnostics policy plugins lexical pointer node := by
  have hparts : nodeNestedDiagnostics policy plugins lexical pointer node =
      branchDiagnostics policy plugins lexical pointer node.branches ++
        bodyDiagnostics policy plugins lexical pointer node.body := by
    cases node
    rw [nodeNestedDiagnostics]
  rw [hparts]
  rcases List.mem_append.mp hg with hg | hg
  · obtain ⟨⟨name, branch⟩, hb, rfl⟩ := List.mem_map.mp hg
    obtain ⟨pointer', hsub⟩ := scope_subset_branchDiagnostics policy plugins lexical
      pointer hb
    exact ⟨pointer', List.subset_append_of_subset_left _ hsub⟩
  · rw [Option.mem_toList] at hg
    rw [hg, bodyDiagnostics]
    exact ⟨_, List.subset_append_right _ _⟩

/-- The diagnostics of a nested graph are among those of the graph around it. -/
theorem scope_subset_validateScopeSemantics (policy : WorkflowPolicy) (plugins : PluginRegistry)
    (graph : WorkflowSubgraph) (inherited : List String) (pointer : String)
    {nested : WorkflowSubgraph} {node : WorkflowNode} (hn : node ∈ graph.nodes)
    (hg : nested ∈ node.ownedGraphs) :
    ∃ pointer', validateScopeSemantics policy plugins nested
        (childLexicalBindings (lexicalBindingsBeforeNode graph.nodes node inherited) node.kind)
        pointer' ⊆ validateScopeSemantics policy plugins graph inherited pointer := by
  obtain ⟨entry, nodes, outputs⟩ := graph
  obtain ⟨pointer₁, hnode⟩ := nodeNested_subset_nestedDiagnostics policy plugins nodes
    inherited pointer 0 hn
  obtain ⟨pointer₂, hscope⟩ := scope_subset_nodeNestedDiagnostics policy plugins
    (childLexicalBindings (lexicalBindingsBeforeNode nodes node inherited) node.kind) pointer₁ hg
  rw [validateScopeSemantics]
  exact ⟨pointer₂, List.subset_append_of_subset_right _ (List.Subset.trans hscope hnode)⟩

theorem analysed_of_validateScopeSemantics {levels : Nat} {policy : WorkflowPolicy}
    {plugins : PluginRegistry} {graph : WorkflowSubgraph} {inherited : List String}
    {pointer : String} (hv : Validated levels graph)
    (h : validateScopeSemantics policy plugins graph inherited pointer = []) :
    Analysed levels inherited graph := by
  induction levels generalizing graph inherited pointer with
  | zero => exact hv.elim
  | succ levels ih =>
    refine ⟨fun node hn => ?_, fun node hn g hg => ?_⟩
    · obtain ⟨entry, nodes, outputs⟩ := graph
      rw [validateScopeSemantics, List.append_eq_nil_iff] at h
      obtain ⟨pointer, hnode⟩ := nodeDiagnostics_of_graphDiagnostics h.1 hn
      exact referenceFacts_of_nodeDiagnostics hnode
    · obtain ⟨pointer', hscope⟩ :=
        scope_subset_validateScopeSemantics policy plugins graph inherited pointer hn
          (node.subgraphs_subset hg)
      rw [h] at hscope
      exact ih (hv.2 node hn g hg) (List.subset_nil.mp hscope)

theorem accepted_nested {levels : Nat} {lexical : List String} {graph inner : WorkflowSubgraph}
    (hv : Validated levels graph) (ha : Analysed levels lexical graph)
    (hn : Nested graph inner) :
    ∃ levels lexical, Validated levels inner ∧ Analysed levels lexical inner := by
  induction hn with
  | refl => exact ⟨levels, lexical, hv, ha⟩
  | tail _ hstep ih =>
    obtain ⟨levels, lexical, hv, ha⟩ := ih
    obtain ⟨node, hnode, hsub⟩ := hstep
    cases levels with
    | zero => exact hv.elim
    | succ levels => exact ⟨levels, _, hv.2 node hnode _ hsub, ha.2 node hnode _ hsub⟩

/-- Every graph the runtime can enter is well formed. -/
theorem Validated.nested {levels : Nat} {graph inner : WorkflowSubgraph}
    (hv : Validated levels graph) (hn : Nested graph inner) : GraphFacts inner := by
  have hinner : ∃ levels, Validated levels inner := by
    induction hn with
    | refl => exact ⟨levels, hv⟩
    | tail _ hstep ih =>
      obtain ⟨levels, hv⟩ := ih
      obtain ⟨node, hnode, hsub⟩ := hstep
      cases levels with
      | zero => exact hv.elim
      | succ levels => exact ⟨levels, hv.2 node hnode _ hsub⟩
  obtain ⟨_, hv⟩ := hinner
  exact hv.facts

/-! ### Compiled documents -/

/-- The graph of a plan, as the runtime extracts it. -/
def ExecutionPlan.graph (plan : ExecutionPlan) : WorkflowSubgraph :=
  ⟨plan.entry, plan.nodes.map PlannedNode.node, plan.outputs⟩

theorem compile_eq_ok {doc : WorkflowDocument} {plugins : PluginRegistry}
    {compiled : CompiledWorkflow} (h : compile doc plugins = .ok compiled) :
    doc.validate = .ok () ∧ validateSemantics doc plugins = [] ∧ compiled = ⟨doc, planOf doc⟩ := by
  unfold compile at h
  cases hv : doc.validate with
  | error e => rw [hv] at h; cases h
  | ok u =>
    rw [hv] at h
    cases hs : validateSemantics doc plugins with
    | cons d ds => simp only [hs] at h; cases h
    | nil =>
      simp only [hs] at h
      cases hp : doc.validateWithPlugins plugins with
      | error e => simp only [hp] at h; cases h
      | ok u' =>
        simp only [hp] at h
        cases h
        exact ⟨rfl, rfl, rfl⟩

theorem planOf_graph (doc : WorkflowDocument) : (planOf doc).graph = doc.graph := by
  simp [ExecutionPlan.graph, planOf, WorkflowDocument.graph, Function.comp_def, planNode]

/-- **A compiled document**: its plan runs a graph that passed the validator and the analysis. -/
theorem accepted_of_compile {doc : WorkflowDocument} {plugins : PluginRegistry}
    {compiled : CompiledWorkflow} (h : compile doc plugins = .ok compiled) :
    Validated 33 compiled.plan.graph ∧ Analysed 33 [] compiled.plan.graph := by
  obtain ⟨hvalid, hsemantics, rfl⟩ := compile_eq_ok h
  have hvalidated := validated_of_validate hvalid
  rw [validateSemantics, List.append_eq_nil_iff] at hsemantics
  rw [planOf_graph]
  exact ⟨hvalidated, analysed_of_validateScopeSemantics hvalidated hsemantics.2⟩

end KakuneCore
