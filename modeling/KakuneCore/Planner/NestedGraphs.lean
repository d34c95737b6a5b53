import KakuneCore.Planner.Accepted

/-!
# Every nested graph

`validate_structured_node` descends by node type. The arms for delay and set-variable nodes neither
refuse a body or branches nor descend into them, so the graphs below such a node reach the plan
**unchecked**; every other graph of an accepted document is checked, at any depth.
-/

namespace KakuneCore

/-! ### Graphs of a document -/

/-- `Occurs nodes g n`: the graph `g` sits `n` levels below a list of nodes. -/
inductive Occurs (nodes : List WorkflowNode) : WorkflowSubgraph → Nat → Prop
  | here {node : WorkflowNode} {g : WorkflowSubgraph} :
      node ∈ nodes → g ∈ node.ownedGraphs → Occurs nodes g 1
  | deeper {node : WorkflowNode} {g g' : WorkflowSubgraph} {n : Nat} :
      Occurs nodes g n → node ∈ g.nodes → g' ∈ node.ownedGraphs → Occurs nodes g' (n + 1)

/-- The node types whose arm of `validate_structured_node` does not look at graphs. -/
def NodeKind.skipsGraphs : NodeKind → Bool
  | .delay | .setVariable => true
  | _ => false

/-- `Unchecked nodes g n`: as `Occurs`, with a delay or set-variable node on the way. -/
inductive Unchecked (nodes : List WorkflowNode) : WorkflowSubgraph → Nat → Prop
  | top {node : WorkflowNode} {g : WorkflowSubgraph} :
      node ∈ nodes → node.kind.skipsGraphs = true → g ∈ node.ownedGraphs → Unchecked nodes g 1
  | nested {node : WorkflowNode} {g g' : WorkflowSubgraph} {n : Nat} :
      Occurs nodes g n → node ∈ g.nodes → node.kind.skipsGraphs = true →
      g' ∈ node.ownedGraphs → Unchecked nodes g' (n + 1)
  | deeper {node : WorkflowNode} {g g' : WorkflowSubgraph} {n : Nat} :
      Unchecked nodes g n → node ∈ g.nodes → g' ∈ node.ownedGraphs → Unchecked nodes g' (n + 1)

theorem Unchecked.occurs {nodes : List WorkflowNode} {g : WorkflowSubgraph} {n : Nat}
    (h : Unchecked nodes g n) : Occurs nodes g n := by
  induction h with
  | top hnode _ hg => exact .here hnode hg
  | nested hocc hnode _ hg => exact .deeper hocc hnode hg
  | deeper _ hnode hg ih => exact .deeper ih hnode hg

/-! ### Valid graphs -/

/-- A binding that names its source, its secret, or a well-formed expression. -/
def ValidBinding : WorkflowBinding → Prop
  | .literal _ => True
  | .from source => blank source = false
  | .secret secret => blank secret = false
  | .expr expr => ∃ field, validateExpression 33 expr field = .ok ()

/-- Bindings under names that are not blank. -/
def ValidBindings (bindings : StrMap WorkflowBinding) : Prop :=
  ∀ entry ∈ bindings, blank entry.1 = false ∧ ValidBinding entry.2

/-- A retry policy with 1 to 10 attempts and positive backoff, on an external effect only if the
node declares it idempotent. -/
def ValidRetry (node : WorkflowNode) : Prop :=
  ∀ retry, node.retry = some retry →
    1 ≤ retry.maxAttempts ∧ retry.maxAttempts ≤ 10 ∧ retry.initialBackoffMs ≠ 0 ∧
      retry.maxBackoffMs ≠ some 0 ∧
      (node.kind.isExternalEffect = true → node.declaresIdempotent = true)

/-- What the parser promises of a graph. -/
structure ValidGraph (graph : WorkflowSubgraph) : Prop where
  nonempty : graph.nodes ≠ []
  nodup : (nodeIds graph.nodes).Nodup
  ids : ∀ node ∈ graph.nodes, isValidId node.id = true
  entry_mem : graph.entry ∈ nodeIds graph.nodes
  targets_mem : ∀ node ∈ graph.nodes, ∀ target ∈ node.targets, target ∈ nodeIds graph.nodes
  acyclic : Acyclic graph.nodes
  convergence : ∀ node ∈ graph.nodes, 1 < incoming graph.nodes node.id →
    node.kind = .join ∨ node.kind = .merge
  inputs : ∀ node ∈ graph.nodes, ValidBindings node.inputs
  outputs : ValidBindings graph.outputs
  retry : ∀ node ∈ graph.nodes, ValidRetry node

/-! ### What the checks establish -/

theorem validBindings_of_validateBindings {bindings : StrMap WorkflowBinding} {field : String}
    (h : validateBindings bindings field = .ok ()) : ValidBindings bindings := by
  intro entry hentry
  obtain ⟨name, binding⟩ := entry
  have hcheck := checkEach_eq_ok.mp h _ hentry
  simp only [check_bind_eq_ok, ensure_eq_ok, Bool.not_eq_true'] at hcheck
  obtain ⟨hname, hbinding⟩ := hcheck
  refine ⟨hname, ?_⟩
  cases binding with
  | literal _ => trivial
  | «from» source => simpa [ValidBinding, ensure_eq_ok] using hbinding
  | secret secret => simpa [ValidBinding, ensure_eq_ok] using hbinding
  | expr expr => exact ⟨_, hbinding⟩

theorem validRetry_of_validateRetry {node : WorkflowNode} {field : String}
    (h : validateRetry node field = .ok ()) : ValidRetry node := by
  intro retry hretry
  have hidempotent := (retryFacts_of_validateRetry h retry hretry).2
  simp only [validateRetry, hretry, check_bind_eq_ok, ensure_eq_ok, Bool.and_eq_true,
    decide_eq_true_eq, Bool.not_eq_true'] at h
  obtain ⟨⟨⟨⟨hlow, hhigh⟩, hinitial⟩, hmaximum⟩, -⟩ := h
  refine ⟨hlow, hhigh, hinitial, ?_, hidempotent⟩
  intro hzero
  rw [hzero] at hmaximum
  cases hmaximum

theorem convergence_of_validateConvergences {nodes : List WorkflowNode} {field : String}
    (h : validateConvergences nodes field = .ok ()) :
    ∀ node ∈ nodes, 1 < incoming nodes node.id → node.kind = .join ∨ node.kind = .merge := by
  intro node hnode hmany
  have hcheck := checkEach_eq_ok.mp h node hnode
  simp only [ensure_eq_ok, Bool.or_eq_true, decide_eq_true_eq] at hcheck
  obtain (hone | hjoin) | hmerge := hcheck
  · omega
  · exact .inl hjoin
  · exact .inr hmerge

/-- Every graph a node carries is handed to the check, unless the node is of a type that skips
graphs. -/
theorem check_of_ownedGraphs {check : SubgraphCheck} {node : WorkflowNode} {field : String}
    {lexical : List String} (h : validateStructuredNode check node field lexical = .ok ())
    (hkind : node.kind.skipsGraphs = false) :
    ∀ g ∈ node.ownedGraphs, ∃ field scope, node.kind.graphScope = some scope ∧
      check g field scope lexical = .ok () := by
  intro g hg
  refine check_of_validateStructuredNode h g ?_
  rw [WorkflowNode.ownedGraphs, List.mem_append] at hg
  unfold validateStructuredNode at h
  unfold WorkflowNode.subgraphs
  cases hk : node.kind <;> rw [hk] at h hkind <;>
    simp only [validateSwitch, validateForeach, validateLoop, check_bind_eq_ok, ensure_eq_ok,
      Bool.and_eq_true, Option.isNone_iff_eq_none, List.isEmpty_iff] at h
  case switch =>
    rw [h.2.1] at hg
    simpa using hg
  case foreach =>
    rw [h.2.1] at hg
    simpa using hg
  case loop =>
    rw [h.2.1] at hg
    simpa using hg
  case delay => cases hkind
  case setVariable => cases hkind
  case join => simp [h.2.1, h.2.2] at hg
  case merge => simp [h.2.1, h.2.2] at hg
  all_goals simp [h.1, h.2] at hg

/-- A graph that passes is valid, and hands the graphs its nodes carry to the next level. -/
theorem validGraph_of_validateSubgraph {levels : Nat} {graph : WorkflowSubgraph} {field : String}
    {scope : SubgraphScope} {outer : List String}
    (h : validateSubgraph levels graph field scope outer = .ok ()) :
    ∃ below, levels = below + 1 ∧ ValidGraph graph ∧
      validateLocals (outer ++ scope.bindings) field
        (graph.nodes.flatMap (·.inputs.values) ++ graph.outputs.values) = .ok () ∧
      ∀ node ∈ graph.nodes, node.kind.skipsGraphs = false → ∀ g ∈ node.ownedGraphs,
        ∃ field scope', node.kind.graphScope = some scope' ∧
          validateSubgraph below g field scope' (outer ++ scope.bindings) = .ok () := by
  have hfacts := (validated_of_validateSubgraph h).facts
  cases levels with
  | zero => cases h
  | succ below =>
    simp only [validateSubgraph, check_bind_eq_ok, ensure_eq_ok, decide_eq_true_eq,
      Bool.not_eq_true', List.isEmpty_eq_false_iff] at h
    obtain ⟨hnonempty, hdistinct, -, -, houtputs, hconverge, hlocals, -⟩ := h
    obtain ⟨-, -, hnodes⟩ := checkDistinct_eq_ok hdistinct
    simp only [check_bind_eq_ok] at hnodes
    refine ⟨below, rfl, ⟨hnonempty, hfacts.nodup, hfacts.valid, hfacts.entry_mem,
      hfacts.targets_mem, hfacts.acyclic, convergence_of_validateConvergences hconverge,
      fun node hnode => ?_, validBindings_of_validateBindings houtputs, fun node hnode => ?_⟩,
      hlocals, ?_⟩
    · exact validBindings_of_validateBindings (hnodes node hnode).2.1
    · exact validRetry_of_validateRetry (hnodes node hnode).2.2.2.2
    · intro node hnode hkind
      exact check_of_ownedGraphs (hnodes node hnode).2.2.2.1 hkind

/-- In an accepted document a graph is checked at its level, or sits below a node that skips
graphs. -/
theorem unchecked_or_validateSubgraph {doc : WorkflowDocument} (h : doc.validate = .ok ())
    {g : WorkflowSubgraph} {n : Nat} (hocc : Occurs doc.nodes g n) :
    Unchecked doc.nodes g n ∨ ∃ levels field scope outer, levels + n = 33 ∧
      validateSubgraph levels g field scope outer = .ok () := by
  induction hocc with
  | @here node g hnode hg =>
    by_cases hkind : node.kind.skipsGraphs = true
    · exact .inl (.top hnode hkind hg)
    · simp only [WorkflowDocument.validate, check_bind_eq_ok] at h
      obtain ⟨-, -, -, -, -, -, -, -, -, -, -, -, -, -, -, -, -, -, hnodes⟩ := h
      have hcheck := checkEach_eq_ok.mp hnodes node hnode
      simp only [check_bind_eq_ok] at hcheck
      obtain ⟨field, scope, -, hsub⟩ := check_of_ownedGraphs hcheck.1 (by simpa using hkind) g hg
      exact .inr ⟨32, field, scope, _, rfl, hsub⟩
  | @deeper node g g' n hocc hnode hg ih =>
    obtain hun | ⟨levels, field, scope, outer, hlevels, hsub⟩ := ih
    · exact .inl (.deeper hun hnode hg)
    · by_cases hkind : node.kind.skipsGraphs = true
      · exact .inl (.nested hocc hnode hkind hg)
      · obtain ⟨below, rfl, -, -, hnext⟩ := validGraph_of_validateSubgraph hsub
        obtain ⟨field', scope', -, hsub'⟩ := hnext node hnode (by simpa using hkind) g' hg
        exact .inr ⟨below, field', scope', _, by omega, hsub'⟩

/-- **Every nested graph is validated**, exactly when the graphs below delay and set-variable nodes
happen to be valid: they are the only ones the validator does not look at. -/
theorem nested_graphs_are_valid_iff (doc : WorkflowDocument) (h : doc.validate = .ok ()) :
    (∀ g n, Occurs doc.nodes g n → ValidGraph g ∧ n ≤ 32) ↔
      ∀ g n, Unchecked doc.nodes g n → ValidGraph g ∧ n ≤ 32 := by
  constructor
  · intro hall g n hun
    exact hall g n hun.occurs
  · intro hun g n hocc
    obtain hhidden | ⟨levels, field, scope, outer, hlevels, hsub⟩ :=
      unchecked_or_validateSubgraph h hocc
    · exact hun g n hhidden
    · obtain ⟨below, rfl, hvalid, -⟩ := validGraph_of_validateSubgraph hsub
      exact ⟨hvalid, by omega⟩

/-- The body of the foreach node in `nestedBranch`. -/
def nestedBody : WorkflowSubgraph where
  entry := "d"
  nodes := [{ id := "d", nodeType := "kakune.flow.pass@1" }]

/-- The branch of `nestedDocument`. -/
def nestedBranch : WorkflowSubgraph where
  entry := "c"
  nodes :=
    [{ id := "c", nodeType := "kakune.flow.foreach@1",
       config := [("maxConcurrency", .number (.int 1))],
       inputs := [("items", .literal (.array []))], body := some nestedBody }]

/-- A foreach inside a switch branch. -/
def nestedDocument : WorkflowDocument :=
  sampleDocument "a"
    [{ id := "a", nodeType := "kakune.flow.switch@1",
       config := [("cases", .object [("yes", .string "b")])],
       inputs := [("value", .literal (.string "yes"))], branches := [("b", nestedBranch)] }]

theorem occurs_nestedDocument {g : WorkflowSubgraph} {n : Nat}
    (h : Occurs nestedDocument.nodes g n) : g = nestedBranch ∨ g = nestedBody := by
  induction h with
  | here hnode hg =>
    obtain rfl := List.mem_singleton.mp hnode
    exact .inl (List.mem_singleton.mp hg)
  | deeper _ hnode hg ih =>
    obtain rfl | rfl := ih
    · obtain rfl := List.mem_singleton.mp hnode
      exact .inr (List.mem_singleton.mp hg)
    · obtain rfl := List.mem_singleton.mp hnode
      cases hg

theorem not_unchecked_nestedDocument {g : WorkflowSubgraph} {n : Nat} :
    ¬ Unchecked nestedDocument.nodes g n := by
  intro h
  induction h with
  | top hnode hkind _ =>
    obtain rfl := List.mem_singleton.mp hnode
    cases hkind
  | nested hocc hnode hkind _ =>
    -- neither the foreach node of the branch nor the pass node of the body skips graphs
    obtain rfl | rfl := occurs_nestedDocument hocc
    · obtain rfl := List.mem_singleton.mp hnode
      cases hkind
    · obtain rfl := List.mem_singleton.mp hnode
      cases hkind
  | deeper _ _ _ ih => exact ih

theorem nestedDocument_graphs_are_valid :
    nestedDocument.validate = .ok () ∧
      ∀ g n, Occurs nestedDocument.nodes g n → ValidGraph g ∧ n ≤ 32 := by
  have hvalid : nestedDocument.validate = .ok () := by rfl
  refine ⟨hvalid, (nested_graphs_are_valid_iff nestedDocument hvalid).mpr fun g n hun => ?_⟩
  exact absurd hun not_unchecked_nestedDocument

/-- A delay that carries an empty graph. -/
def hiddenGraphDocument : WorkflowDocument :=
  sampleDocument "a"
    [{ id := "a", nodeType := "kakune.flow.delay@1",
       inputs := [("durationMs", .literal (.number (.int 1)))],
       body := some { entry := "x", nodes := [] } }]

/-- The validator accepts a document with an empty graph below a delay. -/
theorem hidden_graph_is_accepted :
    hiddenGraphDocument.validate = .ok () ∧
      ∃ g n, Occurs hiddenGraphDocument.nodes g n ∧ ¬ (ValidGraph g ∧ n ≤ 32) := by
  refine ⟨by rfl, ⟨"x", [], []⟩, 1, .here List.mem_cons_self (by simp [WorkflowNode.ownedGraphs]),
    fun h => h.1.nonempty rfl⟩

end KakuneCore
