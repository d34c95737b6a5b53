import KakuneCore.Planner.NestedGraphs

/-!
# Two computations of lexical scope

Inside a nested graph a reference `$name` is judged twice. `validate_subgraph` knows the names that
the enclosing foreach, loop and switch nodes provide; `validate_scope_semantics` knows these **and**
the variables written before. This file follows both computations down to every nested graph of a
document and says for which references they come to the same judgement, written plainly or inside an
expression.
-/

namespace KakuneCore

/-! ### Where both computations arrive -/

/-- The names the validator knows in the graphs of a node, from those known around it; `none` where
it does not look. -/
def parserNames (outer : Option (List String)) (kind : NodeKind) : Option (List String) :=
  outer.bind fun names => kind.graphScope.map fun scope => names ++ scope.bindings

/-- The names the analysis knows in the graphs of a node. -/
def plannerNames (nodes : List WorkflowNode) (inherited : List String) (node : WorkflowNode) :
    List String :=
  childLexicalBindings (lexicalBindingsBeforeNode nodes node inherited) node.kind

/-- `Place doc g names inherited`: the graph `g` is nested in the document; the validator arrives
there with `names`, or not at all, and the analysis with `inherited`. -/
inductive Place (doc : WorkflowDocument) :
    WorkflowSubgraph → Option (List String) → List String → Prop
  | top {node : WorkflowNode} {g : WorkflowSubgraph} : node ∈ doc.nodes → g ∈ node.ownedGraphs →
      Place doc g (parserNames (some []) node.kind) (plannerNames doc.nodes [] node)
  | deeper {node : WorkflowNode} {g g' : WorkflowSubgraph} {names : Option (List String)}
      {inherited : List String} : Place doc g names inherited → node ∈ g.nodes →
      g' ∈ node.ownedGraphs →
      Place doc g' (parserNames names node.kind) (plannerNames g.nodes inherited node)

/-- Where a graph holds a binding: an input of a node, or an output of the graph. -/
inductive BindingSite
  | input (node : WorkflowNode) (name : String)
  | output (name : String)

namespace BindingSite

/-- The binding the graph holds at a site. -/
def Holds (graph : WorkflowSubgraph) (binding : WorkflowBinding) : BindingSite → Prop
  | input node name => node ∈ graph.nodes ∧ (name, binding) ∈ node.inputs
  | output name => (name, binding) ∈ graph.outputs

/-- The names the analysis knows at a site. -/
def names (graph : WorkflowSubgraph) (inherited : List String) : BindingSite → List String
  | input node _ => lexicalBindingsBeforeNode graph.nodes node inherited
  | output _ => lexicalBindingsForOutputs graph.nodes inherited

/-- What the analysis reports for a binding at a site. -/
def diagnostics (graph : WorkflowSubgraph) (inherited : List String) (pointer : String)
    (binding : WorkflowBinding) : BindingSite → List Diagnostic
  | input node name =>
    validateBindingReference graph.nodes (lexicalBindingsBeforeNode graph.nodes node inherited)
      node pointer name binding
  | output name =>
    validateOutputBinding graph.nodes graph.entry
      (lexicalBindingsForOutputs graph.nodes inherited) name binding

end BindingSite

/-- The validator refuses a binding for its scope. -/
def ParserRefuses (names : Option (List String)) (binding : WorkflowBinding) : Prop :=
  ∃ known ∈ names, ∀ field, validateLocals known field [binding] ≠ .ok ()

/-- The analysis refuses a binding for its scope. -/
def PlannerRefuses (graph : WorkflowSubgraph) (inherited : List String) (site : BindingSite)
    (binding : WorkflowBinding) : Prop :=
  ∀ pointer, ∃ d ∈ site.diagnostics graph inherited pointer binding,
    d.code = "binding.unknown_scope"

/-- Both computations judge a reference alike, and each of them judges it inside an expression as
it judges it alone. -/
structure ScopesAgree (graph : WorkflowSubgraph) (names : Option (List String))
    (inherited : List String) (site : BindingSite) (source : String) : Prop where
  plain : ParserRefuses names (.from source) ↔ PlannerRefuses graph inherited site (.from source)
  inScope : localRoot source ∈ site.names graph inherited →
    ¬ ParserRefuses names (.from source) ∧ ¬ PlannerRefuses graph inherited site (.from source)
  parser : ∀ expr, expressionSources expr = [source] →
    (ParserRefuses names (.expr expr) ↔ ParserRefuses names (.from source))
  planner : ∀ expr, expressionSources expr = [source] →
    (PlannerRefuses graph inherited site (.expr expr) ↔
      PlannerRefuses graph inherited site (.from source))

/-! ### The judgements -/

theorem unknownLocal_iff {known : List String} {source : String}
    (hd : startsWithDollar source = true) :
    unknownLocal known source = true ↔ localAvailable known source = false := by
  simp only [unknownLocal, hd, localAvailable, Bool.true_and, Bool.and_eq_true, decide_eq_true_eq,
    Bool.not_eq_true', Bool.or_eq_false_iff, decide_eq_false_iff_not]
  tauto

theorem parserRefuses_from {names : Option (List String)} {source : String}
    (hd : startsWithDollar source = true) :
    ParserRefuses names (.from source) ↔ ∃ known ∈ names, localAvailable known source = false := by
  refine exists_congr fun known => and_congr_right fun _ => ?_
  rw [← unknownLocal_iff hd]
  constructor
  · intro h
    by_contra hknown
    refine h "" (checkEach_eq_ok.mpr fun binding hbinding => ?_)
    rw [List.mem_singleton.mp hbinding]
    simpa [ensure_eq_ok] using hknown
  · intro h field hok
    have hcheck := checkEach_eq_ok.mp hok _ List.mem_cons_self
    simp [ensure_eq_ok, h] at hcheck

/-- The validator does not look into expressions. -/
theorem not_parserRefuses_expr {names : Option (List String)} {expr : Value} :
    ¬ ParserRefuses names (.expr expr) := by
  rintro ⟨known, -, h⟩
  exact h "" rfl

theorem validateFromReference_unknown_iff {nodes : List WorkflowNode} {known : List String}
    {consumer : WorkflowNode} {pointer name source : String}
    (hd : startsWithDollar source = true) :
    (∃ d ∈ validateFromReference nodes known consumer pointer name source,
      d.code = "binding.unknown_scope") ↔ localAvailable known source = false := by
  cases havailable : localAvailable known source <;>
    simp [validateFromReference, hd, havailable]

theorem plannerRefuses_from {graph : WorkflowSubgraph} {inherited : List String}
    {site : BindingSite} {source : String} (hd : startsWithDollar source = true) :
    PlannerRefuses graph inherited site (.from source) ↔
      localAvailable (site.names graph inherited) source = false := by
  cases site with
  | input node name =>
    simp only [PlannerRefuses, BindingSite.diagnostics, validateBindingReference, bindingSources,
      List.flatMap_cons, List.flatMap_nil, List.append_nil, validateFromReference_unknown_iff hd,
      forall_const, BindingSite.names]
  | output name =>
    cases havailable : localAvailable (lexicalBindingsForOutputs graph.nodes inherited) source <;>
      simp [PlannerRefuses, BindingSite.diagnostics, BindingSite.names, validateOutputBinding, hd,
        havailable]

/-- The analysis judges a reference in an input expression as it judges it alone. -/
theorem plannerRefuses_expr_input {graph : WorkflowSubgraph} {inherited : List String}
    {node : WorkflowNode} {name source : String} {expr : Value}
    (hexpr : expressionSources expr = [source]) :
    PlannerRefuses graph inherited (.input node name) (.expr expr) ↔
      PlannerRefuses graph inherited (.input node name) (.from source) := by
  simp only [PlannerRefuses, BindingSite.diagnostics, validateBindingReference, bindingSources,
    hexpr]

/-- The analysis does not look into output expressions. -/
theorem not_plannerRefuses_expr_output {graph : WorkflowSubgraph} {inherited : List String}
    {name : String} {expr : Value} :
    ¬ PlannerRefuses graph inherited (.output name) (.expr expr) := by
  intro h
  obtain ⟨d, hd, -⟩ := h ""
  cases hd

theorem localAvailable_mono {known known' : List String} (hsub : known ⊆ known') {source : String}
    (h : localAvailable known source = true) : localAvailable known' source = true := by
  simp only [localAvailable, Bool.or_eq_true, decide_eq_true_eq] at h ⊢
  exact h.imp_right fun hmem => hsub hmem

theorem subset_childLexicalBindings {kind : NodeKind} {scope : SubgraphScope}
    (hscope : kind.graphScope = some scope) (inherited : List String) :
    inherited ⊆ childLexicalBindings inherited kind ∧
      scope.bindings ⊆ childLexicalBindings inherited kind := by
  cases kind <;> cases hscope <;>
    exact ⟨List.subset_append_left _ _, List.subset_append_right _ _⟩

/-- One step down keeps the names of the validator among those of the analysis. -/
theorem parserNames_subset {outer : Option (List String)} {inherited : List String}
    (houter : ∀ known ∈ outer, known ⊆ inherited) (nodes : List WorkflowNode)
    (node : WorkflowNode) :
    ∀ known ∈ parserNames outer node.kind, known ⊆ plannerNames nodes inherited node := by
  intro known hknown
  obtain ⟨names, hnames, hmap⟩ := Option.bind_eq_some_iff.mp hknown
  obtain ⟨scope, hscope, rfl⟩ := Option.map_eq_some_iff.mp hmap
  obtain ⟨hinherited, hbindings⟩ := subset_childLexicalBindings hscope
    (lexicalBindingsBeforeNode nodes node inherited)
  have hbefore : inherited ⊆ lexicalBindingsBeforeNode nodes node inherited :=
    List.subset_append_left _ _
  exact List.append_subset.mpr
    ⟨List.Subset.trans (List.Subset.trans (houter names hnames) hbefore) hinherited, hbindings⟩

theorem Place.subset {doc : WorkflowDocument} {g : WorkflowSubgraph}
    {names : Option (List String)} {inherited : List String} (h : Place doc g names inherited) :
    ∀ known ∈ names, known ⊆ inherited := by
  induction h with
  | top _ _ =>
    refine parserNames_subset (fun known hknown => ?_) _ _
    obtain rfl := Option.some.inj hknown
    exact List.nil_subset _
  | deeper _ _ _ ih => exact parserNames_subset ih _ _

theorem BindingSite.inherited_subset (site : BindingSite) (graph : WorkflowSubgraph)
    (inherited : List String) : inherited ⊆ site.names graph inherited := by
  cases site with
  | input node name => exact List.subset_append_left _ _
  | output name => exact List.subset_append_left _ _

/-- The validator arrives at every place with the names listed for it. -/
theorem Place.validateSubgraph {doc : WorkflowDocument} {g : WorkflowSubgraph}
    {names : Option (List String)} {inherited : List String} (h : Place doc g names inherited)
    (hvalid : doc.validate = .ok ()) :
    ∀ known ∈ names, ∃ levels field scope outer, known = outer ++ scope.bindings ∧
      validateSubgraph levels g field scope outer = .ok () := by
  have hskips : ∀ {kind : NodeKind} {scope}, kind.graphScope = some scope →
      kind.skipsGraphs = false := by
    intro kind scope hscope
    cases kind <;> first | rfl | cases hscope
  induction h with
  | @top node g hnode hg =>
    intro known hknown
    obtain ⟨scope, hscope, rfl⟩ := Option.map_eq_some_iff.mp hknown
    simp only [WorkflowDocument.validate, check_bind_eq_ok] at hvalid
    obtain ⟨-, -, -, -, -, -, -, -, -, -, -, -, -, -, -, -, -, -, hnodes⟩ := hvalid
    have hcheck := checkEach_eq_ok.mp hnodes node hnode
    simp only [check_bind_eq_ok] at hcheck
    obtain ⟨field, scope', hscope', hsub⟩ := check_of_ownedGraphs hcheck.1 (hskips hscope) g hg
    obtain rfl := Option.some.inj (hscope.symm.trans hscope')
    exact ⟨32, field, scope, [], rfl, hsub⟩
  | @deeper node g g' names inherited _ hnode hg ih =>
    intro known hknown
    obtain ⟨outer, houter, hmap⟩ := Option.bind_eq_some_iff.mp hknown
    obtain ⟨scope, hscope, rfl⟩ := Option.map_eq_some_iff.mp hmap
    obtain ⟨levels, field, scope₀, outer₀, rfl, hsub⟩ := ih outer houter
    obtain ⟨below, rfl, -, -, hnext⟩ := validGraph_of_validateSubgraph hsub
    obtain ⟨field', scope', hscope', hsub'⟩ := hnext node hnode (hskips hscope) g' hg
    obtain rfl := Option.some.inj (hscope.symm.trans hscope')
    exact ⟨below, field', scope, _, rfl, hsub'⟩

/-- **A binding the validator refuses for its scope** is in no accepted document. -/
theorem not_validate_of_parserRefuses {doc : WorkflowDocument} {g : WorkflowSubgraph}
    {names : Option (List String)} {inherited : List String} (h : Place doc g names inherited)
    {site : BindingSite} {binding : WorkflowBinding} (hsite : site.Holds g binding)
    (hrefused : ParserRefuses names binding) : doc.validate ≠ .ok () := by
  intro hvalid
  obtain ⟨known, hmem, hrefused⟩ := hrefused
  obtain ⟨levels, field, scope, outer, rfl, hsub⟩ := h.validateSubgraph hvalid known hmem
  obtain ⟨-, -, -, hlocals, -⟩ := validGraph_of_validateSubgraph hsub
  refine hrefused field (checkEach_eq_ok.mpr fun binding' hbinding' => ?_)
  rw [List.mem_singleton.mp hbinding']
  refine checkEach_eq_ok.mp hlocals binding (List.mem_append.mpr ?_)
  cases site with
  | input node name =>
    exact .inl (List.mem_flatMap.mpr ⟨node, hsite.1, List.mem_map_of_mem hsite.2⟩)
  | output name => exact .inr (List.mem_map_of_mem hsite)

/-- The analysis arrives at every place with the names listed for it. -/
theorem Place.validateScopeSemantics_subset {doc : WorkflowDocument} {g : WorkflowSubgraph}
    {names : Option (List String)} {inherited : List String} (h : Place doc g names inherited)
    (plugins : PluginRegistry) : ∃ pointer,
      validateScopeSemantics doc.policy plugins g inherited pointer ⊆
        validateScopeSemantics doc.policy plugins doc.graph [] "" := by
  induction h with
  | top hnode hg =>
    exact scope_subset_validateScopeSemantics doc.policy plugins doc.graph [] "" hnode hg
  | deeper _ hnode hg ih =>
    obtain ⟨pointer, hsub⟩ := ih
    obtain ⟨pointer', hsub'⟩ :=
      scope_subset_validateScopeSemantics doc.policy plugins _ _ pointer hnode hg
    exact ⟨pointer', List.Subset.trans hsub' hsub⟩

/-- **A binding the analysis refuses for its scope** is in no compiled document. -/
theorem not_compile_of_plannerRefuses {doc : WorkflowDocument} {plugins : PluginRegistry}
    {g : WorkflowSubgraph} {names : Option (List String)} {inherited : List String}
    (h : Place doc g names inherited) {site : BindingSite} {binding : WorkflowBinding}
    (hsite : site.Holds g binding) (hrefused : PlannerRefuses g inherited site binding)
    (compiled : CompiledWorkflow) : compile doc plugins ≠ .ok compiled := by
  intro hcompile
  obtain ⟨-, hsemantics, -⟩ := compile_eq_ok hcompile
  rw [validateSemantics, List.append_eq_nil_iff] at hsemantics
  obtain ⟨pointer, hsub⟩ := h.validateScopeSemantics_subset plugins
  rw [hsemantics.2, List.subset_nil] at hsub
  obtain ⟨entry, nodes, outputs⟩ := g
  rw [validateScopeSemantics, List.append_eq_nil_iff] at hsub
  -- nothing is reported for the graph, so nothing is reported at the site
  cases site with
  | input node name =>
    obtain ⟨pointer', hnode⟩ := nodeDiagnostics_of_graphDiagnostics hsub.1 hsite.1
    obtain ⟨d, hd, -⟩ := hrefused pointer'
    rw [BindingSite.diagnostics, bindingReference_of_nodeDiagnostics hnode hsite.2] at hd
    cases hd
  | output name =>
    obtain ⟨d, hd, -⟩ := hrefused pointer
    have houtputs := List.flatMap_eq_nil_iff.mp (List.append_eq_nil_iff.mp hsub.1).2 _ hsite
    simp only [BindingSite.diagnostics, houtputs] at hd
    cases hd

/-- **Parser and planner agree on lexical scope** exactly for the names the validator provides. In a
graph the validator enters, a reference is judged alike in every respect if and only if its root is
`$input`, `$trigger` or a name provided by an enclosing foreach, loop or switch node; in a graph it
never enters, if and only if the analysis knows the name. Plain references alone are judged alike
also when the analysis does not know the name either. -/
theorem lexical_scopes_agree_iff {doc : WorkflowDocument} {g : WorkflowSubgraph}
    {names : Option (List String)} {inherited : List String} (hplace : Place doc g names inherited)
    (site : BindingSite) {source : String} (hd : startsWithDollar source = true) :
    (ScopesAgree g names inherited site source ↔
      localAvailable (names.getD (site.names g inherited)) source = true) ∧
    ∀ known, names = some known →
      ((ParserRefuses names (.from source) ↔ PlannerRefuses g inherited site (.from source)) ↔
        localAvailable known source = true ∨
          localAvailable (site.names g inherited) source = false) := by
  have hknown : ∀ known ∈ names, localAvailable known source = true →
      localAvailable (site.names g inherited) source = true := fun known hmem =>
    localAvailable_mono
      (List.Subset.trans (hplace.subset known hmem) (site.inherited_subset g inherited))
  refine ⟨⟨fun hagree => ?_, fun havailable => ?_⟩, ?_⟩
  · -- the reference on its own, wrapped in an expression
    have hwrapped := hagree.parser (.object [("from", .string source)])
      (by simp [expressionSources, expressionSourcesFields, Value.asStr])
    have hparser : ¬ ParserRefuses names (.from source) :=
      fun h => not_parserRefuses_expr (hwrapped.mpr h)
    cases names with
    | none =>
      have hplanner := mt hagree.plain.mpr hparser
      rw [plannerRefuses_from hd] at hplanner
      simpa using hplanner
    | some known =>
      rw [parserRefuses_from hd] at hparser
      simpa using hparser
  · have hplanner : ¬ PlannerRefuses g inherited site (.from source) := by
      rw [plannerRefuses_from hd, Bool.not_eq_false]
      cases names with
      | none => exact havailable
      | some known => exact hknown known rfl havailable
    have hparser : ¬ ParserRefuses names (.from source) := by
      rw [parserRefuses_from hd]
      rintro ⟨known, hmem, hunknown⟩
      obtain rfl := Option.mem_def.mp hmem
      rw [Option.getD_some, hunknown] at havailable
      cases havailable
    refine ⟨iff_of_false hparser hplanner, fun _ => ⟨hparser, hplanner⟩,
      fun expr _ => iff_of_false not_parserRefuses_expr hparser, fun expr hexpr => ?_⟩
    cases site with
    | input node name => exact plannerRefuses_expr_input hexpr
    | output name => exact iff_of_false not_plannerRefuses_expr_output hplanner
  · rintro known rfl
    rw [parserRefuses_from hd, plannerRefuses_from hd]
    have hmono := hknown known rfl
    cases hk : localAvailable known source <;>
      cases hs : localAvailable (site.names g inherited) source <;> simp_all

/-! ### Concrete documents -/

/-- The body of a foreach node whose only node reads one reference. -/
def readingBody (source : String) : WorkflowSubgraph where
  entry := "c"
  nodes := [{ id := "c", nodeType := "kakune.flow.pass@1", inputs := [("v", .from source)] }]

/-- A foreach node with that body. -/
def readingNode (source : String) : WorkflowNode where
  id := "b"
  nodeType := "kakune.flow.foreach@1"
  config := [("maxConcurrency", .number (.int 1))]
  inputs := [("items", .literal (.array []))]
  body := some (readingBody source)

/-- A variable is set, and then a foreach body reads a reference. -/
def readingDocument (source : String) : WorkflowDocument :=
  sampleDocument "a"
    [{ id := "a", nodeType := "kakune.flow.set-variable@1", config := [("name", .string "x")],
       inputs := [("value", .literal (.bool true))], on := [("success", .one "b")] },
     readingNode source]

theorem place_readingBody (source : String) :
    Place (readingDocument source) (readingBody source) (some ["$item", "$index"])
      ["$x", "$item", "$index"] := by
  have hparser : parserNames (some []) (readingNode source).kind = some ["$item", "$index"] := rfl
  have hplanner : plannerNames (readingDocument source).nodes [] (readingNode source) =
      ["$x", "$item", "$index"] := rfl
  rw [← hparser, ← hplanner]
  exact .top (List.mem_cons_of_mem _ List.mem_cons_self) List.mem_cons_self

theorem item_reference_scopes_agree :
    (readingDocument "$item.name").validate = .ok () ∧
      ∀ site, ScopesAgree (readingBody "$item.name") (some ["$item", "$index"])
        ["$x", "$item", "$index"] site "$item.name" := by
  refine ⟨by rfl, fun site => ?_⟩
  have hprovided : localAvailable ["$item", "$index"] "$item.name" = true := by decide
  exact (lexical_scopes_agree_iff (place_readingBody "$item.name") site (by decide)).1.mpr hprovided

/-- A variable that is set before a foreach node: the validator refuses it in the body, and the
analysis accepts it there. -/
theorem inherited_variable_is_refused :
    (readingDocument "$x").validate =
        .error "node b body does not provide local binding $x" ∧
      Place (readingDocument "$x") (readingBody "$x") (some ["$item", "$index"])
        ["$x", "$item", "$index"] ∧
      ∃ node, (BindingSite.input node "v").Holds (readingBody "$x") (.from "$x") ∧
        ¬ PlannerRefuses (readingBody "$x") ["$x", "$item", "$index"] (.input node "v")
          (.from "$x") ∧
        ¬ ScopesAgree (readingBody "$x") (some ["$item", "$index"]) ["$x", "$item", "$index"]
          (.input node "v") "$x" := by
  have hdollar : startsWithDollar "$x" = true := by decide
  refine ⟨by rfl, place_readingBody "$x", _, ⟨List.mem_cons_self, List.mem_cons_self⟩, ?_, ?_⟩
  · rw [plannerRefuses_from hdollar]
    decide
  · intro hagree
    have hrefused : ParserRefuses (some ["$item", "$index"]) (.from "$x") :=
      (parserRefuses_from hdollar).mpr ⟨_, rfl, by decide⟩
    have hplanner := hagree.plain.mp hrefused
    rw [plannerRefuses_from hdollar] at hplanner
    revert hplanner
    decide

end KakuneCore
