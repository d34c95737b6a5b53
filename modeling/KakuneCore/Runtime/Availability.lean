import KakuneCore.Runtime.Progress

/-!
# Availability of references

The planner accepts a reference when **some** control path leads from the producer to the consumer.
Whether the producer has run by then depends on the routes taken. `Guaranteed` states the condition
under which it always has: for every choice of one route per node, whenever the consumer is reached,
so is the producer, and so is some writer of each variable that no enclosing scope provides.
-/

namespace KakuneCore

open Proc

/-- The variable `name` is bound when the node `consumer` runs: an enclosing scope provides it, or
every choice of routes that reaches the node also reaches a control ancestor that writes it. -/
def VariableGuaranteed (graph : WorkflowSubgraph) (provided : String → Prop) (consumer : String)
    (name : String) : Prop :=
  provided name ∨ ∀ routes, Reached graph.nodes graph.entry routes consumer →
    ∃ writer ∈ graph.nodes, writer.introducedBinding = some name ∧
      Ancestor graph.nodes writer.id consumer ∧ Reached graph.nodes graph.entry routes writer.id

/-- The producer named by a reference is another node, and every choice of routes that reaches the
consumer reaches it too. -/
def ProducerGuaranteed (graph : WorkflowSubgraph) (consumer source : String) : Prop :=
  ∀ producer output, splitOnceDot source = some (producer, output) →
    producer ≠ consumer ∧ ∀ routes, Reached graph.nodes graph.entry routes consumer →
      Reached graph.nodes graph.entry routes producer

/-- Every reference of a graph and of the graphs nested in it, `levels` deep, is guaranteed. -/
def Guaranteed : (levels : Nat) → (provided : String → Prop) → WorkflowSubgraph → Prop
  | 0, _, _ => True
  | levels + 1, provided, graph =>
    (∀ node ∈ graph.nodes, ∀ source ∈ node.sources,
      (startsWithDollar source = true →
        VariableGuaranteed graph provided node.id (localRoot source)) ∧
      (startsWithDollar source = false → ProducerGuaranteed graph node.id source)) ∧
    ∀ node ∈ graph.nodes, ∀ g ∈ node.subgraphs,
      Guaranteed levels
        (fun name => VariableGuaranteed graph provided node.id name ∨
          name ∈ childLexicalBindings [] node.kind) g

/-- The bindings every plan starts with. -/
def providedByPlan (name : String) : Prop := name = "$input" ∨ name = "$trigger"

/-- Every reference of a node is available: the producer has run, the variable is bound. -/
def Available (node : WorkflowNode) (outputs : StrMap (StrMap Value)) (locals : StrMap Value) :
    Prop :=
  ∀ source ∈ node.sources,
    (startsWithDollar source = true → locals.contains (localRoot source) = true) ∧
    (startsWithDollar source = false → ∃ producer output,
      splitOnceDot source = some (producer, output) ∧ outputs.contains producer = true)

/-! ### Variables of the log -/

theorem contains_write {locals : StrMap Value} {x : Settlement} {name : String}
    (h : locals.contains name = true) : (x.write locals).contains name = true := by
  unfold Settlement.write
  split
  · split
    · exact contains_insert.mpr (.inr h)
    · exact h
  · exact h

theorem contains_foldl_write {log : List Settlement} {locals : StrMap Value} {name : String}
    (h : locals.contains name = true) :
    (log.foldl Settlement.write locals).contains name = true := by
  induction log generalizing locals with
  | nil => exact h
  | cons x log ih => exact ih (contains_write h)

/-- A settled writer has bound its variable. -/
theorem contains_foldl_write_of_mem {log : List Settlement} {locals : StrMap Value}
    {name : String} {x : Settlement} (hx : x ∈ log)
    (hwrites : x.node.introducedBinding = some name)
    (hvalue : x.inputs.contains "value" = true) :
    (log.foldl Settlement.write locals).contains name = true := by
  induction log generalizing locals with
  | nil => cases hx
  | cons y log ih =>
    rcases List.mem_cons.mp hx with rfl | hx
    · rw [List.foldl_cons]
      refine contains_foldl_write ?_
      unfold WorkflowNode.introducedBinding at hwrites
      split at hwrites
      · next hk =>
        obtain ⟨written, hname, rfl⟩ := Option.map_eq_some_iff.mp hwrites
        obtain ⟨value, hvalue⟩ := Option.isSome_iff_exists.mp hvalue
        have hwrite : x.write locals = locals.insert ("$" ++ written) value := by
          simp only [Settlement.write, hk, hname, hvalue, if_true]
        rw [hwrite]
        exact contains_insert.mpr (.inl rfl)
      · cases hwrites
    · exact ih hx

/-! ### What a reachable state provides -/

section States

variable {graph : WorkflowSubgraph} {locals : StrMap Value} {limit k : Nat}
  {ctx : ExecutionContext} {batch : List WorkflowNode} {batches : List (List WorkflowNode)}
  {log : List Settlement} {state : GraphState} {node : WorkflowNode}
  (hfacts : GraphFacts graph)
  (hs : Sched graph.nodes graph.entry locals limit (ResolvedIn ctx) k (batch :: batches) log state)
  (hn : node ∈ batch)

include hfacts hs hn

/-- A producer that is reached with a running node has been executed before it. -/
theorem executed_of_guaranteed {producer : String}
    (hancestor : Ancestor graph.nodes producer node.id)
    (hreach : ∀ routes, Reached graph.nodes graph.entry routes node.id →
      Reached graph.nodes graph.entry routes producer) : Executed log producer := by
  obtain ⟨hinv, hpending⟩ := hs.invariant hfacts.nodup
  obtain ⟨-, hactive, hpred, -⟩ := isReady_iff.mp (hpending.ready node (by simp [hn]))
  obtain ⟨routes, hroutes⟩ := exists_follows hinv.log_nodup
  have hproducer := hreach routes (hinv.reached_of_activated hroutes hactive)
  exact hinv.executed_of_reached hroutes hfacts.nodup hproducer
    (hinv.ancestor_settled hpred hancestor)

/-- A guaranteed variable is bound when the node runs. -/
theorem contains_of_variableGuaranteed {provided : String → Prop} {name : String}
    (hprovided : ∀ name, provided name → locals.contains name = true)
    (hguaranteed : VariableGuaranteed graph provided node.id name) :
    state.locals.contains name = true := by
  obtain ⟨hinv, hpending⟩ := hs.invariant hfacts.nodup
  obtain ⟨-, hactive, hpred, -⟩ := isReady_iff.mp (hpending.ready node (by simp [hn]))
  rw [hinv.locals_eq]
  rcases hguaranteed with hname | hwriters
  · exact contains_foldl_write (hprovided name hname)
  · obtain ⟨routes, hroutes⟩ := exists_follows hinv.log_nodup
    obtain ⟨writer, hw, hintro, hancestor, hreached⟩ :=
      hwriters routes (hinv.reached_of_activated hroutes hactive)
    obtain ⟨x, hx, hid⟩ := hinv.executed_of_reached hroutes hfacts.nodup hreached
      (hinv.ancestor_settled hpred hancestor)
    obtain rfl := eq_of_id_eq hfacts.nodup (hinv.log_mem x hx) hw hid
    obtain ⟨before, hresolved⟩ := hs.mem_log x hx
    have hk : x.node.kind = .setVariable := by
      by_contra hk
      simp [WorkflowNode.introducedBinding, hk] at hintro
    exact contains_foldl_write_of_mem hx hintro
      (hresolved.contains (hfacts.writer x.node hw hk).1)

end States

/-- The contract of availability: every resolution finds its references. -/
def availabilityContract : Contract Op Resp Nat where
  assume := fun _ => True
  ensure := fun e => ∀ scope node outputs locals,
    e.1 = .observe (.resolving scope node outputs locals) → Available node outputs locals
  tally := fun _ => 0

theorem availabilityContract_quiet (o : Op)
    (ho : ∀ scope node outputs locals, o ≠ .observe (.resolving scope node outputs locals)) :
    availabilityContract.Quiet o :=
  fun _ _ => ⟨fun _ _ _ _ heq => absurd heq (ho _ _ _ _), rfl⟩

theorem availabilityContract_routine : RoutineQuiet availabilityContract fun _ => True := by
  refine ⟨fun o ho => availabilityContract_quiet o ?_, fun _ _ => trivial⟩
  rintro scope node outputs locals rfl
  exact ho

/-- Every graph of an analysed document resolves only available references, when they are
guaranteed and the bindings of the enclosing scope are there. -/
theorem quietly_executeGraph_available (depth : Nat) {levels : Nat} {lexical : List String}
    {provided : String → Prop} {graph : WorkflowSubgraph} (hv : Validated levels graph)
    (ha : Analysed levels lexical graph) (hg : Guaranteed levels provided graph)
    (ctx : ExecutionContext) (locals : StrMap Value)
    (hlocals : ∀ name, provided name → locals.contains name = true) :
    Quietly availabilityContract (executeGraph depth ctx graph.nodes graph.entry locals)
      (fun _ => True) fun _ => True := by
  induction depth generalizing levels lexical provided graph ctx locals with
  | zero => exact .throw trivial
  | succ depth ih =>
    have hroutine := availabilityContract_routine
    cases levels with
    | zero => exact hv.elim
    | succ levels =>
      have hfacts := hv.facts
      rw [executeGraph_succ]
      refine quietly_executeGraphWith hfacts.nodup (fun _ _ => trivial)
        availabilityContract_quiet (fun _ _ _ => trivial) ?_ ?_
      · intro k batch batches log state node hs hn _ _
        have hnode : node ∈ graph.nodes := (hs.invariant hfacts.nodup).2.mem node (by simp [hn])
        refine ⟨?_, rfl⟩
        rintro scope node' outputs locals' heq
        cases heq
        intro source hsource
        obtain ⟨hvariable, hproducer⟩ := hg.1 node hnode source hsource
        refine ⟨fun hd => contains_of_variableGuaranteed hfacts hs hn hlocals (hvariable hd),
          fun hd => ?_⟩
        obtain ⟨producer, output, hsplit, -, hreaches⟩ :=
          (ha.1 node hnode source hsource).produced hd
        obtain ⟨hne, hreach⟩ := hproducer hd producer output hsplit
        have hancestor := (eq_or_ancestor_of_controlReaches hreaches).resolve_left hne
        obtain ⟨x, hx, rfl⟩ := executed_of_guaranteed hfacts hs hn hancestor hreach
        refine ⟨_, output, hsplit, ?_⟩
        rw [StrMap.contains, (hs.invariant hfacts.nodup).1.outputs x hx]
        rfl
      · intro k batch batches log state node inputs hs hn
        have hnode : node ∈ graph.nodes := (hs.invariant hfacts.nodup).2.mem node (by simp [hn])
        refine quietly_executeNodeWithRetry hroutine (fun g hsub ctx' locals' henters => ?_) inputs
        refine quietly_executeSubgraph hroutine ?_
        refine ih (hv.2 node hnode g hsub) (ha.2 node hnode g hsub) (hg.2 node hnode g hsub) ctx'
          locals' fun name hname => ?_
        rcases hname with hname | hname
        · exact henters.inherits name
            (contains_of_variableGuaranteed hfacts hs hn hlocals hname)
        · exact henters.provides name hname

/-- **Binding availability.** In every run of a compiled plan whose references are guaranteed,
finished or not and whatever is answered in it, each resolution of the inputs of a node finds the
producers of all its references executed in the same graph instance and all its variables bound. -/
theorem resolved_references_are_available {doc : WorkflowDocument} {plugins : PluginRegistry}
    {compiled : CompiledWorkflow} (hc : compile doc plugins = .ok compiled)
    (hg : Guaranteed 33 providedByPlan compiled.plan.graph) (limits : ExecutionLimits)
    (serde : SerdeJson) {t : RunTrace} {r : Option (Except RunError Unit)}
    (hrun : Runs (executeNodes compiled.plan plugins limits serde).run t r) {scope : String}
    {node : WorkflowNode} {outputs : StrMap (StrMap Value)} {locals : StrMap Value}
    (hmem : (⟨.observe (.resolving scope node outputs locals), ()⟩ : RunEvent) ∈ t) :
    Available node outputs locals := by
  obtain ⟨hv, ha⟩ := accepted_of_compile hc
  have hgraph := quietly_executeGraph_available maxGraphDepth hv ha hg
    (compiled.plan.context plugins limits serde) compiled.plan.locals
    (by rintro name (rfl | rfl) <;> rfl)
  have hnodes := quietly_executeNodes availabilityContract_routine
    (fun _ => availabilityContract_quiet _ (by simp)) hgraph
  exact (hnodes t r hrun fun _ _ => trivial).1 _ hmem scope node outputs locals rfl

/-- Whether an event is the resolution of a node that satisfies a test. -/
def resolvesWith (test : WorkflowNode → StrMap (StrMap Value) → Bool) (e : RunEvent) : Bool :=
  match e.1 with
  | .observe (.resolving _ node outputs _) => test node outputs
  | _ => false

theorem exists_resolving {t : RunTrace} {test : WorkflowNode → StrMap (StrMap Value) → Bool}
    (h : t.any (resolvesWith test) = true) : ∃ scope node outputs locals,
      (⟨.observe (.resolving scope node outputs locals), ()⟩ : RunEvent) ∈ t ∧
        test node outputs = true := by
  obtain ⟨⟨o, answer⟩, hmem, htest⟩ := List.any_eq_true.mp h
  unfold resolvesWith at htest
  split at htest
  · next heq => cases heq; exact ⟨_, _, _, _, hmem, htest⟩
  · cases htest

theorem chainDocument_guaranteed :
    Guaranteed 33 providedByPlan (planOf chainDocument).graph := by
  have hnodes : (planOf chainDocument).graph.nodes = chainDocument.nodes := rfl
  refine ⟨fun node hn source hsource => ?_, fun node hn g hg => ?_⟩
  · rw [hnodes] at hn
    simp only [chainDocument, sampleDocument, List.mem_cons, List.not_mem_nil, or_false] at hn
    rcases hn with rfl | rfl
    · cases hsource
    · obtain rfl : source = "a.v" := by
        simpa [WorkflowNode.sources, StrMap.values, bindingSources] using hsource
      refine ⟨fun hd => absurd hd (by decide), fun _ producer output hsplit => ?_⟩
      have hsplit' : splitOnceDot "a.v" = some ("a", "v") := by decide
      obtain ⟨rfl, -⟩ : "a" = producer ∧ "v" = output := by
        simpa [hsplit'] using hsplit
      exact ⟨by decide, fun _ _ => .refl⟩
  · rw [hnodes] at hn
    have hflat : ∀ node ∈ chainDocument.nodes, node.subgraphs = [] := by decide
    rw [hflat node hn] at hg
    cases hg

theorem chainDocument_references_are_available : ∃ scope node outputs locals,
    (⟨.observe (.resolving scope node outputs locals), ()⟩ : RunEvent) ∈
        (simulatePlan (planOf chainDocument) fun _ _ => .ok { route := "success" }).1 ∧
      node.id = "b" ∧ Available node outputs locals := by
  have hc : compile chainDocument [] = .ok ⟨chainDocument, planOf chainDocument⟩ := by rfl
  have hany : (simulatePlan (planOf chainDocument) fun _ _ => .ok { route := "success" }).1.any
      (resolvesWith fun node _ => node.id = "b") = true := by decide +kernel
  obtain ⟨scope, node, outputs, locals, hmem, hid⟩ := exists_resolving hany
  refine ⟨scope, node, outputs, locals, hmem, by simpa using hid, ?_⟩
  exact resolved_references_are_available hc chainDocument_guaranteed {} emptySerde
    (runs_simulatePlan (planOf chainDocument) fun _ _ => .ok { route := "success" }) hmem

/-- A node that reads the output of only one of two branches that meet before it. -/
def branchReferenceDocument : WorkflowDocument :=
  sampleDocument "a"
    [{ id := "a", nodeType := "kakune.flow.if@1", inputs := [("condition", .literal (.bool false))],
       on := [("false", .one "c"), ("true", .one "b")] },
     { id := "b", nodeType := "kakune.flow.pass@1", inputs := [("v", .literal (.bool true))],
       on := [("success", .one "m")] },
     { id := "c", nodeType := "kakune.flow.pass@1", on := [("success", .one "m")] },
     { id := "m", nodeType := "kakune.flow.merge@1", inputs := [("v", .from "b.v")] }]

/-- The planner accepts a reference to a node of one branch, and the run that takes the other branch
resolves the reference before the node has run, and fails. -/
theorem branch_reference_is_unavailable :
    ∃ compiled, compile branchReferenceDocument [] = .ok compiled ∧
      Runs (executeNodes compiled.plan [] {} emptySerde).run
        (simulatePlan compiled.plan fun _ _ => .ok { route := "success" }).1
        (some (.error (.bindingUnavailable "b.v"))) ∧
      ∃ scope node outputs locals,
        (⟨.observe (.resolving scope node outputs locals), ()⟩ : RunEvent) ∈
          (simulatePlan compiled.plan fun _ _ => .ok { route := "success" }).1 ∧
        ¬ Available node outputs locals := by
  have hresult : (simulatePlan (planOf branchReferenceDocument)
      fun _ _ => .ok { route := "success" }).2.1 = .error (.bindingUnavailable "b.v") := by
    decide +kernel
  have hrun := runs_simulatePlan (planOf branchReferenceDocument)
    fun _ _ => .ok { route := "success" }
  rw [hresult] at hrun
  have hany : (simulatePlan (planOf branchReferenceDocument)
      fun _ _ => .ok { route := "success" }).1.any (resolvesWith fun node outputs =>
        "b.v" ∈ node.sources && !outputs.contains "b") = true := by decide +kernel
  obtain ⟨scope, node, outputs, locals, hmem, htest⟩ := exists_resolving hany
  refine ⟨⟨branchReferenceDocument, planOf branchReferenceDocument⟩, by rfl, hrun,
    scope, node, outputs, locals, hmem, fun havailable => ?_⟩
  simp only [Bool.and_eq_true, decide_eq_true_eq, Bool.not_eq_true'] at htest
  obtain ⟨producer, output, hsplit, hcontains⟩ := (havailable "b.v" htest.1).2 (by decide)
  have hsplit' : splitOnceDot "b.v" = some ("b", "v") := by decide
  obtain ⟨rfl, -⟩ : "b" = producer ∧ "v" = output := by simpa [hsplit'] using hsplit
  rw [htest.2] at hcontains
  cases hcontains

end KakuneCore
