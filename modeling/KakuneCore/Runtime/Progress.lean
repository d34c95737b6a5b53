import KakuneCore.Runtime.Environment
import KakuneCore.Runtime.GraphContract

/-!
# Graph progress

`execute_graph` never reports that a graph cannot make progress, for any graph of a compiled
document in which **no node refers to its own output**. The planner's reachability test starts at
the producer itself, so it accepts such a reference; the runtime then waits for the node to settle
before it runs it.
-/

namespace KakuneCore

open Proc

/-- Every data dependency of a node is one of its proper control ancestors. -/
def DependsOnAncestors (nodes : List WorkflowNode) : Prop :=
  ∀ node ∈ nodes, ∀ producer ∈ node.dependencies, Ancestor nodes producer node.id

/-- What the analysis accepts as a dependency is the node itself or a proper control ancestor. -/
theorem dependsOnAncestors_of_analysed {levels : Nat} {lexical : List String}
    {graph : WorkflowSubgraph} (h : Analysed levels lexical graph)
    (hself : ∀ node ∈ graph.nodes, node.id ∉ node.dependencies) :
    DependsOnAncestors graph.nodes := by
  intro node hn producer hp
  cases levels with
  | zero => exact h.elim
  | succ levels =>
    obtain ⟨source, hsource, href⟩ := WorkflowNode.mem_dependencies.mp hp
    have hfacts := h.1 node hn source (node.references_subset_sources hsource)
    unfold referencedNode at href
    split at href
    · cases href
    · next hd =>
      obtain ⟨producer', output, hsplit, -, hreaches⟩ := hfacts.produced (by simpa using hd)
      obtain rfl : producer' = producer := by simpa [hsplit] using href
      rcases eq_or_ancestor_of_controlReaches hreaches with rfl | hancestor
      · exact absurd hp (hself node hn)
      · exact hancestor

/-- **The progress lemma**: after closing, an unsettled node is left only if some node is ready.
The node to take is a control-minimal unsettled one. -/
theorem ready_ne_nil {nodes : List WorkflowNode} {state : GraphState} (hacyclic : Acyclic nodes)
    (hdeps : DependsOnAncestors nodes) (hs : SettledOk nodes state.settled)
    (hopen : ∃ node ∈ nodes, node.id ∉ (state.close nodes).settled) :
    (state.close nodes).ready nodes ≠ [] := by
  obtain ⟨node, hn, hnew⟩ := hopen
  obtain ⟨id, hid, hnew, hmin⟩ := Activation.exists_minimal (Edge nodes)
    {id | id ∈ nodeIds nodes} {id | id ∈ (state.close nodes).settled}
      (List.finite_toSet _) hacyclic (fun h => Ancestor.mem_ids h)
    ⟨node.id, List.mem_map_of_mem hn, hnew⟩
  obtain ⟨found, hfound, rfl⟩ := List.mem_map.mp hid
  have hpred : ∀ p, Edge nodes p found.id → p ∈ (state.close nodes).settled :=
    fun p hp => hmin p (.single hp)
  have hactive : found.id ∈ (state.close nodes).activated := by
    by_contra hinactive
    have hclosed : closable nodes state.activated (state.close nodes).settled found.id = false :=
      not_closable_closeUnselected hs (by omega) found hfound
    have hclosable : closable nodes state.activated (state.close nodes).settled found.id = true :=
      closable_iff.mpr ⟨hnew, hinactive, hpred⟩
    rw [hclosed] at hclosable
    cases hclosable
  have hready : (state.close nodes).isReady nodes found = true :=
    isReady_iff.mpr ⟨hnew, hactive, hpred, fun d hd => hmin d (hdeps found hfound d hd)⟩
  exact List.ne_nil_of_mem (List.mem_filter.mpr ⟨hfound, hready⟩)

theorem SettledOk.exists_unsettled {nodes : List WorkflowNode} {settled : List String}
    (hnd : (nodeIds nodes).Nodup) (hs : SettledOk nodes settled)
    (hlen : settled.length ≠ nodes.length) : ∃ node ∈ nodes, node.id ∉ settled := by
  by_contra hall
  push Not at hall
  have hsub : nodeIds nodes ⊆ settled := by
    intro id hid
    obtain ⟨node, hn, rfl⟩ := List.mem_map.mp hid
    exact hall node hn
  have hle : nodes.length ≤ settled.length := by simpa using (hnd.subperm hsub).length_le
  exact hlen (le_antisymm hs.length_le hle)

/-- With as many settled ids as nodes, every node is settled. -/
theorem SettledOk.mem_of_length {nodes : List WorkflowNode} {settled : List String}
    (hs : SettledOk nodes settled) (hlen : settled.length = nodes.length) {id : String}
    (hid : id ∈ nodeIds nodes) : id ∈ settled := by
  have hperm : settled.Perm (nodeIds nodes) :=
    (hs.nodup.subperm hs.subset).perm_of_length_le (by simp [hlen])
  exact hperm.mem_iff.mpr hid

/-- A contract that asks for nothing. -/
def freeContract : Contract Op Resp Nat where
  assume := fun _ => True
  ensure := fun _ => True
  tally := fun _ => 0

/-- No graph of an analysed document gets stuck. -/
theorem quietly_executeGraph_progress (depth : Nat) {levels : Nat} {lexical : List String}
    {graph : WorkflowSubgraph} (hv : Validated levels graph) (ha : Analysed levels lexical graph)
    (hself : ∀ g, Nested graph g → ∀ node ∈ g.nodes, node.id ∉ node.dependencies)
    (ctx : ExecutionContext) (locals : StrMap Value) :
    Quietly freeContract (executeGraph depth ctx graph.nodes graph.entry locals) (fun _ => True)
      (· ≠ .noProgress) := by
  induction depth generalizing levels lexical graph ctx locals with
  | zero => exact .throw (by simp)
  | succ depth ih =>
    have hfree : ∀ o, freeContract.Quiet o := fun _ _ _ => ⟨trivial, rfl⟩
    have hroutine : RoutineQuiet freeContract (· ≠ .noProgress) :=
      ⟨fun o _ => hfree o, fun _ he => he⟩
    have hfacts := hv.facts
    have hdeps := dependsOnAncestors_of_analysed ha (hself graph .refl)
    rw [executeGraph_succ]
    refine quietly_executeGraphWith hfacts.nodup (fun _ he => he) (fun o _ => hfree o) ?_
      (fun _ _ => hfree _) ?_
    · intro k log state hs hready hlen
      have hsettled := (hs.invariant hfacts.nodup).1.close.settled
      have hopen := hsettled.exists_unsettled hfacts.nodup hlen
      exact absurd hready
        (ready_ne_nil hfacts.acyclic hdeps (hs.invariant hfacts.nodup).1.settled hopen)
    · intro k batch batches log state node inputs hs hn
      have hnode : node ∈ graph.nodes :=
        (hs.invariant hfacts.nodup).2.mem node (by simp [hn])
      refine quietly_executeNodeWithRetry hroutine (fun g hg ctx' locals' _ => ?_) inputs
      refine quietly_executeSubgraph hroutine ?_
      cases levels with
      | zero => exact hv.elim
      | succ levels =>
        refine ih (hv.2 node hnode g hg) (ha.2 node hnode g hg) (fun g' hg' => ?_) ctx' locals'
        exact hself g' (.head ⟨node, hnode, hg⟩ hg')

/-- **Graph progress.** In a compiled document in which no node refers to its own output, no call
of `execute_graph` ends with `noProgress`: for the top-level graph and for every graph nested in
it, in every context and with any local bindings, whatever is answered in the run. In every state
the scheduler can reach, an unsettled node is left only if some activated node is ready. -/
theorem execute_graph_makes_progress {doc : WorkflowDocument} {plugins : PluginRegistry}
    {compiled : CompiledWorkflow} (hc : compile doc plugins = .ok compiled)
    (hself : ∀ g, Nested compiled.plan.graph g → ∀ node ∈ g.nodes, node.id ∉ node.dependencies)
    {g : WorkflowSubgraph} (hg : Nested compiled.plan.graph g) (depth : Nat)
    (ctx : ExecutionContext) (locals : StrMap Value) :
    (∀ t e, Runs (executeGraph depth ctx g.nodes g.entry locals).run t (some (.error e)) →
      e ≠ .noProgress) ∧
    ∀ k log state,
      Sched g.nodes g.entry locals ctx.maxParallelNodes (fun _ _ => True) k [] log state →
      (∃ node ∈ g.nodes, node.id ∉ (state.close g.nodes).settled) →
        (state.close g.nodes).ready g.nodes ≠ [] := by
  obtain ⟨hv, ha⟩ := accepted_of_compile hc
  obtain ⟨levels, lexical, hvg, hag⟩ := accepted_nested hv ha hg
  have hselfg : ∀ g', Nested g g' → ∀ node ∈ g'.nodes, node.id ∉ node.dependencies :=
    fun g' hg' => hself g' (hg.trans hg')
  refine ⟨fun t e hrun => ?_, fun k log state hs hopen => ?_⟩
  · have hquiet := quietly_executeGraph_progress depth hvg hag hselfg ctx locals
    exact ((hquiet t _ hrun fun _ _ => trivial).2 _ rfl).2
  · have hsettled := (hs.invariant hvg.facts.nodup).1.settled
    exact ready_ne_nil hvg.facts.acyclic
      (dependsOnAncestors_of_analysed hag (hselfg g .refl)) hsettled hopen

/-- One node that hands its input on to the next. -/
def chainDocument : WorkflowDocument :=
  sampleDocument "a"
    [{ id := "a", nodeType := "kakune.flow.pass@1", inputs := [("v", .literal (.bool true))],
       on := [("success", .one "b")] },
     { id := "b", nodeType := "kakune.flow.pass@1", inputs := [("v", .from "a.v")] }]

theorem chainDocument_makes_progress :
    compile chainDocument [] = .ok ⟨chainDocument, planOf chainDocument⟩ ∧
    (∀ t e, Runs (executeGraph 33 { serde := emptySerde } chainDocument.nodes "a" []).run t
      (some (.error e)) → e ≠ .noProgress) := by
  have hc : compile chainDocument [] = .ok ⟨chainDocument, planOf chainDocument⟩ := by rfl
  refine ⟨hc, (execute_graph_makes_progress hc (fun g hg => ?_) .refl 33 _ []).1⟩
  obtain rfl := hg.eq_of_flat (by decide)
  decide

/-- A node that refers to its own output. -/
def selfReferenceDocument : WorkflowDocument :=
  sampleDocument "a"
    [{ id := "a", nodeType := "kakune.flow.pass@1", inputs := [("v", .from "a.v")] }]

/-- The planner accepts a reference to the node's own output, and the run gets stuck, although no
signal is raised and no node fails. -/
theorem self_reference_gets_stuck :
    ∃ compiled, compile selfReferenceDocument [] = .ok compiled ∧
      Runs (executeNodes compiled.plan [] {} emptySerde).run
        (simulatePlan compiled.plan fun _ _ => .ok { route := "success" }).1
        (some (.error .noProgress)) := by
  refine ⟨⟨selfReferenceDocument, planOf selfReferenceDocument⟩, by rfl, ?_⟩
  exact runs_simulatePlan (planOf selfReferenceDocument) fun _ _ => .ok { route := "success" }

end KakuneCore
