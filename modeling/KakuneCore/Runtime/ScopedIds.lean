import KakuneCore.Planner.NestedGraphs
import KakuneCore.Runtime.ActivationCounts

/-!
# Scoped ids

An instance of a node is the node together with the way to it: the switch branches, foreach items
and loop iterations it is run in. In an accepted document the scoped id **spells that way without
ambiguity**: ids and branch names have no slash, and the type of a control node tells whether a
branch name, an item or an iteration follows it. Every operation that is keyed by a scoped id
belongs to one instance.
-/

namespace KakuneCore

open Proc

/-! ### Instances -/

/-- How a control node is entered. -/
inductive Entry
  | branch (name : String)
  | item (index : Nat)
  | iteration (index : Nat)
  deriving DecidableEq, Repr

/-- The graph of a node that an entry leads to. -/
def WorkflowNode.enter (node : WorkflowNode) : Entry → Option WorkflowSubgraph
  | .branch name => if node.kind = .switch then StrMap.get? node.branches name else none
  | .item _ => if node.kind = .foreach then node.body else none
  | .iteration _ => if node.kind = .loop then node.body else none

/-- The scope in which that graph is run. -/
def Entry.scope (scope nodeId : String) : Entry → String
  | .branch name => switchScope scope nodeId name
  | .item index => itemScope scope nodeId index
  | .iteration index => iterationScope scope nodeId index

/-- The control nodes around an instance, from the outside. -/
abbrev Path : Type := List (String × Entry)

/-- The scope at the end of a path. -/
def Path.scope (scope : String) : Path → String
  | [] => scope
  | (id, entry) :: path => Path.scope (entry.scope scope id) path

/-- The graph at the end of a path. -/
def Path.graph (graph : WorkflowSubgraph) : Path → Option WorkflowSubgraph
  | [] => some graph
  | (id, entry) :: path =>
    match (nodeById graph.nodes id).bind (·.enter entry) with
    | some inner => Path.graph inner path
    | none => none

/-- An instance of a node. -/
structure NodeInstance where
  path : Path
  node : String
  deriving DecidableEq, Repr

/-- The instances a graph can have. -/
def NodeInstance.In (graph : WorkflowSubgraph) (i : NodeInstance) : Prop :=
  ∃ inner, i.path.graph graph = some inner ∧ i.node ∈ nodeIds inner.nodes

/-- The id of an instance of a graph that is run in a scope. -/
def NodeInstance.scopedId (scope : String) (i : NodeInstance) : String :=
  scopedNodeId (i.path.scope scope) i.node

theorem Entry.scope_eq (scope id : String) (entry : Entry) :
    ∃ tail, entry.scope scope id = scope ++ "/" ++ id ++ "/" ++ tail := by
  cases entry with
  | branch name => exact ⟨name, switchScope_eq scope id name⟩
  | item index => exact ⟨_, itemScope_eq scope id index⟩
  | iteration index => exact ⟨_, iterationScope_eq scope id index⟩

theorem WorkflowNode.mem_subgraphs_of_enter {node : WorkflowNode} {entry : Entry}
    {g : WorkflowSubgraph} (h : node.enter entry = some g) : g ∈ node.subgraphs := by
  cases entry with
  | branch name =>
    rw [WorkflowNode.enter, Option.ite_none_right_eq_some] at h
    have hchild : Child "" node g _ := .branch h.1 h.2
    exact hchild.mem_subgraphs
  | item index =>
    rw [WorkflowNode.enter, Option.ite_none_right_eq_some] at h
    have hchild : Child "" node g _ := .item index h.1 h.2
    exact hchild.mem_subgraphs
  | iteration index =>
    rw [WorkflowNode.enter, Option.ite_none_right_eq_some] at h
    have hchild : Child "" node g _ := .iteration index h.1 h.2
    exact hchild.mem_subgraphs

/-- The node type that an entry belongs to. -/
def Entry.kind : Entry → NodeKind
  | .branch _ => .switch
  | .item _ => .foreach
  | .iteration _ => .loop

theorem kind_of_enter {node : WorkflowNode} {entry : Entry} {g : WorkflowSubgraph}
    (h : node.enter entry = some g) : node.kind = entry.kind := by
  cases entry <;>
    · simp only [WorkflowNode.enter, Option.ite_none_right_eq_some] at h
      exact h.1

theorem Child.exists_entry {scope s : String} {node : WorkflowNode} {g : WorkflowSubgraph}
    (h : Child scope node g s) : ∃ entry : Entry, node.enter entry = some g ∧
      entry.scope scope node.id = s := by
  cases h with
  | @branch name _ hk hg => exact ⟨.branch name, by rw [WorkflowNode.enter, if_pos hk, hg], rfl⟩
  | item index hk hg => exact ⟨.item index, by rw [WorkflowNode.enter, if_pos hk, hg], rfl⟩
  | iteration index hk hg =>
    exact ⟨.iteration index, by rw [WorkflowNode.enter, if_pos hk, hg], rfl⟩

theorem Path.graph_append {graph inner : WorkflowSubgraph} {path rest : Path}
    (h : path.graph graph = some inner) : Path.graph graph (path ++ rest) = rest.graph inner := by
  induction path generalizing graph with
  | nil =>
    obtain rfl : graph = inner := by simpa [Path.graph] using h
    rfl
  | cons step path ih =>
    obtain ⟨id, entry⟩ := step
    rw [List.cons_append, Path.graph]
    rw [Path.graph] at h
    split at h
    · exact ih h
    · cases h

theorem Path.scope_append (scope : String) (path rest : Path) :
    Path.scope scope (path ++ rest) = rest.scope (path.scope scope) := by
  induction path generalizing scope with
  | nil => rfl
  | cons step path ih => exact ih _

/-! ### Injectivity -/

/-- What an instance needs of a graph and the graphs below it. -/
def Spelled (graph : WorkflowSubgraph) : Prop :=
  ∀ g, Nested graph g → GraphFacts g

theorem Spelled.inner {graph g : WorkflowSubgraph} {node : WorkflowNode} (h : Spelled graph)
    (hn : node ∈ graph.nodes) (hg : g ∈ node.subgraphs) : Spelled g :=
  fun inner hinner => h inner (.head ⟨node, hn, hg⟩ hinner)

theorem Spelled.facts {graph : WorkflowSubgraph} (h : Spelled graph) : GraphFacts graph :=
  h graph .refl

theorem Spelled.not_slash {graph : WorkflowSubgraph} (h : Spelled graph) {id : String}
    (hid : id ∈ nodeIds graph.nodes) : '/' ∉ id.toList := by
  obtain ⟨node, hn, rfl⟩ := List.mem_map.mp hid
  exact not_slash_of_isValidId (h.facts.valid node hn)

/-- The first control node on the way to an instance. -/
theorem NodeInstance.In.step {graph : WorkflowSubgraph} {id : String} {entry : Entry} {path : Path}
    {target : String} (h : NodeInstance.In graph ⟨(id, entry) :: path, target⟩) :
    ∃ node ∈ graph.nodes, node.id = id ∧ ∃ g, node.enter entry = some g ∧
      NodeInstance.In g ⟨path, target⟩ := by
  obtain ⟨inner, hgraph, htarget⟩ := h
  simp only [Path.graph] at hgraph
  split at hgraph
  · next g hstep =>
    obtain ⟨node, hnode, henter⟩ := Option.bind_eq_some_iff.mp hstep
    obtain ⟨hn, hid⟩ := nodeById_mem hnode
    exact ⟨node, hn, hid, g, henter, inner, hgraph, htarget⟩
  · cases hgraph

/-- The ids below a graph instance name it. -/
theorem NodeInstance.In.inInstance {graph : WorkflowSubgraph} (hs : Spelled graph)
    {i : NodeInstance} (h : i.In graph) (scope : String) : InInstance scope (i.scopedId scope) := by
  obtain ⟨path, target⟩ := i
  induction path generalizing graph scope with
  | nil =>
    obtain ⟨inner, hgraph, htarget⟩ := h
    obtain rfl : graph = inner := by simpa [Path.graph] using hgraph
    exact ⟨target, hs.not_slash htarget, .inl rfl⟩
  | cons step path ih =>
    obtain ⟨id, entry⟩ := step
    obtain ⟨node, hn, rfl, g, henter, hin⟩ := h.step
    have hrest := ih (hs.inner hn (node.mem_subgraphs_of_enter henter)) (entry.scope scope node.id)
      hin
    obtain ⟨tail, htail⟩ := entry.scope_eq scope node.id
    rw [htail] at hrest
    refine ⟨node.id, hs.not_slash (List.mem_map_of_mem hn), .inr ?_⟩
    have hbelow := hrest.belowNode
    rw [← htail] at hbelow
    exact hbelow

/-- The ids inside a control node lie below it. -/
theorem NodeInstance.In.belowNode {graph : WorkflowSubgraph} (hs : Spelled graph) {id : String}
    {entry : Entry} {path : Path} {target : String}
    (h : NodeInstance.In graph ⟨(id, entry) :: path, target⟩) (scope : String) :
    BelowNode scope id (NodeInstance.scopedId scope ⟨(id, entry) :: path, target⟩) := by
  obtain ⟨node, hn, rfl, g, henter, hin⟩ := h.step
  obtain ⟨tail, htail⟩ := entry.scope_eq scope node.id
  have hrest := hin.inInstance (hs.inner hn (node.mem_subgraphs_of_enter henter))
    (entry.scope scope node.id)
  rw [htail] at hrest
  have hbelow := hrest.belowNode
  rw [← htail] at hbelow
  exact hbelow

/-- An instance inside the scope of a switch branch. -/
theorem branch_unique {scope id name name' target : String} (hn : '/' ∉ name.toList)
    (hn' : '/' ∉ name'.toList) (h : InInstance (switchScope scope id name) target)
    (h' : InInstance (switchScope scope id name') target) : name = name' := by
  rw [switchScope_eq] at h h'
  have hne : ∀ tail : String, scope ++ "/" ++ id ++ "/" ++ tail ≠ "" := by
    intro tail hempty
    have hslash := slash_mem_append (scope ++ "/" ++ id) tail
    rw [hempty] at hslash
    cases hslash
  obtain ⟨rest, rfl⟩ := h.exists_append (hne name)
  obtain ⟨rest', heq⟩ := h'.exists_append (hne name')
  simp only [String.append_assoc, String.append_right_inj] at heq
  rw [← String.append_assoc, ← String.append_assoc] at heq
  exact (eq_of_append_slash hn hn' heq).1

/-- A control node is entered in one way on the way to an id: its type tells the kind of the entry,
and the scope the name or the number. -/
theorem Entry.unique {scope target : String} {node : WorkflowNode} {entry entry' : Entry}
    {g g' : WorkflowSubgraph}
    (hbranches : node.kind = .switch → ∀ branch ∈ node.branches, isValidId branch.1 = true)
    (he : node.enter entry = some g) (he' : node.enter entry' = some g')
    (h : InInstance (entry.scope scope node.id) target)
    (h' : InInstance (entry'.scope scope node.id) target) : entry = entry' := by
  have hname : ∀ {name : String} {g : WorkflowSubgraph}, node.kind = .switch →
      StrMap.get? node.branches name = some g → '/' ∉ name.toList := fun hk hg =>
    not_slash_of_isValidId (hbranches hk _ (StrMap.mem_of_get? hg))
  -- two entries of different kinds would give the node two types
  have hkind : entry.kind = entry'.kind := (kind_of_enter he).symm.trans (kind_of_enter he')
  cases entry <;> cases entry' <;> simp only [Entry.kind, reduceCtorEq] at hkind
  case branch.branch name name' =>
    simp only [WorkflowNode.enter, Option.ite_none_right_eq_some] at he he'
    rw [branch_unique (hname he.1 he.2) (hname he'.1 he'.2) h h']
  case item.item index index' =>
    simp only [Entry.scope, itemScope_eq] at h h'
    rw [h.index_unique h']
  case iteration.iteration index index' =>
    simp only [Entry.scope, iterationScope_eq] at h h'
    rw [h.index_unique h']

/-- **Instances with one id are one instance.** -/
theorem NodeInstance.eq_of_scopedId_eq {graph : WorkflowSubgraph} (hs : Spelled graph)
    {i j : NodeInstance} (hi : i.In graph) (hj : j.In graph) {scope : String}
    (h : i.scopedId scope = j.scopedId scope) : i = j := by
  obtain ⟨path, target⟩ := i
  obtain ⟨path', target'⟩ := j
  induction path generalizing graph scope path' with
  | nil =>
    have hslash : '/' ∉ target.toList := by
      obtain ⟨inner, hgraph, htarget⟩ := hi
      obtain rfl : graph = inner := by simpa [Path.graph] using hgraph
      exact hs.not_slash htarget
    cases path' with
    | nil =>
      have hslash' : '/' ∉ target'.toList := by
        obtain ⟨inner, hgraph, htarget⟩ := hj
        obtain rfl : graph = inner := by simpa [Path.graph] using hgraph
        exact hs.not_slash htarget
      have hat : AtNode scope target (scopedNodeId scope target) := .inl rfl
      have heq : target = target' := hat.unique hslash hslash' (.inl h)
      rw [heq]
    | cons step' path' =>
      have hbelow := hj.belowNode hs scope
      rw [← h] at hbelow
      exact absurd hbelow (not_belowNode_scopedNodeId hslash)
  | cons step path ih =>
    obtain ⟨id, entry⟩ := step
    obtain ⟨node, hn, hid, g, henter, hin⟩ := hi.step
    have hnode := hs.not_slash (List.mem_map_of_mem hn)
    cases path' with
    | nil =>
      have hslash' : '/' ∉ target'.toList := by
        obtain ⟨inner, hgraph, htarget⟩ := hj
        obtain rfl : graph = inner := by simpa [Path.graph] using hgraph
        exact hs.not_slash htarget
      have hbelow := hi.belowNode hs scope
      rw [h] at hbelow
      exact absurd hbelow (not_belowNode_scopedNodeId hslash')
    | cons step' path' =>
      obtain ⟨id', entry'⟩ := step'
      obtain ⟨node', hn', hid', g', henter', hin'⟩ := hj.step
      have hnode' := hs.not_slash (List.mem_map_of_mem hn')
      have hbelow := hi.belowNode hs scope
      have hbelow' := hj.belowNode hs scope
      rw [← h] at hbelow'
      rw [hid] at hnode
      rw [hid'] at hnode'
      obtain rfl : id = id' := AtNode.unique hnode hnode' (.inr hbelow) (.inr hbelow')
      obtain rfl := eq_of_id_eq hs.facts.nodup hn hn' (hid.trans hid'.symm)
      subst hid
      have hinner := hs.inner hn (node.mem_subgraphs_of_enter henter)
      have hinner' := hs.inner hn (node.mem_subgraphs_of_enter henter')
      have hplace := hin.inInstance hinner (entry.scope scope node.id)
      have hplace' := hin'.inInstance hinner' (entry'.scope scope node.id)
      change (NodeInstance.scopedId (entry.scope scope node.id) ⟨path, target⟩) =
        NodeInstance.scopedId (entry'.scope scope node.id) ⟨path', target'⟩ at h
      rw [← h] at hplace'
      obtain rfl := Entry.unique (hs.facts.branches node hn) henter henter' hplace hplace'
      obtain rfl : g = g' := by simpa [henter] using henter'
      have hrest := ih hinner hin path' hin' h
      rw [NodeInstance.mk.injEq] at hrest
      rw [hrest.1, hrest.2]

/-! ### Operations of instances -/

/-- The scoped id that an operation is keyed by. -/
def Op.key : Op → Option String
  | .checkpointResult id | .beginCheckpoint id _ | .completeCheckpoint id _
  | .durableDelayRemaining id _ | .recordNodeOutcome id _ | .invoke id _ _ _
  | .observe (.executing id _) => some id
  | _ => none

section Keyed

variable (P : String → Prop)

open Classical in
/-- Keys outside `P` cost something. -/
noncomputable def strayCost (e : RunEvent) : ℤ := if ∀ id, e.1.key = some id → P id then 0 else -1

variable {P}

theorem strayCost_of_key {o : Op} {x : Resp o} (h : ∀ id, o.key = some id → P id) :
    strayCost P ⟨o, x⟩ = 0 := if_pos h

theorem strayCost_of_no_key {o : Op} {x : Resp o} (h : o.key = none) : strayCost P ⟨o, x⟩ = 0 :=
  strayCost_of_key fun id hid => by
    rw [h] at hid
    cases hid

theorem strayCost_nonpos (e : RunEvent) : strayCost P e ≤ 0 := by
  unfold strayCost
  split <;> omega

/-- A run that can pay for its keys uses no stray one. -/
theorem keys_of_balance {t : RunTrace} (h : 0 ≤ balance (strayCost P) t) :
    ∀ e ∈ t, ∀ id, e.1.key = some id → P id := by
  induction t with
  | nil => simp
  | cons e t ih =>
    rw [balance_cons] at h
    have hrest : balance (strayCost P) t ≤ 0 := balance_nonpos fun e _ => strayCost_nonpos e
    have hhead := strayCost_nonpos (P := P) e
    intro e' he'
    obtain rfl | he' := List.mem_cons.mp he'
    · by_contra hbad
      have hcost : strayCost P e' = -1 := if_neg hbad
      omega
    · exact ih (by omega) e' he'

theorem neutral_strayCost : Neutral (strayCost P) where
  anonymous o ho x := by
    refine (strayCost_of_no_key ?_).ge
    cases o <;> first | rfl | exact ho.elim
  item _ _ _ _ := (strayCost_of_no_key rfl).ge

/-- The scheduler loop of a graph instance uses the keys of its nodes. -/
theorem neutralRounds_strayCost {scope : String} {nodes : List WorkflowNode}
    (h : ∀ node ∈ nodes, P (scopedNodeId scope node.id)) :
    NeutralRounds (strayCost P) scope nodes where
  round _ := (strayCost_of_no_key rfl).ge
  resolving _ _ _ _ := (strayCost_of_no_key rfl).ge
  record node hn _ _ := by
    refine (strayCost_of_key fun id hid => ?_).ge
    obtain rfl : scopedNodeId scope node.id = id := by simpa [Op.key] using hid
    exact h node hn

/-- An activation uses the key of its node. -/
theorem nodeAccount_strayCost {scope : String} {node : WorkflowNode}
    (h : P (scopedNodeId scope node.id)) :
    NodeAccount (strayCost P) scope node (fun _ => 0) 0 0 0 := by
  have hzero : ∀ (o : Op) (x : Resp o), o.key = some (scopedNodeId scope node.id) →
      strayCost P ⟨o, x⟩ = 0 := by
    intro o x ho
    refine strayCost_of_key fun id hid => ?_
    rw [ho, Option.some.injEq] at hid
    exact hid ▸ h
  have hexecuting := hzero (.observe (.executing (scopedNodeId scope node.id) node.kind)) () rfl
  refine ⟨⟨le_rfl, fun _ => le_rfl, fun _ => le_rfl, fun _ _ => by simp, fun _ _ => by simp,
    fun inputs x => ?_, fun _ milliseconds x => ?_⟩, ⟨le_rfl, ?_, fun result x => ?_⟩, le_rfl,
    fun saved => ?_, fun text => ?_, fun text => ?_, ?_⟩
  · rw [hzero _ x rfl, add_zero]
  · rw [hzero _ x rfl, add_zero]
  · rw [hexecuting, add_zero]
  · rw [hexecuting, hzero (.completeCheckpoint _ _) x rfl]
    rfl
  · rw [hzero (.checkpointResult _) _ rfl, add_zero]
  · rw [hzero (.checkpointResult _) _ rfl, add_zero]
  · rw [hzero (.checkpointResult _) _ rfl, hzero (.beginCheckpoint _ _) _ rfl]
    rfl
  · rw [hzero (.checkpointResult _) _ rfl, hzero (.beginCheckpoint _ _) _ rfl]
    simp

end Keyed

/-- The ids of the instances of a graph at the top level. -/
def IsScopedId (root : WorkflowSubgraph) (id : String) : Prop :=
  ∃ i : NodeInstance, i.In root ∧ i.scopedId "" = id

/-- A graph instance uses the ids of the instances below it: the induction is on how deep graphs may
be nested, and the path leads from the top level to the graph. -/
theorem credit_executeGraph_scopedIds {root graph : WorkflowSubgraph} (hs : Spelled graph)
    {path : Path} (hpath : path.graph root = some graph) {ctx : ExecutionContext}
    (hscope : ctx.scope = path.scope "") (depth : Nat) (locals : StrMap Value) :
    Credit (strayCost (IsScopedId root)) 0
      (executeGraph depth ctx graph.nodes graph.entry locals).run := by
  induction depth generalizing graph path ctx locals with
  | zero => exact .run_throw le_rfl
  | succ depth ih =>
    have hw := neutral_strayCost (P := IsScopedId root)
    have hids : ∀ node ∈ graph.nodes, IsScopedId root (scopedNodeId ctx.scope node.id) := by
      intro node hn
      refine ⟨⟨path, node.id⟩, ⟨graph, hpath, List.mem_map_of_mem hn⟩, ?_⟩
      rw [NodeInstance.scopedId, hscope]
    have hfinished : ∀ scope node result,
        0 ≤ strayCost (IsScopedId root) ⟨.observe (.finished scope node result), ()⟩ :=
      fun _ _ _ => (strayCost_of_no_key rfl).ge
    rw [executeGraph_succ]
    refine credit_executeGraphWith hw (neutralRounds_strayCost hids)
      (fun node hn state inputs => ?_)
      graph.entry locals
    have hstart : 0 ≤ 0 + strayCost (IsScopedId root)
        ⟨.observe (.starting ctx.forked.scope node.id state.settled inputs state.locals), ()⟩ := by
      rw [strayCost_of_no_key rfl, add_zero]
    refine credit_worker hw hfinished hstart ?_
    refine credit_executeNodeWithRetry hw (by exact nodeAccount_strayCost (hids node hn))
      (fun g ctx' locals' hchild => ?_) inputs _
    obtain ⟨entry, henter, hentry⟩ := hchild.exists_entry
    have hstep : Path.graph graph [(node.id, entry)] = some g := by
      simp [Path.graph, nodeById_of_mem hs.facts.nodup hn, henter]
    have hinner : Path.graph root (path ++ [(node.id, entry)]) = some g := by
      rw [Path.graph_append hpath, hstep]
    have hplace : ctx'.scope = Path.scope "" (path ++ [(node.id, entry)]) := by
      rw [Path.scope_append, ← hentry, ← hscope]
      rfl
    refine .run_then le_rfl
      (ih (hs.inner hn hchild.mem_subgraphs) hinner hplace locals') fun _ => ?_
    exact credit_resolveInputs hw _ _ _ _

theorem validated_graph_spelled {doc : WorkflowDocument} (h : doc.validate = .ok ()) :
    Spelled doc.graph :=
  fun _ hg => (validated_of_validate h).nested hg

/-- **Scoped ids are injective** on the instances of an accepted document, and every checkpoint,
delay, node outcome and call of an execution is keyed by the id of exactly one instance. -/
theorem scoped_ids_are_injective (doc : WorkflowDocument) (h : doc.validate = .ok ()) :
    (∀ i j : NodeInstance, i.In doc.graph → j.In doc.graph → i.scopedId "" = j.scopedId "" →
      i = j) ∧
    ∀ plugins limits serde t r,
      Runs (executePreparedWorkflow (planOf doc) plugins limits serde).run t r →
      ∀ e ∈ t, ∀ id, e.1.key = some id →
        ∃! i : NodeInstance, i.In doc.graph ∧ i.scopedId "" = id := by
  have hs := validated_graph_spelled h
  refine ⟨fun i j hi hj heq => NodeInstance.eq_of_scopedId_eq hs hi hj heq,
    fun plugins limits serde t r hrun e he id hid => ?_⟩
  have hcredit : Credit (strayCost (IsScopedId doc.graph)) 0
      (executePreparedWorkflow (planOf doc) plugins limits serde).run := by
    refine credit_executePreparedWorkflow neutral_strayCost
      (fun _ _ => (strayCost_of_no_key rfl).ge) (fun _ _ _ => (strayCost_of_no_key rfl).ge) ?_
    have hgraph := planOf_graph doc
    change Credit _ 0
      (executeGraph maxGraphDepth _ (planOf doc).graph.nodes (planOf doc).graph.entry
      _).run
    rw [hgraph]
    have hroot : Path.graph doc.graph [] = some doc.graph := rfl
    exact credit_executeGraph_scopedIds hs hroot rfl _ _
  have hbalance := hcredit.cut hrun (fun o => (undisturbed (fun _ _ => .error "") () o).1)
    fun _ => strayCost_nonpos _
  obtain ⟨i, hi, hscoped⟩ := keys_of_balance (by simpa using hbalance) e he id hid
  refine ⟨i, ⟨hi, hscoped⟩, fun j hj => ?_⟩
  exact NodeInstance.eq_of_scopedId_eq hs hj.1 hi (hj.2.trans hscoped.symm)

/-- The pass node in the third item of the foreach node of a branch. -/
theorem nestedDocument_ids_are_injective :
    (⟨[("a", .branch "b"), ("c", .item 2)], "d"⟩ : NodeInstance).scopedId "" = "/a/b/c/items/2/d" ∧
    ∀ j : NodeInstance, j.In nestedDocument.graph → j.scopedId "" = "/a/b/c/items/2/d" →
      j = ⟨[("a", .branch "b"), ("c", .item 2)], "d"⟩ := by
  have hin : NodeInstance.In nestedDocument.graph ⟨[("a", .branch "b"), ("c", .item 2)], "d"⟩ :=
    ⟨nestedBody, by rfl, by decide⟩
  refine ⟨by decide, fun j hj hid => ?_⟩
  exact (scoped_ids_are_injective nestedDocument (by rfl)).1 j _ hj hin (hid.trans (by decide))

end KakuneCore
