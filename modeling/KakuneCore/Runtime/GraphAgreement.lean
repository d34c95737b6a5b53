import KakuneCore.Runtime.Agreement

/-!
# Two runs of a graph

Two runs of one graph are compared round by round. The nodes are split into **clean** ones, whose
inputs and results are the same in both runs, and others, of which only the selected route is the
same; clean nodes read neither the outputs of the others nor the variables they write. When every
node is clean, the runs agree in everything that is compared.
-/

namespace KakuneCore

open Proc

/-- A comparison that sees nothing of the events but the routes that are taken. -/
structure Blind (c : Comparison Op Resp) : Prop where
  failing : c.failing
  rel : ∀ t u, c.rel t u
  routes : ∀ id message value message' value',
    c.left ⟨.recordNodeOutcome id (.succeeded message value), .ok ()⟩ →
    c.right ⟨.recordNodeOutcome id (.succeeded message' value'), .ok ()⟩ →
      value.get? "route" = value'.get? "route"

/-- Two states of the scheduler that agree on the clean nodes and on some variables. -/
structure Similar (V clean : String → Prop) (s s' : GraphState) : Prop where
  settled : s.settled = s'.settled
  activated : s.activated = s'.activated
  outputs : AgreeOn clean s.outputs s'.outputs
  locals : AgreeOn V s.locals s'.locals

/-- What clean nodes depend on, and what the other nodes leave alone. -/
structure CleanNodes (c : Comparison Op Resp) (V clean : String → Prop)
    (nodes : List WorkflowNode) : Prop where
  inputs : ∀ node ∈ nodes, clean node.id → ∀ binding ∈ node.inputs.values, binding.Within V clean
  writes : ∀ node ∈ nodes, ¬ clean node.id → node.kind = .setVariable →
    ∀ name, node.variableName = some name → ¬ V ("$" ++ name)
  blind : (∃ node ∈ nodes, ¬ clean node.id) → Blind c

variable {c : Comparison Op Resp}

theorem Blind.tracks (h : Blind c) {α β : Type} (x : RunM α) (y : RunM β) :
    Tracks c x y fun _ _ => True := by
  intro t r u b _ _ _ _
  rcases r with _ | e | a
  · exact c.part_of_rel (h.rel t u)
  · exact ⟨h.failing, c.part_of_rel (h.rel t u)⟩
  · exact ⟨h.rel t u, trivial⟩

section Graph

variable (hc : Compares c) {V clean : String → Prop} {nodes : List WorkflowNode}
  (hnodes : CleanNodes c V clean nodes) {ctx : ExecutionContext} {k : Nat}

/-- A prepared node on both sides: the inputs of a clean node are the same. -/
def PreparedAlike (clean : String → Prop) (nodes : List WorkflowNode)
    (p p' : WorkflowNode × StrMap Value) : Prop :=
  p.1 = p'.1 ∧ p.1 ∈ nodes ∧ (clean p.1.id → p.2 = p'.2)

/-- The results of a node on both sides. -/
def ResultsAlike (clean : String → Prop) (node : WorkflowNode)
    (r r' : Except RunError NodeResult) : Prop :=
  ∃ a b, r = .ok a ∧ r' = .ok b ∧ (clean node.id → a = b)

include hc hnodes

omit hc in
theorem tracks_resolveInputs {s s' : GraphState} (hs : Similar V clean s s') {node : WorkflowNode}
    (hn : node ∈ nodes) (serde : SerdeJson) :
    Tracks c (resolveInputs serde s.outputs s.locals node.inputs)
      (resolveInputs serde s'.outputs s'.locals node.inputs) fun v v' =>
        clean node.id → v = v' := by
  by_cases hclean : clean node.id
  · have hsame := coincide_resolveInputs serde hs.outputs hs.locals (hnodes.inputs node hn hclean)
    exact hsame.tracks.mono fun _ _ h _ => h
  · exact ((hnodes.blind ⟨node, hn, hclean⟩).tracks _ _).mono fun _ _ _ h => absurd h hclean

theorem tracks_prepareBatch {s s' : GraphState} (hs : Similar V clean s s')
    {batch : List WorkflowNode} (hb : ∀ node ∈ batch, node ∈ nodes) :
    Tracks c (prepareBatch ctx s batch) (prepareBatch (ctx.width k) s' batch)
      (List.Forall₂ (PreparedAlike clean nodes)) := by
  induction batch with
  | nil => exact .pure .nil
  | cons node batch ih =>
    unfold prepareBatch
    have hn := hb node List.mem_cons_self
    refine .bind (hc.observe_minor trivial trivial) fun _ _ _ => ?_
    refine .bind (tracks_resolveInputs hnodes hs hn ctx.serde) fun inputs inputs' h => ?_
    refine .bind
      (ih fun other ho => hb other (List.mem_cons_of_mem _ ho)) fun rest rest' hrest => ?_
    exact .pure (.cons ⟨rfl, hn, h⟩ hrest)

theorem lockstep_worker {exec exec' : NodeExecutor} {s s' : GraphState}
    (hs : Similar V clean s s')
    (hexec : ∀ node ∈ nodes, clean node.id → ∀ inputs locals locals', AgreeOn V locals locals' →
      Tracks c (exec ctx node inputs locals) (exec' (ctx.width k) node inputs locals') Eq)
    {p p' : WorkflowNode × StrMap Value} (hp : PreparedAlike clean nodes p p') :
    Lockstep c (worker exec ctx s p.1 p.2) (worker exec' (ctx.width k) s' p'.1 p'.2)
      (ResultsAlike clean p.1) := by
  obtain ⟨node, inputs⟩ := p
  obtain ⟨node', inputs'⟩ := p'
  obtain ⟨rfl, hn, hinputs⟩ := hp
  dsimp only at hn hinputs ⊢
  refine .bind (S := fun _ _ => True) (.call fun x y _ _ => ⟨?_, trivial⟩) fun _ _ _ => ?_
  · exact c.rel_quiet (by simpa using hc.quiet ⟨.observe _, x⟩ trivial)
      (by simpa using hc.quiet ⟨.observe _, y⟩ trivial)
  have hrun : Tracks c (exec ctx node inputs s.locals) (exec' (ctx.width k) node inputs' s'.locals)
      fun a b => clean node.id → a = b := by
    by_cases hclean : clean node.id
    · obtain rfl := hinputs hclean
      exact (hexec node hn hclean inputs _ _ hs.locals).mono fun _ _ h _ => h
    · exact ((hnodes.blind ⟨node, hn, hclean⟩).tracks _ _).mono fun _ _ _ h => absurd h hclean
  refine Tracks.run_bind hrun (fun a b hab => ?_) (fun e t r ht hle => ?_) fun e u d hu hre => ?_
  · refine .bind (S := fun _ _ => True) (.call fun x y _ _ => ⟨?_, trivial⟩)
      fun _ _ _ => .ret ⟨a, b, rfl, rfl, hab⟩
    by_cases hclean : clean node.id
    · obtain rfl := hab hclean
      exact hc.same _
    · exact (hnodes.blind ⟨node, hn, hclean⟩).rel _ _
  · -- a failure would be reported
    split at ht
    · next h => cases h
    · obtain ⟨rfl, rfl⟩ | ⟨x, t', rfl, -⟩ := runs_op_iff.mp ht
      · exact ⟨rfl, rfl⟩
      · exact absurd (hc.left _ (hle _ List.mem_cons_self)) id
    · obtain ⟨rfl, rfl⟩ | ⟨x, t', rfl, -⟩ := runs_op_iff.mp ht
      · exact ⟨rfl, rfl⟩
      · exact absurd (hc.left _ (hle _ List.mem_cons_self)) id
  · split at hu
    · next h => cases h
    · obtain ⟨-, h⟩ | ⟨x, t', rfl, -⟩ := runs_op_iff.mp hu
      · cases h
      · exact absurd (hc.right _ (hre _ List.mem_cons_self)).1 id
    · obtain ⟨-, h⟩ | ⟨x, t', rfl, -⟩ := runs_op_iff.mp hu
      · cases h
      · exact absurd (hc.right _ (hre _ List.mem_cons_self)).1 id

omit hc in
/-- Settling a node keeps two states similar. -/
theorem Similar.settle {s s' : GraphState} (hs : Similar V clean s s') {node : WorkflowNode}
    (hn : node ∈ nodes) {inputs inputs' : StrMap Value} (hinputs : clean node.id → inputs = inputs')
    {a b : NodeResult} (hab : clean node.id → a = b) (hroute : a.route = b.route) :
    Similar V clean (s.settle node inputs a) (s'.settle node inputs' b) := by
  refine ⟨?_, ?_, ?_, ?_⟩
  · simp only [GraphState.settle, hs.settled]
  · simp only [GraphState.settle, hs.activated, hroute]
  · by_cases hclean : clean node.id
    · obtain rfl := hab hclean
      exact hs.outputs.insert _ _
    · exact hs.outputs.insert_of_not hclean _ _
  · unfold GraphState.settle
    dsimp only
    split
    · next hk =>
      by_cases hclean : clean node.id
      · obtain rfl := hinputs hclean
        split
        · exact hs.locals.insert _ _
        · exact hs.locals
      · -- a variable that is not clean is not among those the states agree on
        have hkeep : ∀ {l l' : StrMap Value} {name : String} (value : Value),
            node.variableName = some name → AgreeOn V l l' →
            AgreeOn V (l.insert ("$" ++ name) value) l' := by
          intro l l' name value hname hl key hkey
          have hne : "$" ++ name ≠ key := by
            rintro rfl
            exact hnodes.writes node hn hclean hk name hname hkey
          rw [StrMap.get?_insert, if_neg hne]
          exact hl key hkey
        split
        · next name value hname _ =>
          have hleft := hkeep value hname hs.locals
          split
          · next name' value' hname' _ =>
            exact (hkeep value' hname' hleft.symm).symm
          · exact hleft
        · split
          · next name' value' hname' _ =>
            exact (hkeep value' hname' hs.locals.symm).symm
          · exact hs.locals
    · exact hs.locals

theorem tracks_settleBatch
    {items items' : List ((WorkflowNode × StrMap Value) × Except RunError NodeResult)}
    (hitems : List.Forall₂ (fun x x' => PreparedAlike clean nodes x.1 x'.1 ∧
      ResultsAlike clean x.1.1 x.2 x'.2) items items')
    {s s' : GraphState} (hs : Similar V clean s s') :
    Tracks c (settleBatch ctx items none s) (settleBatch (ctx.width k) items' none s')
      fun o o' => o.1 = none ∧ o'.1 = none ∧ Similar V clean o.2 o'.2 := by
  induction hitems generalizing s s' with
  | nil => exact .pure ⟨rfl, rfl, hs⟩
  | @cons x x' rest rest' h _ ih =>
    obtain ⟨⟨node, inputs⟩, result⟩ := x
    obtain ⟨⟨node', inputs'⟩, result'⟩ := x'
    obtain ⟨⟨rfl, hn, hinputs⟩, a, b, rfl, rfl, hab⟩ := h
    dsimp only at hn hinputs hab
    unfold settleBatch
    refine .bind (S := fun _ _ => a.route = b.route) ?_ fun _ _ hroute => ?_
    · by_cases hclean : clean node.id
      · obtain rfl := hab hclean
        exact hc.request_same.mono fun _ _ _ => rfl
      · have hblind := hnodes.blind ⟨node, hn, hclean⟩
        refine hc.request fun x _ y _ hx hy hle hre => ⟨hblind.rel _ _, ?_⟩
        obtain rfl : x = .ok () := hx
        obtain rfl : y = .ok () := hy
        have hsame := hblind.routes _ _ _ _ _ hle hre
        have hget : ∀ (r : NodeResult) (sensitive : Bool),
            (nodeResultValue r sensitive).get? "route" = some (.string r.route) := fun _ _ => rfl
        rw [hget, hget] at hsame
        simpa using hsame
    · exact ih (hs.settle hnodes hn hinputs hab hroute)

/-- **One batch, run twice.** -/
theorem tracks_runBatch {exec exec' : NodeExecutor} {s s' : GraphState}
    (hs : Similar V clean s s')
    (hexec : ∀ node ∈ nodes, clean node.id → ∀ inputs locals locals', AgreeOn V locals locals' →
      Tracks c (exec ctx node inputs locals) (exec' (ctx.width k) node inputs locals') Eq)
    {batch : List WorkflowNode} (hb : ∀ node ∈ batch, node ∈ nodes) :
    Tracks c (runBatch exec ctx batch s) (runBatch exec' (ctx.width k) batch s')
      (Similar V clean) := by
  unfold runBatch
  refine .bind (tracks_prepareBatch hc hnodes hs hb) fun prepared prepared' hprepared => ?_
  have hpool := Lockstep.parallel (c := c)
    (f := fun p : WorkflowNode × StrMap Value => worker exec ctx s p.1 p.2)
    (g := fun p : WorkflowNode × StrMap Value => worker exec' (ctx.width k) s' p.1 p.2)
    (S := fun p p' r r' => PreparedAlike clean nodes p p' ∧ ResultsAlike clean p.1 r r')
    (hprepared.imp fun p p' hp =>
      (lockstep_worker hc hnodes hs hexec hp).mono fun _ _ h => ⟨hp, h⟩)
  refine .bind (.lift hpool) fun results results' h => ?_
  refine .bind (tracks_settleBatch hc hnodes h.2.2 hs) fun o o' hsettled => ?_
  obtain ⟨failure, state⟩ := o
  obtain ⟨failure', state'⟩ := o'
  obtain ⟨rfl, rfl, hsimilar⟩ := hsettled
  exact .pure hsimilar

theorem tracks_runBatches {exec exec' : NodeExecutor} {s s' : GraphState}
    (hs : Similar V clean s s')
    (hexec : ∀ node ∈ nodes, clean node.id → ∀ inputs locals locals', AgreeOn V locals locals' →
      Tracks c (exec ctx node inputs locals) (exec' (ctx.width k) node inputs locals') Eq)
    {batches : List (List WorkflowNode)} (hb : ∀ node ∈ batches.flatten, node ∈ nodes) :
    Tracks c (runBatches exec ctx batches s) (runBatches exec' (ctx.width k) batches s')
      (Similar V clean) := by
  induction batches generalizing s s' with
  | nil => exact .pure hs
  | cons batch batches ih =>
    unfold runBatches
    refine .bind (tracks_runBatch hc hnodes hs hexec fun node hn => hb node (by simp [hn]))
      fun state state' hstate => ?_
    exact ih hstate fun node hn => hb node (by simp [hn])

omit hc hnodes in
theorem Similar.close {s s' : GraphState} (hs : Similar V clean s s') (nodes : List WorkflowNode) :
    Similar V clean (s.close nodes) (s'.close nodes) := by
  refine ⟨?_, hs.activated, hs.outputs, hs.locals⟩
  simp only [GraphState.close, hs.settled, hs.activated]

omit hc hnodes in
theorem Similar.ready_eq {s s' : GraphState} (hs : Similar V clean s s')
    (nodes : List WorkflowNode) : s.ready nodes = s'.ready nodes := by
  unfold GraphState.ready GraphState.isReady
  simp only [hs.settled, hs.activated]

/-- **A graph, run twice** with batches of the same width. -/
theorem tracks_executeGraphWith {exec exec' : NodeExecutor}
    (hexec : ∀ node ∈ nodes, clean node.id → ∀ inputs locals locals', AgreeOn V locals locals' →
      Tracks c (exec ctx.forked node inputs locals) (exec' ctx.forked node inputs locals') Eq)
    (entry : String) {locals locals' : StrMap Value} (hl : AgreeOn V locals locals') :
    Tracks c (executeGraphWith exec ctx nodes entry locals)
      (executeGraphWith exec' ctx nodes entry locals') (AgreeOn clean) := by
  have hrounds : ∀ (fuel : Nat) {s s' : GraphState}, Similar V clean s s' →
      Tracks c (runRounds exec ctx.forked nodes fuel s) (runRounds exec' ctx.forked nodes fuel s')
        (AgreeOn clean) := by
    intro fuel
    induction fuel with
    | zero =>
      intro s s' hs
      unfold runRounds
      rw [hs.settled]
      split
      · exact .throw_right
      · exact .pure hs.outputs
    | succ fuel ih =>
      intro s s' hs
      unfold runRounds
      rw [hs.settled]
      split
      · refine .bind (hc.check_check _ _) fun _ _ _ => ?_
        have hclosed := hs.close nodes
        dsimp only
        rw [hclosed.ready_eq nodes, hclosed.settled]
        split
        · split
          · exact .pure hclosed.outputs
          · exact .throw_right
        · refine .bind (hc.observe_minor trivial trivial) fun _ _ _ => ?_
          refine tracks_liftExcept_bind fun _ _ => ?_
          refine .bind (S := fun b b' => b = b' ∧ ∀ node ∈ b.flatten, node ∈ nodes) ?_
            fun batches _ h => ?_
          · unfold chunked doWhen
            split
            · exact .throw_right
            · refine .pure ⟨rfl, fun node hn => ?_⟩
              rw [flatten_chunks] at hn
              exact List.mem_of_mem_filter hn
          · obtain ⟨rfl, hmem⟩ := h
            refine .bind (tracks_runBatches hc hnodes hclosed hexec hmem) fun state state' h => ?_
            exact ih h
      · exact .pure hs.outputs
  exact hrounds _ ⟨rfl, rfl, .refl _ _, hl⟩

end Graph

/-! ### Nested graphs -/

/-- The bindings of a graph use no secret and read only local bindings in `V`. -/
structure GraphWithin (V : String → Prop) (g : WorkflowSubgraph) : Prop where
  inputs : ∀ node ∈ g.nodes, ∀ binding ∈ node.inputs.values, binding.Within V fun _ => True
  outputs : ∀ binding ∈ g.outputs.values, binding.Within V fun _ => True

section Nesting

variable (hc : Compares c) {V : String → Prop}
include hc

theorem tracks_nodeExecutor {depth : Nat} {ctx : ExecutionContext} {node : WorkflowNode}
    (hsub : ∀ g ∈ node.subgraphs, ∀ (ctx : ExecutionContext) locals locals',
      AgreeOn V locals locals' → Tracks c (executeSubgraph (executeGraph depth) ctx g locals)
        (executeSubgraph (executeGraph depth) ctx g locals') Eq)
    (hext : node.kind.IsExternal → AnswersAlike c) (inputs : StrMap Value)
    {locals locals' : StrMap Value} (hl : AgreeOn V locals locals') :
    Tracks c (nodeExecutor depth ctx node inputs locals)
      (nodeExecutor depth ctx node inputs locals') Eq :=
  tracks_executeNodeWithRetry hc (k := ctx.maxParallelNodes)
    (fun g _ _ _ _ hg hl => hsub g hg.mem_subgraphs _ _ _ hl) hext hl inputs

/-- **A graph whose bindings stay within the agreement** is run twice with the same outputs. -/
theorem tracks_executeSubgraph (depth : Nat) {graph : WorkflowSubgraph}
    (hwithin : ∀ g, Nested graph g → GraphWithin V g)
    (hext : ∀ g, Nested graph g → ∀ node ∈ g.nodes, node.kind.IsExternal → AnswersAlike c)
    (ctx : ExecutionContext) {locals locals' : StrMap Value} (hl : AgreeOn V locals locals') :
    Tracks c (executeSubgraph (executeGraph depth) ctx graph locals)
      (executeSubgraph (executeGraph depth) ctx graph locals') Eq := by
  induction depth generalizing graph ctx locals locals' with
  | zero =>
    intro t r u b _ hy _ _
    obtain ⟨_, _, _, -, h, -⟩ := runs_run_bind_ok hy
    exact absurd h not_runs_run_throw_ok
  | succ depth ih =>
    have hnodes : CleanNodes c V (fun _ => True) graph.nodes :=
      ⟨fun node hn _ => (hwithin graph .refl).inputs node hn, fun _ _ h => absurd trivial h,
        fun ⟨_, _, h⟩ => absurd trivial h⟩
    have hgraph : Tracks c (executeGraph (depth + 1) ctx graph.nodes graph.entry locals)
        (executeGraph (depth + 1) ctx graph.nodes graph.entry locals') (AgreeOn fun _ => True) := by
      rw [executeGraph_succ]
      refine tracks_executeGraphWith hc hnodes (fun node hn _ inputs locals locals' hl => ?_)
        graph.entry hl
      refine tracks_nodeExecutor hc (fun g hg ctx locals locals' hl => ?_)
        (hext graph .refl node hn)
        inputs hl
      have hstep : ∀ g', Nested g g' → Nested graph g' := fun g' hg' => .head ⟨node, hn, hg⟩ hg'
      exact ih (fun g' hg' => hwithin g' (hstep g' hg'))
        (fun g' hg' => hext g' (hstep g' hg')) ctx hl
    refine .bind hgraph fun outputs outputs' ho => ?_
    exact (coincide_resolveInputs ctx.serde ho hl (hwithin graph .refl).outputs).tracks

/-- **A graph with clean nodes** is run twice with the same outputs of those nodes. -/
theorem tracks_executeGraph (depth : Nat) {clean : String → Prop} {nodes : List WorkflowNode}
    (hnodes : CleanNodes c V clean nodes)
    (hwithin : ∀ node ∈ nodes, clean node.id → ∀ g ∈ node.subgraphs, ∀ g', Nested g g' →
      GraphWithin V g')
    (hext : ∀ node ∈ nodes, clean node.id → (node.kind.IsExternal → AnswersAlike c) ∧
      ∀ g ∈ node.subgraphs, ∀ g', Nested g g' → ∀ node ∈ g'.nodes, node.kind.IsExternal →
        AnswersAlike c)
    (ctx : ExecutionContext) (entry : String) {locals locals' : StrMap Value}
    (hl : AgreeOn V locals locals') :
    Tracks c (executeGraph depth ctx nodes entry locals)
      (executeGraph depth ctx nodes entry locals')
      (AgreeOn clean) := by
  cases depth with
  | zero => exact .throw_right
  | succ depth =>
    rw [executeGraph_succ]
    refine tracks_executeGraphWith hc hnodes (fun node hn hclean inputs locals locals' hl => ?_)
      entry hl
    refine tracks_nodeExecutor hc (fun g hg ctx locals locals' hl => ?_) (hext node hn hclean).1
      inputs hl
    exact tracks_executeSubgraph hc depth (hwithin node hn hclean g hg)
      ((hext node hn hclean).2 g hg) ctx hl

end Nesting

end KakuneCore
