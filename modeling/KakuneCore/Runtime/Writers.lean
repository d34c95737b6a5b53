import KakuneCore.Runtime.Rounds

/-!
# Variables and concurrent writes

The write check looks at the ready nodes of one round. It refuses every pair of unordered writers of
one variable exactly when such writers are **never spread over several rounds**, and a reader sees
the last write among its ancestors when no unordered write comes before it. Both are conditions on
the levels of the nodes.
-/

namespace KakuneCore

open Proc

/-! ### Readers and writers -/

/-- The keys of the local bindings a reference may read: itself, and its part before the first
dot. -/
def readKeys (source : String) : List String :=
  if startsWithDollar source then source :: ((splitOnceDot source).map Prod.fst).toList else []

/-- A list of bindings reads a local key. -/
def BindingsRead (bindings : StrMap WorkflowBinding) (key : String) : Prop :=
  ∃ source ∈ bindings.values.flatMap bindingSources, key ∈ readKeys source

/-- A node reads a local key: in its inputs, or somewhere in the graphs it runs. -/
def WorkflowNode.Reads (node : WorkflowNode) (key : String) : Prop :=
  BindingsRead node.inputs key ∨ ∃ g ∈ node.subgraphs, ∃ h, Nested g h ∧
    (BindingsRead h.outputs key ∨ ∃ inner ∈ h.nodes, BindingsRead inner.inputs key)

/-- A set-variable node of this variable. -/
def WorkflowNode.Writes (node : WorkflowNode) (name : String) : Prop :=
  node.kind = .setVariable ∧ node.variableName = some name

/-- Two nodes of which neither is a control ancestor of the other. -/
def Unordered (nodes : List WorkflowNode) (a b : String) : Prop :=
  a ≠ b ∧ ¬ Ancestor nodes a b ∧ ¬ Ancestor nodes b a

/-- In the batches of a round, `a` comes in an earlier batch than `b`. -/
def EarlierBatch (limit : Nat) (round : List WorkflowNode) (a b : WorkflowNode) : Prop :=
  ∃ before batch after, chunks limit round = before ++ batch :: after ∧ a ∈ before.flatten ∧
    b ∈ batch

/-- **The condition of the write check**: unordered writers of one variable are reached in one
round, and no reached reader of a variable comes after an unordered writer of it. -/
structure WritesMeet (nodes : List WorkflowNode) (reached : String → Prop) (level : String → Nat)
    (limit : Nat) : Prop where
  writers : ∀ a ∈ nodes, ∀ b ∈ nodes, reached a.id → reached b.id → Unordered nodes a.id b.id →
    ∀ name, a.Writes name → b.Writes name → level a.id = level b.id
  readers : ∀ r ∈ nodes, ∀ w ∈ nodes, reached r.id → reached w.id → Unordered nodes r.id w.id →
    ∀ name, r.Reads ("$" ++ name) → w.Writes name →
      level r.id < level w.id ∨
        level r.id = level w.id ∧ ¬ EarlierBatch limit
          (roundNodes nodes reached level (level r.id)) w r

/-- What a reader should see of a variable: the value of the last writer among its ancestors, or the
binding of the enclosing scope when there is none. -/
def SeesLastWrite (nodes : List WorkflowNode) (reached : String → Prop)
    (inputsOf : String → StrMap Value) (outer locals : StrMap Value) (reader name : String) :
    Prop :=
  (∃ w ∈ nodes, w.Writes name ∧ reached w.id ∧ Ancestor nodes w.id reader ∧
    (∀ w' ∈ nodes, w'.Writes name → reached w'.id → Ancestor nodes w'.id reader →
      w'.id = w.id ∨ Ancestor nodes w'.id w.id) ∧
    locals.get? ("$" ++ name) = (inputsOf w.id).get? "value") ∨
  (∀ w ∈ nodes, w.Writes name → reached w.id → ¬ Ancestor nodes w.id reader) ∧
    locals.get? ("$" ++ name) = outer.get? ("$" ++ name)

/-! ### The write check and the local bindings -/

/-- The write check lets only writers of distinct variables pass. -/
theorem pairwise_of_checkWriters {writers : List String} {nodes : List WorkflowNode}
    (h : checkWriters writers nodes = .ok ()) :
    (∀ node ∈ nodes, ∀ name, node.Writes name → name ∉ writers) ∧
      nodes.Pairwise fun a b => ∀ name, a.Writes name → ¬ b.Writes name := by
  induction nodes generalizing writers with
  | nil => simp
  | cons node nodes ih =>
    rw [checkWriters] at h
    split at h
    · split at h
      · cases h
      · next name hname =>
        split at h
        · cases h
        · next hnew =>
          obtain ⟨hwriters, hpairs⟩ := ih h
          have hown : ∀ name', node.Writes name' → name' = name := by
            rintro name' ⟨-, hname'⟩
            simpa [hname] using hname'.symm
          refine ⟨?_, List.pairwise_cons.mpr ⟨fun b hb name' ha hb' => ?_, hpairs⟩⟩
          · rw [List.forall_mem_cons]
            refine ⟨fun name' ha => by rw [hown name' ha]; exact hnew,
              fun b hb name' hb' hmem => ?_⟩
            exact hwriters b hb name' hb' (List.mem_cons_of_mem _ hmem)
          · rw [hown name' ha] at hb'
            exact hwriters b hb name hb' List.mem_cons_self
    · next hk =>
      obtain ⟨hwriters, hpairs⟩ := ih h
      refine ⟨?_, List.pairwise_cons.mpr ⟨fun b _ name ha => absurd ha.1 hk, hpairs⟩⟩
      rw [List.forall_mem_cons]
      exact ⟨fun name ha => absurd ha.1 hk, hwriters⟩

theorem dollar_append_inj {a b : String} (h : "$" ++ a = "$" ++ b) : a = b := by
  simpa using h

/-- The binding of a variable after a log: the last write of it, if there is one. -/
theorem get?_foldl_write {log : List Settlement} {locals : StrMap Value} {name : String}
    (hvalue : ∀ x ∈ log, x.node.kind = .setVariable → x.inputs.contains "value" = true) :
    (∃ before x after, log = before ++ x :: after ∧ x.node.Writes name ∧
      (∀ y ∈ after, ¬ y.node.Writes name) ∧
      (log.foldl Settlement.write locals).get? ("$" ++ name) = x.inputs.get? "value") ∨
    (∀ x ∈ log, ¬ x.node.Writes name) ∧
      (log.foldl Settlement.write locals).get? ("$" ++ name) = locals.get? ("$" ++ name) := by
  induction log using List.reverseRecOn with
  | nil => exact .inr ⟨by simp, rfl⟩
  | append_singleton log x ih =>
    rw [List.foldl_append, List.foldl_cons, List.foldl_nil]
    by_cases hx : x.node.Writes name
    · refine .inl ⟨log, x, [], rfl, hx, by simp, ?_⟩
      obtain ⟨value, hv⟩ := Option.isSome_iff_exists.mp (hvalue x (by simp) hx.1)
      rw [Settlement.write, if_pos hx.1, hx.2, hv]
      exact StrMap.get?_insert_self ..
    · -- the last settlement writes another variable, or none
      have hsame : (Settlement.write (log.foldl Settlement.write locals) x).get? ("$" ++ name) =
          (log.foldl Settlement.write locals).get? ("$" ++ name) := by
        generalize log.foldl Settlement.write locals = bindings
        unfold Settlement.write
        split
        · next hk =>
          split
          · next name' value hname _ =>
            refine StrMap.get?_insert_ne _ (fun heq => hx ⟨hk, ?_⟩) _
            rw [hname, dollar_append_inj heq]
          · rfl
        · rfl
      rw [hsame]
      rcases ih fun y hy => hvalue y (by simp [hy]) with
        ⟨before, y, after, rfl, hy, hafter, hget⟩ | ⟨hnone, hget⟩
      · refine .inl ⟨before, y, after ++ [x], by simp, hy, fun z hz => ?_, hget⟩
        rcases List.mem_append.mp hz with hz | hz
        · exact hafter z hz
        · rw [List.mem_singleton.mp hz]
          exact hx
      · refine .inr ⟨fun z hz => ?_, hget⟩
        rcases List.mem_append.mp hz with hz | hz
        · exact hnone z hz
        · rw [List.mem_singleton.mp hz]
          exact hx

/-! ### What a reader sees -/

/-- A settlement gave the assigned result, and ran with the assigned inputs, which were resolved in
the state it was prepared in. -/
def Gave (ctx : ExecutionContext) (results : String → NodeResult)
    (inputsOf : String → StrMap Value) (state : GraphState) (x : Settlement) : Prop :=
  x.result = results x.node.id ∧ x.inputs = inputsOf x.node.id ∧ ResolvedIn ctx state x

section Writers

variable {graph : WorkflowSubgraph} {results : String → NodeResult}
  {inputsOf : String → StrMap Value} {level : String → Nat} {ctx : ExecutionContext}
  {locals : StrMap Value} {k : Nat} {batches : List (List WorkflowNode)} {log : List Settlement}
  {state : GraphState} (hfacts : GraphFacts graph) (hdeps : DependsOnAncestors graph.nodes)
  (hlevels : Levels graph.nodes (ReachedBy graph.nodes graph.entry results) level)
include hfacts hdeps hlevels

theorem Sched.levelInvariant_of_gave
    (hs : Sched graph.nodes graph.entry locals ctx.maxParallelNodes (Gave ctx results inputsOf) k
      batches log state) :
    LevelInvariant graph.nodes (ReachedBy graph.nodes graph.entry results) level
      ctx.maxParallelNodes k batches log state :=
  hs.levelInvariant hfacts.nodup hfacts.acyclic hdeps hlevels fun _ x hx => by rw [hx.1]

omit hdeps hlevels in
/-- An executed node is reached. -/
theorem Sched.reachedBy_of_mem
    (hs : Sched graph.nodes graph.entry locals ctx.maxParallelNodes (Gave ctx results inputsOf) k
      batches log state) {x : Settlement} (hx : x ∈ log) :
    ReachedBy graph.nodes graph.entry results x.node.id := by
  have hinv := (hs.invariant hfacts.nodup).1
  have hroutes : Follows (fun id => (results id).route) log :=
    hs.follows_of fun _ x hx => by rw [hx.1]
  exact hinv.reached_of_activated hroutes (hinv.control.executed_active ⟨x, hx, rfl⟩)

/-- Two executed writers of one variable are ordered: otherwise they would have been in one round,
which the write check refuses. -/
theorem Sched.writers_ordered
    (hmeet : WritesMeet graph.nodes (ReachedBy graph.nodes graph.entry results) level
      ctx.maxParallelNodes)
    (hs : Sched graph.nodes graph.entry locals ctx.maxParallelNodes (Gave ctx results inputsOf) k
      batches log state) {x y : Settlement} (hx : x ∈ log) (hy : y ∈ log) {name : String}
    (hxw : x.node.Writes name) (hyw : y.node.Writes name) :
    ¬ Unordered graph.nodes x.node.id y.node.id := by
  intro hun
  have hinv := (hs.invariant hfacts.nodup).1
  have hlevel := hs.levelInvariant_of_gave hfacts hdeps hlevels
  have hxr := hs.reachedBy_of_mem hfacts hx
  have hyr := hs.reachedBy_of_mem hfacts hy
  have heq := hmeet.writers _ (hinv.log_mem x hx) _ (hinv.log_mem y hy) hxr hyr hun name hxw hyw
  have hxround : x.node ∈ roundNodes graph.nodes _ level (level x.node.id) :=
    mem_roundNodes.mpr ⟨hinv.log_mem x hx, hxr, rfl⟩
  have hyround : y.node ∈ roundNodes graph.nodes _ level (level x.node.id) :=
    mem_roundNodes.mpr ⟨hinv.log_mem y hy, hyr, heq.symm⟩
  have hpairs := (pairwise_of_checkWriters (hlevel.checked _ (hlevel.log_le x hx))).2
  have hne : x.node ≠ y.node := fun h => hun.1 (congrArg WorkflowNode.id h)
  have : Std.Symm fun a b : WorkflowNode => ∀ name, a.Writes name → ¬ b.Writes name :=
    ⟨fun a b hab name hb ha => hab name ha hb⟩
  exact hpairs.forall hxround hyround hne name hxw hyw

/-- **A reader sees the last write among its ancestors.** -/
theorem Sched.sees_last_write
    (hmeet : WritesMeet graph.nodes (ReachedBy graph.nodes graph.entry results) level
      ctx.maxParallelNodes) {batch : List WorkflowNode} {reader : WorkflowNode}
    (hs : Sched graph.nodes graph.entry locals ctx.maxParallelNodes (Gave ctx results inputsOf) k
      (batch :: batches) log state) (hr : reader ∈ batch) {name : String}
    (hreads : reader.Reads ("$" ++ name)) :
    SeesLastWrite graph.nodes (ReachedBy graph.nodes graph.entry results) inputsOf locals
      state.locals reader.id name := by
  obtain ⟨hinv, hpending⟩ := hs.invariant hfacts.nodup
  have hlevel := hs.levelInvariant_of_gave hfacts hdeps hlevels
  have hroutes : Follows (fun id => (results id).route) log :=
    hs.follows_of fun _ x hx => by rw [hx.1]
  have hflat : reader ∈ (batch :: batches).flatten := by simp [hr]
  obtain ⟨hnew, hactive, hpred, -⟩ := isReady_iff.mp (hpending.ready reader hflat)
  have hreached := hinv.reached_of_activated hroutes hactive
  obtain ⟨done, hdone, hdonelog⟩ := hlevel.done
  have hk : level reader.id = k := by
    have hmem : reader ∈ (done ++ batch :: batches).flatten := by simp [hr]
    rw [hdone, flatten_chunks] at hmem
    exact (mem_roundNodes.mp hmem).2.2
  -- an executed writer of the variable is an ancestor of the reader
  have hancestor : ∀ x ∈ log, x.node.Writes name → Ancestor graph.nodes x.node.id reader.id := by
    intro x hx hw
    by_contra hnot
    have hsettled : x.node.id ∈ state.settled := hinv.control.executed_settled ⟨x, hx, rfl⟩
    have hback : ¬ Ancestor graph.nodes reader.id x.node.id := fun h =>
      hnew (hinv.ancestor_settled (fun p hp => hinv.control.settled_closed hp hsettled) h)
    have hne : reader.id ≠ x.node.id := fun h => hnew (h ▸ hsettled)
    have hle := hlevel.log_le x hx
    rcases hmeet.readers reader (hpending.mem reader hflat) x.node (hinv.log_mem x hx) hreached
      (hs.reachedBy_of_mem hfacts hx) ⟨hne, hback, hnot⟩ name hreads hw with hlt | ⟨heq, hbatch⟩
    · omega
    · rw [hk] at hbatch
      exact hbatch ⟨done, batch, batches, hdone.symm, hdonelog x hx (by omega), hr⟩
  -- a reached writer among the ancestors was executed
  have hexecuted : ∀ w ∈ graph.nodes, ReachedBy graph.nodes graph.entry results w.id →
      Ancestor graph.nodes w.id reader.id → ∃ x ∈ log, x.node = w := by
    intro w hw hwr hwa
    obtain ⟨x, hx, hid⟩ := hinv.executed_of_reached hroutes hfacts.nodup hwr
      (hinv.ancestor_settled hpred hwa)
    exact ⟨x, hx, eq_of_id_eq hfacts.nodup (hinv.log_mem x hx) hw hid⟩
  have hvalue : ∀ x ∈ log, x.node.kind = .setVariable → x.inputs.contains "value" = true := by
    intro x hx hkind
    obtain ⟨before, -, -, hresolved⟩ := hs.mem_log x hx
    exact hresolved.contains (hfacts.writer x.node (hinv.log_mem x hx) hkind).1
  rw [SeesLastWrite, hinv.locals_eq]
  obtain ⟨before, x, after, hsplit, hxw, hafter, hget⟩ | ⟨hnone, hget⟩ := get?_foldl_write hvalue
  · have hx : x ∈ log := by simp [hsplit]
    obtain ⟨before', -, hinputs, -⟩ := hs.mem_log x hx
    refine .inl ⟨x.node, hinv.log_mem x hx, hxw, hs.reachedBy_of_mem hfacts hx,
      hancestor x hx hxw, fun w hw hww hwr hwa => ?_, by rw [hget, hinputs]⟩
    obtain ⟨y, hy, rfl⟩ := hexecuted w hw hwr hwa
    by_contra hnot
    push Not at hnot
    -- the only other possibility is that the last writer comes before `y`, which the log excludes
    have hordered := hs.writers_ordered hfacts hdeps hlevels hmeet hy hx hww hxw
    have hxy : Ancestor graph.nodes x.node.id y.node.id := by
      by_contra hxy
      exact hordered ⟨hnot.1, hnot.2, hxy⟩
    have hlt := hlevels.lt_of_ancestor hxy hwr
    have hsorted := hlevel.sorted
    rw [hsplit] at hy hsorted
    rcases List.mem_append.mp hy with hy | hy
    · have := (List.pairwise_append.mp hsorted).2.2 y hy x List.mem_cons_self
      omega
    · rcases List.mem_cons.mp hy with rfl | hy
      · exact hnot.1 rfl
      · exact hafter y hy hww
  · refine .inr ⟨fun w hw hww hwr hwa => ?_, hget⟩
    obtain ⟨y, hy, rfl⟩ := hexecuted w hw hwr hwa
    exact hnone y hy hww

end Writers

/-! ### Runs -/

/-- The inputs of a node resolve, whatever its secrets are. -/
def Resolvable (serde : SerdeJson) (outputs : StrMap (StrMap Value)) (locals : StrMap Value)
    (node : WorkflowNode) : Prop :=
  ∀ t e, ¬ Runs (resolveInputs serde outputs locals node.inputs).run t (some (.error e))

/-- An event of a run of the graph instance `scope` in which nothing is disturbed, no resolution
fails, and each node runs with its inputs and gives its result. -/
structure RunsAs (results : String → NodeResult) (inputsOf : String → StrMap Value)
    (serde : SerdeJson) (scope : String) (e : RunEvent) : Prop where
  gives : GivesResults results scope e
  inputs : ∀ id settled inputs locals,
    e.1 = .observe (.starting scope id settled inputs locals) → inputs = inputsOf id
  resolves : ∀ node outputs locals,
    e.1 = .observe (.resolving scope node outputs locals) → Resolvable serde outputs locals node

/-- The contract of the write check: every reader sees the last write among its ancestors. -/
def writersContract (graph : WorkflowSubgraph) (results : String → NodeResult)
    (inputsOf : String → StrMap Value) (serde : SerdeJson) (scope : String)
    (locals : StrMap Value) : Contract Op Resp Nat where
  assume := RunsAs results inputsOf serde scope
  ensure := fun e => ∀ id settled inputs locals',
    e.1 = .observe (.starting scope id settled inputs locals') → ∀ reader ∈ graph.nodes,
      reader.id = id → ∀ name, reader.Reads ("$" ++ name) →
        SeesLastWrite graph.nodes (ReachedBy graph.nodes graph.entry results) inputsOf locals
          locals' id name
  tally := fun _ => 0

section Runs

variable {graph : WorkflowSubgraph} {results : String → NodeResult} {level : String → Nat}
  {locals : StrMap Value} (inputsOf : String → StrMap Value)

theorem resultsContract_writersContract {serde : SerdeJson} {scope : String} :
    ResultsContract (writersContract graph results inputsOf serde scope locals) results scope :=
  ⟨fun _ h => h.gives, fun _ ho _ _ => ⟨fun _ _ _ _ heq => absurd heq (ho _ _ _ _), rfl⟩⟩

/-- The loop of `execute_graph` under the contract of the write check: it can only be refused. -/
theorem schedulerContract_writers (hfacts : GraphFacts graph)
    (hdeps : DependsOnAncestors graph.nodes)
    (hlevels : Levels graph.nodes (ReachedBy graph.nodes graph.entry results) level)
    {ctx : ExecutionContext} (hlimit : 1 ≤ ctx.maxParallelNodes)
    (hmeet : WritesMeet graph.nodes (ReachedBy graph.nodes graph.entry results) level
      ctx.maxParallelNodes) (depth : Nat) :
    SchedulerContract (writersContract graph results inputsOf ctx.serde ctx.scope locals)
      (nodeExecutor depth) ctx.forked graph.nodes graph.entry locals
      (Gave ctx.forked results inputsOf) (fun _ => 0)
      (fun state node inputs m result => (m = 0 ∧
        Gave ctx.forked results inputsOf state ⟨node, inputs, results node.id⟩) ∧
          result = .ok (results node.id))
      fun _ e => ∃ name, e = .concurrentWrites name := by
  have hc : ResultsContract (writersContract graph results inputsOf ctx.serde ctx.scope locals)
      results ctx.scope := resultsContract_writersContract inputsOf
  have hscope : ctx.forked.scope = ctx.scope := rfl
  refine hc.scheduler hscope hfacts.nodup hfacts.acyclic hdeps depth hlimit ?_ ?_ ?_
  · intro k log state e hs he
    obtain ⟨node, hn, hk, hv, -⟩ | ⟨name, -, b, -, -, -, -, rfl, -⟩ := checkWriters_error he
    · have hnamed := (hfacts.writer node (List.mem_of_mem_filter hn) hk).2
      rw [hv] at hnamed
      cases hnamed
    · exact ⟨name, rfl⟩
  · intro k batch batches log state node hs hn ha
    refine (quietly_resolveInputs hc.routine.step _ _ _ _).with_run.mono
      (fun _ h => h.1) fun e he => ?_
    obtain ⟨-, t, ht⟩ := he
    exact absurd ht (ha.resolves _ _ _ rfl t e)
  · intro k batch batches log state node inputs hs hn hresolved
    refine Meets.call fun answer ha => ⟨?_, rfl, rfl, ha.inputs _ _ _ _ rfl, hresolved⟩
    rintro id settled inputs' locals' heq reader hreader hid name hreads
    cases heq
    have hmem : node ∈ graph.nodes := (hs.invariant hfacts.nodup).2.mem node (by simp [hn])
    obtain rfl := eq_of_id_eq hfacts.nodup hreader hmem hid
    exact hs.sees_last_write hfacts hdeps hlevels hmeet hn hreads

end Runs

/-- **Concurrent writes are refused.** In a graph of a compiled document in which no node refers to
its own output, when unordered writers of a variable are reached in one round and no reader comes
after an unordered writer, in every run in which nothing is disturbed and no node or resolution
fails:

* if two unordered writers of one variable are reached, the run ends with the error of the write
  check;
* if the run ends with `Ok`, the reached writers of each variable are ordered, and every reader
  starts with the value of the last writer among its ancestors. -/
theorem concurrent_writes_are_refused {doc : WorkflowDocument} {plugins : PluginRegistry}
    {compiled : CompiledWorkflow} (hc : compile doc plugins = .ok compiled)
    {graph : WorkflowSubgraph} (hg : Nested compiled.plan.graph graph)
    (hself : ∀ node ∈ graph.nodes, node.id ∉ node.dependencies) (results : String → NodeResult)
    (inputsOf : String → StrMap Value) {level : String → Nat}
    (hlevels : Levels graph.nodes (ReachedBy graph.nodes graph.entry results) level) (depth : Nat)
    {ctx : ExecutionContext} (hlimit : 1 ≤ ctx.maxParallelNodes)
    (hmeet : WritesMeet graph.nodes (ReachedBy graph.nodes graph.entry results) level
      ctx.maxParallelNodes) (locals : StrMap Value) {t : RunTrace}
    {r : Except RunError (StrMap (StrMap Value))}
    (hrun : Runs (executeGraph (depth + 1) ctx graph.nodes graph.entry locals).run t (some r))
    (ht : ∀ e ∈ t, RunsAs results inputsOf ctx.serde ctx.scope e) :
    (∀ a ∈ graph.nodes, ∀ b ∈ graph.nodes, ReachedBy graph.nodes graph.entry results a.id →
      ReachedBy graph.nodes graph.entry results b.id → Unordered graph.nodes a.id b.id →
      ∀ name, a.Writes name → b.Writes name → ∃ name', r = .error (.concurrentWrites name')) ∧
    ∀ outputs, r = .ok outputs →
      (∀ a ∈ graph.nodes, ∀ b ∈ graph.nodes, ReachedBy graph.nodes graph.entry results a.id →
        ReachedBy graph.nodes graph.entry results b.id → ∀ name, a.Writes name → b.Writes name →
          a.id = b.id ∨ Ancestor graph.nodes a.id b.id ∨ Ancestor graph.nodes b.id a.id) ∧
      ∀ reader ∈ graph.nodes, ∀ settled inputs locals',
        (⟨.observe (.starting ctx.scope reader.id settled inputs locals'), ()⟩ : RunEvent) ∈ t →
        ∀ name, reader.Reads ("$" ++ name) →
          SeesLastWrite graph.nodes (ReachedBy graph.nodes graph.entry results) inputsOf locals
            locals' reader.id name := by
  obtain ⟨hv, ha⟩ := accepted_of_compile hc
  obtain ⟨levels, lexical, hvg, hag⟩ := accepted_nested hv ha hg
  have hfacts := hvg.facts
  have hdeps := dependsOnAncestors_of_analysed hag hself
  have hfuel : graph.nodes.length ≤
      graph.nodes.length + (GraphState.initial graph.entry locals).settled.length := by simp
  have hrounds := runRounds_ensures
    (schedulerContract_writers inputsOf hfacts hdeps hlevels hlimit hmeet depth) hfacts.nodup
    .initial hfuel
  obtain ⟨hsees, hresult⟩ := hrounds t (some r) hrun ht
  -- once the run is over, every reached node was executed, so the writers among them are ordered
  have hordered : ∀ outputs, r = .ok outputs → ∀ a ∈ graph.nodes, ∀ b ∈ graph.nodes,
      ReachedBy graph.nodes graph.entry results a.id →
      ReachedBy graph.nodes graph.entry results b.id → ∀ name, a.Writes name → b.Writes name →
        ¬ Unordered graph.nodes a.id b.id := by
    rintro outputs rfl a hma b hmb har hbr name haw hbw
    obtain ⟨k, log, state, -, -, ⟨settled, hcloses, hlen⟩, hs⟩ := hresult _ rfl
    rw [List.nil_append] at hs
    have hinv := (hs.invariant hfacts.nodup).1.closes hcloses
    have hroutes : Follows (fun id => (results id).route) log :=
      hs.follows_of fun _ x hx => by rw [hx.1]
    have hexecuted : ∀ w ∈ graph.nodes, ReachedBy graph.nodes graph.entry results w.id →
        ∃ x ∈ log, x.node = w := by
      intro w hw hwr
      obtain ⟨x, hx, hid⟩ := hinv.executed_of_reached hroutes hfacts.nodup hwr
        (hinv.settled.mem_of_length hlen (List.mem_map_of_mem hw))
      exact ⟨x, hx, eq_of_id_eq hfacts.nodup (hinv.log_mem x hx) hw hid⟩
    obtain ⟨x, hx, rfl⟩ := hexecuted a hma har
    obtain ⟨y, hy, rfl⟩ := hexecuted b hmb hbr
    exact hs.writers_ordered hfacts hdeps hlevels hmeet hx hy haw hbw
  refine ⟨fun a hma b hmb har hbr hun name haw hbw => ?_, fun outputs hok => ⟨?_, ?_⟩⟩
  · cases r with
    | ok outputs => exact absurd hun (hordered outputs rfl a hma b hmb har hbr name haw hbw)
    | error e =>
      obtain ⟨name', rfl⟩ := hresult _ rfl
      exact ⟨name', rfl⟩
  · intro a hma b hmb har hbr name haw hbw
    by_contra hnot
    push Not at hnot
    exact hordered outputs hok a hma b hmb har hbr name haw hbw ⟨hnot.1, hnot.2.1, hnot.2.2⟩
  · intro reader hreader settled inputs locals' hmem name hreads
    exact hsees _ hmem _ _ _ _ rfl reader hreader rfl name hreads

/-! ### Concrete graphs -/

/-- A variable that is set and then read. -/
def variableDocument : WorkflowDocument :=
  sampleDocument "a"
    [{ id := "a", nodeType := "kakune.flow.set-variable@1", config := [("name", .string "x")],
       inputs := [("value", .literal (.bool true))], on := [("success", .one "b")] },
     { id := "b", nodeType := "kakune.flow.pass@1", inputs := [("v", .from "$x")] }]

/-- The results of the nodes of `variableDocument`. -/
def variableResults : String → NodeResult
  | "a" => { route := "success", outputs := [("value", .bool true)] }
  | _ => { route := "success", outputs := [("v", .bool true)] }

/-- The inputs of the nodes of `variableDocument`. -/
def variableInputs : String → StrMap Value
  | "a" => [("value", .bool true)]
  | _ => [("v", .bool true)]

/-- Whether a step gives a value without asking for anything. -/
def isValue {α : Type} (x : RunM α) : Bool :=
  match x.run with
  | .ret (.ok _) => true
  | _ => false

theorem not_runs_error_of_isValue {α : Type} {x : RunM α} (h : isValue x = true) (t : RunTrace)
    (e : RunError) : ¬ Runs x.run t (some (.error e)) := by
  intro hrun
  unfold isValue at h
  split at h
  · next a heq =>
    rw [heq] at hrun
    obtain ⟨-, hr | hr⟩ := runs_ret_iff.mp hrun
    · cases hr
    · cases hr
  · cases h

/-- Whether an event keeps to the inputs, and announces only resolutions that give a value. -/
def keepsInputs (inputsOf : String → StrMap Value) (serde : SerdeJson) (e : RunEvent) : Bool :=
  match e.1 with
  | .observe (.starting _ id _ inputs _) => inputs = inputsOf id
  | .observe (.resolving _ node outputs locals) =>
    isValue (resolveInputs serde outputs locals node.inputs)
  | _ => true

theorem runsAs_simulateGraph {nodes : List WorkflowNode} {entry : String}
    {results : String → NodeResult} {inputsOf : String → StrMap Value}
    (hresults : (simulateGraph nodes entry).1.all (keepsTo results) = true)
    (hinputs : (simulateGraph nodes entry).1.all (keepsInputs inputsOf emptySerde) = true) :
    ∀ e ∈ (simulateGraph nodes entry).1, RunsAs results inputsOf emptySerde "" e := by
  intro e he
  have hkeeps := List.all_eq_true.mp hinputs e he
  refine ⟨givesResults_simulate hresults "" e he, fun id settled inputs locals heq => ?_,
    fun node outputs locals heq => ?_⟩
  · rw [keepsInputs, heq] at hkeeps
    simpa using hkeeps
  · rw [keepsInputs, heq] at hkeeps
    exact not_runs_error_of_isValue hkeeps

/-- Whether an event starts a node. -/
def startsNode (id : String) (e : RunEvent) : Bool :=
  match e.1 with
  | .observe (.starting "" id' _ _ _) => id' = id
  | _ => false

theorem exists_starting {t : RunTrace} {id : String} (h : t.any (startsNode id) = true) :
    ∃ settled inputs locals,
      (⟨.observe (.starting "" id settled inputs locals), ()⟩ : RunEvent) ∈ t := by
  obtain ⟨⟨o, answer⟩, hmem, htest⟩ := List.any_eq_true.mp h
  unfold startsNode at htest
  split at htest
  · next heq =>
    cases heq
    obtain rfl : _ = id := by simpa using htest
    exact ⟨_, _, _, hmem⟩
  · cases htest

theorem writesMeet_variableDocument (reached : String → Prop) (level : String → Nat)
    (limit : Nat) : WritesMeet variableDocument.nodes reached level limit := by
  have hedge : Ancestor variableDocument.nodes "a" "b" :=
    .single ⟨_, List.mem_cons_self, rfl, by decide⟩
  have hordered : ∀ a ∈ variableDocument.nodes, ∀ b ∈ variableDocument.nodes,
      ¬ Unordered variableDocument.nodes a.id b.id := by
    intro a ha b hb hun
    simp only [variableDocument, sampleDocument, List.mem_cons, List.not_mem_nil, or_false]
      at ha hb
    rcases ha with rfl | rfl <;> rcases hb with rfl | rfl
    · exact hun.1 rfl
    · exact hun.2.1 hedge
    · exact hun.2.2 hedge
    · exact hun.1 rfl
  exact ⟨fun a ha b hb _ _ hun => absurd hun (hordered a ha b hb),
    fun r hr w hw _ _ hun => absurd hun (hordered r hr w hw)⟩

theorem variableDocument_reader_sees_last_write :
    (simulateGraph variableDocument.nodes "a").2.1 =
        .ok [("a", [("value", .bool true)]), ("b", [("v", .bool true)])] ∧
    ∃ settled inputs locals,
      (⟨.observe (.starting "" "b" settled inputs locals), ()⟩ : RunEvent) ∈
        (simulateGraph variableDocument.nodes "a").1 ∧
      SeesLastWrite variableDocument.nodes
        (ReachedBy variableDocument.nodes "a" variableResults) variableInputs [] locals
        "b" "x" := by
  have hc : compile variableDocument [] = .ok ⟨variableDocument, planOf variableDocument⟩ := by rfl
  have hresult : (simulateGraph variableDocument.nodes "a").2.1 =
      .ok [("a", [("value", .bool true)]), ("b", [("v", .bool true)])] := by decide +kernel
  have hnd : (nodeIds variableDocument.nodes).Nodup := by decide
  have hacyclic : Acyclic variableDocument.nodes := acyclic_of_ensureAcyclic hnd (by rfl)
  obtain ⟨level, hlevels⟩ := exists_levels hacyclic
    (ReachedBy variableDocument.nodes "a" variableResults)
  have hrun := runs_simulateGraph variableDocument.nodes "a"
  rw [hresult] at hrun
  have hlimit : 1 ≤ ({ serde := emptySerde } : ExecutionContext).maxParallelNodes := by decide
  obtain ⟨settled, inputs, locals, hmem⟩ := exists_starting
    (by decide +kernel : (simulateGraph variableDocument.nodes "a").1.any (startsNode "b") = true)
  have hsees := (concurrent_writes_are_refused hc .refl (by decide) variableResults
    variableInputs hlevels 0 hlimit (writesMeet_variableDocument _ _ _) [] hrun
    (runsAs_simulateGraph (by decide +kernel) (by decide +kernel))).2 _ rfl
  refine ⟨hresult, settled, inputs, locals, hmem, ?_⟩
  exact hsees.2 _ (List.mem_cons_of_mem _ List.mem_cons_self) settled inputs locals hmem "x"
    (.inl ⟨"$x", by decide, by decide⟩)

/-- Two unordered writers of one variable on branches of different length. -/
def spreadWritersDocument : WorkflowDocument :=
  sampleDocument "a"
    [{ id := "a", nodeType := "kakune.flow.pass@1", on := [("success", .many ["b", "c"])] },
     { id := "b", nodeType := "kakune.flow.set-variable@1", config := [("name", .string "x")],
       inputs := [("value", .literal (.bool true))] },
     { id := "c", nodeType := "kakune.flow.pass@1", on := [("success", .one "d")] },
     { id := "d", nodeType := "kakune.flow.set-variable@1", config := [("name", .string "x")],
       inputs := [("value", .literal (.bool false))] }]

/-- Two unordered writers of one variable both run, one round apart, and the run succeeds. -/
theorem spread_writers_succeed :
    ∃ compiled, compile spreadWritersDocument [] = .ok compiled ∧
      (∀ a ∈ compiled.plan.graph.nodes, a.id = "b" → a.Writes "x") ∧
      (∀ a ∈ compiled.plan.graph.nodes, a.id = "d" → a.Writes "x") ∧
      Unordered compiled.plan.graph.nodes "b" "d" ∧
      Runs (executeNodes compiled.plan [] {} emptySerde).run
        (simulatePlan compiled.plan fun _ _ => .ok { route := "success" }).1 (some (.ok ())) ∧
      "b" ∈ starts "" (simulatePlan compiled.plan fun _ _ => .ok { route := "success" }).1 ∧
      "d" ∈ starts "" (simulatePlan compiled.plan fun _ _ => .ok { route := "success" }).1 := by
  have hresult : (simulatePlan (planOf spreadWritersDocument)
      fun _ _ => .ok { route := "success" }).2.1 = .ok () := by decide +kernel
  have hrun := runs_simulatePlan (planOf spreadWritersDocument)
    fun _ _ => .ok { route := "success" }
  rw [hresult] at hrun
  have hnodes : (planOf spreadWritersDocument).graph.nodes = spreadWritersDocument.nodes := rfl
  have hleaf : ∀ a, a = "b" ∨ a = "d" → ∀ b, ¬ Ancestor spreadWritersDocument.nodes a b := by
    rintro a ha b hancestor
    obtain ⟨c, ⟨node, hn, rfl, htarget⟩, -⟩ := Relation.TransGen.head'_iff.mp hancestor
    have hnone : ∀ node ∈ spreadWritersDocument.nodes, node.id = "b" ∨ node.id = "d" →
        node.targets = [] := by decide
    rw [hnone node hn ha] at htarget
    cases htarget
  refine ⟨⟨spreadWritersDocument, planOf spreadWritersDocument⟩, by rfl, ?_, ?_,
    ⟨by decide, ?_, ?_⟩, hrun, by decide +kernel, by decide +kernel⟩
  · rw [hnodes]
    have hall : ∀ a ∈ spreadWritersDocument.nodes, a.id = "b" →
        a.kind = .setVariable ∧ a.variableName = some "x" := by decide
    exact hall
  · rw [hnodes]
    have hall : ∀ a ∈ spreadWritersDocument.nodes, a.id = "d" →
        a.kind = .setVariable ∧ a.variableName = some "x" := by decide
    exact hall
  · exact hleaf "b" (.inl rfl) "d"
  · exact hleaf "d" (.inr rfl) "b"

end KakuneCore
