import KakuneCore.Runtime.Footprint
import KakuneCore.Runtime.Progress

/-!
# The executed set

Given a result for every node, `execute_graph` executes **the least set of nodes that contains the
entry and is closed under the targets of the selected routes**, each node once and after all its
control predecessors are settled. It ends with `Ok` unless the inputs of one of these nodes cannot
be resolved or the write check refuses a round.
-/

namespace KakuneCore

open Proc

/-- No control signal is raised and node outcomes can be recorded. -/
def Undisturbed : RunEvent → Prop
  | ⟨.shutdownRequested, answer⟩ => answer = false
  | ⟨.loadAbort _, answer⟩ => answer = false
  | ⟨.deadlineReached, answer⟩ => answer = false
  | ⟨.cancelRequested, answer⟩ => answer = .ok false
  | ⟨.recordNodeOutcome _ _, answer⟩ => answer = .ok ()
  | _ => True

/-- The id of a node whose execution the event starts, in the graph instance `scope`. -/
def startOf (scope : String) (e : RunEvent) : Option String :=
  match e.1 with
  | .observe (.starting scope' id _ _ _) => if scope' = scope then some id else none
  | _ => none

/-- The nodes the graph instance `scope` started, in order. -/
def starts (scope : String) (t : RunTrace) : List String := t.filterMap (startOf scope)

/-- Why a graph all of whose nodes succeed can still fail. -/
inductive SchedulingError (nodes : List WorkflowNode) (reached : String → Prop)
    (serde : SerdeJson) : RunError → Prop
  /-- The inputs of a reached node cannot be resolved. -/
  | unresolved {node : WorkflowNode} {outputs : StrMap (StrMap Value)} {locals : StrMap Value}
      {t : RunTrace} {e : RunError} : node ∈ nodes → reached node.id →
      Runs (resolveInputs serde outputs locals node.inputs).run t (some (.error e)) →
      SchedulingError nodes reached serde e
  /-- A reached set-variable node has no variable name. -/
  | unnamed {node : WorkflowNode} : node ∈ nodes → reached node.id → node.kind = .setVariable →
      node.variableName = none → SchedulingError nodes reached serde .variableNameMissing
  /-- Two reached set-variable nodes write one variable, and neither is a control ancestor of the
  other. -/
  | conflict {a b : WorkflowNode} {name : String} : a ∈ nodes → b ∈ nodes → a.id ≠ b.id →
      reached a.id → reached b.id → ¬ Ancestor nodes a.id b.id → ¬ Ancestor nodes b.id a.id →
      a.kind = .setVariable → b.kind = .setVariable → a.variableName = some name →
      b.variableName = some name →
      SchedulingError nodes reached serde (.concurrentWrites name)

/-! ### The write check -/

/-- What the write check refuses: a writer without a name, or a writer of a name that is taken. -/
theorem checkWriters_error {writers : List String} {nodes : List WorkflowNode} {e : RunError}
    (h : checkWriters writers nodes = .error e) :
    (∃ node ∈ nodes, node.kind = .setVariable ∧ node.variableName = none ∧
      e = .variableNameMissing) ∨
    ∃ name before b after, nodes = before ++ b :: after ∧ b.kind = .setVariable ∧
      b.variableName = some name ∧ e = .concurrentWrites name ∧
        (name ∈ writers ∨ ∃ a ∈ before, a.kind = .setVariable ∧ a.variableName = some name) := by
  induction nodes generalizing writers with
  | nil => cases h
  | cons node nodes ih =>
    have hlater : ∀ {writers'}, checkWriters writers' nodes = .error e →
        (∀ name ∈ writers', name ∈ writers ∨
          (node.kind = .setVariable ∧ node.variableName = some name)) →
        (∃ node' ∈ node :: nodes, node'.kind = .setVariable ∧ node'.variableName = none ∧
          e = .variableNameMissing) ∨
        ∃ name before b after, node :: nodes = before ++ b :: after ∧ b.kind = .setVariable ∧
          b.variableName = some name ∧ e = .concurrentWrites name ∧
            (name ∈ writers ∨ ∃ a ∈ before, a.kind = .setVariable ∧
              a.variableName = some name) := by
      intro writers' hrest hwriters
      rcases ih hrest with ⟨node', hn, hk⟩ | ⟨name, before, b, after, rfl, hk, hv, he, hw⟩
      · exact .inl ⟨node', List.mem_cons_of_mem _ hn, hk⟩
      · refine .inr ⟨name, node :: before, b, after, rfl, hk, hv, he, ?_⟩
        rcases hw with hw | ⟨a, ha, hak⟩
        · rcases hwriters name hw with hw | hnode
          · exact .inl hw
          · exact .inr ⟨node, List.mem_cons_self, hnode⟩
        · exact .inr ⟨a, List.mem_cons_of_mem _ ha, hak⟩
    rw [checkWriters] at h
    split at h
    · next hk =>
      split at h
      · next hv =>
        cases h
        exact .inl ⟨node, List.mem_cons_self, hk, hv, rfl⟩
      · next name hv =>
        split at h
        · next hmem =>
          cases h
          exact .inr ⟨name, [], node, nodes, rfl, hk, hv, rfl, .inl hmem⟩
        · refine hlater h fun name' hname' => ?_
          rcases List.mem_cons.mp hname' with rfl | hname'
          · exact .inr ⟨hk, hv⟩
          · exact .inl hname'
    · exact hlater h fun name hname => .inl hname

/-! ### Starts below a graph -/

/-- What the nodes of a graph do below it does not count for the graph: their events carry longer
scopes. -/
theorem meets_nodeExecutor {M : Type} [AddCommMonoid M] {c : Contract Op Resp M} {scope : String}
    (hquiet : ∀ o : Op,
      (∀ id settled inputs locals, o ≠ .observe (.starting scope id settled inputs locals)) →
        c.Quiet o) (depth : Nat) {ctx : ExecutionContext} (hscope : ctx.scope = scope)
    (node : WorkflowNode) (inputs locals : StrMap Value) :
    Meets c (nodeExecutor depth ctx node inputs locals).run fun m _ => m = 0 := by
  subst hscope
  have hslash : "/".length = 1 := rfl
  have hgraph : GraphFootprint
      (fun o => ∀ s id settled inputs locals,
        o = .observe (.starting s id settled inputs locals) → ctx.scope.length < s.length)
      fun ctx' => ctx.scope.length < ctx'.scope.length := by
    refine ⟨fun ctx' node hs => ⟨fun o ho => ?_, fun o ho => ?_, fun tail span => ?_⟩,
      fun ctx' ready hs => ?_, fun ctx' node hs o ho => ?_⟩
    · rintro s' id settled inputs locals rfl; exact ho.elim
    · rintro s' id settled inputs locals rfl; exact ho.elim
    · simp only [String.length_append, ExecutionContext.forked]; omega
    · intro s' id settled inputs locals h; cases h
    · rintro s' id settled inputs locals rfl
      rw [ho.1]
      exact hs
  have hnode : NodeFootprint
      (fun o => ∀ s id settled inputs locals,
        o = .observe (.starting s id settled inputs locals) → ctx.scope.length < s.length)
      (fun ctx' => ctx.scope.length < ctx'.scope.length) ctx node := by
    refine ⟨fun o ho => ?_, fun o ho => ?_, fun tail span => ?_⟩
    · rintro s' id settled inputs locals rfl; exact ho.elim
    · rintro s' id settled inputs locals rfl; exact ho.elim
    · simp only [String.length_append, hslash]
      omega
  refine Meets.of_only (only_nodeExecutor hgraph depth hnode inputs locals) ?_
  intro e he ha
  refine hquiet e.1 ?_ e.2 ha
  intro id settled inputs locals heq
  exact absurd (he _ _ _ _ _ heq) (lt_irrefl _)

/-! ### Runs with given results -/

/-- Nothing is disturbed, and every node of the graph gives its result. -/
def GivesResults (results : String → NodeResult) (scope : String) (e : RunEvent) : Prop :=
  Undisturbed e ∧ ∀ id result, e.1 = .observe (.finished scope id result) →
    result = .ok (results id)

/-- A contract about the starts of the nodes of one graph instance, for runs with given results. -/
structure ResultsContract {M : Type} [AddCommMonoid M] (c : Contract Op Resp M)
    (results : String → NodeResult) (scope : String) : Prop where
  gives : ∀ e, c.assume e → GivesResults results scope e
  quiet : ∀ o : Op,
    (∀ id settled inputs locals, o ≠ .observe (.starting scope id settled inputs locals)) →
      c.Quiet o

section Contract

variable {M : Type} [AddCommMonoid M] {c : Contract Op Resp M} {results : String → NodeResult}
  {scope : String} (hc : ResultsContract c results scope)
include hc

theorem ResultsContract.routine : RoutineQuiet c fun _ => True := by
  refine ⟨fun o ho => hc.quiet o ?_, fun _ _ => trivial⟩
  rintro id settled inputs locals rfl
  exact ho

theorem ResultsContract.quietly_check (control : RunControl) :
    Quietly c control.check (fun _ => True) fun _ => False := by
  have hquiet : ∀ o : Op, o.Anonymous → c.Quiet o := by
    refine fun o ho => hc.quiet o ?_
    rintro id settled inputs locals rfl
    exact ho
  have hask : ∀ (o : Op) (hr : Resp o = Bool), o.Anonymous →
      (∀ answer, Undisturbed ⟨o, answer⟩ → cast hr answer = false) →
      Quietly c (ask o) (fun answer => cast hr answer = false) fun _ => False := by
    intro o hr ho hfalse
    refine Quietly.lift (Meets.call fun answer ha => ?_)
    exact ⟨(hquiet o ho answer ha).1, (hquiet o ho answer ha).2, hfalse answer (hc.gives _ ha).1⟩
  have hskip : ∀ {condition : Bool} {step : RunM Unit}, condition = false →
      Quietly c (doWhen condition step) (fun _ => True) fun _ => False := by
    rintro _ step rfl
    exact .pure trivial
  refine .bind (hask .shutdownRequested rfl trivial fun _ h => h) fun _ h => ?_
  refine .bind (hskip h) fun _ _ => ?_
  refine .bind (Q := fun aborted => aborted = false) ?_ fun _ h => ?_
  · induction control.flags with
    | nil => exact .pure rfl
    | cons flag flags ih =>
      refine .bind (hask (.loadAbort flag) rfl trivial fun _ h => h) fun aborted h => ?_
      obtain rfl : aborted = false := h
      exact ih
  refine .bind (hskip h) fun _ _ => ?_
  refine .bind (Q := fun cancelled => cancelled = false) ?_ fun _ h => ?_
  · have hcancel := hquiet .cancelRequested trivial
    have hcall : Meets c (Proc.call .cancelRequested)
        fun m (answer : Except String Bool) => m = 0 ∧ answer = .ok false :=
      Meets.call fun answer ha =>
        ⟨(hcancel answer ha).1, (hcancel answer ha).2, (hc.gives _ ha).1⟩
    refine Meets.bind hcall fun m answer hm => Meets.ret ?_
    obtain ⟨rfl, rfl⟩ := hm
    exact ⟨by simp, rfl⟩
  refine .bind (hskip h) fun _ _ => ?_
  exact .bind (hask .deadlineReached rfl trivial fun _ h => h) fun _ h => hskip h

/-- A worker counts for its start, and gives the node's result. -/
theorem ResultsContract.meets_worker (depth : Nat) {ctx : ExecutionContext}
    (hscope : ctx.scope = scope) {state : GraphState} {node : WorkflowNode}
    {inputs : StrMap Value} {Q : M → Prop}
    (hstart : Meets c
      (Proc.call (.observe (.starting scope node.id state.settled inputs state.locals)))
      fun m (_ : Unit) => Q m) :
    Meets c (worker (nodeExecutor depth) ctx state node inputs)
      fun m result => Q m ∧ result = .ok (results node.id) := by
  subst hscope
  have hfinish : ∀ (result : Except RunError NodeResult),
      Meets c (Proc.call (.observe (.finished ctx.scope node.id result)))
        fun m (_ : Unit) => m = 0 ∧ result = .ok (results node.id) := by
    intro result
    refine Meets.call fun answer ha => ?_
    obtain ⟨hensure, htally⟩ := hc.quiet (.observe (.finished ctx.scope node.id result)) (by simp)
      answer ha
    exact ⟨hensure, htally, (hc.gives _ ha).2 _ _ rfl⟩
  refine Meets.bind hstart fun m _ hm => ?_
  refine Meets.bind (meets_nodeExecutor hc.quiet depth rfl node inputs state.locals)
    fun m' result hm' => ?_
  subst hm'
  simp only [zero_add]
  split
  · refine Meets.bind (hfinish _) fun m' _ hm' => Meets.ret ?_
    exact ⟨by simpa [hm'.1] using hm, hm'.2⟩
  · refine Meets.bind (hfinish _) fun m' _ hm' => Meets.ret ?_
    exact ⟨by simpa [hm'.1] using hm, hm'.2⟩
  · have habort := hc.quiet (.storeAbort ctx.control.abort) (by simp)
    refine Meets.bind (hfinish _) fun m' _ hm' => ?_
    refine Meets.bind (Meets.quiet_call habort) fun m'' _ hm'' => Meets.ret ?_
    exact ⟨by simpa [hm'.1, hm''] using hm, hm'.2⟩

/-- The loop of `execute_graph` in a run with given results: what is left to say is what a start
counts for, and which errors the write check and the resolutions may raise. -/
theorem ResultsContract.scheduler {nodes : List WorkflowNode} {entry : String}
    {locals : StrMap Value} {ctx : ExecutionContext} {P : GraphState → Settlement → Prop}
    {count : Settlement → M} {Err : M → RunError → Prop} (hscope : ctx.scope = scope)
    (hnd : (nodeIds nodes).Nodup) (hacyclic : Acyclic nodes) (hdeps : DependsOnAncestors nodes)
    (depth : Nat) (hlimit : 1 ≤ ctx.maxParallelNodes)
    (hwriters : ∀ {k log state e}, Sched nodes entry locals ctx.maxParallelNodes P k [] log state →
      checkWriters [] ((state.close nodes).ready nodes) = .error e → Err (weight count log) e)
    (hresolve : ∀ {k batch batches log state node},
      Sched nodes entry locals ctx.maxParallelNodes P k (batch :: batches) log state →
      node ∈ batch →
      c.assume ⟨.observe (.resolving ctx.scope node state.outputs state.locals), ()⟩ →
      Quietly c (resolveInputs ctx.serde state.outputs state.locals node.inputs) (fun _ => True)
        (Err (weight count log)))
    (hstart : ∀ {k batch batches log state node inputs},
      Sched nodes entry locals ctx.maxParallelNodes P k (batch :: batches) log state →
      node ∈ batch → Resolved ctx state node inputs →
      Meets c (Proc.call (.observe (.starting scope node.id state.settled inputs state.locals)))
        fun m (_ : Unit) => m = count ⟨node, inputs, results node.id⟩ ∧
          P state ⟨node, inputs, results node.id⟩) :
    SchedulerContract c (nodeExecutor depth) ctx nodes entry locals P count
      (fun state node inputs m result => (m = count ⟨node, inputs, results node.id⟩ ∧
        P state ⟨node, inputs, results node.id⟩) ∧ result = .ok (results node.id))
      Err where
  check := fun _ => (hc.quietly_check _).mono (fun _ h => h) fun _ hf => hf.elim
  stuck := by
    intro k log state hs hready hlen
    have hinv := (hs.invariant hnd).1
    have hopen := hinv.close.settled.exists_unsettled hnd hlen
    exact absurd hready (ready_ne_nil hacyclic hdeps hinv.settled hopen)
  round := fun _ _ => hc.quiet _ (by simp)
  writers := hwriters
  panic := fun _ hzero => absurd hlimit (by rw [hzero]; simp)
  resolving := fun _ _ => hc.quiet _ (by simp)
  resolve := hresolve
  work := fun hs hn hresolved => hc.meets_worker depth hscope (hstart hs hn hresolved)
  settled := by
    rintro state node inputs result m - ⟨hm, hresult⟩
    cases hresult
    exact hm
  record := fun _ _ => hc.quiet _ (by simp)
  unrecorded := fun ha => by cases (hc.gives _ ha).1
  failed := by
    intro k batch batches log state prepared m rs e hs hprepared hpool hf
    -- every worker gave its node's result, so there is no failure to select
    rcases settleResults_some hf with hf | ⟨⟨p, result⟩, hitem, he⟩
    · cases hf
    · have hall : ∀ r ∈ rs, ∃ x, r = .ok x := by
        refine Pool.all_ok (fun Q hQ m r hr => ?_) hpool
        obtain ⟨p, -, rfl⟩ := List.mem_map.mp hQ
        exact ⟨_, hr.2⟩
      obtain ⟨x, hx⟩ := hall _ (List.of_mem_zip hitem).2
      dsimp only at he
      rw [hx] at he
      cases he

end Contract

/-! ### Counting the starts -/

section Starts

variable (nodes : List WorkflowNode) (entry : String) (results : String → NodeResult)
  (scope : String)

/-- The ids reached when every node gives its result. -/
def ReachedBy : String → Prop := Reached nodes entry fun id => (results id).route

/-- The contract of the executed set: it counts the starts. -/
def startsContract : Contract Op Resp (Multiset String) where
  assume := GivesResults results scope
  ensure := fun e => ∀ id settled inputs locals,
    e.1 = .observe (.starting scope id settled inputs locals) →
      (id ∈ nodeIds nodes ∧ ReachedBy nodes entry results id) ∧
        ∀ p, Edge nodes p id → p ∈ settled
  tally := fun e => ((startOf scope e).toList : Multiset String)

theorem total_startsContract (t : RunTrace) :
    (startsContract nodes entry results scope).total t = starts scope t := by
  induction t with
  | nil => rfl
  | cons e t ih =>
    rw [Contract.total_cons, ih]
    cases hstart : startOf scope e with
    | none => simp [startsContract, starts, hstart]
    | some id => simp [startsContract, starts, hstart]

/-- Operations that are not starts in this scope are quiet. -/
theorem resultsContract_startsContract :
    ResultsContract (startsContract nodes entry results scope) results scope := by
  refine ⟨fun _ h => h, fun o ho answer _ => ?_⟩
  refine ⟨fun id settled inputs locals heq => absurd heq (ho _ _ _ _), ?_⟩
  have hnone : startOf scope (⟨o, answer⟩ : RunEvent) = none := by
    unfold startOf
    split
    · next scope' id settled inputs locals heq =>
      by_cases hscope : scope' = scope
      · subst hscope; exact absurd heq (ho _ _ _ _)
      · simp [hscope]
    · rfl
  simp [startsContract, hnone]

end Starts

/-! ### Refinement -/

section Refinement

variable {nodes : List WorkflowNode} {entry : String} {results : String → NodeResult}
  {locals : StrMap Value} {limit : Nat}

/-- A settlement gave the result that was assigned to its node. -/
def GaveResult (results : String → NodeResult) (_ : GraphState) (x : Settlement) : Prop :=
  x.result = results x.node.id

theorem Sched.follows {k : Nat} {batches : List (List WorkflowNode)} {log : List Settlement}
    {state : GraphState}
    (hs : Sched nodes entry locals limit (GaveResult results) k batches log state) :
    Follows (fun id => (results id).route) log := by
  intro x hx
  obtain ⟨_, hresult⟩ := hs.mem_log x hx
  rw [hresult]

/-- A node that is ready is reached. -/
theorem Sched.reachedBy_of_ready (hnd : (nodeIds nodes).Nodup) {k : Nat}
    {batches : List (List WorkflowNode)} {log : List Settlement} {state : GraphState}
    (hs : Sched nodes entry locals limit (GaveResult results) k batches log state)
    {node : WorkflowNode} (hready : node ∈ (state.close nodes).ready nodes) :
    ReachedBy nodes entry results node.id := by
  have hactive := (isReady_iff.mp (List.of_mem_filter hready)).2.1
  exact (hs.invariant hnd).1.close.reached_of_activated hs.follows hactive

/-- Two ready nodes are unordered. -/
theorem not_ancestor_of_ready {log : List Settlement} {state : GraphState}
    (hinv : SchedInvariant nodes entry locals log state) {a b : WorkflowNode}
    (ha : state.isReady nodes a = true) (hb : state.isReady nodes b = true) :
    ¬ Ancestor nodes a.id b.id := by
  intro hancestor
  obtain ⟨-, -, hpred, -⟩ := isReady_iff.mp hb
  exact (isReady_iff.mp ha).1 (hinv.ancestor_settled hpred hancestor)

/-- An error of the write check is a scheduling error. -/
theorem schedulingError_of_checkWriters (hnd : (nodeIds nodes).Nodup) {k : Nat}
    {log : List Settlement} {state : GraphState} {serde : SerdeJson} {e : RunError}
    (hs : Sched nodes entry locals limit (GaveResult results) k [] log state)
    (he : checkWriters [] ((state.close nodes).ready nodes) = .error e) :
    SchedulingError nodes (ReachedBy nodes entry results) serde e := by
  have hinv := (hs.invariant hnd).1.close
  have hmem : ∀ node ∈ (state.close nodes).ready nodes, node ∈ nodes :=
    fun node hn => List.mem_of_mem_filter hn
  have hready : ∀ node ∈ (state.close nodes).ready nodes,
      (state.close nodes).isReady nodes node = true := fun node hn => List.of_mem_filter hn
  rcases checkWriters_error he with ⟨node, hn, hk, hv, rfl⟩ |
    ⟨name, before, b, after, hsplit, hbk, hbv, rfl, hw⟩
  · exact .unnamed (hmem node hn) (hs.reachedBy_of_ready hnd hn) hk hv
  · rcases hw with hw | ⟨a, ha, hak, hav⟩
    · cases hw
    · have haready : a ∈ (state.close nodes).ready nodes := by
        rw [hsplit]; exact List.mem_append_left _ ha
      have hbready : b ∈ (state.close nodes).ready nodes := by rw [hsplit]; simp
      have hdistinct := (Pending.of_ready hnd (state.close nodes)).nodup
      rw [hsplit, nodeIds, List.map_append, List.map_cons, List.nodup_append] at hdistinct
      have hne : a.id ≠ b.id :=
        hdistinct.2.2 a.id (List.mem_map_of_mem ha) b.id List.mem_cons_self
      exact .conflict (hmem a haready) (hmem b hbready) hne (hs.reachedBy_of_ready hnd haready)
        (hs.reachedBy_of_ready hnd hbready)
        (not_ancestor_of_ready hinv (hready a haready) (hready b hbready))
        (not_ancestor_of_ready hinv (hready b hbready) (hready a haready)) hak hbk hav hbv

/-- The ids of a log, counted. -/
theorem weight_ids (log : List Settlement) :
    weight (fun x => ({x.node.id} : Multiset String)) log =
      (log.map (·.node.id) : List String) := by
  induction log with
  | nil => rfl
  | cons x log ih => rw [weight_cons, ih]; rfl

/-- The loop of `execute_graph` under the contract of the executed set. -/
theorem schedulerContract_starts (hnd : (nodeIds nodes).Nodup) (hacyclic : Acyclic nodes)
    (hdeps : DependsOnAncestors nodes) (depth : Nat) {ctx : ExecutionContext}
    (hlimit : 1 ≤ ctx.maxParallelNodes) :
    SchedulerContract (startsContract nodes entry results ctx.scope) (nodeExecutor depth)
      ctx.forked nodes entry locals (GaveResult results) (fun x => {x.node.id})
      (fun state node inputs m result => (m = {node.id} ∧
        GaveResult results state ⟨node, inputs, results node.id⟩) ∧
          result = .ok (results node.id))
      fun m e => m.Nodup ∧ SchedulingError nodes (ReachedBy nodes entry results) ctx.serde e := by
  have hc := resultsContract_startsContract nodes entry results ctx.scope
  have hnodup : ∀ {k : Nat} {batches : List (List WorkflowNode)} {log : List Settlement}
      {state : GraphState}, Sched nodes entry locals ctx.forked.maxParallelNodes
        (GaveResult results) k batches log state →
      (weight (fun x => ({x.node.id} : Multiset String)) log).Nodup := by
    intro k batches log state hs
    rw [weight_ids]
    exact (hs.invariant hnd).1.log_nodup
  have hreached : ∀ {k batch batches log state} {node : WorkflowNode},
      Sched nodes entry locals ctx.forked.maxParallelNodes (GaveResult results) k
        (batch :: batches) log state → node ∈ batch →
      node ∈ nodes ∧ ReachedBy nodes entry results node.id ∧
        ∀ p, Edge nodes p node.id → p ∈ state.settled := by
    intro k batch batches log state node hs hn
    obtain ⟨hinv, hpending⟩ := hs.invariant hnd
    have hflat : node ∈ (batch :: batches).flatten := by simp [hn]
    obtain ⟨-, hactive, hpred, -⟩ := isReady_iff.mp (hpending.ready node hflat)
    exact ⟨hpending.mem node hflat, hinv.reached_of_activated hs.follows hactive, hpred⟩
  have hscope : ctx.forked.scope = ctx.scope := rfl
  refine hc.scheduler hscope hnd hacyclic hdeps depth hlimit ?_ ?_ ?_
  · exact fun hs he => ⟨hnodup hs, schedulingError_of_checkWriters hnd hs he⟩
  · intro k batch batches log state node hs hn _
    obtain ⟨hmem, hr, -⟩ := hreached hs hn
    refine (quietly_resolveInputs hc.routine.step _ _ _ _).with_run.mono
      (fun _ h => h.1) fun e he => ?_
    obtain ⟨-, t, ht⟩ := he
    exact ⟨hnodup hs, .unresolved hmem hr ht⟩
  · intro k batch batches log state node inputs hs hn _
    obtain ⟨hmem, hr, hpred⟩ := hreached hs hn
    refine Meets.call fun answer _ => ⟨?_, by simp [startsContract, startOf], rfl⟩
    rintro id settled inputs' locals' heq
    cases heq
    exact ⟨⟨List.mem_map_of_mem hmem, hr⟩, hpred⟩

end Refinement

/-- The sets of ids that contain the entry and are closed under the targets, inside the graph, of
the routes the results select. -/
def ClosedUnder (nodes : List WorkflowNode) (entry : String) (results : String → NodeResult) :
    Set (Set String) :=
  {T | entry ∈ T ∧ ∀ node ∈ nodes, node.id ∈ T →
    ∀ target ∈ node.routeTargets (results node.id).route, target ∈ nodeIds nodes → target ∈ T}

theorem isLeast_reachedBy {nodes : List WorkflowNode} {entry : String}
    {results : String → NodeResult} (hentry : entry ∈ nodeIds nodes) :
    IsLeast (ClosedUnder nodes entry results)
      {id | id ∈ nodeIds nodes ∧ ReachedBy nodes entry results id} := by
  refine ⟨⟨⟨hentry, .refl⟩, fun node hn hid target ht hmem => ?_⟩, fun T hT id hid => ?_⟩
  · exact ⟨hmem, .tail hid.2 ⟨node, hn, rfl, ht⟩⟩
  · obtain ⟨hmem, hreached⟩ := hid
    induction hreached with
    | refl => exact hT.1
    | tail _ hchosen ih =>
      obtain ⟨node, hn, rfl, ht⟩ := hchosen
      exact hT.2 node hn (ih (List.mem_map_of_mem hn)) _ ht hmem

/-- The environment `undisturbed` raises no signal and records every outcome. -/
theorem undisturbed_simulate {α : Type} (p : Proc Op Resp α)
    (respond : String → StrMap Value → Except String NodeResult) :
    ∀ e ∈ (p.simulate (undisturbed respond) ()).1, Undisturbed e := by
  have hstateless : undisturbed respond = stateless fun o => (undisturbed respond () o).1 := by
    funext _ o
    cases o <;> rfl
  rw [hstateless]
  intro e he
  have hanswer := simulate_stateless _ p e he
  obtain ⟨o, answer⟩ := e
  dsimp only at hanswer
  subst hanswer
  cases o <;> first | rfl | trivial

/-- Whether an event keeps to the results. -/
def keepsTo (results : String → NodeResult) (e : RunEvent) : Bool :=
  match e.1 with
  | .observe (.finished _ id result) => result = .ok (results id)
  | _ => true

theorem givesResults_simulate {α : Type} {p : Proc Op Resp α}
    {respond : String → StrMap Value → Except String NodeResult} {results : String → NodeResult}
    (h : (p.simulate (undisturbed respond) ()).1.all (keepsTo results) = true) (scope : String) :
    ∀ e ∈ (p.simulate (undisturbed respond) ()).1, GivesResults results scope e := by
  intro e he
  refine ⟨undisturbed_simulate p respond e he, fun id result heq => ?_⟩
  have hkeeps := List.all_eq_true.mp h e he
  rw [keepsTo, heq] at hkeeps
  simpa using hkeeps

/-- The results of the nodes of `chainDocument`. -/
def chainResults : String → NodeResult := fun _ =>
  { route := "success", outputs := [("v", .bool true)] }

/-- The run of a graph at the top level in which nothing goes wrong outside of the nodes. -/
def simulateGraph (nodes : List WorkflowNode) (entry : String) :
    RunTrace × Except RunError (StrMap (StrMap Value)) × Unit :=
  (executeGraph 1 { serde := emptySerde } nodes entry []).run.simulate
    (undisturbed fun _ _ => .ok { route := "success" }) ()

theorem runs_simulateGraph (nodes : List WorkflowNode) (entry : String) :
    Runs (executeGraph 1 { serde := emptySerde } nodes entry []).run
      (simulateGraph nodes entry).1 (some (simulateGraph nodes entry).2.1) :=
  runs_simulate _ _ _

theorem dependsOnAncestors_chainDocument : DependsOnAncestors chainDocument.nodes := by
  have hedge : Edge chainDocument.nodes "a" "b" :=
    ⟨_, List.mem_cons_self, rfl, by decide⟩
  intro node hn producer hp
  simp only [chainDocument, sampleDocument, List.mem_cons, List.not_mem_nil, or_false] at hn
  rcases hn with rfl | rfl
  · cases hp
  · obtain rfl : producer = "a" := by
      have hdeps : ∀ producer ∈ WorkflowNode.dependencies
          { id := "b", nodeType := "kakune.flow.pass@1", inputs := [("v", .from "a.v")] },
          producer = "a" := by decide
      exact hdeps producer hp
    exact .single hedge

/-- Two parallel nodes that set one variable. -/
def parallelWriters : List WorkflowNode :=
  [{ id := "a", nodeType := "kakune.flow.pass@1", on := [("success", .many ["b", "c"])] },
   { id := "b", nodeType := "kakune.flow.set-variable@1", config := [("name", .string "x")],
     inputs := [("value", .literal (.bool true))] },
   { id := "c", nodeType := "kakune.flow.set-variable@1", config := [("name", .string "x")],
     inputs := [("value", .literal (.bool true))] }]

end KakuneCore
