import KakuneCore.Planner.Accepted
import KakuneCore.Process.Credit
import KakuneCore.Runtime.Footprint
import KakuneCore.Runtime.Scheduler

/-!
# Accounts of a run

How often one operation of an activation can happen compared with another: reads of its checkpoint,
begins, attempts, effects, completions. A weight on events is charged to the node that issues them
(`NodeAccount`), and a graph whose nodes all keep their accounts keeps it too, at any nesting depth
and for any answers.
-/

namespace KakuneCore

open Proc

variable {w : RunEvent → ℤ} {k : ℤ}

/-! ### Primitive operations -/

theorem credit_ask {o : Op} (h : ∀ x, 0 ≤ k + w ⟨o, x⟩) : Credit w k (ask o).run :=
  Credit.run_lift (Credit.op fun x => .ret (h x))

theorem credit_ask_bind {β : Type} {o : Op} {f : Resp o → RunM β}
    (h : ∀ x, Credit w (k + w ⟨o, x⟩) (f x).run) : Credit w k (ask o >>= f).run :=
  Credit.op h

theorem credit_request {α : Type} {o : Op} {hr : Resp o = Except String α}
    (h : ∀ x, 0 ≤ k + w ⟨o, x⟩) : Credit w k (request o hr).run :=
  Credit.op fun x => .ret (h x)

/-- A request followed by what is done with its answer. -/
theorem credit_request_bind {α β : Type} {o : Op} {hr : Resp o = Except String α}
    {f : α → RunM β} (hok : ∀ x a, cast hr x = .ok a → Credit w (k + w ⟨o, x⟩) (f a).run)
    (herror : ∀ x text, cast hr x = .error text → 0 ≤ k + w ⟨o, x⟩) :
    Credit w k (request o hr >>= f).run := by
  refine Credit.op fun x => ?_
  change Credit w (k + w ⟨o, x⟩) (ExceptT.bindCont f (ofAnswer (cast hr x)))
  cases hx : cast hr x with
  | ok a => exact hok x a hx
  | error text => exact .ret (herror x text hx)

theorem credit_liftExcept {α : Type} {result : Except RunError α} (hk : 0 ≤ k) :
    Credit w k (liftExcept result).run :=
  .ret hk

/-! ### Inversion -/

/-- The prepared nodes are the nodes of the batch. -/
theorem map_fst_of_runs_prepareBatch {ctx : ExecutionContext} {state : GraphState}
    {batch : List WorkflowNode} {t : RunTrace} {prepared : List (WorkflowNode × StrMap Value)}
    (h : Runs (prepareBatch ctx state batch).run t (some (.ok prepared))) :
    prepared.map Prod.fst = batch := by
  induction batch generalizing t prepared with
  | nil =>
    obtain ⟨-, h | h⟩ := runs_run_pure.mp h
    · cases h
    · cases h; rfl
  | cons node batch ih =>
    obtain ⟨h, -⟩ | ⟨e, h, -⟩ | ⟨_, -, v, -, -, h⟩ := runs_run_bind h
    · cases h
    · cases h
    obtain ⟨h, -⟩ | ⟨e, h, -⟩ | ⟨inputs, -, v', -, -, h⟩ := runs_run_bind h
    · cases h
    · cases h
    obtain ⟨h, -⟩ | ⟨e, h, -⟩ | ⟨rest, _, v'', -, hrest, h⟩ := runs_run_bind h
    · cases h
    · cases h
    obtain ⟨-, h | h⟩ := runs_run_pure.mp h
    · cases h
    · cases h
      rw [List.map_cons, ih hrest]

theorem eq_chunks_of_runs_chunked {α : Type} {size : Nat} {xs : List α} {t : RunTrace}
    {batches : List (List α)} (h : Runs (chunked size xs).run t (some (.ok batches))) :
    batches = chunks size xs := by
  obtain ⟨h, -⟩ | ⟨e, h, -⟩ | ⟨_, -, v, -, -, h⟩ := runs_run_bind h
  · cases h
  · cases h
  obtain ⟨-, h | h⟩ := runs_run_pure.mp h
  · cases h
  · cases h; rfl

/-! ### Nodes -/

/-- `Child scope node g s`: a node of the instance `scope` may run its graph `g` as the instance
`s`. -/
inductive Child (scope : String) (node : WorkflowNode) : WorkflowSubgraph → String → Prop
  | branch {name : String} {g : WorkflowSubgraph} : node.kind = .switch →
      StrMap.get? node.branches name = some g → Child scope node g (switchScope scope node.id name)
  | item {g : WorkflowSubgraph} (index : Nat) : node.kind = .foreach → node.body = some g →
      Child scope node g (itemScope scope node.id index)
  | iteration {g : WorkflowSubgraph} (index : Nat) : node.kind = .loop → node.body = some g →
      Child scope node g (iterationScope scope node.id index)

theorem Child.mem_subgraphs {scope s : String} {node : WorkflowNode} {g : WorkflowSubgraph}
    (h : Child scope node g s) : g ∈ node.subgraphs := by
  cases h with
  | branch hk hg =>
    rw [WorkflowNode.subgraphs, hk]
    exact List.mem_map.mpr ⟨_, StrMap.mem_of_get? hg, rfl⟩
  | item _ hk hg => simp [WorkflowNode.subgraphs, hk, hg]
  | iteration _ hk hg => simp [WorkflowNode.subgraphs, hk, hg]

/-- Operations that name no activation earn or cost nothing. -/
structure Neutral (w : RunEvent → ℤ) : Prop where
  anonymous : ∀ o : Op, o.Anonymous → ∀ x, 0 ≤ w ⟨o, x⟩
  item : ∀ scope node index result,
    0 ≤ w ⟨.observe (.itemFinished scope node index result), ()⟩

section Nodes

variable (hw : Neutral w)
include hw

theorem Neutral.of_anonymous {α : Type} {x : RunM α}
    (hx : x.run.Only fun o => o.Anonymous) : Credit w 0 x.run :=
  Credit.of_only hx fun e he => hw.anonymous e.1 he e.2

theorem Neutral.request_then {β : Type} {o : Op} {hr : Resp o = Except String Unit}
    {f : Unit → RunM β} (hk : 0 ≤ k) (ho : o.Anonymous) (hf : ∀ u, Credit w k (f u).run) :
    Credit w k (request o hr >>= f).run :=
  .run_then hk (hw.of_anonymous (only_run_request ho)) hf

theorem credit_check (control : RunControl) : Credit w 0 control.check.run :=
  hw.of_anonymous (only_check (fun _ h => h) control)

theorem credit_resolveInputs (serde : SerdeJson) (outputs : StrMap (StrMap Value))
    (locals : StrMap Value) (bindings : StrMap WorkflowBinding) :
    Credit w 0 (resolveInputs serde outputs locals bindings).run :=
  hw.of_anonymous (only_resolveInputs (fun _ h => h) serde outputs locals bindings)

/-- What a node may spend in its body: `cost` bounds what the graphs it enters spend, by their
scope. -/
structure BodyBudget (w : RunEvent → ℤ) (scope : String) (node : WorkflowNode)
    (cost : String → ℤ) (budget : ℤ) : Prop where
  nonneg : 0 ≤ budget
  cost_nonneg : ∀ s, 0 ≤ cost s
  branch : ∀ name, cost (switchScope scope node.id name) ≤ budget
  items : ∀ start n, ((List.range' start n).map fun i => cost (itemScope scope node.id i)).sum ≤
    budget
  iterations : ∀ start n,
    ((List.range' start n).map fun i => cost (iterationScope scope node.id i)).sum ≤ budget
  invoke : ∀ inputs x,
    0 ≤ budget + w ⟨.invoke (scopedNodeId scope node.id) node.nodeType node.config inputs, x⟩
  delay : node.kind = .delay → ∀ milliseconds x,
    0 ≤ budget + w ⟨.durableDelayRemaining (scopedNodeId scope node.id) milliseconds, x⟩

section Body

variable {sub : SubgraphRunner} {ctx : ExecutionContext} {node : WorkflowNode}
  {locals : StrMap Value} {cost : String → ℤ} {budget : ℤ}
  (hb : BodyBudget w ctx.scope node cost budget)
  (hsub : ∀ g ctx' locals', Child ctx.scope node g ctx'.scope →
    Credit w (cost ctx'.scope) (sub ctx' g locals').run)
include hb hsub

omit hw in
theorem credit_executeSwitch (hk : node.kind = .switch) (span : SpanId) (inputs : StrMap Value) :
    Credit w budget
      (executeSwitch sub { ctx with activeSpan := span } node inputs locals).run := by
  unfold executeSwitch
  split
  · exact .run_throw hb.nonneg
  · next value _ =>
    refine .run_then hb.nonneg (credit_liftExcept le_rfl) fun selector => ?_
    refine .run_then hb.nonneg (credit_liftExcept le_rfl) fun name => ?_
    split
    · exact .run_throw hb.nonneg
    · next branch hbranch =>
      have hrun := hsub branch
        { ctx with scope := switchScope ctx.scope node.id name, activeSpan := span }
        (locals.insert "$value" value) (.branch hk hbranch)
      refine (Credit.run_bind (hrun.mono (hb.branch name)) (fun _ => .run_pure le_rfl)
        le_rfl).mono (by omega)

theorem credit_foreachChunks (hk : node.kind = .foreach) (span : SpanId)
    {body : WorkflowSubgraph} (hbody : node.body = some body) (continueOnError : Bool)
    (start : Nat) (items : List (List Value)) :
    Credit w ((List.range' start items.flatten.length).map
        fun i => cost (itemScope ctx.scope node.id i)).sum
      (foreachChunks sub { ctx with activeSpan := span } node body locals continueOnError start
        items).run := by
  have hrest : ∀ start n,
      0 ≤ ((List.range' start n).map fun i => cost (itemScope ctx.scope node.id i)).sum := by
    intro start n
    refine List.sum_nonneg fun c hc => ?_
    obtain ⟨i, -, rfl⟩ := List.mem_map.mp hc
    exact hb.cost_nonneg _
  induction items generalizing start with
  | nil => exact .run_pure (by simp)
  | cons chunk rest ih =>
    have hitem : ∀ x ∈ chunk.zipIdx, Credit w (cost (itemScope ctx.scope node.id (start + x.2)))
        (itemWorker sub { ctx with activeSpan := span } node body locals (start + x.2) x.1) := by
      intro x _
      have hrun := hsub body
        { ctx with scope := itemScope ctx.scope node.id (start + x.2), activeSpan := span }
        ((locals.insert "$item" x.1).insert "$index" (.number (.int ↑(start + x.2))))
        (.item _ hk hbody)
      have hmark : ∀ result, Credit w 0 (do
          let _ ← Proc.call (.observe (.itemFinished ctx.scope node.id (start + x.2) result))
          pure result : Proc Op Resp (Except RunError (StrMap Value))) :=
        fun result => Credit.op fun _ => .ret (by simpa using hw.item _ _ _ result)
      exact (Credit.bind hrun hmark).mono (by simp)
    have hsum : (chunk.zipIdx.map fun x => cost (itemScope ctx.scope node.id (start + x.2))).sum =
        ((List.range' start chunk.length).map
          fun i => cost (itemScope ctx.scope node.id i)).sum := by
      have hindex :
          (chunk.zipIdx.map Prod.snd).map (start + ·) = List.range' start chunk.length := by
        rw [List.zipIdx_map_snd, List.map_add_range']
        simp
      rw [← hindex, List.map_map, List.map_map]
      rfl
    have hpool := Credit.parallel hitem
    rw [hsum] at hpool
    have htotal : List.range' start (chunk :: rest).flatten.length =
        List.range' start chunk.length ++
          List.range' (start + chunk.length) rest.flatten.length := by
      rw [List.flatten_cons, List.length_append, List.range'_append_1]
    rw [htotal, List.map_append, List.sum_append]
    refine Credit.run_bind (Credit.run_lift hpool) (fun outcomes => ?_) (hrest _ _)
    refine .run_then (hrest _ _) (credit_liftExcept le_rfl) fun _ => ?_
    refine .run_then (hrest _ _) (credit_liftExcept le_rfl) fun elements => ?_
    refine (Credit.run_bind (ih _) (fun _ => .run_pure le_rfl) le_rfl).mono (by omega)

omit hw in
theorem credit_loopIterations (hk : node.kind = .loop) (span : SpanId)
    {body : WorkflowSubgraph} (hbody : node.body = some body) (remaining iteration : Nat)
    (state : Value) (last : StrMap Value) :
    Credit w ((List.range' iteration remaining).map
        fun i => cost (iterationScope ctx.scope node.id i)).sum
      (loopIterations sub { ctx with activeSpan := span } node body locals remaining iteration
        state last).run := by
  have hrest : ∀ start n,
      0 ≤ ((List.range' start n).map fun i => cost (iterationScope ctx.scope node.id i)).sum := by
    intro start n
    refine List.sum_nonneg fun c hc => ?_
    obtain ⟨i, -, rfl⟩ := List.mem_map.mp hc
    exact hb.cost_nonneg _
  induction remaining generalizing iteration state last with
  | zero => exact .run_pure (by simp)
  | succ remaining ih =>
    have hrun := hsub body
      { ctx with scope := iterationScope ctx.scope node.id iteration, activeSpan := span }
      ((locals.insert "$state" state).insert "$iteration" (.number (.int iteration)))
      (.iteration _ hk hbody)
    rw [List.range'_succ, List.map_cons, List.sum_cons]
    refine Credit.run_bind hrun (fun outputs => ?_) (hrest _ _)
    split
    · exact .run_throw (hrest _ _)
    · exact .run_throw (hrest _ _)
    · exact .run_pure (hrest _ _)
    · exact ih _ _ _

omit hsub in
theorem credit_executeExternal (span : SpanId) (inputs : StrMap Value) :
    Credit w budget (executeExternal { ctx with activeSpan := span } node inputs).run := by
  refine .run_then hb.nonneg (hw.of_anonymous ?_) fun _ => ?_
  · exact only_run_doWhen (only_check (fun _ h => h) _)
  · refine (Credit.run_bind (credit_ask (hb.invoke inputs)) (fun answer => ?_) le_rfl).mono
      (by omega)
    refine .run_then le_rfl (hw.of_anonymous (only_poll (fun _ h => h) _ _)) fun _ => ?_
    exact credit_liftExcept le_rfl

/-- The body of a node stays within its budget. -/
theorem credit_executeNode (span : SpanId) (inputs : StrMap Value) :
    Credit w budget (executeNode sub { ctx with activeSpan := span } node inputs locals).run := by
  have hthen : ∀ {α : Type} {result : Except RunError α} {f : α → NodeResult},
      Credit w budget (do let a ← liftExcept result; pure (f a) : RunM NodeResult).run :=
    .run_then hb.nonneg (credit_liftExcept le_rfl) fun _ => .run_pure hb.nonneg
  unfold executeNode
  split
  · exact .run_pure hb.nonneg
  · exact hthen
  · exact hthen
  · next hk => exact credit_executeSwitch hb hsub hk span inputs
  · next hk =>
    unfold executeForeach
    split
    · exact .run_throw hb.nonneg
    · exact .run_throw hb.nonneg
    · exact .run_throw hb.nonneg
    · next hbody =>
      refine .run_then hb.nonneg (hw.of_anonymous only_run_chunked) fun batches => ?_
      refine (Credit.run_bind ((credit_foreachChunks hw hb hsub hk span hbody _ _ _).mono
        (hb.items _ _)) (fun _ => .run_pure le_rfl) le_rfl).mono (by omega)
  · next hk =>
    unfold executeLoop
    split
    · exact .run_throw hb.nonneg
    · exact .run_throw hb.nonneg
    · exact .run_throw hb.nonneg
    · next hbody _ =>
      exact (credit_loopIterations hb hsub hk span hbody _ _ _ _).mono (hb.iterations _ _)
  · next hk =>
    refine .run_then hb.nonneg (credit_liftExcept le_rfl) fun milliseconds => ?_
    refine (Credit.run_bind (credit_request (hb.delay hk milliseconds)) (fun remaining => ?_)
      le_rfl).mono (by omega)
    refine .run_then le_rfl (hw.of_anonymous (only_wait (fun _ h => h) _ _)) fun _ => ?_
    exact .run_pure le_rfl
  · exact .run_pure hb.nonneg
  · exact .run_pure hb.nonneg
  · exact .run_pure hb.nonneg
  · split
    · exact .run_pure hb.nonneg
    · exact .run_throw hb.nonneg
  · exact credit_executeExternal hw hb span inputs
  · exact credit_executeExternal hw hb span inputs
  · split
    · exact credit_executeExternal hw hb span inputs
    · exact .run_throw hb.nonneg

omit hb hsub in
theorem credit_failAttempt {span : SpanId} {error : RunError} (hk : 0 ≤ k) :
    Credit w k (failAttempt span error).run := by
  refine .run_then hk (hw.of_anonymous (only_run_doWhen only_run_throw)) fun _ => ?_
  exact hw.request_then hk trivial fun _ => .run_throw hk

omit hb hsub in
theorem credit_completeAttempt {span : SpanId} {result : NodeResult} (hk : 0 ≤ k)
    (hsave : ∀ saved x,
      0 ≤ k + w ⟨.completeCheckpoint (scopedNodeId ctx.scope node.id) saved, x⟩) :
    Credit w k (completeAttempt ctx node span result).run := by
  unfold completeAttempt
  split
  · exact hw.request_then hk trivial fun _ => .run_throw hk
  · refine (Credit.run_bind (credit_request (hsave _)) (fun _ => ?_) le_rfl).mono (by omega)
    exact hw.request_then le_rfl trivial fun _ => .run_pure le_rfl

/-- What the attempts of a node may spend: each of them `attempt`. -/
structure AttemptBudget (w : RunEvent → ℤ) (scope : String) (node : WorkflowNode)
    (budget attempt : ℤ) : Prop where
  nonneg : 0 ≤ attempt
  body : budget ≤ attempt + w ⟨.observe (.executing (scopedNodeId scope node.id) node.kind), ()⟩
  complete : ∀ result x, budget ≤ attempt +
    w ⟨.observe (.executing (scopedNodeId scope node.id) node.kind), ()⟩ +
      w ⟨.completeCheckpoint (scopedNodeId scope node.id) result, x⟩

/-- One attempt, given what is done when its body has failed. -/
theorem credit_attempt {attempt rest : ℤ} (ha : AttemptBudget w ctx.scope node budget attempt)
    (hrest : 0 ≤ rest) (inputs : StrMap Value) (span : SpanId)
    {next : RunError → RunM NodeResult} (hnext : ∀ error, Credit w rest (next error).run) :
    Credit w (rest + attempt) (do
      request (α := Unit) (.startTraceSpan span node.nodeType)
      observe (.executing (scopedNodeId ctx.scope node.id) node.kind)
      match ← ExceptT.lift (executeNode sub { ctx with activeSpan := span } node inputs
        locals).run with
      | .ok result => completeAttempt ctx node span result
      | .error error => next error : RunM NodeResult).run := by
  have hnonneg := ha.nonneg
  have hbody := ha.body
  refine hw.request_then (by omega) trivial fun _ => ?_
  refine credit_ask_bind fun x => ?_
  have hx : w ⟨.observe (.executing (scopedNodeId ctx.scope node.id) node.kind), x⟩ =
      w ⟨.observe (.executing (scopedNodeId ctx.scope node.id) node.kind), ()⟩ := rfl
  rw [hx]
  have hleft : ∀ result : Except RunError NodeResult,
      Credit w (rest + attempt +
        w ⟨.observe (.executing (scopedNodeId ctx.scope node.id) node.kind), ()⟩ - budget)
        (match result with
          | .ok result => completeAttempt ctx node span result
          | .error error => next error : RunM NodeResult).run := by
    intro result
    cases result with
    | ok result =>
      refine credit_completeAttempt hw (by omega) fun saved x => ?_
      have := ha.complete saved x
      omega
    | error error => exact (hnext error).mono (by omega)
  exact (Credit.run_bind (Credit.run_lift (credit_executeNode hw hb hsub span inputs)) hleft
    (by omega)).mono (by omega)

theorem credit_runAttempts {attempt : ℤ} (ha : AttemptBudget w ctx.scope node budget attempt)
    (inputs : StrMap Value) (remaining n : Nat) :
    Credit w (remaining * attempt + attempt)
      (runAttempts (executeNode sub) ctx node inputs locals remaining n).run := by
  have hnonneg := ha.nonneg
  induction remaining generalizing n with
  | zero =>
    unfold runAttempts
    refine credit_attempt hw hb hsub ha (by simp) inputs _ fun error => ?_
    exact credit_failAttempt hw (by simp)
  | succ remaining ih =>
    have hrest : 0 ≤ ((remaining + 1 : ℕ) : ℤ) * attempt := mul_nonneg (by omega) ha.nonneg
    unfold runAttempts
    refine credit_attempt hw hb hsub ha hrest inputs _ fun error => ?_
    dsimp only
    split
    · exact credit_failAttempt hw hrest
    · refine hw.request_then hrest trivial fun _ => ?_
      split
      · exact .run_throw hrest
      · refine .run_then hrest (hw.of_anonymous (only_wait (fun _ h => h) _ _)) fun _ => ?_
        refine (ih _).mono (le_of_eq ?_)
        push_cast
        ring

end Body

/-! ### Activations and graphs -/

/-- The account of an activation: it spends at most `budget` on each body, `attempt` on each attempt
and `total` altogether, and its start earns what it spends. -/
structure NodeAccount (w : RunEvent → ℤ) (scope : String) (node : WorkflowNode)
    (cost : String → ℤ) (budget attempt total : ℤ) : Prop where
  body : BodyBudget w scope node cost budget
  attempts : AttemptBudget w scope node budget attempt
  nonneg : 0 ≤ total
  saved : ∀ saved, 0 ≤ total +
    w ⟨.checkpointResult (scopedNodeId scope node.id), .ok (some saved)⟩
  unread : ∀ text, 0 ≤ total + w ⟨.checkpointResult (scopedNodeId scope node.id), .error text⟩
  unbegun : ∀ text, 0 ≤ total + w ⟨.checkpointResult (scopedNodeId scope node.id), .ok none⟩ +
    w ⟨.beginCheckpoint (scopedNodeId scope node.id) node.kind.checkpointStatus, .error text⟩
  begun : ((node.retry.map RetryPolicy.maxAttempts).getD 1 : ℤ) * attempt ≤ total +
    w ⟨.checkpointResult (scopedNodeId scope node.id), .ok none⟩ +
      w ⟨.beginCheckpoint (scopedNodeId scope node.id) node.kind.checkpointStatus, .ok ()⟩

/-- **One activation keeps its account.** -/
theorem credit_executeNodeWithRetry {sub : SubgraphRunner} {ctx : ExecutionContext}
    {node : WorkflowNode} {cost : String → ℤ} {budget attempt total : ℤ}
    (ha : NodeAccount w ctx.scope node cost budget attempt total)
    (hsub : ∀ g ctx' locals', Child ctx.scope node g ctx'.scope →
      Credit w (cost ctx'.scope) (sub ctx' g locals').run)
    (inputs locals : StrMap Value) :
    Credit w total (executeNodeWithRetry (executeNode sub) ctx node inputs locals).run := by
  unfold executeNodeWithRetry
  refine credit_request_bind (fun x saved hx => ?_) fun x text hx => ?_
  · obtain rfl : x = .ok saved := hx
    cases saved with
    | some saved =>
      dsimp only
      split
      · exact .run_pure (ha.saved saved)
      · exact .run_throw (ha.saved saved)
    | none =>
      refine credit_request_bind (fun x u hx => ?_) fun x text hx => ?_
      · obtain rfl : x = .ok u := hx
        have hbegun := ha.begun
        cases hn : (node.retry.map RetryPolicy.maxAttempts).getD 1 with
        | zero =>
          rw [hn] at hbegun
          exact .run_throw (by simpa using hbegun)
        | succ n =>
          rw [hn] at hbegun
          refine (credit_runAttempts hw ha.body hsub ha.attempts inputs n 1).mono ?_
          push_cast at hbegun
          linarith
      · obtain rfl : x = .error text := hx
        exact ha.unbegun text
  · obtain rfl : x = .error text := hx
    exact ha.unread text

/-- Operations of the scheduling loop that earn or cost nothing. -/
structure NeutralLoop (w : RunEvent → ℤ) : Prop where
  round : ∀ scope ready, 0 ≤ w ⟨.observe (.round scope ready), ()⟩
  resolving : ∀ scope node outputs locals,
    0 ≤ w ⟨.observe (.resolving scope node outputs locals), ()⟩
  record : ∀ id outcome x, 0 ≤ w ⟨.recordNodeOutcome id outcome, x⟩

/-- A weight for which the end of a worker costs nothing either. -/
structure NeutralScheduler (w : RunEvent → ℤ) : Prop extends NeutralLoop w where
  finished : ∀ scope node result, 0 ≤ w ⟨.observe (.finished scope node result), ()⟩

/-- A worker keeps an account that its start pays for. -/
theorem credit_worker
    (hfinished : ∀ scope node result, 0 ≤ w ⟨.observe (.finished scope node result), ()⟩)
    {exec : NodeExecutor} {ctx : ExecutionContext}
    {state : GraphState} {node : WorkflowNode} {inputs : StrMap Value} {total : ℤ}
    (hstart : total ≤ k +
      w ⟨.observe (.starting ctx.scope node.id state.settled inputs state.locals), ()⟩)
    (hexec : Credit w total (exec ctx node inputs state.locals).run) :
    Credit w k (worker exec ctx state node inputs) := by
  refine Credit.op fun x => ?_
  have hfinish : ∀ (result : Except RunError NodeResult),
      Credit w 0 (Proc.call (.observe (.finished ctx.scope node.id result))) :=
    fun result => Credit.op fun _ => .ret (by simpa using hfinished _ _ result)
  have habort : Credit w 0 (Proc.call (.storeAbort ctx.control.abort)) :=
    Credit.op fun x => .ret (by simpa using hw.anonymous (.storeAbort _) trivial x)
  refine (Credit.bind hexec fun result => ?_ : Credit w (total + 0) _).mono (by simpa using hstart)
  split
  · exact (Credit.bind (hfinish _) fun _ => .ret le_rfl).mono (by simp)
  · exact (Credit.bind (hfinish _) fun _ => .ret le_rfl).mono (by simp)
  · exact (Credit.bind (hfinish _) fun _ => Credit.bind habort fun _ => .ret le_rfl).mono
      (by simp)

/-- The operations of the scheduling loop of one graph instance earn or cost nothing. -/
structure NeutralRounds (w : RunEvent → ℤ) (scope : String) (nodes : List WorkflowNode) : Prop where
  round : ∀ ready, 0 ≤ w ⟨.observe (.round scope ready), ()⟩
  resolving : ∀ node ∈ nodes, ∀ outputs locals,
    0 ≤ w ⟨.observe (.resolving scope node outputs locals), ()⟩
  record : ∀ node ∈ nodes, ∀ outcome x,
    0 ≤ w ⟨.recordNodeOutcome (scopedNodeId scope node.id) outcome, x⟩

omit hw in
theorem NeutralLoop.rounds (hs : NeutralLoop w) (scope : String) (nodes : List WorkflowNode) :
    NeutralRounds w scope nodes :=
  ⟨hs.round scope, fun _ _ => hs.resolving _ _, fun _ _ => hs.record _⟩

section Graph

variable {ctx : ExecutionContext} {nodes : List WorkflowNode} (hs : NeutralRounds w ctx.scope nodes)
include hs

omit hw in
theorem credit_settleBatch
    {items : List ((WorkflowNode × StrMap Value) × Except RunError NodeResult)}
    (hitems : ∀ item ∈ items, item.1.1 ∈ nodes) (failure : Option RunError) (state : GraphState) :
    Credit w 0 (settleBatch ctx items failure state).run := by
  induction items generalizing failure state with
  | nil => exact .run_pure le_rfl
  | cons item rest ih =>
    obtain ⟨⟨node, inputs⟩, result⟩ := item
    have hrecord : ∀ outcome, Credit w 0
        (request (α := Unit) (.recordNodeOutcome (scopedNodeId ctx.scope node.id) outcome)).run :=
      fun outcome => credit_request fun x => by
        simpa using hs.record node (hitems _ List.mem_cons_self) outcome x
    have hrest := ih fun item hitem => hitems item (List.mem_cons_of_mem _ hitem)
    cases result with
    | ok result => exact .run_then le_rfl (hrecord _) fun _ => hrest _ _
    | error error => exact .run_then le_rfl (hrecord _) fun _ => hrest _ _

theorem credit_prepareBatch (state : GraphState) {batch : List WorkflowNode}
    (hbatch : ∀ node ∈ batch, node ∈ nodes) : Credit w 0 (prepareBatch ctx state batch).run := by
  induction batch with
  | nil => exact .run_pure le_rfl
  | cons node batch ih =>
    have hnode := hs.resolving node (hbatch node List.mem_cons_self)
    refine .run_then le_rfl (credit_ask fun _ => by simpa using hnode _ _) fun _ => ?_
    refine .run_then le_rfl (credit_resolveInputs hw _ _ _ _) fun _ => ?_
    refine .run_then le_rfl (ih fun node hn => ?_) fun _ => .run_pure le_rfl
    exact hbatch node (List.mem_cons_of_mem _ hn)

omit hw hs in
/-- What is settled are nodes of the batch. -/
theorem mem_of_mem_zip_prepared {batch : List WorkflowNode} {state : GraphState} {t : RunTrace}
    {prepared : List (WorkflowNode × StrMap Value)}
    (h : Runs (prepareBatch ctx state batch).run t (some (.ok prepared)))
    {results : List (Except RunError NodeResult)} :
    ∀ item ∈ prepared.zip results, item.1.1 ∈ batch := by
  intro item hitem
  rw [← map_fst_of_runs_prepareBatch h]
  exact List.mem_map_of_mem (List.of_mem_zip hitem).1

theorem credit_runBatch {exec : NodeExecutor} {batch : List WorkflowNode} {state : GraphState}
    (hbatch : ∀ node ∈ batch, node ∈ nodes)
    (hworker : ∀ node ∈ batch, ∀ inputs, Credit w 0 (worker exec ctx state node inputs)) :
    Credit w 0 (runBatch exec ctx batch state).run := by
  refine (Credit.bind_runs (credit_prepareBatch hw hs _ hbatch) fun t result hrun => ?_).mono
    (k := 0 + 0) (by simp)
  cases result with
  | error e => exact .ret le_rfl
  | ok prepared =>
    have hpool : Credit w 0 (Proc.parallel
        (prepared.map fun p => worker exec ctx state p.1 p.2)) := by
      have hall : ∀ p ∈ prepared, Credit w ((fun _ => 0) p) (worker exec ctx state p.1 p.2) := by
        intro p hp
        refine hworker p.1 ?_ p.2
        rw [← map_fst_of_runs_prepareBatch hrun]
        exact List.mem_map_of_mem hp
      exact (Credit.parallel hall).mono (by simp)
    refine .run_then le_rfl (Credit.run_lift hpool) fun results => ?_
    refine .run_then le_rfl (credit_settleBatch hs (fun item hitem => ?_) _ _) fun outcome => ?_
    · exact hbatch _ (mem_of_mem_zip_prepared hrun item hitem)
    obtain ⟨failure, state'⟩ := outcome
    cases failure with
    | none => exact .run_pure le_rfl
    | some error => exact .run_throw le_rfl

/-- **A graph whose workers keep their accounts keeps them.** -/
theorem credit_executeGraphWith {exec : NodeExecutor}
    (hworker : ∀ node ∈ nodes, ∀ state inputs,
      Credit w 0 (worker exec ctx.forked state node inputs))
    (entry : String) (locals : StrMap Value) :
    Credit w 0 (executeGraphWith exec ctx nodes entry locals).run := by
  have hforked : NeutralRounds w ctx.forked.scope nodes := hs
  have hbatches : ∀ (batches : List (List WorkflowNode)) (state : GraphState),
      (∀ node ∈ batches.flatten, node ∈ nodes) →
      Credit w 0 (runBatches exec ctx.forked batches state).run := by
    intro batches
    induction batches with
    | nil => exact fun _ _ => .run_pure le_rfl
    | cons batch batches ih =>
      intro state hmem
      have hbatch : ∀ node ∈ batch, node ∈ nodes := fun node hn => hmem node (by simp [hn])
      refine .run_then le_rfl (credit_runBatch hw hforked hbatch fun node hn inputs => ?_)
        fun state' => ?_
      · exact hworker node (hbatch node hn) _ _
      · exact ih state' fun node hn => hmem node (by simp [hn])
  have hrounds : ∀ (fuel : Nat) (state : GraphState),
      Credit w 0 (runRounds exec ctx.forked nodes fuel state).run := by
    intro fuel
    induction fuel with
    | zero =>
      intro state
      unfold runRounds
      split
      · exact .run_throw le_rfl
      · exact .run_pure le_rfl
    | succ fuel ih =>
      intro state
      unfold runRounds
      split
      · refine .run_then le_rfl (credit_check hw _) fun _ => ?_
        dsimp only
        split
        · split
          · exact .run_pure le_rfl
          · exact .run_throw le_rfl
        · refine .run_then le_rfl (credit_ask fun _ => by simpa using hforked.round _) fun _ => ?_
          refine .run_then le_rfl (credit_liftExcept le_rfl) fun _ => ?_
          refine (Credit.bind_runs (hw.of_anonymous only_run_chunked)
            fun t result hrun => ?_).mono (k := 0 + 0) (by simp)
          cases result with
          | error e => exact .ret le_rfl
          | ok batches =>
            refine .run_then le_rfl (hbatches batches _ fun node hn => ?_) fun _ => ih _
            rw [eq_chunks_of_runs_chunked hrun, flatten_chunks] at hn
            exact List.mem_of_mem_filter hn
      · exact .run_pure le_rfl
  exact hrounds _ _

end Graph

/-- **A graph keeps an account** that each activation in it keeps, at any depth. -/
theorem credit_executeGraph (hs : NeutralScheduler w) {graph : WorkflowSubgraph}
    (haccount : ∀ g, Nested graph g → ∀ node ∈ g.nodes, ∀ scope, ∃ budget attempt total,
      NodeAccount w scope node (fun _ => 0) budget attempt total ∧
        ∀ settled inputs locals,
          total ≤ w ⟨.observe (.starting scope node.id settled inputs locals), ()⟩)
    (depth : Nat) (ctx : ExecutionContext) (locals : StrMap Value) :
    Credit w 0 (executeGraph depth ctx graph.nodes graph.entry locals).run := by
  induction depth generalizing graph ctx locals with
  | zero => exact .run_throw le_rfl
  | succ depth ih =>
    rw [executeGraph_succ]
    refine credit_executeGraphWith hw (hs.rounds _ _) (fun node hn state inputs => ?_) graph.entry
      locals
    obtain ⟨budget, attempt, total, ha, hstart⟩ := haccount graph .refl node hn ctx.scope
    have hpaid : total ≤ 0 + w ⟨.observe (.starting ctx.forked.scope node.id state.settled inputs
        state.locals), ()⟩ := by
      rw [zero_add]
      exact hstart _ _ _
    refine credit_worker hw hs.finished hpaid ?_
    refine credit_executeNodeWithRetry hw (by exact ha) (fun g ctx' locals' hg => ?_) inputs _
    refine .run_then le_rfl (ih (fun g' hg' => ?_) ctx' locals') fun _ => ?_
    · exact haccount g' (.head ⟨node, hn, hg.mem_subgraphs⟩ hg')
    · exact credit_resolveInputs hw _ _ _ _

/-- An admitted execution keeps an account that its graph keeps. -/
theorem credit_executePreparedWorkflow {plan : ExecutionPlan} {plugins : PluginRegistry}
    {limits : ExecutionLimits} {serde : SerdeJson}
    (hresult : ∀ result x, 0 ≤ w ⟨.setExecutionResult result, x⟩)
    (hfinish : ∀ status error x, 0 ≤ w ⟨.finishExecution status error, x⟩)
    (hgraph : Credit w k (executeGraph maxGraphDepth (plan.context plugins limits serde)
      plan.workflowNodes plan.entry plan.locals).run) :
    Credit w k (executePreparedWorkflow plan plugins limits serde).run := by
  have hnodes : Credit w k (executeNodes plan plugins limits serde).run := by
    refine (Credit.run_bind hgraph (fun nodeOutputs => ?_) le_rfl).mono (by omega)
    refine .run_then le_rfl (credit_resolveInputs hw _ _ _ _) fun outputs => ?_
    dsimp only
    split
    · exact .run_throw le_rfl
    · exact credit_request fun x => by simpa using hresult _ x
  refine (Credit.run_bind (Credit.run_lift hnodes) (fun outcome => ?_) le_rfl).mono (by omega)
  dsimp only
  split
  · refine .run_then le_rfl (credit_request fun x => by simpa using hfinish _ _ x) fun _ => ?_
    exact .run_pure le_rfl
  · exact .run_pure le_rfl

end Nodes

end KakuneCore
