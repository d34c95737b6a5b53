import KakuneCore.Runtime.Execution

/-!
# Footprints

Which operations a node and a graph can ever issue, whatever is answered: the operations of a node
name the node's scoped id, those of a graph name the ids and the scope of the graph, the graphs a
node enters are run in scopes below the node, and what is stored of a sensitive node is redacted.
Nothing is assumed of the graphs.
-/

namespace KakuneCore

open Proc

/-- Operations that name neither a scope nor a scoped id. -/
def Op.Anonymous : Op → Prop
  | .shutdownRequested | .loadAbort _ | .storeAbort _ | .cancelRequested | .deadlineReached
  | .waitSlices _ | .startTraceSpan _ _ | .finishTraceSpan _ _ _ | .resolveSecret _ => True
  | _ => False

/-- A stored outcome that tells only the route of a success. -/
def NodeOutcome.Redacted : NodeOutcome → Prop
  | .succeeded message value => message = some "sensitive result redacted" ∧
      ∃ route, value = nodeResultValue { route } true
  | .failed _ => True

/-- Operations of a node that is run in a context, most of them by its scoped id. -/
def Op.Names (ctx : ExecutionContext) (node : WorkflowNode) : Op → Prop
  | .checkpointResult id | .beginCheckpoint id _ | .durableDelayRemaining id _ | .invoke id _ _ _
  | .observe (.executing id _) => id = scopedNodeId ctx.scope node.id
  | .completeCheckpoint id result =>
    id = scopedNodeId ctx.scope node.id ∧ (isSensitive ctx node = true → result = none)
  | .observe (.itemFinished scope nodeId _ _) => scope = ctx.scope ∧ nodeId = node.id
  | _ => False

/-- Operations the scheduler of a graph issues for one of its nodes. -/
def Op.Schedules (ctx : ExecutionContext) (node : WorkflowNode) : Op → Prop
  | .observe (.resolving scope node' _ _) => scope = ctx.scope ∧ node' = node
  | .observe (.starting scope nodeId _ _ _) => scope = ctx.scope ∧ nodeId = node.id
  | .observe (.finished scope nodeId _) => scope = ctx.scope ∧ nodeId = node.id
  | .recordNodeOutcome id outcome =>
    id = scopedNodeId ctx.scope node.id ∧ (isSensitive ctx node = true → outcome.Redacted)
  | _ => False

/-- What a set `P` of operations must contain so that a node that is run in a context stays inside
it; `K` are the contexts its nested graphs are run in. -/
structure NodeFootprint (P : Op → Prop) (K : ExecutionContext → Prop) (ctx : ExecutionContext)
    (node : WorkflowNode) : Prop where
  anonymous : ∀ o : Op, o.Anonymous → P o
  names : ∀ o : Op, o.Names ctx node → P o
  enters : ∀ tail span,
    K { ctx with scope := ctx.scope ++ "/" ++ node.id ++ "/" ++ tail, activeSpan := span }

/-- What a set `P` of operations must contain so that every graph in a context of `K` stays inside
it. -/
structure GraphFootprint (P : Op → Prop) (K : ExecutionContext → Prop) : Prop where
  node : ∀ ctx node, K ctx → NodeFootprint P K ctx.forked node
  round : ∀ ctx ready, K ctx → P (.observe (.round ctx.scope ready))
  schedules : ∀ ctx node, K ctx → ∀ o : Op, o.Schedules ctx node → P o

theorem NodeFootprint.span {P : Op → Prop} {K : ExecutionContext → Prop} {ctx : ExecutionContext}
    {node : WorkflowNode} (h : NodeFootprint P K ctx node) (span : SpanId) :
    NodeFootprint P K { ctx with activeSpan := span } node :=
  ⟨h.anonymous, h.names, h.enters⟩

section Rules

variable {α β : Type} {P : Op → Prop}

theorem only_run_pure {a : α} : (pure a : RunM α).run.Only P := trivial

theorem only_run_throw {e : RunError} : (throw e : RunM α).run.Only P := trivial

theorem only_run_bind {x : RunM α} {f : α → RunM β} (hx : x.run.Only P)
    (hf : ∀ a, (f a).run.Only P) : (x >>= f).run.Only P := by
  refine Only.bind hx fun result => ?_
  cases result with
  | ok a => exact hf a
  | error e => trivial

theorem only_run_ask {o : Op} (h : P o) : (ask o).run.Only P :=
  Only.bind (only_call.mpr h) fun _ => trivial

theorem only_run_request {o : Op} {hr : Resp o = Except String α} (h : P o) :
    (request o hr).run.Only P :=
  Only.bind (only_call.mpr h) fun _ => trivial

theorem only_run_liftExcept {result : Except RunError α} : (liftExcept result).run.Only P :=
  trivial

theorem only_run_lift {p : Proc Op Resp α} (h : p.Only P) :
    (ExceptT.lift p : RunM α).run.Only P :=
  Only.bind h fun _ => trivial

theorem only_run_doWhen {condition : Bool} {step : RunM Unit} (h : step.run.Only P) :
    (doWhen condition step).run.Only P := by
  unfold doWhen
  split
  · exact h
  · exact only_run_pure

theorem only_run_chunked {size : Nat} {xs : List α} : (chunked size xs).run.Only P :=
  only_run_bind (only_run_doWhen only_run_throw) fun _ => only_run_pure

end Rules

section Control

variable {P : Op → Prop} (h : ∀ o : Op, o.Anonymous → P o)
include h

theorem only_anyAborted (flags : List AbortFlag) : (RunControl.anyAborted flags).run.Only P := by
  induction flags with
  | nil => exact only_run_pure
  | cons flag flags ih =>
    refine only_run_bind (only_run_ask (h _ trivial)) fun aborted => ?_
    split
    · exact only_run_pure
    · exact ih

theorem only_check (control : RunControl) : control.check.run.Only P := by
  refine only_run_bind (only_run_ask (h _ trivial)) fun _ => ?_
  refine only_run_bind (only_run_doWhen only_run_throw) fun _ => ?_
  refine only_run_bind (only_anyAborted h _) fun _ => ?_
  refine only_run_bind (only_run_doWhen only_run_throw) fun _ => ?_
  refine only_run_bind (only_run_request (h _ trivial)) fun _ => ?_
  refine only_run_bind (only_run_doWhen only_run_throw) fun _ => ?_
  exact only_run_bind (only_run_ask (h _ trivial)) fun _ => only_run_doWhen only_run_throw

theorem only_poll (control : RunControl) (n : Nat) : (control.poll n).run.Only P := by
  induction n with
  | zero => exact only_run_pure
  | succ n ih => exact only_run_bind (only_check h control) fun _ => ih

theorem only_wait (control : RunControl) (milliseconds : Nat) :
    (control.wait milliseconds).run.Only P := by
  refine only_run_bind (only_run_ask (h _ trivial)) fun _ => ?_
  exact only_run_bind (only_poll h control _) fun _ => only_check h control

theorem only_resolveSecret (name : String) : (resolveSecret name).run.Only P :=
  only_run_bind (only_run_request (h _ trivial)) fun _ => only_run_pure

theorem only_evaluateArguments {outputs : StrMap (StrMap Value)} {locals : StrMap Value}
    {nested : Value → RunM Value} (hnested : ∀ value, (nested value).run.Only P)
    (arguments : List Value) :
    (evaluateArguments outputs locals nested arguments).run.Only P := by
  induction arguments with
  | nil => exact only_run_pure
  | cons argument arguments ih =>
    refine only_run_bind ?_ fun _ => only_run_bind ih fun _ => only_run_pure
    unfold evaluateExpressionArgument
    split
    · exact only_run_pure
    · exact only_run_liftExcept
    · exact only_resolveSecret h _
    · exact hnested _

theorem only_evaluateExpression (serde : SerdeJson) (outputs : StrMap (StrMap Value))
    (locals : StrMap Value) (depth : Nat) (expression : Value) :
    (evaluateExpression serde outputs locals depth expression).run.Only P := by
  induction depth generalizing expression with
  | zero => exact only_run_throw
  | succ depth ih =>
    refine only_run_bind only_run_liftExcept fun _ => ?_
    exact only_run_bind (only_evaluateArguments h ih _) fun _ => only_run_liftExcept

theorem only_resolveInputs (serde : SerdeJson) (outputs : StrMap (StrMap Value))
    (locals : StrMap Value) (bindings : StrMap WorkflowBinding) :
    (resolveInputs serde outputs locals bindings).run.Only P := by
  induction bindings with
  | nil => exact only_run_pure
  | cons first bindings ih =>
    obtain ⟨name, binding⟩ := first
    refine only_run_bind ?_ fun _ => only_run_bind ih fun _ => only_run_pure
    cases binding with
    | literal literal => exact only_run_pure
    | «from» source => exact only_run_liftExcept
    | expr expr => exact only_evaluateExpression h _ _ _ _ _
    | secret secret => exact only_resolveSecret h _

end Control

/-! ### Nodes -/

section Nodes

variable {P : Op → Prop} {K : ExecutionContext → Prop} {sub : SubgraphRunner} {node : WorkflowNode}
  (hsub : ∀ ctx g locals, K ctx → (sub ctx g locals).run.Only P)
include hsub

theorem only_executeSwitch {ctx : ExecutionContext} (h : NodeFootprint P K ctx node)
    (inputs locals : StrMap Value) : (executeSwitch sub ctx node inputs locals).run.Only P := by
  unfold executeSwitch
  split
  · exact only_run_throw
  · refine only_run_bind only_run_liftExcept fun _ => ?_
    refine only_run_bind only_run_liftExcept fun name => ?_
    split
    · exact only_run_throw
    · refine only_run_bind (hsub _ _ _ ?_) fun _ => only_run_pure
      rw [switchScope_eq]
      exact h.enters _ _

theorem only_foreachChunks {ctx : ExecutionContext} (h : NodeFootprint P K ctx node)
    (body : WorkflowSubgraph) (locals : StrMap Value) (continueOnError : Bool) (start : Nat)
    (items : List (List Value)) :
    (foreachChunks sub ctx node body locals continueOnError start items).run.Only P := by
  induction items generalizing start with
  | nil => exact only_run_pure
  | cons chunk rest ih =>
    refine only_run_bind (only_run_lift (only_parallel ?_)) fun _ => ?_
    · intro p hp
      obtain ⟨⟨item, offset⟩, -, rfl⟩ := List.mem_map.mp hp
      refine Only.bind (hsub _ _ _ ?_) fun _ => ?_
      · rw [itemScope_eq]
        exact h.enters _ _
      · exact Only.bind (only_call.mpr (h.names _ ⟨rfl, rfl⟩)) fun _ => trivial
    · refine only_run_bind only_run_liftExcept fun _ => ?_
      exact only_run_bind only_run_liftExcept fun _ => only_run_bind (ih _) fun _ => only_run_pure

theorem only_loopIterations {ctx : ExecutionContext} (h : NodeFootprint P K ctx node)
    (body : WorkflowSubgraph) (locals : StrMap Value) (remaining iteration : Nat) (state : Value)
    (last : StrMap Value) :
    (loopIterations sub ctx node body locals remaining iteration state last).run.Only P := by
  induction remaining generalizing iteration state last with
  | zero => exact only_run_pure
  | succ remaining ih =>
    refine only_run_bind (hsub _ _ _ ?_) fun outputs => ?_
    · rw [iterationScope_eq]
      exact h.enters _ _
    · split
      · exact only_run_throw
      · exact only_run_throw
      · exact only_run_pure
      · exact ih _ _ _

omit hsub in
theorem only_executeExternal {ctx : ExecutionContext} (h : NodeFootprint P K ctx node)
    (inputs : StrMap Value) : (executeExternal ctx node inputs).run.Only P := by
  refine only_run_bind (only_run_doWhen (only_check h.anonymous _)) fun _ => ?_
  refine only_run_bind (only_run_ask (h.names _ rfl)) fun _ => ?_
  exact only_run_bind (only_poll h.anonymous _ _) fun _ => only_run_liftExcept

theorem only_executeNode {ctx : ExecutionContext} (h : NodeFootprint P K ctx node)
    (inputs locals : StrMap Value) : (executeNode sub ctx node inputs locals).run.Only P := by
  unfold executeNode
  split
  · exact only_run_pure
  · exact only_run_bind only_run_liftExcept fun _ => only_run_pure
  · exact only_run_bind only_run_liftExcept fun _ => only_run_pure
  · exact only_executeSwitch hsub h _ _
  · unfold executeForeach
    split
    · exact only_run_throw
    · exact only_run_throw
    · exact only_run_throw
    · refine only_run_bind only_run_chunked fun _ => ?_
      exact only_run_bind (only_foreachChunks hsub h _ _ _ _ _) fun _ => only_run_pure
  · unfold executeLoop
    split
    · exact only_run_throw
    · exact only_run_throw
    · exact only_run_throw
    · exact only_loopIterations hsub h _ _ _ _ _ _
  · refine only_run_bind only_run_liftExcept fun _ => ?_
    refine only_run_bind (only_run_request (h.names _ rfl)) fun _ => ?_
    exact only_run_bind (only_wait h.anonymous _ _) fun _ => only_run_pure
  · exact only_run_pure
  · exact only_run_pure
  · exact only_run_pure
  · split
    · exact only_run_pure
    · exact only_run_throw
  · exact only_executeExternal h _
  · exact only_executeExternal h _
  · split
    · exact only_executeExternal h _
    · exact only_run_throw

omit hsub in
theorem only_completeAttempt {ctx : ExecutionContext} (h : NodeFootprint P K ctx node)
    (span : SpanId) (result : NodeResult) :
    (completeAttempt ctx node span result).run.Only P := by
  unfold completeAttempt
  split
  · exact only_run_bind (only_run_request (h.anonymous _ trivial)) fun _ => only_run_throw
  · refine only_run_bind (only_run_request (h.names _ ⟨rfl, fun hs => if_pos hs⟩)) fun _ => ?_
    exact only_run_bind (only_run_request (h.anonymous _ trivial)) fun _ => only_run_pure

omit hsub in
theorem only_failAttempt (h : ∀ o : Op, o.Anonymous → P o) (span : SpanId) (error : RunError) :
    (failAttempt span error).run.Only P := by
  refine only_run_bind (only_run_doWhen only_run_throw) fun _ => ?_
  exact only_run_bind (only_run_request (h _ trivial)) fun _ => only_run_throw

theorem only_runAttempts {ctx : ExecutionContext} (h : NodeFootprint P K ctx node)
    (inputs locals : StrMap Value) (remaining attempt : Nat) :
    (runAttempts (executeNode sub) ctx node inputs locals remaining attempt).run.Only P := by
  induction remaining generalizing attempt with
  | zero =>
    unfold runAttempts
    refine only_run_bind (only_run_request (h.anonymous _ trivial)) fun _ => ?_
    refine only_run_bind (only_run_ask (h.names _ rfl)) fun _ => ?_
    refine only_run_bind (only_run_lift (only_executeNode hsub (h.span _) _ _)) fun result => ?_
    cases result with
    | ok result => exact only_completeAttempt h _ _
    | error error => exact only_failAttempt h.anonymous _ _
  | succ remaining ih =>
    unfold runAttempts
    refine only_run_bind (only_run_request (h.anonymous _ trivial)) fun _ => ?_
    refine only_run_bind (only_run_ask (h.names _ rfl)) fun _ => ?_
    refine only_run_bind (only_run_lift (only_executeNode hsub (h.span _) _ _)) fun result => ?_
    cases result with
    | ok result => exact only_completeAttempt h _ _
    | error error =>
      dsimp only
      split
      · exact only_failAttempt h.anonymous _ _
      · refine only_run_bind (only_run_request (h.anonymous _ trivial)) fun _ => ?_
        split
        · exact only_run_throw
        · exact only_run_bind (only_wait h.anonymous _ _) fun _ => ih _

/-- **One node** stays inside its footprint. -/
theorem only_executeNodeWithRetry {ctx : ExecutionContext}
    (h : NodeFootprint P K ctx node) (inputs locals : StrMap Value) :
    (executeNodeWithRetry (executeNode sub) ctx node inputs locals).run.Only P := by
  unfold executeNodeWithRetry
  refine only_run_bind (only_run_request (h.names _ rfl)) fun saved => ?_
  split
  · split
    · exact only_run_pure
    · exact only_run_throw
  · refine only_run_bind (only_run_request (h.names _ rfl)) fun _ => ?_
    split
    · exact only_run_throw
    · exact only_runAttempts hsub h _ _ _ _

end Nodes

/-! ### Graphs -/

section Graphs

variable {P : Op → Prop} {K : ExecutionContext → Prop}

theorem only_settleBatch {ctx : ExecutionContext} (h : ∀ node o, Op.Schedules ctx node o → P o)
    (items : List ((WorkflowNode × StrMap Value) × Except RunError NodeResult))
    (failure : Option RunError) (state : GraphState) :
    (settleBatch ctx items failure state).run.Only P := by
  induction items generalizing failure state with
  | nil => exact only_run_pure
  | cons item rest ih =>
    obtain ⟨⟨node, inputs⟩, result⟩ := item
    cases result with
    | ok result =>
      refine only_run_bind (only_run_request (h node _ ⟨rfl, fun hs => ?_⟩)) fun _ => ih _ _
      rw [hs]
      exact ⟨rfl, result.route, rfl⟩
    | error error =>
      exact only_run_bind (only_run_request (h node _ ⟨rfl, fun _ => trivial⟩)) fun _ => ih _ _

theorem only_worker {exec : NodeExecutor} {ctx : ExecutionContext} {state : GraphState}
    {node : WorkflowNode} {inputs : StrMap Value}
    (hschedules : ∀ o, Op.Schedules ctx node o → P o)
    (habort : P (.storeAbort ctx.control.abort))
    (hexec : (exec ctx node inputs state.locals).run.Only P) :
    (worker exec ctx state node inputs).Only P := by
  refine Only.bind (only_call.mpr (hschedules _ ⟨rfl, rfl⟩)) fun _ => ?_
  refine Only.bind hexec fun result => ?_
  have hfinish : ∀ result, P (.observe (.finished ctx.scope node.id result)) :=
    fun _ => hschedules _ ⟨rfl, rfl⟩
  split
  · exact Only.bind (only_call.mpr (hfinish _)) fun _ => trivial
  · exact Only.bind (only_call.mpr (hfinish _)) fun _ => trivial
  · refine Only.bind (only_call.mpr (hfinish _)) fun _ => ?_
    exact Only.bind (only_call.mpr habort) fun _ => trivial

theorem only_prepareBatch {ctx : ExecutionContext} (hanon : ∀ o : Op, o.Anonymous → P o)
    (h : ∀ node o, Op.Schedules ctx node o → P o) (state : GraphState)
    (batch : List WorkflowNode) : (prepareBatch ctx state batch).run.Only P := by
  induction batch with
  | nil => exact only_run_pure
  | cons node batch ih =>
    refine only_run_bind (only_run_ask (h node _ ⟨rfl, rfl⟩)) fun _ => ?_
    refine only_run_bind (only_resolveInputs hanon _ _ _ _) fun _ => ?_
    exact only_run_bind ih fun _ => only_run_pure

theorem only_runBatches {exec : NodeExecutor} {ctx : ExecutionContext}
    (hanon : ∀ o : Op, o.Anonymous → P o) (h : ∀ node o, Op.Schedules ctx node o → P o)
    (hexec : ∀ node inputs locals, (exec ctx node inputs locals).run.Only P)
    (batches : List (List WorkflowNode)) (state : GraphState) :
    (runBatches exec ctx batches state).run.Only P := by
  induction batches generalizing state with
  | nil => exact only_run_pure
  | cons batch batches ih =>
    refine only_run_bind ?_ fun _ => ih _
    refine only_run_bind (only_prepareBatch hanon h state batch) fun prepared => ?_
    refine only_run_bind (only_run_lift (only_parallel ?_)) fun results => ?_
    · intro p hp
      obtain ⟨⟨node, inputs⟩, -, rfl⟩ := List.mem_map.mp hp
      exact only_worker (h node) (hanon _ trivial) (hexec _ _ _)
    · refine only_run_bind (only_settleBatch h _ _ _) fun outcome => ?_
      split
      split
      · exact only_run_pure
      · exact only_run_throw

theorem only_executeGraphWith {exec : NodeExecutor} {ctx : ExecutionContext}
    (h : GraphFootprint P K) (hctx : K ctx)
    (hexec : ∀ node inputs locals, (exec ctx.forked node inputs locals).run.Only P)
    (nodes : List WorkflowNode) (entry : String) (locals : StrMap Value) :
    (executeGraphWith exec ctx nodes entry locals).run.Only P := by
  have hanon : ∀ o : Op, o.Anonymous → P o :=
    (h.node ctx { id := "", nodeType := "" } hctx).anonymous
  have hrounds : ∀ (fuel : Nat) (state : GraphState),
      (runRounds exec ctx.forked nodes fuel state).run.Only P := by
    intro fuel
    induction fuel with
    | zero =>
      intro state
      unfold runRounds
      split
      · exact only_run_throw
      · exact only_run_pure
    | succ fuel ih =>
      intro state
      unfold runRounds
      split
      · refine only_run_bind (only_check hanon _) fun _ => ?_
        dsimp only
        split
        · split
          · exact only_run_pure
          · exact only_run_throw
        · refine only_run_bind (only_run_ask (h.round ctx _ hctx)) fun _ => ?_
          refine only_run_bind only_run_liftExcept fun _ => ?_
          refine only_run_bind only_run_chunked fun _ => ?_
          refine only_run_bind (only_runBatches hanon ?_ hexec _ _) fun _ => ih _
          exact fun node => h.schedules ctx node hctx
      · exact only_run_pure
  exact hrounds _ _

/-- **A graph stays inside the footprint of its context.** -/
theorem only_executeGraph (h : GraphFootprint P K) (depth : Nat) (ctx : ExecutionContext)
    (nodes : List WorkflowNode) (entry : String) (locals : StrMap Value) (hctx : K ctx) :
    (executeGraph depth ctx nodes entry locals).run.Only P := by
  induction depth generalizing ctx nodes entry locals with
  | zero => exact only_run_throw
  | succ depth ih =>
    rw [executeGraph_succ]
    refine only_executeGraphWith h hctx (fun node inputs locals => ?_) nodes entry locals
    have hnode := h.node ctx node hctx
    refine only_executeNodeWithRetry (fun ctx' g locals' hctx' => ?_) hnode inputs locals
    refine only_run_bind (ih ctx' _ _ _ hctx') fun _ => ?_
    exact only_resolveInputs hnode.anonymous _ _ _ _

/-- The executor of the nodes of a graph stays inside the footprint of the node. -/
theorem only_nodeExecutor (h : GraphFootprint P K) (depth : Nat) {ctx : ExecutionContext}
    {node : WorkflowNode} (hnode : NodeFootprint P K ctx node) (inputs locals : StrMap Value) :
    (nodeExecutor depth ctx node inputs locals).run.Only P := by
  refine only_executeNodeWithRetry (fun ctx' g locals' hctx' => ?_) hnode inputs locals
  refine only_run_bind (only_executeGraph h depth ctx' _ _ _ hctx') fun _ => ?_
  exact only_resolveInputs hnode.anonymous _ _ _ _

end Graphs

end KakuneCore
