import KakuneCore.Process.Logic
import KakuneCore.Planner.Accepted
import KakuneCore.Runtime.Errors

/-!
# Contracts of node execution

What one node does under a contract that counts none of its operations: its own errors never are
the scheduler's, and the graphs it enters are run in a child scope, with the local bindings of
the node's scope and those its kind provides.
-/

namespace KakuneCore

open Proc

variable {M : Type} [AddCommMonoid M] {c : Contract Op Resp M} {E : RunError → Prop}

/-! ### Primitive operations -/

theorem quietly_ask {o : Op} (h : c.Quiet o) : Quietly c (ask o) (fun _ => True) E :=
  Quietly.lift ((Meets.quiet_call h).mono fun _ _ hm => ⟨hm, trivial⟩)

theorem quietly_observe {observation : Observation} (h : c.Quiet (.observe observation)) :
    Quietly c (observe observation) (fun _ => True) E :=
  quietly_ask h

/-- What the contract assumes of a marked call may be used afterwards. -/
theorem quietly_observe_assume {observation : Observation}
    (h : c.Quiet (.observe observation)) :
    Quietly c (observe observation) (fun _ => c.assume ⟨.observe observation, ()⟩) E :=
  Quietly.lift (Meets.call fun answer ha => ⟨(h answer ha).1, (h answer ha).2, ha⟩)

theorem quietly_request {α : Type} {o : Op} {hr : Resp o = Except String α} (h : c.Quiet o)
    (hE : ∀ text, E (.external text)) : Quietly c (request o hr) (fun _ => True) E := by
  refine Meets.bind (Meets.quiet_call h) fun m answer hm => Meets.ret ?_
  refine ⟨by simp [hm], ?_⟩
  cases cast hr answer with
  | ok a => trivial
  | error text => exact hE text

/-- A request whose failure depends on what the contract assumes of the answer. -/
theorem quietly_request_of {o : Op} {hr : Resp o = Except String Unit} (h : c.Quiet o)
    (hE : ∀ text, c.assume ⟨o, cast hr.symm (.error text)⟩ → E (.external text)) :
    Quietly c (request o hr) (fun _ => True) E := by
  have hcall : Meets c (Proc.call o) fun m answer => m = 0 ∧ c.assume ⟨o, answer⟩ :=
    Meets.call fun a ha => ⟨(h a ha).1, (h a ha).2, ha⟩
  refine Meets.bind hcall fun m answer hm => Meets.ret ?_
  refine ⟨by simp [hm.1], ?_⟩
  cases hanswer : cast hr answer with
  | ok a => trivial
  | error text =>
    refine hE text ?_
    have hback : cast hr.symm (.error text) = answer := by rw [← hanswer]; simp
    rw [hback]
    exact hm.2

theorem quietly_liftExcept {α : Type} {Q : α → Prop} {result : Except RunError α}
    (h : Outcome Q E result) : Quietly c (liftExcept result) Q E :=
  Meets.ret ⟨rfl, h⟩

/-- A pure result whose errors are all allowed. -/
theorem quietly_liftExcept_of {α : Type} {result : Except RunError α}
    (h : ∀ e, result = .error e → E e) : Quietly c (liftExcept result) (fun _ => True) E := by
  refine quietly_liftExcept ?_
  cases result with
  | ok a => trivial
  | error e => exact h e rfl

/-! ### The routine operations of a node -/

/-- The operations a node issues outside of the graphs it enters. -/
def Op.Routine : Op → Prop
  | .observe (.executing _ _) | .observe (.itemFinished _ _ _ _) => True
  | .observe _ | .storeAbort _ | .recordNodeOutcome _ _ | .setExecutionResult _
  | .finishExecution _ _ => False
  | _ => True

/-- Routine operations are quiet, and only `noProgress` is not an allowed error. -/
structure RoutineQuiet (c : Contract Op Resp M) (E : RunError → Prop) : Prop where
  quiet : ∀ o : Op, o.Routine → c.Quiet o
  error : ∀ e, e ≠ .noProgress → E e

/-- Routine operations are quiet, and the errors of the scheduler alone are not allowed: a graph
that cannot go on and a panic. -/
structure StepQuiet (c : Contract Op Resp M) (E : RunError → Prop) : Prop where
  quiet : ∀ o : Op, o.Routine → c.Quiet o
  error : ∀ e, e ≠ .noProgress ∧ e ≠ .panic → E e

theorem RoutineQuiet.step (h : RoutineQuiet c E) : StepQuiet c E :=
  ⟨h.quiet, fun e he => h.error e he.1⟩

theorem quietly_doWhen {condition : Bool} {step : RunM Unit}
    (h : condition = true → Quietly c step (fun _ => True) E) :
    Quietly c (doWhen condition step) (fun _ => True) E := by
  unfold doWhen
  split
  · next hc => exact h hc
  · exact .pure trivial

theorem quietly_chunked {α : Type} {size : Nat} {xs : List α} (h : size = 0 → E .panic) :
    Quietly c (chunked size xs) (fun batches => batches = chunks size xs) E :=
  .bind (quietly_doWhen fun hsize => .throw (h (by simpa using hsize))) fun _ _ => .pure rfl

theorem quietly_anyAborted (h : StepQuiet c E) (flags : List AbortFlag) :
    Quietly c (RunControl.anyAborted flags) (fun _ => True) E := by
  induction flags with
  | nil => exact .pure trivial
  | cons flag flags ih =>
    refine Quietly.bind (quietly_ask (h.quiet _ trivial)) fun aborted _ => ?_
    split
    · exact .pure trivial
    · exact ih

theorem quietly_check (h : StepQuiet c E) (control : RunControl) :
    Quietly c control.check (fun _ => True) E := by
  have hthrow : ∀ {condition : Bool} {e : RunError}, e ≠ .noProgress ∧ e ≠ .panic →
      Quietly c (doWhen condition (throw e)) (fun _ => True) E :=
    fun he => quietly_doWhen fun _ => .throw (h.error _ he)
  refine .bind (quietly_ask (h.quiet _ trivial)) fun shutdown _ => ?_
  refine .bind (hthrow (by simp)) fun _ _ => ?_
  refine .bind (quietly_anyAborted h _) fun aborted _ => ?_
  refine .bind (hthrow (by simp)) fun _ _ => ?_
  refine .bind (quietly_request (h.quiet _ trivial) fun _ => h.error _ (by simp))
    fun cancelled _ => ?_
  refine .bind (hthrow (by simp)) fun _ _ => ?_
  exact .bind (quietly_ask (h.quiet _ trivial)) fun late _ => hthrow (by simp)

theorem quietly_poll (h : StepQuiet c E) (control : RunControl) (n : Nat) :
    Quietly c (control.poll n) (fun _ => True) E := by
  induction n with
  | zero => exact .pure trivial
  | succ n ih => exact .bind (quietly_check h control) fun _ _ => ih

theorem quietly_wait (h : StepQuiet c E) (control : RunControl) (milliseconds : Nat) :
    Quietly c (control.wait milliseconds) (fun _ => True) E := by
  refine .bind (quietly_ask (h.quiet _ trivial)) fun slices _ => ?_
  exact .bind (quietly_poll h control slices) fun _ _ => quietly_check h control

/-! ### Bindings -/

/-- A pure step whose errors are none of the scheduler's. -/
theorem StepQuiet.liftExcept {α : Type} {P : RunError → Prop} (h : StepQuiet c E)
    {result : Except RunError α} (hr : Raises P result)
    (hP : ∀ e, P e → e ≠ .noProgress ∧ e ≠ .panic) :
    Quietly c (liftExcept result) (fun _ => True) E :=
  quietly_liftExcept_of fun e he => h.error e (hP e (hr e he))

theorem RunError.IsExpression.isStep {e : RunError} (h : e.IsExpression) :
    e ≠ .noProgress ∧ e ≠ .panic := by
  obtain ⟨text, rfl⟩ := h
  simp

theorem RunError.IsNode.isStep {e : RunError} (h : e.IsNode) :
    e ≠ .noProgress ∧ e ≠ .panic := by
  obtain ⟨text, rfl⟩ := h
  simp

theorem RunError.IsReference.isStep {e : RunError} (h : e.IsReference) :
    e ≠ .noProgress ∧ e ≠ .panic := by
  cases h <;> simp

section Bindings

variable (h : StepQuiet c E) (serde : SerdeJson) (outputs : StrMap (StrMap Value))
  (locals : StrMap Value)
include h

theorem quietly_resolveSecret (name : String) :
    Quietly c (resolveSecret name) (fun _ => True) E := by
  refine .bind (quietly_request (h.quiet _ trivial) fun _ => h.error _ (by simp)) fun _ _ => ?_
  exact .pure trivial

theorem quietly_evaluateArguments {nested : Value → RunM Value}
    (hnested : ∀ value, Quietly c (nested value) (fun _ => True) E) (arguments : List Value) :
    Quietly c (evaluateArguments outputs locals nested arguments) (fun _ => True) E := by
  induction arguments with
  | nil => exact .pure trivial
  | cons argument arguments ih =>
    refine .bind (Q := fun _ => True) ?_ fun _ _ => .bind ih fun _ _ => .pure trivial
    unfold evaluateExpressionArgument
    split
    · exact .pure trivial
    · exact h.liftExcept (raises_resolveFrom _ _ _) fun _ he => he.isStep
    · exact quietly_resolveSecret h _
    · exact hnested _

theorem quietly_evaluateExpression (depth : Nat) (expression : Value) :
    Quietly c (evaluateExpression serde outputs locals depth expression) (fun _ => True) E := by
  induction depth generalizing expression with
  | zero => exact .throw (h.error _ (by simp))
  | succ depth ih =>
    refine .bind (h.liftExcept (raises_expressionParts _) fun _ he => he.isStep)
      fun parts _ => ?_
    refine .bind (quietly_evaluateArguments h outputs locals ih _) fun values _ => ?_
    exact h.liftExcept (raises_applyOperation _ _ _) fun _ he => he.isStep

theorem quietly_resolveInputs (bindings : StrMap WorkflowBinding) :
    Quietly c (resolveInputs serde outputs locals bindings) (fun _ => True) E := by
  induction bindings with
  | nil => exact .pure trivial
  | cons first bindings ih =>
    obtain ⟨name, binding⟩ := first
    refine .bind (Q := fun _ => True) ?_ fun _ _ => .bind ih fun _ _ => .pure trivial
    cases binding with
    | literal literal => exact .pure trivial
    | «from» source =>
      exact h.liftExcept (raises_resolveFrom _ _ _) fun _ he => he.isStep
    | expr expr => exact quietly_evaluateExpression h serde outputs locals _ _
    | secret secret => exact quietly_resolveSecret h _

end Bindings

/-! ### Entering a graph -/

/-- `Enters ctx node locals ctx' locals'`: the context and the local bindings with which a node
enters one of its graphs. -/
structure Enters (ctx : ExecutionContext) (node : WorkflowNode) (locals : StrMap Value)
    (ctx' : ExecutionContext) (locals' : StrMap Value) : Prop where
  scope : ∃ tail, ctx'.scope = ctx.scope ++ "/" ++ node.id ++ "/" ++ tail
  frame : ∃ scope span, ctx' = { ctx with scope, activeSpan := span }
  inherits : ∀ name, locals.contains name = true → locals'.contains name = true
  provides : ∀ name ∈ childLexicalBindings [] node.kind, locals'.contains name = true

theorem contains_insert {locals : StrMap Value} {name key : String} {value : Value} :
    (locals.insert key value).contains name = true ↔ key = name ∨ locals.contains name = true := by
  rw [StrMap.contains, StrMap.get?_insert, StrMap.contains]
  split
  · next hk => simp [hk]
  · next hk => simp [hk]

section Nodes

variable {sub : SubgraphRunner} {ctx : ExecutionContext} {node : WorkflowNode}
  {locals : StrMap Value}
  (h : RoutineQuiet c E)
  (hsub : ∀ g ∈ node.subgraphs, ∀ ctx' locals', Enters ctx node locals ctx' locals' →
    Quietly c (sub ctx' g locals') (fun _ => True) E)
include h hsub

theorem quietly_executeSwitch (hk : node.kind = .switch) (span : SpanId) (inputs : StrMap Value) :
    Quietly c (executeSwitch sub { ctx with activeSpan := span } node inputs locals)
      (fun _ => True) E := by
  unfold executeSwitch
  split
  · exact .throw (h.error _ (by simp))
  · next value _ =>
    refine .bind (h.step.liftExcept (raises_switchSelector _ _) fun _ he => he.isStep)
      fun selector _ => ?_
    refine .bind (h.step.liftExcept (raises_switchBranch _ _) fun _ he => he.isStep)
      fun name _ => ?_
    split
    · exact .throw (h.error _ (by simp))
    · next branch hbranch =>
      refine .bind (hsub branch ?_ _ _ ?_) fun _ _ => .pure trivial
      · rw [WorkflowNode.subgraphs, hk]
        exact List.mem_map.mpr ⟨_, StrMap.mem_of_get? hbranch, rfl⟩
      · refine ⟨⟨_, switchScope_eq _ _ _⟩, ⟨_, _, rfl⟩, fun _ hn => ?_, ?_⟩
        · exact contains_insert.mpr (.inr hn)
        · simp [childLexicalBindings, hk, contains_insert]

theorem quietly_foreachChunks (hk : node.kind = .foreach) (span : SpanId)
    {body : WorkflowSubgraph} (hbody : node.body = some body) (continueOnError : Bool)
    (start : Nat) (items : List (List Value)) :
    Quietly c (foreachChunks sub { ctx with activeSpan := span } node body locals continueOnError
      start items) (fun _ => True) E := by
  induction items generalizing start with
  | nil => exact .pure trivial
  | cons chunk rest ih =>
    refine .bind (Q := fun outcomes => ∀ o ∈ outcomes, Outcome (fun _ => True) E o)
      (Quietly.lift (Meets.quiet_parallel ?_)) fun outcomes _ => ?_
    · intro p hp
      obtain ⟨⟨item, offset⟩, -, rfl⟩ := List.mem_map.mp hp
      refine Meets.bind (hsub body ?_ _ _ ?_) fun m outcome houtcome => ?_
      · simp [WorkflowNode.subgraphs, hk, hbody]
      · refine ⟨⟨_, itemScope_eq _ _ _⟩, ⟨_, _, rfl⟩, fun _ hn => ?_, ?_⟩
        · simp [contains_insert, hn]
        · simp [childLexicalBindings, hk, contains_insert]
      · refine Meets.bind (Meets.quiet_call (h.quiet _ trivial)) fun m' _ hm' => Meets.ret ?_
        exact ⟨by simp [houtcome.1, hm'], houtcome.2⟩
    · refine .bind (h.step.liftExcept (raises_joinItems _) fun _ he => he.isStep) fun _ _ => ?_
      refine .bind (h.step.liftExcept (raises_collectItems _ _ _) ?_) fun _ _ =>
        .bind (ih _) fun _ _ => .pure trivial
      rintro e ⟨i, e', rfl, -⟩
      simp

theorem quietly_loopIterations (hk : node.kind = .loop) (span : SpanId)
    {body : WorkflowSubgraph} (hbody : node.body = some body) (remaining iteration : Nat)
    (state : Value) (last : StrMap Value) :
    Quietly c (loopIterations sub { ctx with activeSpan := span } node body locals remaining
      iteration state last) (fun _ => True) E := by
  induction remaining generalizing iteration state last with
  | zero => exact .pure trivial
  | succ remaining ih =>
    refine .bind (hsub body ?_ _ _ ?_) fun outputs _ => ?_
    · simp [WorkflowNode.subgraphs, hk, hbody]
    · refine ⟨⟨_, iterationScope_eq _ _ _⟩, ⟨_, _, rfl⟩, fun _ hn => ?_, ?_⟩
      · simp [contains_insert, hn]
      · simp [childLexicalBindings, hk, contains_insert]
    · split
      · exact .throw (h.error _ (by simp))
      · exact .throw (h.error _ (by simp))
      · exact .pure trivial
      · exact ih _ _ _

omit hsub in
theorem quietly_executeExternal (ctx : ExecutionContext) (node : WorkflowNode)
    (inputs : StrMap Value) :
    Quietly c (executeExternal ctx node inputs) (fun _ => True) E := by
  refine .bind (quietly_doWhen fun _ => quietly_check h.step _) fun _ _ => ?_
  refine .bind (quietly_ask (h.quiet _ trivial)) fun answer _ => ?_
  refine .bind (quietly_poll h.step _ _) fun _ _ => ?_
  refine quietly_liftExcept_of fun e he => h.error e ?_
  cases hanswer : answer.2 with
  | ok result => simp [ofAnswer, hanswer] at he
  | error text =>
    simp only [ofAnswer, hanswer, Except.error.injEq] at he
    simp [← he]

theorem quietly_executeNode (span : SpanId) (inputs : StrMap Value) :
    Quietly c (executeNode sub { ctx with activeSpan := span } node inputs locals)
      (fun _ => True) E := by
  unfold executeNode
  split
  · exact .pure trivial
  · exact .bind (h.step.liftExcept (raises_inputString _ _) fun _ he => he.isStep)
      fun _ _ => .pure trivial
  · exact .bind (h.step.liftExcept (raises_inputBoolean _ _) fun _ he => he.isStep)
      fun _ _ => .pure trivial
  · next hk => exact quietly_executeSwitch h hsub hk span inputs
  · next hk =>
    unfold executeForeach
    split
    · exact .throw (h.error _ (by simp))
    · exact .throw (h.error _ (by simp))
    · exact .throw (h.error _ (by simp))
    · next hbody =>
      refine .bind (quietly_chunked fun _ => h.error _ (by simp)) fun _ _ => ?_
      exact .bind (quietly_foreachChunks h hsub hk span hbody _ _ _) fun _ _ => .pure trivial
  · next hk =>
    unfold executeLoop
    split
    · exact .throw (h.error _ (by simp))
    · exact .throw (h.error _ (by simp))
    · exact .throw (h.error _ (by simp))
    · next hbody _ => exact quietly_loopIterations h hsub hk span hbody _ _ _ _
  · refine .bind (h.step.liftExcept (raises_inputU64 _ _) fun _ he => he.isStep) fun _ _ => ?_
    refine .bind (quietly_request (h.quiet _ trivial) fun _ => h.error _ (by simp)) fun _ _ => ?_
    exact .bind (quietly_wait h.step _ _) fun _ _ => .pure trivial
  · exact .pure trivial
  · exact .pure trivial
  · exact .pure trivial
  · split
    · exact .pure trivial
    · exact .throw (h.error _ (by simp))
  · exact quietly_executeExternal h _ _ _
  · exact quietly_executeExternal h _ _ _
  · split
    · exact quietly_executeExternal h _ _ _
    · exact .throw (h.error _ (by simp))

omit hsub in
theorem quietly_failAttempt (span : SpanId) {error : RunError} (he : E error) :
    Quietly c (failAttempt span error) (fun _ => True) E := by
  refine .bind (quietly_doWhen fun hp => .throw (h.error _ (by simp))) fun _ _ => ?_
  exact .bind (quietly_request (h.quiet _ trivial) fun _ => h.error _ (by simp))
    fun _ _ => .throw he

omit hsub in
theorem quietly_completeAttempt (ctx : ExecutionContext) (node : WorkflowNode) (span : SpanId)
    (result : NodeResult) :
    Quietly c (completeAttempt ctx node span result) (fun _ => True) E := by
  have hrequest : ∀ (o : Op) (hr : Resp o = Except String Unit), o.Routine →
      Quietly c (request o hr) (fun _ => True) E :=
    fun o hr ho => quietly_request (h.quiet o ho) fun _ => h.error _ (by simp)
  unfold completeAttempt
  split
  · exact .bind (hrequest _ _ trivial) fun _ _ => .throw (h.error _ (by simp))
  · exact .bind (hrequest _ _ trivial) fun _ _ =>
      .bind (hrequest _ _ trivial) fun _ _ => .pure trivial

theorem quietly_runAttempts (inputs : StrMap Value) (remaining attempt : Nat) :
    Quietly c (runAttempts (executeNode sub) ctx node inputs locals remaining attempt)
      (fun _ => True) E := by
  have hrequest : ∀ (o : Op) (hr : Resp o = Except String Unit), o.Routine →
      Quietly c (request o hr) (fun _ => True) E :=
    fun o hr ho => quietly_request (h.quiet o ho) fun _ => h.error _ (by simp)
  induction remaining generalizing attempt with
  | zero =>
    unfold runAttempts
    refine .bind (hrequest _ _ trivial) fun _ _ => ?_
    refine .bind (quietly_observe (h.quiet _ trivial)) fun _ _ => ?_
    refine .bind (Quietly.lift (quietly_executeNode h hsub _ inputs)) fun result hr => ?_
    cases result with
    | ok result => exact quietly_completeAttempt h _ _ _ _
    | error error => exact quietly_failAttempt h _ hr
  | succ remaining ih =>
    unfold runAttempts
    refine .bind (hrequest _ _ trivial) fun _ _ => ?_
    refine .bind (quietly_observe (h.quiet _ trivial)) fun _ _ => ?_
    refine .bind (Quietly.lift (quietly_executeNode h hsub _ inputs)) fun result hr => ?_
    cases result with
    | ok result => exact quietly_completeAttempt h _ _ _ _
    | error error =>
      dsimp only
      split
      · exact quietly_failAttempt h _ hr
      · refine .bind (hrequest _ _ trivial) fun _ _ => ?_
        split
        · exact .throw (h.error _ (by simp))
        · exact .bind (quietly_wait h.step _ _) fun _ _ => ih _

/-- **One node**: quiet whenever the graphs it enters are. -/
theorem quietly_executeNodeWithRetry (inputs : StrMap Value) :
    Quietly c (executeNodeWithRetry (executeNode sub) ctx node inputs locals)
      (fun _ => True) E := by
  unfold executeNodeWithRetry
  refine .bind (quietly_request (h.quiet _ trivial) fun _ => h.error _ (by simp))
    fun saved _ => ?_
  split
  · split
    · exact .pure trivial
    · exact .throw (h.error _ (by simp))
  · refine .bind (quietly_request (h.quiet _ trivial) fun _ => h.error _ (by simp)) fun _ _ => ?_
    split
    · exact .throw (h.error _ (by simp))
    · exact quietly_runAttempts h hsub inputs _ _

end Nodes

end KakuneCore
