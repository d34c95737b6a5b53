import KakuneCore.Runtime.Accounts

/-!
# The checkpoints of an activation

Every activation of a node reads its checkpoint, begins it unless a result was saved, and completes
it after its body has succeeded. Two counts per scoped id follow, at **every point** of every run
and with retries anywhere: an id is completed at most as often as it is begun, and it reports
success at most as often as it is completed or restored.
-/

namespace KakuneCore

open Proc

variable {w : RunEvent → ℤ} {k l : ℤ}

/-! ### Paying for results -/

theorem pays_request_bind {α β : Type} {o : Op} {hr : Resp o = Except String α} {f : α → RunM β}
    (hok : ∀ x a, cast hr x = .ok a → Pays w (k + w ⟨o, x⟩) (l + w ⟨o, x⟩) (f a))
    (herror : ∀ x text, cast hr x = .error text → 0 ≤ l + w ⟨o, x⟩) :
    Pays w k l (request o hr >>= f) := by
  have hstep : ∀ t r, Runs (request o hr >>= f).run t (some r) → ∃ x t', t = ⟨o, x⟩ :: t' ∧
      ((∃ text, cast hr x = .error text ∧ t' = [] ∧ r = .error (.external text)) ∨
        ∃ a, cast hr x = .ok a ∧ Runs (f a).run t' (some r)) := by
    intro t r hrun
    obtain ⟨-, h⟩ | ⟨x, t', rfl, hrest⟩ := runs_op_iff.mp hrun
    · cases h
    change Runs (ExceptT.bindCont f (ofAnswer (cast hr x))) t' (some r) at hrest
    refine ⟨x, t', rfl, ?_⟩
    cases hx : cast hr x with
    | ok a =>
      rw [hx] at hrest
      exact .inr ⟨a, rfl, hrest⟩
    | error text =>
      rw [hx] at hrest
      obtain ⟨rfl, h | h⟩ := runs_ret_iff.mp hrest
      · cases h
      · exact .inl ⟨text, rfl, rfl, Option.some.inj h⟩
  constructor
  · intro t b hrun
    obtain ⟨x, t', rfl, ⟨text, -, -, h⟩ | ⟨a, hx, hrest⟩⟩ := hstep t _ hrun
    · cases h
    · have := (hok x a hx).1 t' b hrest
      rw [balance_cons]
      omega
  · intro t e hrun
    obtain ⟨x, t', rfl, ⟨text, hx, rfl, -⟩ | ⟨a, hx, hrest⟩⟩ := hstep t _ hrun
    · have := herror x text hx
      simpa using this
    · have := (hok x a hx).2 t' e hrest
      rw [balance_cons]
      omega

/-- What an activation may spend when its body is free: `a` on the way to a value and `b` on the way
to a failure, once its checkpoint is begun. -/
structure AttemptsPay (w : RunEvent → ℤ) (scope : String) (node : WorkflowNode) (a b : ℤ) :
    Prop where
  body : BodyBudget w scope node (fun _ => 0) 0
  executing : 0 ≤ w ⟨.observe (.executing (scopedNodeId scope node.id) node.kind), ()⟩
  fails : 0 ≤ b
  completes : ∀ result, 0 ≤ a + w ⟨.completeCheckpoint (scopedNodeId scope node.id) result, .ok ()⟩
  unclosed : ∀ result, 0 ≤ b + w ⟨.completeCheckpoint (scopedNodeId scope node.id) result, .ok ()⟩
  refused : ∀ result text,
    0 ≤ b + w ⟨.completeCheckpoint (scopedNodeId scope node.id) result, .error text⟩

section Activation

variable (hw : Neutral w) {sub : SubgraphRunner} {ctx : ExecutionContext} {node : WorkflowNode}
  {locals : StrMap Value}
  (hsub : ∀ g ctx' locals', Child ctx.scope node g ctx'.scope → Credit w 0 (sub ctx' g locals').run)
include hw

theorem pays_completeAttempt {a b : ℤ} (ha : AttemptsPay w ctx.scope node a b) (span : SpanId)
    (result : NodeResult) : Pays w a b (completeAttempt ctx node span result) := by
  have hclose : ∀ {status error}, Credit w 0
      (request (α := Unit) (.finishTraceSpan span status error)).run :=
    hw.of_anonymous (only_run_request trivial)
  unfold completeAttempt
  split
  · exact .then ha.fails hclose fun _ => .throw ha.fails
  · refine pays_request_bind (fun x u hx => ?_) fun x text hx => ?_
    · obtain rfl : x = .ok u := hx
      exact .then (ha.unclosed _) hclose fun _ => .pure (ha.completes _)
    · obtain rfl : x = .error text := hx
      exact ha.refused _ text

include hsub

/-- One attempt, given what is done when its body has failed. -/
theorem pays_attempt {a b : ℤ} (ha : AttemptsPay w ctx.scope node a b) (inputs : StrMap Value)
    (span : SpanId) {next : RunError → RunM NodeResult} (hnext : ∀ error, Pays w a b (next error)) :
    Pays w a b (do
      request (α := Unit) (.startTraceSpan span node.nodeType)
      observe (.executing (scopedNodeId ctx.scope node.id) node.kind)
      match ← ExceptT.lift (executeNode sub { ctx with activeSpan := span } node inputs
        locals).run with
      | .ok result => completeAttempt ctx node span result
      | .error error => next error : RunM NodeResult) := by
  refine .then ha.fails (hw.of_anonymous (only_run_request trivial)) fun _ => ?_
  refine .then ha.fails (credit_ask fun _ => by simpa using ha.executing) fun _ => ?_
  have hbody : Credit w 0 (executeNode sub { ctx with activeSpan := span } node inputs
      locals).run := credit_executeNode hw ha.body hsub span inputs
  refine .then ha.fails (Credit.run_lift hbody) fun result => ?_
  cases result with
  | ok result => exact pays_completeAttempt hw ha span result
  | error error => exact hnext error

/-- The attempts of an activation are paid for once: only the last of them completes. -/
theorem pays_runAttempts {a b : ℤ} (ha : AttemptsPay w ctx.scope node a b) (inputs : StrMap Value)
    (remaining n : Nat) :
    Pays w a b (runAttempts (executeNode sub) ctx node inputs locals remaining n) := by
  have hclose : ∀ {span status error}, Credit w 0
      (request (α := Unit) (.finishTraceSpan span status error)).run :=
    hw.of_anonymous (only_run_request trivial)
  have hfail : ∀ span error, Pays w a b (failAttempt span error) := by
    intro span error
    refine .then ha.fails (hw.of_anonymous (only_run_doWhen only_run_throw)) fun _ => ?_
    exact .then ha.fails hclose fun _ => .throw ha.fails
  induction remaining generalizing n with
  | zero =>
    unfold runAttempts
    exact pays_attempt hw hsub ha inputs _ fun error => hfail _ error
  | succ remaining ih =>
    unfold runAttempts
    refine pays_attempt hw hsub ha inputs _ fun error => ?_
    dsimp only
    split
    · exact hfail _ error
    · refine .then ha.fails hclose fun _ => ?_
      split
      · exact .throw ha.fails
      · exact .then ha.fails (hw.of_anonymous (only_wait (fun _ h => h) _ _)) fun _ => ih _

/-- What an activation may spend: `a` for a value and `b` for a failure, its checkpoint calls
included. -/
structure ActivationPays (w : RunEvent → ℤ) (scope : String) (node : WorkflowNode) (a b : ℤ) :
    Prop where
  restored : ∀ saved, 0 ≤ a + w ⟨.checkpointResult (scopedNodeId scope node.id), .ok (some saved)⟩
  damaged : ∀ saved, 0 ≤ b + w ⟨.checkpointResult (scopedNodeId scope node.id), .ok (some saved)⟩
  unread : ∀ text, 0 ≤ b + w ⟨.checkpointResult (scopedNodeId scope node.id), .error text⟩
  unbegun : ∀ text, 0 ≤ b + w ⟨.checkpointResult (scopedNodeId scope node.id), .ok none⟩ +
    w ⟨.beginCheckpoint (scopedNodeId scope node.id) node.kind.checkpointStatus, .error text⟩
  attempts : AttemptsPay w scope node
    (a + w ⟨.checkpointResult (scopedNodeId scope node.id), .ok none⟩ +
      w ⟨.beginCheckpoint (scopedNodeId scope node.id) node.kind.checkpointStatus, .ok ()⟩)
    (b + w ⟨.checkpointResult (scopedNodeId scope node.id), .ok none⟩ +
      w ⟨.beginCheckpoint (scopedNodeId scope node.id) node.kind.checkpointStatus, .ok ()⟩)

theorem pays_executeNodeWithRetry {a b : ℤ} (ha : ActivationPays w ctx.scope node a b)
    (inputs : StrMap Value) :
    Pays w a b (executeNodeWithRetry (executeNode sub) ctx node inputs locals) := by
  unfold executeNodeWithRetry
  refine pays_request_bind (fun x saved hx => ?_) fun x text hx => ?_
  · obtain rfl : x = .ok saved := hx
    cases saved with
    | some saved =>
      dsimp only
      split
      · exact .pure (ha.restored saved)
      · exact .throw (ha.damaged saved)
    | none =>
      refine pays_request_bind (fun x u hx => ?_) fun x text hx => ?_
      · obtain rfl : x = .ok u := hx
        cases (node.retry.map RetryPolicy.maxAttempts).getD 1 with
        | zero => exact .throw ha.attempts.fails
        | succ n => exact pays_runAttempts hw hsub ha.attempts inputs n 1
      · obtain rfl : x = .error text := hx
        exact ha.unbegun text
  · obtain rfl : x = .error text := hx
    exact ha.unread text

end Activation

/-- A worker reports a value or a failure, and pays for the report. -/
theorem credit_worker_of_pays (hw : Neutral w) {exec : NodeExecutor} {ctx : ExecutionContext}
    {state : GraphState} {node : WorkflowNode} {inputs : StrMap Value} {a b : ℤ}
    (hstart : 0 ≤ w ⟨.observe (.starting ctx.scope node.id state.settled inputs state.locals), ()⟩)
    (hvalue : ∀ result, a ≤ w ⟨.observe (.finished ctx.scope node.id (.ok result)), ()⟩)
    (hfailure : ∀ error, b ≤ w ⟨.observe (.finished ctx.scope node.id (.error error)), ()⟩)
    (hexec : Pays w a b (exec ctx node inputs state.locals)) :
    Credit w 0 (worker exec ctx state node inputs) := by
  have habort : Credit w 0 (Proc.call (.storeAbort ctx.control.abort)) :=
    Credit.op fun x => .ret (by simpa using hw.anonymous (.storeAbort _) trivial x)
  have hreport : ∀ {result : Except RunError NodeResult} {cost : ℤ},
      cost ≤ w ⟨.observe (.finished ctx.scope node.id result), ()⟩ →
        Credit w (-cost) (Proc.call (.observe (.finished ctx.scope node.id result))) :=
    fun h => Credit.op fun _ => .ret (by simpa using h)
  refine Credit.op fun _ => ?_
  refine Credit.mono (k := 0) ?_ (by simpa using hstart)
  -- the report costs what the activation has left over
  refine Pays.run_bind hexec (fun result => ?_) fun error => ?_
  · exact ((hreport (hvalue result)).bind fun _ => Credit.ret le_rfl).mono (by omega)
  · split
    · next h => cases h
    · exact ((hreport (hfailure _)).bind fun _ => Credit.ret le_rfl).mono (by omega)
    · exact ((hreport (hfailure _)).bind fun _ => habort.bind fun _ => Credit.ret le_rfl).mono
        (by omega)

/-- A weight every activation can pay for. -/
structure Affordable (w : RunEvent → ℤ) : Prop where
  neutral : Neutral w
  loop : NeutralLoop w
  starting : ∀ scope node settled inputs locals,
    0 ≤ w ⟨.observe (.starting scope node settled inputs locals), ()⟩
  activation : ∀ scope node, ∃ a b, ActivationPays w scope node a b ∧
    (∀ result, a ≤ w ⟨.observe (.finished scope node.id (.ok result)), ()⟩) ∧
    ∀ error, b ≤ w ⟨.observe (.finished scope node.id (.error error)), ()⟩
  result : ∀ result x, 0 ≤ w ⟨.setExecutionResult result, x⟩
  finish : ∀ status error x, 0 ≤ w ⟨.finishExecution status error, x⟩

theorem Affordable.executeGraph (h : Affordable w) (depth : Nat) (ctx : ExecutionContext)
    (nodes : List WorkflowNode) (entry : String) (locals : StrMap Value) :
    Credit w 0 (KakuneCore.executeGraph depth ctx nodes entry locals).run := by
  induction depth generalizing ctx nodes entry locals with
  | zero => exact .run_throw le_rfl
  | succ depth ih =>
    rw [executeGraph_succ]
    refine credit_executeGraphWith h.neutral (h.loop.rounds _ _)
      (fun node _ state inputs => ?_) entry
      locals
    obtain ⟨a, b, hpays, hvalue, hfailure⟩ := h.activation ctx.scope node
    refine credit_worker_of_pays h.neutral (h.starting _ _ _ _ _) hvalue hfailure ?_
    refine pays_executeNodeWithRetry h.neutral (fun g ctx' locals' _ => ?_) (by exact hpays) inputs
    exact .run_then le_rfl (ih _ _ _ _) fun _ => credit_resolveInputs h.neutral _ _ _ _

/-- **An affordable weight is never overspent** by an admitted execution. -/
theorem Affordable.executePreparedWorkflow (h : Affordable w) (plan : ExecutionPlan)
    (plugins : PluginRegistry) (limits : ExecutionLimits) (serde : SerdeJson) :
    Credit w 0 (KakuneCore.executePreparedWorkflow plan plugins limits serde).run :=
  credit_executePreparedWorkflow h.neutral h.result h.finish (h.executeGraph _ _ _ _ _)

/-! ### Events of an activation -/

/-- The checkpoint of an activation is begun. -/
def begins (id : String) : RunEvent → Bool
  | ⟨.beginCheckpoint id' _, .ok ()⟩ => id' = id
  | _ => false

/-- The checkpoint of an activation is completed, with or without a result. -/
def completes (id : String) : RunEvent → Bool
  | ⟨.completeCheckpoint id' _, .ok ()⟩ => id' = id
  | _ => false

/-- An activation is given its saved result. -/
def restores (id : String) : RunEvent → Bool
  | ⟨.checkpointResult id', .ok (some _)⟩ => id' = id
  | _ => false

/-- An activation reports a result. -/
def succeeds (id : String) : RunEvent → Bool
  | ⟨.observe (.finished scope node (.ok _)), _⟩ => scopedNodeId scope node = id
  | _ => false

/-- An activation reports a failure. -/
def fails (id : String) : RunEvent → Bool
  | ⟨.observe (.finished scope node (.error _)), _⟩ => scopedNodeId scope node = id
  | _ => false

/-- Begun checkpoints against completed ones. -/
def completionWeight (id : String) (e : RunEvent) : ℤ :=
  indicator (begins id) e - indicator (completes id) e

/-- Completed and restored results against reported ones. -/
def reportWeight (id : String) (e : RunEvent) : ℤ :=
  indicator (completes id) e + indicator (restores id) e - indicator (succeeds id) e

/-- The operations the two weights look at. -/
def Op.Checkpoints : Op → Prop
  | .checkpointResult _ | .beginCheckpoint _ _ | .completeCheckpoint _ _
  | .observe (.finished _ _ _) => True
  | _ => False

/-- A weight on checkpoint calls and reports that activations pay for is affordable. -/
theorem affordable_of_activation (hother : ∀ e : RunEvent, ¬ e.1.Checkpoints → w e = 0)
    (hactivation : ∀ scope node, ∃ a b,
      (BodyBudget w scope node (fun _ => 0) 0 →
        0 ≤ w ⟨.observe (.executing (scopedNodeId scope node.id) node.kind), ()⟩ →
          ActivationPays w scope node a b) ∧
      (∀ result, a ≤ w ⟨.observe (.finished scope node.id (.ok result)), ()⟩) ∧
      ∀ error, b ≤ w ⟨.observe (.finished scope node.id (.error error)), ()⟩) :
    Affordable w := by
  have hzero : ∀ (o : Op) (x : Resp o), ¬ o.Checkpoints → 0 ≤ w ⟨o, x⟩ :=
    fun o x ho => (hother ⟨o, x⟩ ho).ge
  have hsum : ∀ xs : List Nat, (xs.map fun _ => (0 : ℤ)).sum ≤ 0 := by
    intro xs
    simp
  refine
    { neutral := ⟨fun o ho x => hzero o x ?_, fun _ _ _ _ => hzero _ _ id⟩
      loop := ⟨fun _ _ => hzero _ _ id, fun _ _ _ _ => hzero _ _ id, fun _ _ _ => hzero _ _ id⟩
      starting := fun _ _ _ _ _ => hzero _ _ id
      activation := fun scope node => ?_
      result := fun _ _ => hzero _ _ id
      finish := fun _ _ _ => hzero _ _ id }
  · cases o <;> first | exact id | exact ho.elim
  · obtain ⟨a, b, hpays, hvalue, hfailure⟩ := hactivation scope node
    refine ⟨a, b, hpays ⟨le_rfl, fun _ => le_rfl, fun _ => le_rfl, fun _ _ => hsum _,
      fun _ _ => hsum _, fun _ _ => ?_, fun _ _ _ => ?_⟩ (hzero _ _ id), hvalue, hfailure⟩
    · simpa using hzero _ _ id
    · simpa using hzero _ _ id

theorem completionWeight_of_not_checkpoints (id : String) (e : RunEvent)
    (he : ¬ e.1.Checkpoints) : completionWeight id e = 0 := by
  obtain ⟨o, x⟩ := e
  cases o <;> first | exact absurd trivial he | rfl

theorem reportWeight_of_not_checkpoints (id : String) (e : RunEvent)
    (he : ¬ e.1.Checkpoints) : reportWeight id e = 0 := by
  obtain ⟨o, x⟩ := e
  cases o with
  | observe observation => cases observation <;> first | exact absurd trivial he | rfl
  | _ => first | exact absurd trivial he | rfl

theorem affordable_completionWeight (id : String) : Affordable (completionWeight id) := by
  refine affordable_of_activation (completionWeight_of_not_checkpoints id) fun scope node => ?_
  -- beginning earns what completing costs
  refine ⟨0, 0, fun hbody hexecuting => ⟨fun _ => ?_, fun _ => ?_, fun _ => ?_, fun _ => ?_,
    ⟨hbody, hexecuting, ?_, fun _ => ?_, fun _ => ?_, fun _ _ => ?_⟩⟩, fun _ => ?_, fun _ => ?_⟩
  all_goals simp [completionWeight, indicator, begins, completes]
  all_goals split <;> simp

theorem affordable_reportWeight (id : String) : Affordable (reportWeight id) := by
  refine affordable_of_activation (reportWeight_of_not_checkpoints id) fun scope node => ?_
  -- a result is reported after it was completed or restored
  refine ⟨if scopedNodeId scope node.id = id then -1 else 0, 0, fun hbody hexecuting =>
    ⟨fun _ => ?_, fun _ => ?_, fun _ => ?_, fun _ => ?_,
    ⟨hbody, hexecuting, ?_, fun _ => ?_, fun _ => ?_, fun _ _ => ?_⟩⟩, fun _ => ?_, fun _ => ?_⟩
  all_goals simp [reportWeight, indicator, completes, restores, succeeds]
  all_goals split <;> simp

/-! ### Counts at every point of a run -/

/-- A surrounding that refuses every call. -/
def refusing : (o : Op) → Resp o
  | .shutdownRequested | .loadAbort _ | .deadlineReached => false
  | .storeAbort _ | .observe _ => ()
  | .waitSlices _ => 0
  | .invoke _ _ _ _ => (0, .error "refused")
  | .cancelRequested | .checkpointResult _ | .durableDelayRemaining _ _ | .resolveSecret _
  | .beginCheckpoint _ _ | .completeCheckpoint _ _ | .startTraceSpan _ _ | .finishTraceSpan _ _ _
  | .recordNodeOutcome _ _ | .setExecutionResult _ | .finishExecution _ _ => .error "refused"

section Counts

variable {plan : ExecutionPlan} {plugins : PluginRegistry} {limits : ExecutionLimits}
  {serde : SerdeJson} {t : RunTrace} {r : Option (Except RunError ExecutionEnd)}
  (hrun : Runs (executePreparedWorkflow plan plugins limits serde).run t r)
include hrun

/-- **A checkpoint is completed at most as often as it is begun.** -/
theorem countP_completes_le_begins (id : String) :
    t.countP (completes id) ≤ t.countP (begins id) := by
  have hcredit := (affordable_completionWeight id).executePreparedWorkflow plan plugins limits serde
  have hspent := hcredit.cut hrun refusing fun o => by
    cases o <;> simp [completionWeight, indicator, begins, completes, refusing]
  have hbalance : balance (completionWeight id) t =
      (t.countP (begins id) : ℤ) - t.countP (completes id) := by
    rw [← balance_indicator, ← balance_indicator, ← balance_sub]
    rfl
  omega

/-- **A result is reported at most as often as it is completed or restored.** -/
theorem countP_succeeds_le_completes (id : String) :
    t.countP (succeeds id) ≤ t.countP (completes id) + t.countP (restores id) := by
  have hcredit := (affordable_reportWeight id).executePreparedWorkflow plan plugins limits serde
  have hspent := hcredit.cut hrun refusing fun o => by
    have hcompletes : indicator (completes id) ⟨o, refusing o⟩ = 0 := by cases o <;> rfl
    have hrestores : indicator (restores id) ⟨o, refusing o⟩ = 0 := by cases o <;> rfl
    have hsucceeds := indicator_nonneg (succeeds id) ⟨o, refusing o⟩
    rw [reportWeight, hcompletes, hrestores]
    omega
  have hbalance : balance (reportWeight id) t =
      (t.countP (completes id) : ℤ) + t.countP (restores id) - t.countP (succeeds id) := by
    rw [← balance_indicator, ← balance_indicator, ← balance_indicator, ← balance_add,
      ← balance_sub]
    rfl
  omega

end Counts

end KakuneCore
