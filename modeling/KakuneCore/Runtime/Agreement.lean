import KakuneCore.Runtime.Accounts
import KakuneCore.Runtime.Dependence

/-!
# Two runs of a node

Two runs of one node, given the same inputs and local bindings that agree on what its nested graphs
read, come to the same result: the bodies of control nodes are compared step by step, external nodes
are assumed to answer alike, and attempts do not fail. One of the runs may take the result from a
checkpoint that the other one has completed.

The two runs may differ in `maxParallelNodes`.
-/

namespace KakuneCore

open Proc

/-! ### What is assumed of the two runs -/

/-- Operations whose events are never compared. -/
def Op.Minor : Op → Prop
  | .recordNodeOutcome _ _ | .completeCheckpoint _ _ | .setExecutionResult _ | .finishExecution _ _
  | .observe (.finished _ _ _) => False
  | _ => True

theorem Op.Anonymous.minor {o : Op} (h : o.Anonymous) : o.Minor := by
  cases o <;> trivial

/-- No node, no foreach item and no attempt fails. -/
def Succeeding : RunEvent → Prop
  | ⟨.observe (.finished _ _ (.error _)), _⟩ => False
  | ⟨.observe (.itemFinished _ _ _ (.error _)), _⟩ => False
  | ⟨.recordNodeOutcome _ (.failed _), _⟩ => False
  | ⟨.finishTraceSpan _ status _, _⟩ => status = .succeeded
  | _ => True

/-- No result is restored from a checkpoint. -/
def Fresh : RunEvent → Prop
  | ⟨.checkpointResult _, .ok (some _)⟩ => False
  | _ => True

/-- A fallible call is answered with an error. -/
def Refused : RunEvent → Prop
  | ⟨.cancelRequested, x⟩ => ∃ text, x = .error text
  | ⟨.checkpointResult _, x⟩ => ∃ text, x = .error text
  | ⟨.durableDelayRemaining _ _, x⟩ => ∃ text, x = .error text
  | ⟨.resolveSecret _, x⟩ => ∃ text, x = .error text
  | ⟨.beginCheckpoint _ _, x⟩ => ∃ text, x = .error text
  | ⟨.completeCheckpoint _ _, x⟩ => ∃ text, x = .error text
  | ⟨.startTraceSpan _ _, x⟩ => ∃ text, x = .error text
  | ⟨.finishTraceSpan _ _ _, x⟩ => ∃ text, x = .error text
  | ⟨.recordNodeOutcome _ _, x⟩ => ∃ text, x = .error text
  | ⟨.setExecutionResult _, x⟩ => ∃ text, x = .error text
  | ⟨.finishExecution _ _, x⟩ => ∃ text, x = .error text
  | _ => False

/-- A comparison of two runs of the runtime: neither fails, the right one starts afresh, and what
the left one restores is what the right one completes. -/
structure Compares (c : Comparison Op Resp) : Prop where
  quiet : ∀ e : RunEvent, e.1.Minor → c.quiet e
  quiet_refused : ∀ e, Refused e → c.quiet e
  same : ∀ e, c.rel [e] [e]
  left : ∀ e, c.left e → Succeeding e
  right : ∀ e, c.right e → Succeeding e ∧ Fresh e
  check : ∀ (control : RunControl) (t : RunTrace) (e : RunError),
    Runs control.check.run t (some (.error e)) → (∀ e ∈ t, c.left e) → c.failing
  refused : ∀ e, Refused e → c.left e → c.failing
  restored : ∀ id saved, c.left ⟨.checkpointResult id, .ok (some saved)⟩ → (∀ u, c.rel [] u) ∧
    ∀ result, c.right ⟨.completeCheckpoint id result, .ok ()⟩ → result = some saved

/-- The same context with another width of parallel batches. -/
abbrev ExecutionContext.width (ctx : ExecutionContext) (k : Nat) : ExecutionContext :=
  { ctx with maxParallelNodes := k }

variable {c : Comparison Op Resp} {α β γ δ : Type}

/-! ### Steps -/

theorem tracks_liftExcept_bind {r : Except RunError α} {f : α → RunM β} {g : α → RunM γ}
    {S : β → γ → Prop} (h : ∀ a, r = .ok a → Tracks c (f a) (g a) S) :
    Tracks c (liftExcept r >>= f) (liftExcept r >>= g) S := by
  cases r with
  | ok a => exact h a rfl
  | error e => exact .throw_right

theorem runs_request {o : Op} {hr : Resp o = Except String α} {t : RunTrace}
    {r : Option (Except RunError α)} (h : Runs (request o hr).run t r) :
    (t = [] ∧ r = none) ∨ ∃ x, t = [⟨o, x⟩] ∧ (r = none ∨ r = some (ofAnswer (cast hr x))) := by
  obtain ⟨rfl, rfl⟩ | ⟨x, t', rfl, hrest⟩ := runs_op_iff.mp h
  · exact .inl ⟨rfl, rfl⟩
  · obtain ⟨rfl, hres⟩ := runs_ret_iff.mp hrest
    exact .inr ⟨x, rfl, hres⟩

section Steps

variable (hc : Compares c)
include hc

/-- Two requests, compared by their answers. -/
theorem Compares.request {o o' : Op} {hr : Resp o = Except String α}
    {hr' : Resp o' = Except String β} {S : α → β → Prop}
    (h : ∀ x a y b, cast hr x = .ok a → cast hr' y = .ok b → c.left ⟨o, x⟩ → c.right ⟨o', y⟩ →
      c.rel [⟨o, x⟩] [⟨o', y⟩] ∧ S a b)
    (hrefused : ∀ x text, cast hr x = .error text → Refused ⟨o, x⟩ := by
      exact fun _ text h => ⟨text, h⟩) :
    Tracks c (request o hr) (request o' hr') S := by
  intro t r u b hx hy hl hrs
  obtain ⟨-, hb⟩ | ⟨y, rfl, hb⟩ := runs_request hy
  · cases hb
  have hyb : cast hr' y = .ok b := by
    cases hcast : cast hr' y with
    | error text => rw [hcast] at hb; simp [ofAnswer] at hb
    | ok b' =>
      rw [hcast] at hb
      simp only [ofAnswer, Option.some.injEq, Except.ok.injEq, reduceCtorEq, false_or] at hb
      rw [hb]
  obtain ⟨rfl, rfl⟩ | ⟨x, rfl, hres⟩ := runs_request hx
  · exact c.part_nil _
  have hle := hl _ List.mem_cons_self
  have hre := hrs _ List.mem_cons_self
  cases hxa : cast hr x with
  | ok a =>
    obtain ⟨hrel, hS⟩ := h x a y b hxa hyb hle hre
    rcases hres with rfl | rfl
    · exact c.part_of_rel hrel
    · rw [hxa]
      exact ⟨hrel, hS⟩
  | error text =>
    have hpart : c.part [⟨o, x⟩] [⟨o', y⟩] := by
      have hquiet : c.rel [⟨o, x⟩] [] := c.rel_quiet (by
        simpa using hc.quiet_refused _ (hrefused x text hxa)) (by simp)
      exact c.part_append_right (c.part_of_rel hquiet) [⟨o', y⟩]
    rcases hres with rfl | rfl
    · exact hpart
    · rw [hxa]
      exact ⟨hc.refused _ (hrefused x text hxa) hle, hpart⟩

/-- Requests that are not compared. -/
theorem Compares.request_minor {o o' : Op} {hr : Resp o = Except String α}
    {hr' : Resp o' = Except String β} (ho : o.Minor) (ho' : o'.Minor)
    (hrefused : ∀ x text, cast hr x = .error text → Refused ⟨o, x⟩ := by
      exact fun _ text h => ⟨text, h⟩) :
    Tracks c (KakuneCore.request o hr) (KakuneCore.request o' hr') fun _ _ => True :=
  hc.request (fun x _ y _ _ _ _ _ => ⟨c.rel_quiet (by simpa using hc.quiet ⟨o, x⟩ ho)
    (by simpa using hc.quiet ⟨o', y⟩ ho'), trivial⟩) hrefused

/-- The same request on both sides. -/
theorem Compares.request_same {o : Op} {hr : Resp o = Except String Unit}
    (hrefused : ∀ x text, cast hr x = .error text → Refused ⟨o, x⟩ := by
      exact fun _ text h => ⟨text, h⟩) :
    Tracks c (KakuneCore.request o hr) (KakuneCore.request o hr) fun _ _ => True := by
  refine hc.request (fun x a y b hx hy _ _ => ⟨?_, trivial⟩) hrefused
  have hxy : x = y := by
    have : cast hr x = cast hr y := by rw [hx, hy]
    exact cast_inj hr |>.mp this
  rw [hxy]
  exact hc.same _

theorem Compares.observe_minor {o o' : Observation} (ho : (Op.observe o).Minor)
    (ho' : (Op.observe o').Minor) : Tracks c (observe o) (observe o') fun _ _ => True :=
  .lift (.call fun x y _ _ => ⟨c.rel_quiet (by simpa using hc.quiet ⟨.observe o, x⟩ ho)
    (by simpa using hc.quiet ⟨.observe o', y⟩ ho'), trivial⟩)

theorem Compares.check_check (control control' : RunControl) :
    Tracks c control.check control'.check fun _ _ => True :=
  .of_quiet (P := Op.Minor) (only_check (fun _ ho => ho.minor) _)
    (only_check (fun _ ho => ho.minor) _) hc.quiet
    (hc.check control)

theorem Compares.failing_of_poll {control : RunControl} {n : Nat} {t : RunTrace} {e : RunError}
    (h : Runs (control.poll n).run t (some (.error e))) (hl : ∀ e ∈ t, c.left e) : c.failing := by
  induction n generalizing t with
  | zero =>
    obtain ⟨-, h | h⟩ := runs_run_pure.mp h
    · cases h
    · cases h
  | succ n ih =>
    obtain ⟨h, -⟩ | ⟨e', -, h⟩ | ⟨_, u, v, rfl, -, hv⟩ := runs_run_bind h
    · cases h
    · exact hc.check control t e' h hl
    · exact ih hv fun e he => hl e (List.mem_append_right _ he)

theorem Compares.poll_poll (control control' : RunControl) (n n' : Nat) :
    Tracks c (control.poll n) (control'.poll n') fun _ _ => True :=
  .of_quiet (P := Op.Minor) (only_poll (fun _ ho => ho.minor) _ _)
    (only_poll (fun _ ho => ho.minor) _ _) hc.quiet
    fun _ _ => hc.failing_of_poll

theorem Compares.wait_wait (control control' : RunControl) (m m' : Nat) :
    Tracks c (control.wait m) (control'.wait m') fun _ _ => True := by
  refine .bind (S := fun _ _ => True) ?_ fun slices slices' _ => ?_
  · exact .lift
      (.call fun x y _ _ => ⟨c.rel_quiet (by simpa using hc.quiet ⟨.waitSlices m, x⟩ trivial)
      (by simpa using hc.quiet ⟨.waitSlices m', y⟩ trivial), trivial⟩)
  · exact .bind (hc.poll_poll _ _ _ _) fun _ _ _ => hc.check_check _ _

end Steps

/-! ### Control nodes -/

theorem eq_of_forall₂_zip {ι : Type} {xs : List ι} {as bs : List α} (ha : as.length = xs.length)
    (hb : bs.length = xs.length)
    (h : List.Forall₂ (fun p q : ι × α => p.2 = q.2) (xs.zip as) (xs.zip bs)) : as = bs := by
  have hsnd := List.forall₂_eq_eq_eq.subst (motive := fun R => R ((xs.zip as).map Prod.snd)
    ((xs.zip bs).map Prod.snd)) (List.forall₂_map_left_iff.mpr (List.forall₂_map_right_iff.mpr h))
  rwa [List.map_snd_zip (by omega), List.map_snd_zip (by omega)] at hsnd

section Bodies

variable (hc : Compares c) {V : String → Prop} {sub sub' : SubgraphRunner} {ctx : ExecutionContext}
  {k : Nat} {node : WorkflowNode}
  (hsub : ∀ g scope span locals locals', Child ctx.scope node g scope → AgreeOn V locals locals' →
    Tracks c (sub { ctx with scope, activeSpan := span } g locals)
      (sub' { ctx.width k with scope, activeSpan := span } g locals') Eq)
  {locals locals' : StrMap Value} (hl : AgreeOn V locals locals')
include hc hsub hl

omit hc in
theorem tracks_executeSwitch (hk : node.kind = .switch) (span : SpanId) (inputs : StrMap Value) :
    Tracks c (executeSwitch sub { ctx with activeSpan := span } node inputs locals)
      (executeSwitch sub' { ctx.width k with activeSpan := span } node inputs locals') Eq := by
  unfold executeSwitch
  cases inputs.get? "value" with
  | none => exact .throw_right
  | some value =>
    refine tracks_liftExcept_bind fun selector _ => tracks_liftExcept_bind fun name _ => ?_
    cases hbranch : StrMap.get? node.branches name with
    | none => exact .throw_right
    | some branch =>
      refine .bind (hsub _ _ _ _ _ (.branch hk hbranch) (hl.insert _ _)) fun outputs _ h => ?_
      subst h
      exact .pure rfl

theorem lockstep_itemWorker (hk : node.kind = .foreach) (span : SpanId) {body : WorkflowSubgraph}
    (hbody : node.body = some body) (index : Nat) (item : Value) :
    Lockstep c (itemWorker sub { ctx with activeSpan := span } node body locals index item)
      (itemWorker sub' { ctx.width k with activeSpan := span } node body locals' index item)
      fun r r' => ∃ outputs, r = .ok outputs ∧ r' = .ok outputs := by
  have hrun := hsub body _ span _ _ (.item index hk hbody)
    ((hl.insert "$item" item).insert "$index" (.number (.int index)))
  refine Tracks.run_bind hrun (fun a b hab => ?_) (fun e t r ht hle => ?_) fun e u d hu hre => ?_
  · subst hab
    refine .bind (S := fun _ _ => True) (.call fun x y _ _ => ⟨?_, trivial⟩)
      fun _ _ _ => .ret ⟨a, rfl, rfl⟩
    exact c.rel_quiet (by simpa using hc.quiet ⟨.observe _, x⟩ trivial)
      (by simpa using hc.quiet ⟨.observe _, y⟩ trivial)
  · -- a failed item is reported before anything else happens
    obtain ⟨rfl, rfl⟩ | ⟨x, t', rfl, -⟩ := runs_op_iff.mp ht
    · exact ⟨rfl, rfl⟩
    · exact absurd (hc.left _ (hle _ List.mem_cons_self)) id
  · obtain ⟨-, h⟩ | ⟨x, t', rfl, -⟩ := runs_op_iff.mp hu
    · cases h
    · exact absurd (hc.right _ (hre _ List.mem_cons_self)).1 id

theorem tracks_foreachChunks (hk : node.kind = .foreach) (span : SpanId) {body : WorkflowSubgraph}
    (hbody : node.body = some body) (start : Nat) (batches : List (List Value)) :
    Tracks c
      (foreachChunks sub { ctx with activeSpan := span } node body locals node.continuesOnError
        start batches)
      (foreachChunks sub' { ctx.width k with activeSpan := span } node body locals'
        node.continuesOnError start batches) Eq := by
  induction batches generalizing start with
  | nil => exact .pure rfl
  | cons chunk rest ih =>
    have hpool := Lockstep.parallel (c := c)
      (f := fun x : Value × Nat => itemWorker sub { ctx with activeSpan := span } node body locals
        (start + x.2) x.1)
      (g := fun x : Value × Nat => itemWorker sub' { ctx.width k with activeSpan := span } node body
        locals' (start + x.2) x.1)
      (S := fun _ _ r r' => ∃ outputs, r = .ok outputs ∧ r' = .ok outputs)
      (List.forall₂_same.mpr fun (x : Value × Nat) (_ : x ∈ chunk.zipIdx) =>
        lockstep_itemWorker hc hsub hl hk span hbody _ _)
    refine .bind (.lift hpool) fun outcomes outcomes' h => ?_
    obtain rfl :=
      eq_of_forall₂_zip h.1 h.2.1 (h.2.2.imp fun _ _ ⟨outputs, hp, hq⟩ => hp.trans hq.symm)
    refine tracks_liftExcept_bind fun _ _ => tracks_liftExcept_bind fun elements _ => ?_
    refine .bind (ih _) fun others _ h => ?_
    subst h
    exact .pure rfl

theorem tracks_executeForeach (hk : node.kind = .foreach) (span : SpanId) (inputs : StrMap Value) :
    Tracks c (executeForeach sub { ctx with activeSpan := span } node inputs locals)
      (executeForeach sub' { ctx.width k with activeSpan := span } node inputs locals') Eq := by
  unfold executeForeach
  split
  · exact .throw_right
  · exact .throw_right
  · exact .throw_right
  · next body _ _ hbody =>
    refine .bind (S := Eq) ?_ fun batches _ h => ?_
    · unfold chunked doWhen
      split
      · exact .throw_right
      · exact .pure rfl
    · subst h
      refine .bind (tracks_foreachChunks hc hsub hl hk span hbody 0 batches) fun results _ h => ?_
      subst h
      exact .pure rfl

omit hc in
theorem tracks_loopIterations (hk : node.kind = .loop) (span : SpanId) {body : WorkflowSubgraph}
    (hbody : node.body = some body) (remaining iteration : Nat) (state : Value)
    (last : StrMap Value) :
    Tracks c
      (loopIterations sub { ctx with activeSpan := span } node body locals remaining iteration state
        last)
      (loopIterations sub' { ctx.width k with activeSpan := span } node body locals' remaining
        iteration state last) Eq := by
  induction remaining generalizing iteration state last with
  | zero => exact .pure rfl
  | succ remaining ih =>
    unfold loopIterations
    have hrun := hsub body _ span _ _ (.iteration iteration hk hbody)
      ((hl.insert "$state" state).insert "$iteration" (.number (.int iteration)))
    refine .bind hrun fun outputs _ h => ?_
    subst h
    cases outputs.get? "state" with
    | none => exact .throw_right
    | some state' =>
      cases (outputs.get? "continue").bind Value.asBool with
      | none => exact .throw_right
      | some continues =>
        cases continues with
        | false => exact .pure rfl
        | true => exact ih _ _ _

omit hc in
theorem tracks_executeLoop (hk : node.kind = .loop) (span : SpanId) (inputs : StrMap Value) :
    Tracks c (executeLoop sub { ctx with activeSpan := span } node inputs locals)
      (executeLoop sub' { ctx.width k with activeSpan := span } node inputs locals') Eq := by
  unfold executeLoop
  split
  · exact .throw_right
  · exact .throw_right
  · exact .throw_right
  · next hbody _ => exact tracks_loopIterations hsub hl hk span hbody _ _ _ _

end Bodies

/-! ### Single nodes -/

/-- Kinds of nodes that hand their work to an external node. -/
def NodeKind.IsExternal : NodeKind → Prop
  | .httpRequest | .processRun | .other => True
  | _ => False

/-- External nodes answer alike on both sides. -/
def AnswersAlike (c : Comparison Op Resp) : Prop :=
  ∀ id nodeType config inputs x y, c.left ⟨.invoke id nodeType config inputs, x⟩ →
    c.right ⟨.invoke id nodeType config inputs, y⟩ → x.2 = y.2

section Nodes

variable (hc : Compares c) {V : String → Prop} {sub sub' : SubgraphRunner} {ctx : ExecutionContext}
  {k : Nat} {node : WorkflowNode}
  (hsub : ∀ g scope span locals locals', Child ctx.scope node g scope → AgreeOn V locals locals' →
    Tracks c (sub { ctx with scope, activeSpan := span } g locals)
      (sub' { ctx.width k with scope, activeSpan := span } g locals') Eq)
  (hext : node.kind.IsExternal → AnswersAlike c)
  {locals locals' : StrMap Value} (hl : AgreeOn V locals locals')
include hc hext

omit hext in
theorem tracks_executeExternal (hext : AnswersAlike c) (span : SpanId) (inputs : StrMap Value) :
    Tracks c (executeExternal { ctx with activeSpan := span } node inputs)
      (executeExternal { ctx.width k with activeSpan := span } node inputs) Eq := by
  unfold executeExternal
  refine .bind (S := fun _ _ => True) ?_ fun _ _ _ => ?_
  · unfold doWhen
    split
    · exact hc.check_check _ _
    · exact .pure trivial
  refine .bind (S := fun x y => x.2 = y.2) (.lift (.call fun x y hx hy => ⟨?_, ?_⟩)) fun x y h => ?_
  · exact c.rel_quiet (by simpa using hc.quiet ⟨.invoke _ _ _ _, x⟩ trivial)
      (by simpa using hc.quiet ⟨.invoke _ _ _ _, y⟩ trivial)
  · exact hext _ _ _ _ x y hx hy
  obtain ⟨polls, result⟩ := x
  obtain ⟨polls', result'⟩ := y
  obtain rfl : result = result' := h
  refine .bind (hc.poll_poll _ _ _ _) fun _ _ _ => ?_
  exact Coincide.tracks (.liftExcept _)

omit hext in
theorem tracks_executeDelay (span : SpanId) (inputs : StrMap Value) :
    Tracks c (executeDelay { ctx with activeSpan := span } node inputs)
      (executeDelay { ctx.width k with activeSpan := span } node inputs) Eq := by
  unfold executeDelay
  refine tracks_liftExcept_bind fun milliseconds _ => ?_
  refine .bind (hc.request_minor trivial trivial) fun _ _ _ => ?_
  exact .bind (hc.wait_wait _ _ _ _) fun _ _ _ => .pure rfl

include hsub hl

/-- **One node body, run twice.** -/
theorem tracks_executeNode (span : SpanId) (inputs : StrMap Value) :
    Tracks c (executeNode sub { ctx with activeSpan := span } node inputs locals)
      (executeNode sub' { ctx.width k with activeSpan := span } node inputs locals') Eq := by
  unfold executeNode
  cases hk : node.kind with
  | «end» => exact .pure rfl
  | log => exact tracks_liftExcept_bind fun message _ => .pure rfl
  | «if» => exact tracks_liftExcept_bind fun condition _ => .pure rfl
  | switch => exact tracks_executeSwitch hsub hl hk span inputs
  | foreach => exact tracks_executeForeach hc hsub hl hk span inputs
  | loop => exact tracks_executeLoop hsub hl hk span inputs
  | delay => exact tracks_executeDelay hc span inputs
  | join => exact .pure rfl
  | merge => exact .pure rfl
  | pass => exact .pure rfl
  | setVariable =>
    cases inputs.get? "value" with
    | none => exact .throw_right
    | some value => exact .pure rfl
  | httpRequest => exact tracks_executeExternal hc (hext (by rw [hk]; trivial)) span inputs
  | processRun => exact tracks_executeExternal hc (hext (by rw [hk]; trivial)) span inputs
  | other =>
    dsimp only
    split
    · exact tracks_executeExternal hc (hext (by rw [hk]; trivial)) span inputs
    · exact .throw_right

omit hext hsub hl in
theorem tracks_completeAttempt (span : SpanId) (result : NodeResult) :
    Tracks c (completeAttempt ctx node span result) (completeAttempt (ctx.width k) node span result)
      Eq := by
  unfold completeAttempt
  split
  · next hlimit =>
    have hlimit' : (ctx.width k).maxNodeResultBytes.filter
        (· < (ctx.width k).serde.encodedLength result.toValue) = some _ := hlimit
    rw [hlimit']
    exact .bind (hc.request_minor trivial trivial) fun _ _ _ => .throw_right
  · next hlimit =>
    have hlimit' : (ctx.width k).maxNodeResultBytes.filter
        (· < (ctx.width k).serde.encodedLength result.toValue) = none := hlimit
    rw [hlimit']
    refine .bind hc.request_same fun _ _ _ => ?_
    exact .bind (hc.request_minor trivial trivial) fun _ _ _ => .pure rfl

omit hc hext hsub hl in
/-- A failed attempt is told apart: where no attempt is reported as failed, nothing comes after
one. -/
theorem runs_afterFailure {body : NodeExecutor} {inputs : StrMap Value} {span : SpanId}
    {remaining attempt : Nat} {error : RunError} {t : RunTrace}
    {r : Option (Except RunError NodeResult)}
    (h : Runs (match remaining with
      | 0 => failAttempt span error
      | remaining + 1 =>
        if error = .panic ∨ error.stopsRetry then failAttempt span error
        else do
          request (α := Unit) (.finishTraceSpan span .failed (some error.message))
          match node.retry.bind (retryDelay · attempt) with
          | none => throw .panic
          | some delay =>
            ctx.control.wait delay
            runAttempts body ctx node inputs locals remaining (attempt + 1) :
                RunM NodeResult).run t r)
    (ht : ∀ e ∈ t, Succeeding e) : t = [] ∧ (r = none ∨ ∃ e, r = some (.error e)) := by
  have hclose : ∀ {β : Type} {status : SpanStatus} {text : Option String} {f : Unit → RunM β}
      {t : RunTrace} {r : Option (Except RunError β)}, status ≠ .succeeded →
      Runs (request (α := Unit) (.finishTraceSpan span status text) >>= f).run t r →
      (∀ e ∈ t, Succeeding e) → t = [] ∧ r = none := by
    intro β status text f t r hstatus hrun ht
    obtain ⟨rfl, rfl⟩ | ⟨x, t', rfl, -⟩ := runs_op_iff.mp hrun
    · exact ⟨rfl, rfl⟩
    · exact absurd (ht _ List.mem_cons_self) hstatus
  have hfail : ∀ {t : RunTrace} {r : Option (Except RunError NodeResult)},
      Runs (failAttempt span error).run t r → (∀ e ∈ t, Succeeding e) →
      t = [] ∧ (r = none ∨ ∃ e, r = some (.error e)) := by
    intro t r hrun ht
    unfold failAttempt at hrun
    by_cases hpanic : error = .panic
    · rw [doWhen, if_pos (by simpa using hpanic)] at hrun
      obtain ⟨rfl, hthrow⟩ | ⟨e, rfl, hthrow⟩ | ⟨_, _, _, _, hthrow, -⟩ := runs_run_bind hrun
      · exact ⟨(runs_run_throw.mp hthrow).1, .inl rfl⟩
      · exact ⟨(runs_run_throw.mp hthrow).1, .inr ⟨e, rfl⟩⟩
      · obtain ⟨-, h | h⟩ := runs_run_throw.mp hthrow
        · cases h
        · cases h
    · rw [doWhen, if_neg (by simpa using hpanic)] at hrun
      have hstatus : error.spanStatus ≠ .succeeded := by
        unfold RunError.spanStatus
        split <;> nofun
      obtain ⟨ht, hr⟩ := hclose hstatus hrun ht
      exact ⟨ht, .inl hr⟩
  cases remaining with
  | zero => exact hfail h ht
  | succ remaining =>
    dsimp only at h
    split at h
    · exact hfail h ht
    · obtain ⟨ht, hr⟩ := hclose (by nofun) h ht
      exact ⟨ht, .inl hr⟩

/-- Without a failed attempt there is one attempt. -/
theorem tracks_runAttempts (inputs : StrMap Value) (remaining attempt : Nat) :
    Tracks c (runAttempts (executeNode sub) ctx node inputs locals remaining attempt)
      (runAttempts (executeNode sub') (ctx.width k) node inputs locals' remaining attempt) Eq := by
  unfold runAttempts
  refine .bind (hc.request_minor trivial trivial) fun _ _ _ => ?_
  refine .bind (hc.observe_minor trivial trivial) fun _ _ _ => ?_
  refine Tracks.lift_run_bind (tracks_executeNode hc hsub hext hl _ inputs) (fun a b h => ?_)
    (fun e t v ht hle => ?_) (fun e t r ht hle => ?_) fun e u d hu hre => ?_
  · subst h
    exact tracks_completeAttempt hc _ a
  · obtain ⟨-, h | ⟨_, h⟩⟩ := runs_afterFailure ht fun e he => hc.left e (hle e he)
    · cases h
    · cases h
  · obtain ⟨rfl, -⟩ := runs_afterFailure ht fun e he => hc.left e (hle e he)
    exact c.part_nil []
  · obtain ⟨-, h | ⟨_, h⟩⟩ := runs_afterFailure hu fun e he => (hc.right e (hre e he)).1
    · cases h
    · cases h

omit hc hext hsub hl in
theorem mem_of_runs_completeAttempt {span : SpanId} {result b : NodeResult} {u : RunTrace}
    (h : Runs (completeAttempt ctx node span result).run u (some (.ok b))) :
    (⟨.completeCheckpoint (scopedNodeId ctx.scope node.id)
      (if isSensitive ctx node then none else some b.toValue), .ok ()⟩ : RunEvent) ∈ u := by
  unfold completeAttempt at h
  split at h
  · obtain ⟨_, _, _, -, -, h⟩ := runs_run_bind_ok h
    exact absurd h not_runs_run_throw_ok
  · obtain ⟨_, u₁, u₂, rfl, hcomplete, h⟩ := runs_run_bind_ok h
    obtain ⟨_, u₃, u₄, rfl, -, h⟩ := runs_run_bind_ok h
    obtain ⟨-, h | h⟩ := runs_run_pure.mp h
    · cases h
    obtain rfl : b = result := by simpa using h
    refine List.mem_append_left _ ?_
    obtain ⟨-, h⟩ | ⟨x, rfl, h | h⟩ := runs_request hcomplete
    · cases h
    · cases h
    · -- only an accepted call lets the attempt succeed
      change Except String Unit at x
      cases x with
      | ok u => exact List.mem_cons_self
      | error text => cases h

omit hc hext hsub hl in
theorem not_runs_failAttempt_ok {span : SpanId} {error : RunError} {u : RunTrace} {b : NodeResult} :
    ¬ Runs (failAttempt span error).run u (some (.ok b)) := by
  intro h
  unfold failAttempt at h
  obtain ⟨_, _, _, -, -, h⟩ := runs_run_bind_ok h
  obtain ⟨_, _, _, -, -, h⟩ := runs_run_bind_ok h
  exact not_runs_run_throw_ok h

omit hc hext hsub hl in
/-- An activation that was not restored completes its checkpoint with its result. -/
theorem mem_of_runs_runAttempts {body : NodeExecutor} {inputs : StrMap Value}
    {remaining attempt : Nat} {b : NodeResult} {u : RunTrace}
    (h : Runs (runAttempts body ctx node inputs locals remaining attempt).run u (some (.ok b))) :
    (⟨.completeCheckpoint (scopedNodeId ctx.scope node.id)
      (if isSensitive ctx node then none else some b.toValue), .ok ()⟩ : RunEvent) ∈ u := by
  induction remaining generalizing attempt u with
  | zero =>
    unfold runAttempts at h
    obtain ⟨_, u₁, u₂, rfl, -, h⟩ := runs_run_bind_ok h
    obtain ⟨_, u₃, u₄, rfl, -, h⟩ := runs_run_bind_ok h
    obtain ⟨result, u₅, u₆, rfl, -, h⟩ := runs_run_bind_ok h
    cases result with
    | ok result => simp [mem_of_runs_completeAttempt h]
    | error error => exact absurd h not_runs_failAttempt_ok
  | succ remaining ih =>
    unfold runAttempts at h
    obtain ⟨_, u₁, u₂, rfl, -, h⟩ := runs_run_bind_ok h
    obtain ⟨_, u₃, u₄, rfl, -, h⟩ := runs_run_bind_ok h
    obtain ⟨result, u₅, u₆, rfl, -, h⟩ := runs_run_bind_ok h
    cases result with
    | ok result => simp [mem_of_runs_completeAttempt h]
    | error error =>
      dsimp only at h
      split at h
      · exact absurd h not_runs_failAttempt_ok
      · obtain ⟨_, u₇, u₈, rfl, -, h⟩ := runs_run_bind_ok h
        split at h
        · exact absurd h not_runs_run_throw_ok
        · obtain ⟨_, u₉, u₀, rfl, -, h⟩ := runs_run_bind_ok h
          simp [ih h]

/-- **One activation, run twice**: the left run may take its result from a checkpoint. -/
theorem tracks_executeNodeWithRetry (inputs : StrMap Value) :
    Tracks c (executeNodeWithRetry (executeNode sub) ctx node inputs locals)
      (executeNodeWithRetry (executeNode sub') (ctx.width k) node inputs locals') Eq := by
  unfold executeNodeWithRetry
  let name := scopedNodeId ctx.scope node.id
  refine .bind (S := fun saved saved' => saved' = none ∧
    ∀ v, saved = some v → c.left ⟨.checkpointResult name, .ok (some v)⟩) ?_ fun saved saved' h => ?_
  · refine hc.request fun x saved y saved' hx hy hle hre => ⟨?_, ?_, fun v hv => ?_⟩
    · exact c.rel_quiet (by simpa using hc.quiet ⟨.checkpointResult _, x⟩ trivial)
        (by simpa using hc.quiet ⟨.checkpointResult _, y⟩ trivial)
    · obtain rfl : y = .ok saved' := hy
      cases saved' with
      | none => rfl
      | some v => exact absurd (hc.right _ hre).2 id
    · obtain rfl : x = .ok saved := hx
      rw [← hv]
      exact hle
  obtain ⟨rfl, hrestored⟩ := h
  cases saved with
  | none =>
    refine .bind (hc.request_minor trivial trivial) fun _ _ _ => ?_
    cases (node.retry.map RetryPolicy.maxAttempts).getD 1 with
    | zero => exact .throw_right
    | succ n => exact tracks_runAttempts hc hsub hext hl inputs n 1
  | some v =>
    -- the right run completes the checkpoint that the left run restores
    intro t r u b hx hy _ hre
    obtain ⟨hskip, hsame⟩ := hc.restored name v (hrestored v rfl)
    obtain ⟨_, u₁, u₂, rfl, -, hattempts⟩ := runs_run_bind_ok hy
    have hmem : (⟨.completeCheckpoint name (if isSensitive (ctx.width k) node then none
        else some b.toValue), .ok ()⟩ : RunEvent) ∈ u₁ ++ u₂ := by
      refine List.mem_append_right _ ?_
      cases hn : (node.retry.map RetryPolicy.maxAttempts).getD 1 with
      | zero =>
        rw [hn] at hattempts
        exact absurd hattempts not_runs_run_throw_ok
      | succ n =>
        rw [hn] at hattempts
        have hrun :
            Runs (runAttempts (executeNode sub') (ctx.width k) node inputs locals' n 1).run u₂
          (some (.ok b)) := hattempts
        have hmem := mem_of_runs_runAttempts hrun
        exact hmem
    have hvalue := hsame _ (hre _ hmem)
    have hv : v = b.toValue := by
      split at hvalue
      · cases hvalue
      · exact (Option.some.inj hvalue).symm
    subst hv
    dsimp only at hx
    rw [NodeResult.ofValue_toValue] at hx
    obtain ⟨rfl, rfl | rfl⟩ := runs_run_pure.mp hx
    · exact c.part_nil _
    · exact ⟨hskip _, rfl⟩

end Nodes

end KakuneCore
