import KakuneCore.Runtime.Execution
import KakuneCore.Runtime.NodeContract
import KakuneCore.Runtime.Scheduler

/-!
# The scheduler refines its machine

Every run of `execute_graph` is a path of the machine `Sched`. `SchedulerContract` lists what a
statement about runs has to supply: that the checks, observations and resolutions of the loop are
quiet, what a worker delivers, and which errors may come out. `runRounds_ensures` is the result:
the loop meets the contract, in every reachable state, for any executor of single nodes.
-/

namespace KakuneCore

open Proc

/-! ### Settling a batch -/

/-- The pure part of `settleBatch`. -/
def settleResults : List ((WorkflowNode × StrMap Value) × Except RunError NodeResult) →
    Option RunError → GraphState → Option RunError × GraphState
  | [], failure, state => (failure, state)
  | ((node, inputs), .ok result) :: rest, failure, state =>
    settleResults rest failure (state.settle node inputs result)
  | (_, .error error) :: rest, failure, state =>
    settleResults rest (selectFailure failure error) state

theorem selectFailure_isSome (failure : Option RunError) (error : RunError) :
    (selectFailure failure error).isSome = true := by
  unfold selectFailure
  cases failure <;> simp
  split <;> rfl

theorem settleResults_isSome {items} {failure : Option RunError} {state : GraphState}
    (h : failure.isSome = true) : (settleResults items failure state).1.isSome = true := by
  induction items generalizing failure state with
  | nil => exact h
  | cons item rest ih =>
    obtain ⟨⟨node, inputs⟩, result⟩ := item
    cases result with
    | ok result => exact ih h
    | error error => exact ih (selectFailure_isSome failure error)

/-- Without a failure, every result of the batch was settled. -/
theorem settleResults_none {items} {failure : Option RunError} {state : GraphState}
    (h : (settleResults items failure state).1 = none) :
    ∃ xs : List Settlement,
      items = xs.map (fun x => ((x.node, x.inputs), .ok x.result)) ∧
        (settleResults items failure state).2 = state.settleAll xs := by
  induction items generalizing failure state with
  | nil => exact ⟨[], rfl, rfl⟩
  | cons item rest ih =>
    obtain ⟨⟨node, inputs⟩, result⟩ := item
    cases result with
    | ok result =>
      obtain ⟨xs, hrest, hxs⟩ := ih h
      exact ⟨⟨node, inputs, result⟩ :: xs, by rw [hrest]; rfl, hxs⟩
    | error error =>
      have hsome : (settleResults rest (selectFailure failure error) state).1.isSome = true :=
        settleResults_isSome (selectFailure_isSome failure error)
      rw [settleResults] at h
      rw [h] at hsome
      cases hsome

/-- The selected failure is the error of some result. -/
theorem settleResults_some {items} {failure : Option RunError} {state : GraphState} {e : RunError}
    (h : (settleResults items failure state).1 = some e) :
    failure = some e ∨ ∃ item ∈ items, item.2 = .error e := by
  induction items generalizing failure state with
  | nil => exact .inl h
  | cons item rest ih =>
    obtain ⟨⟨node, inputs⟩, result⟩ := item
    cases result with
    | ok result =>
      rcases ih h with h | ⟨item, hmem, hitem⟩
      · exact .inl h
      · exact .inr ⟨item, List.mem_cons_of_mem _ hmem, hitem⟩
    | error error =>
      rcases ih h with h | ⟨item, hmem, hitem⟩
      · unfold selectFailure at h
        split at h
        · cases h
          exact .inr ⟨_, List.mem_cons_self, rfl⟩
        · exact .inl h
      · exact .inr ⟨item, List.mem_cons_of_mem _ hmem, hitem⟩

theorem checkWriters_ne_noProgress {writers : List String} {nodes : List WorkflowNode} :
    checkWriters writers nodes ≠ .error .noProgress := by
  fun_induction checkWriters writers nodes <;> simp_all

variable {M : Type} [AddCommMonoid M] {c : Contract Op Resp M}

theorem quietly_settleBatch {ctx : ExecutionContext}
    (hquiet : ∀ id outcome, c.Quiet (.recordNodeOutcome id outcome))
    (items : List ((WorkflowNode × StrMap Value) × Except RunError NodeResult))
    (failure : Option RunError) (state : GraphState) :
    Quietly c (settleBatch ctx items failure state)
      (fun result => result = settleResults items failure state)
      fun e => ∃ id outcome text, c.assume ⟨.recordNodeOutcome id outcome, .error text⟩ ∧
        e = .external text := by
  induction items generalizing failure state with
  | nil => exact .pure rfl
  | cons item rest ih =>
    obtain ⟨⟨node, inputs⟩, result⟩ := item
    cases result with
    | ok result =>
      exact .bind (quietly_request_of (hquiet _ _) fun text ha => ⟨_, _, text, ha, rfl⟩)
        fun _ _ => ih _ _
    | error error =>
      exact .bind (quietly_request_of (hquiet _ _) fun text ha => ⟨_, _, text, ha, rfl⟩)
        fun _ _ => ih _ _

/-! ### The contract of the scheduler -/

/-- The inputs of a node were resolved in a state. -/
def Resolved (ctx : ExecutionContext) (state : GraphState) (node : WorkflowNode)
    (inputs : StrMap Value) : Prop :=
  ∃ t, Runs (resolveInputs ctx.serde state.outputs state.locals node.inputs).run t
    (some (.ok inputs))

/-- The inputs of a settlement were resolved in the state it was prepared in. -/
def ResolvedIn (ctx : ExecutionContext) (state : GraphState) (x : Settlement) : Prop :=
  Resolved ctx state x.node x.inputs

theorem keys_of_runs_resolveInputs {serde : SerdeJson} {outputs : StrMap (StrMap Value)}
    {locals : StrMap Value} {bindings : StrMap WorkflowBinding} {t : RunTrace}
    {inputs : StrMap Value}
    (h : Runs (resolveInputs serde outputs locals bindings).run t (some (.ok inputs))) :
    inputs.keys = bindings.keys := by
  induction bindings generalizing t inputs with
  | nil =>
    obtain ⟨-, h | h⟩ := runs_run_pure.mp h
    · cases h
    · cases h; rfl
  | cons first bindings ih =>
    obtain ⟨name, binding⟩ := first
    obtain ⟨h, -⟩ | ⟨e, h, -⟩ | ⟨value, u, v, -, -, h⟩ := runs_run_bind h
    · cases h
    · cases h
    obtain ⟨h, -⟩ | ⟨e, h, -⟩ | ⟨values, u', v', -, hvalues, h⟩ := runs_run_bind h
    · cases h
    · cases h
    obtain ⟨-, h | h⟩ := runs_run_pure.mp h
    · cases h
    · cases h
      simp only [StrMap.keys, List.map_cons]
      exact congrArg _ (ih hvalues)

/-- Resolution gives every bound input a value. -/
theorem Resolved.contains {ctx : ExecutionContext} {state : GraphState} {node : WorkflowNode}
    {inputs : StrMap Value} (h : Resolved ctx state node inputs) {key : String}
    (hkey : node.inputs.contains key = true) : inputs.contains key = true := by
  obtain ⟨t, ht⟩ := h
  rw [StrMap.contains, Option.isSome_iff_exists, ← StrMap.mem_keys_iff] at hkey ⊢
  rwa [keys_of_runs_resolveInputs ht]

/-- The nodes of a batch with the inputs that were resolved for them. -/
def Prepared (ctx : ExecutionContext) (state : GraphState) (batch : List WorkflowNode)
    (prepared : List (WorkflowNode × StrMap Value)) : Prop :=
  prepared.map Prod.fst = batch ∧ ∀ p ∈ prepared, Resolved ctx state p.1 p.2

/-- What the settlements of a log count for. -/
def weight (count : Settlement → M) (log : List Settlement) : M := (log.map count).sum

@[simp]
theorem weight_nil (count : Settlement → M) : weight count [] = 0 := rfl

@[simp]
theorem weight_cons (count : Settlement → M) (x : Settlement) (log : List Settlement) :
    weight count (x :: log) = count x + weight count log := by
  simp [weight]

@[simp]
theorem weight_append (count : Settlement → M) (log xs : List Settlement) :
    weight count (log ++ xs) = weight count log + weight count xs := by
  simp [weight]

/-- What a statement about runs supplies for the loop of `execute_graph`: `W` is what a worker
delivers, `count` what a settlement counts for, `Err` which errors may come out. -/
structure SchedulerContract (c : Contract Op Resp M) (exec : NodeExecutor)
    (ctx : ExecutionContext) (nodes : List WorkflowNode) (entry : String) (locals : StrMap Value)
    (P : GraphState → Settlement → Prop) (count : Settlement → M)
    (W : GraphState → WorkflowNode → StrMap Value → M → Except RunError NodeResult → Prop)
    (Err : M → RunError → Prop) : Prop where
  check : ∀ {k log state}, Sched nodes entry locals ctx.maxParallelNodes P k [] log state →
    Quietly c ctx.control.check (fun _ => True) (Err (weight count log))
  stuck : ∀ {k log state}, Sched nodes entry locals ctx.maxParallelNodes P k [] log state →
    (state.close nodes).ready nodes = [] → (state.close nodes).settled.length ≠ nodes.length →
      Err (weight count log) .noProgress
  round : ∀ {k log state}, Sched nodes entry locals ctx.maxParallelNodes P k [] log state →
    (state.close nodes).ready nodes ≠ [] →
      c.Quiet (.observe (.round ctx.scope ((state.close nodes).ready nodes)))
  writers : ∀ {k log state e}, Sched nodes entry locals ctx.maxParallelNodes P k [] log state →
    checkWriters [] ((state.close nodes).ready nodes) = .error e → Err (weight count log) e
  panic : ∀ {k log state}, Sched nodes entry locals ctx.maxParallelNodes P k [] log state →
    ctx.maxParallelNodes = 0 → Err (weight count log) .panic
  resolving : ∀ {k batch batches log state node},
    Sched nodes entry locals ctx.maxParallelNodes P k (batch :: batches) log state →
      node ∈ batch → c.Quiet (.observe (.resolving ctx.scope node state.outputs state.locals))
  resolve : ∀ {k batch batches log state node},
    Sched nodes entry locals ctx.maxParallelNodes P k (batch :: batches) log state →
      node ∈ batch →
        c.assume ⟨.observe (.resolving ctx.scope node state.outputs state.locals), ()⟩ →
          Quietly c (resolveInputs ctx.serde state.outputs state.locals node.inputs)
            (fun _ => True) (Err (weight count log))
  work : ∀ {k batch batches log state node inputs},
    Sched nodes entry locals ctx.maxParallelNodes P k (batch :: batches) log state →
      node ∈ batch → Resolved ctx state node inputs →
        Meets c (worker exec ctx state node inputs) (W state node inputs)
  settled : ∀ {state node inputs result m}, Resolved ctx state node inputs →
    W state node inputs m (.ok result) →
      m = count ⟨node, inputs, result⟩ ∧ P state ⟨node, inputs, result⟩
  record : ∀ id outcome, c.Quiet (.recordNodeOutcome id outcome)
  unrecorded : ∀ {k batch batches log state prepared m results id outcome text},
    c.assume ⟨.recordNodeOutcome id outcome, .error text⟩ →
    Sched nodes entry locals ctx.maxParallelNodes P k (batch :: batches) log state →
      Prepared ctx state batch prepared →
        Pool (prepared.map fun p => W state p.1 p.2) m results →
          Err (weight count log + m) (.external text)
  failed : ∀ {k batch batches log state prepared m results e},
    Sched nodes entry locals ctx.maxParallelNodes P k (batch :: batches) log state →
      Prepared ctx state batch prepared →
        Pool (prepared.map fun p => W state p.1 p.2) m results →
          (settleResults (prepared.zip results) none state).1 = some e →
            Err (weight count log + m) e

section Refinement

variable {exec : NodeExecutor} {ctx : ExecutionContext} {nodes : List WorkflowNode}
  {entry : String} {locals : StrMap Value} {P : GraphState → Settlement → Prop}
  {count : Settlement → M}
  {W : GraphState → WorkflowNode → StrMap Value → M → Except RunError NodeResult → Prop}
  {Err : M → RunError → Prop}
  (h : SchedulerContract c exec ctx nodes entry locals P count W Err)
include h

theorem quietly_prepareBatch {k : Nat} {batch rest : List WorkflowNode}
    {batches : List (List WorkflowNode)} {log : List Settlement} {state : GraphState}
    (hs : Sched nodes entry locals ctx.maxParallelNodes P k (batch :: batches) log state)
    (hsub : rest ⊆ batch) :
    Quietly c (prepareBatch ctx state rest) (Prepared ctx state rest)
      (Err (weight count log)) := by
  induction rest with
  | nil => exact .pure ⟨rfl, by simp⟩
  | cons node rest ih =>
    obtain ⟨hnode, hrest⟩ := List.cons_subset.mp hsub
    refine .bind (quietly_observe_assume (h.resolving hs hnode)) fun _ hassume => ?_
    refine .bind ((h.resolve hs hnode hassume).with_run.mono (fun _ hi => hi) fun _ he => he.1)
      fun inputs hinputs => ?_
    refine .bind (ih hrest) fun prepared hprepared => .pure ?_
    obtain ⟨-, t, ht⟩ := hinputs
    refine ⟨by rw [List.map_cons, hprepared.1], ?_⟩
    simp only [List.mem_cons, forall_eq_or_imp]
    exact ⟨⟨t, ht⟩, hprepared.2⟩

omit h in
/-- The successes of a pool, taken apart. -/
theorem Pool.settlements {state : GraphState} {xs : List Settlement} {m : M}
    (hset : ∀ x ∈ xs, ∀ m, W state x.node x.inputs m (.ok x.result) →
      m = count x ∧ P state x)
    (hpool : Pool (xs.map fun x => W state x.node x.inputs) m
      (xs.map fun x => .ok x.result)) :
    m = weight count xs ∧ ∀ x ∈ xs, P state x := by
  induction xs generalizing m with
  | nil => cases hpool; simp
  | cons x xs ih =>
    cases hpool with
    | cons hx hrest =>
      obtain ⟨rfl, hP⟩ := hset x List.mem_cons_self _ hx
      obtain ⟨rfl, hPs⟩ := ih (fun y hy => hset y (List.mem_cons_of_mem _ hy)) hrest
      refine ⟨by rw [weight_cons], ?_⟩
      simp only [List.mem_cons, forall_eq_or_imp]
      exact ⟨hP, hPs⟩

omit h in
theorem Pool.length_eq {α : Type} {Qs : List (M → α → Prop)} {m : M} {rs : List α}
    (hpool : Pool Qs m rs) : Qs.length = rs.length := by
  induction hpool with
  | nil => rfl
  | cons _ _ ih => simp [ih]

/-- **One batch** is one step of the machine. -/
theorem runBatch_ensures {k : Nat} {batch : List WorkflowNode}
    {batches : List (List WorkflowNode)} {log : List Settlement} {state : GraphState}
    (hs : Sched nodes entry locals ctx.maxParallelNodes P k (batch :: batches) log state) :
    Ensures c (runBatch exec ctx batch state)
      (fun m state' => ∃ xs, m = weight count xs ∧ xs.map Settlement.node = batch ∧
        state' = state.settleAll xs ∧
        Sched nodes entry locals ctx.maxParallelNodes P k batches (log ++ xs) state')
      fun m e => Err (weight count log + m) e := by
  refine (quietly_prepareBatch h hs (List.Subset.refl _)).then (fun prepared hprepared => ?_)
    fun e he => by simpa using he
  have hworkers : Meets c
      (Proc.parallel (prepared.map fun p => worker exec ctx state p.1 p.2))
      (Pool (prepared.map fun p => W state p.1 p.2)) := by
    refine Meets.parallel ?_
    rw [List.forall₂_map_left_iff, List.forall₂_map_right_iff, List.forall₂_same]
    intro p hp
    have hnode : p.1 ∈ batch := hprepared.1 ▸ List.mem_map_of_mem hp
    exact h.work hs hnode (hprepared.2 p hp)
  refine Ensures.bind (E := fun _ _ => False) (Ensures.lift hworkers) (fun m results hpool => ?_)
    fun _ _ hf => hf.elim
  refine (quietly_settleBatch h.record _ none state).then (fun outcome houtcome => ?_) ?_
  · obtain ⟨failure, state'⟩ := outcome
    have hfailure : (settleResults (prepared.zip results) none state).1 = failure := by
      rw [← houtcome]
    have hstate' : (settleResults (prepared.zip results) none state).2 = state' := by
      rw [← houtcome]
    cases failure with
    | some e =>
      refine Ensures.throw ?_
      simpa using h.failed hs hprepared hpool hfailure
    | none =>
      obtain ⟨xs, hitems, hstate⟩ := settleResults_none hfailure
      have hlen : prepared.length = results.length := by simpa using Pool.length_eq hpool
      have hfst : prepared = xs.map fun x => (x.node, x.inputs) := by
        have := congrArg (List.map Prod.fst) hitems
        rwa [List.map_fst_zip hlen.le, List.map_map] at this
      have hsnd : results = xs.map fun x => .ok x.result := by
        have := congrArg (List.map Prod.snd) hitems
        rwa [List.map_snd_zip hlen.ge, List.map_map] at this
      subst hfst hsnd
      have hresolved : ∀ x ∈ xs, Resolved ctx state x.node x.inputs :=
        fun x hx => hprepared.2 _ (List.mem_map_of_mem hx)
      rw [List.map_map] at hpool
      obtain ⟨rfl, hP⟩ := Pool.settlements (P := P)
        (fun x hx m hW => h.settled (hresolved x hx) hW) hpool
      have hbatch : xs.map Settlement.node = batch := by
        rw [← hprepared.1, List.map_map]
        rfl
      rw [hstate'] at hstate
      subst hstate
      exact Ensures.pure ⟨xs, by simp, hbatch, rfl, .batch hs hbatch hP⟩
  · rintro e ⟨id, outcome, text, hassume, rfl⟩
    simpa using h.unrecorded hassume hs hprepared hpool

theorem runBatches_ensures {k : Nat} {batches : List (List WorkflowNode)}
    {log : List Settlement} {state : GraphState}
    (hs : Sched nodes entry locals ctx.maxParallelNodes P k batches log state) :
    Ensures c (runBatches exec ctx batches state)
      (fun m state' => ∃ xs, m = weight count xs ∧ xs.map Settlement.node = batches.flatten ∧
        state' = state.settleAll xs ∧
        Sched nodes entry locals ctx.maxParallelNodes P k [] (log ++ xs) state')
      fun m e => Err (weight count log + m) e := by
  induction batches generalizing log state with
  | nil => exact Ensures.pure ⟨[], by simp, rfl, rfl, by simpa using hs⟩
  | cons batch batches ih =>
    refine Ensures.bind (runBatch_ensures h hs) (fun m state' hstep => ?_) fun _ _ he => he
    obtain ⟨xs, rfl, hbatch, rfl, hs'⟩ := hstep
    refine (ih hs').mono ?_ ?_
    · rintro m' state'' ⟨ys, rfl, hflat, rfl, hs''⟩
      refine ⟨xs ++ ys, by simp, by simp [hbatch, hflat], ?_, by simpa using hs''⟩
      simp [GraphState.settleAll]
    · intro m' e he
      simpa [add_assoc] using he

omit h in
/-- A batch settles every one of its nodes, so a round makes progress. -/
theorem GraphState.length_settleAll {state : GraphState} {xs : List Settlement}
    {rest : List WorkflowNode} (hp : Pending nodes (xs.map Settlement.node ++ rest) state) :
    (state.settleAll xs).settled.length = state.settled.length + xs.length := by
  induction xs generalizing state with
  | nil => rfl
  | cons x xs ih =>
    have hnew := (isReady_iff.mp (hp.ready x.node (by simp))).1
    have hstep := ih hp.settle
    rw [GraphState.settleAll, List.foldl_cons]
    rw [GraphState.settleAll] at hstep
    rw [hstep, GraphState.settle, insertId, if_neg hnew]
    simp only [List.length_cons]
    omega

/-- The loop is left: every node is settled, in the last state or once its unselected paths are
closed. -/
def Finished (nodes : List WorkflowNode) (state : GraphState) : Prop :=
  ∃ settled, Closes nodes state.activated state.settled settled ∧ settled.length = nodes.length

/-- **The loop of `execute_graph`** follows the machine: from a reachable state it comes to the end
in a reachable state, or to an error the contract allows. The bound on the rounds is never used
up. -/
theorem runRounds_ensures (hnd : (nodeIds nodes).Nodup) {k fuel : Nat} {log : List Settlement}
    {state : GraphState}
    (hs : Sched nodes entry locals ctx.maxParallelNodes P k [] log state)
    (hfuel : nodes.length ≤ fuel + state.settled.length) :
    Ensures c (runRounds exec ctx nodes fuel state)
      (fun m outputs => ∃ k' xs state', m = weight count xs ∧ outputs = state'.outputs ∧
        Finished nodes state' ∧
        Sched nodes entry locals ctx.maxParallelNodes P k' [] (log ++ xs) state')
      fun m e => Err (weight count log + m) e := by
  have hdone : ∀ {state : GraphState} {log : List Settlement} {k : Nat},
      Sched nodes entry locals ctx.maxParallelNodes P k [] log state →
      ¬ state.settled.length < nodes.length → Finished nodes state := by
    intro state log k hs hlen
    exact ⟨state.settled, .refl, le_antisymm (hs.invariant hnd).1.settled.length_le (by omega)⟩
  induction fuel generalizing k log state with
  | zero =>
    have hlen : ¬ state.settled.length < nodes.length := by omega
    rw [runRounds, if_neg hlen]
    exact Ensures.pure ⟨k, [], state, by simp, rfl, hdone hs hlen, by simpa using hs⟩
  | succ fuel ih =>
    rw [runRounds]
    by_cases hlen : state.settled.length < nodes.length
    · rw [if_pos hlen]
      refine (h.check hs).then (fun _ _ => ?_) fun e he => by simpa using he
      by_cases hready : (state.close nodes).ready nodes = []
      · simp only [hready, List.isEmpty_nil, if_true]
        by_cases hall : (state.close nodes).settled.length = nodes.length
        · rw [if_pos hall]
          refine Ensures.pure ⟨k, [], state, by simp, rfl, ?_, by simpa using hs⟩
          exact ⟨_, closes_closeUnselected _ _, hall⟩
        · rw [if_neg hall]
          exact Ensures.throw (by simpa using h.stuck hs hready hall)
      · simp only [List.isEmpty_iff, hready, if_false]
        refine (quietly_observe (h.round hs hready)).then (fun _ _ => ?_)
          (E := fun _ => False) fun _ hf => hf.elim
        cases hwriters : checkWriters [] ((state.close nodes).ready nodes) with
        | error e =>
          have hwrite : Quietly c (liftExcept (α := Unit) (.error e)) (fun _ => False)
              (Err (weight count log)) := quietly_liftExcept (h.writers hs hwriters)
          exact hwrite.then (fun _ hf => hf.elim) fun e he => by simpa using he
        | ok u =>
          have hround := Sched.round hs hlen hready hwriters
          have hwrite : Quietly c (liftExcept (.ok u)) (fun _ => True) fun _ => False :=
            quietly_liftExcept trivial
          refine hwrite.then (fun _ _ => ?_) fun _ hf => hf.elim
          refine (quietly_chunked (h.panic hs)).then (fun batches hbatches => ?_)
            fun e he => by simpa using he
          subst hbatches
          refine Ensures.bind (runBatches_ensures h hround) (fun m state' hstep => ?_)
            fun _ _ he => he
          obtain ⟨xs, rfl, hflat, rfl, hs'⟩ := hstep
          have hgrow : ((state.close nodes).settleAll xs).settled.length =
              (state.close nodes).settled.length + xs.length := by
            have hpending : Pending nodes (xs.map Settlement.node ++ []) (state.close nodes) := by
              rw [List.append_nil, hflat]
              exact (hround.invariant hnd).2
            exact GraphState.length_settleAll hpending
          have hpos : 0 < xs.length := by
            rw [← List.length_map (f := Settlement.node), hflat, flatten_chunks]
            exact List.length_pos_iff.mpr hready
          have hclose : state.settled.length ≤ (state.close nodes).settled.length :=
            (closes_closeUnselected _ _).length_le
          refine (ih hs' (by omega)).mono ?_ ?_
          · rintro m' outputs ⟨k', ys, state'', rfl, rfl, hfin, hs''⟩
            exact ⟨k', xs ++ ys, state'', by simp, rfl, hfin, by simpa using hs''⟩
          · intro m' e he
            simpa [add_assoc] using he
    · rw [if_neg hlen]
      exact Ensures.pure ⟨k, [], state, by simp, rfl, hdone hs hlen, by simpa using hs⟩

end Refinement

/-! ### Quiet graphs -/

/-- A process that counts for nothing may be used where its tally is asked for. -/
theorem meets_worker {exec : NodeExecutor} {ctx : ExecutionContext} {state : GraphState}
    {node : WorkflowNode} {inputs : StrMap Value} {E : RunError → Prop}
    (hstart : c.Quiet (.observe (.starting ctx.scope node.id state.settled inputs state.locals)))
    (hfinish : ∀ result, c.Quiet (.observe (.finished ctx.scope node.id result)))
    (habort : c.Quiet (.storeAbort ctx.control.abort)) (hpanic : E .workerPanicked)
    (hexec : Quietly c (exec ctx node inputs state.locals) (fun _ => True) E) :
    Meets c (worker exec ctx state node inputs) fun m result =>
      m = 0 ∧ Outcome (fun _ => True) E result := by
  refine Meets.bind (Meets.quiet_call hstart) fun m _ hm => ?_
  subst hm
  refine Meets.bind hexec fun m result hr => ?_
  obtain ⟨rfl, hr⟩ := hr
  split
  · refine Meets.bind (Meets.quiet_call (hfinish _)) fun m _ hm => Meets.ret ?_
    exact ⟨by simp [hm], trivial⟩
  · refine Meets.bind (Meets.quiet_call (hfinish _)) fun m _ hm => Meets.ret ?_
    exact ⟨by simp [hm], hpanic⟩
  · refine Meets.bind (Meets.quiet_call (hfinish _)) fun m _ hm => ?_
    refine Meets.bind (Meets.quiet_call habort) fun m' _ hm' => Meets.ret ?_
    exact ⟨by simp [hm, hm'], hr⟩

/-- If every thread of a pool delivers a value, no result is an error. -/
theorem Pool.all_ok {ε α : Type} {Qs : List (M → Except ε α → Prop)} {m : M}
    {rs : List (Except ε α)} (hok : ∀ Q ∈ Qs, ∀ m r, Q m r → ∃ x, r = .ok x) (h : Pool Qs m rs) :
    ∀ r ∈ rs, ∃ x, r = .ok x := by
  induction h with
  | nil => simp
  | cons hQ _ ih =>
    rw [List.forall_mem_cons]
    exact ⟨hok _ List.mem_cons_self _ _ hQ, ih fun Q hQ => hok Q (List.mem_cons_of_mem _ hQ)⟩

/-- Errors of a pool of quiet workers. -/
theorem Pool.quiet {α : Type} {Q : α → Prop} {ι : Type} {xs : List ι} {m : M} {rs : List α}
    (h : Pool (xs.map fun _ m a => m = 0 ∧ Q a) m rs) : m = 0 ∧ ∀ r ∈ rs, Q r := by
  induction xs generalizing m rs with
  | nil => cases h; simp
  | cons x xs ih =>
    cases h with
    | cons hx hrest =>
      obtain ⟨rfl, hrs⟩ := ih hrest
      refine ⟨by rw [hx.1, add_zero], ?_⟩
      simp only [List.mem_cons, forall_eq_or_imp]
      exact ⟨hx.2, hrs⟩

/-- **A graph whose nodes are quiet is quiet**, provided the loop never gets stuck where `E` does
not allow it and the resolutions it announces are quiet. -/
theorem quietly_executeGraphWith {exec : NodeExecutor} {ctx : ExecutionContext}
    {nodes : List WorkflowNode} {entry : String} {locals : StrMap Value} {E : RunError → Prop}
    (hnd : (nodeIds nodes).Nodup) (herror : ∀ e, e ≠ .noProgress → E e)
    (hquiet : ∀ o : Op,
      (∀ scope node outputs locals, o ≠ .observe (.resolving scope node outputs locals)) →
        c.Quiet o)
    (hstuck : ∀ {k log state},
      Sched nodes entry locals ctx.maxParallelNodes (ResolvedIn ctx) k [] log state →
      (state.close nodes).ready nodes = [] →
      (state.close nodes).settled.length ≠ nodes.length → E .noProgress)
    (hresolving : ∀ {k batch batches log state node},
      Sched nodes entry locals ctx.maxParallelNodes (ResolvedIn ctx) k (batch :: batches) log
        state → node ∈ batch →
      c.Quiet (.observe (.resolving ctx.scope node state.outputs state.locals)))
    (hexec : ∀ {k batch batches log state node inputs},
      Sched nodes entry locals ctx.maxParallelNodes (ResolvedIn ctx) k (batch :: batches) log
        state → node ∈ batch →
      Quietly c (exec ctx.forked node inputs state.locals) (fun _ => True) E) :
    Quietly c (executeGraphWith exec ctx nodes entry locals) (fun _ => True) E := by
  have hroutine : RoutineQuiet c E := by
    refine ⟨fun o ho => hquiet o ?_, herror⟩
    rintro scope node outputs locals rfl
    exact ho
  have hcontract : SchedulerContract c exec ctx.forked nodes entry locals (ResolvedIn ctx)
      (fun _ => 0) (fun _ _ _ m result => m = 0 ∧ Outcome (fun _ => True) E result)
      (fun m e => m = 0 ∧ E e) := by
    have hzero : ∀ log : List Settlement, weight (fun _ => (0 : M)) log = 0 := by
      intro log
      simp [weight]
    refine
      { check := fun _ => ?_
        stuck := fun hs hr hl => ⟨hzero _, hstuck hs hr hl⟩
        round := fun _ _ => hquiet _ (by simp)
        writers := fun {k log state e} _ hw => ⟨hzero _, herror e ?_⟩
        panic := fun _ _ => ⟨hzero _, herror _ (by simp)⟩
        resolving := fun hs hn => hresolving hs hn
        resolve := fun _ _ _ => ?_
        work := fun hs hn _ => meets_worker (hquiet _ (by simp)) (fun _ => hquiet _ (by simp))
          (hquiet _ (by simp)) (herror _ (by simp)) (hexec hs hn)
        settled := fun hr hW => ⟨hW.1, hr⟩
        record := fun _ _ => hquiet _ (by simp)
        unrecorded := fun _ _ _ hpool => ⟨by rw [hzero, (Pool.quiet hpool).1, add_zero],
          herror _ (by simp)⟩
        failed := fun _ _ hpool hf => ?_ }
    · exact (quietly_check hroutine.step _).mono (fun _ h => h) fun _ he => ⟨hzero _, he⟩
    · rintro rfl
      exact checkWriters_ne_noProgress hw
    · exact (quietly_resolveInputs hroutine.step _ _ _ _).mono (fun _ h => h) fun _ he =>
        ⟨hzero _, he⟩
    · obtain ⟨hm, hall⟩ := Pool.quiet hpool
      refine ⟨by rw [hzero, hm, add_zero], ?_⟩
      rcases settleResults_some hf with hf | ⟨item, hitem, he⟩
      · cases hf
      · have := hall _ (List.of_mem_zip hitem).2
        rwa [he] at this
  have hfuel : nodes.length ≤ nodes.length + (GraphState.initial entry locals).settled.length := by
    simp
  have hrounds := runRounds_ensures hcontract hnd .initial hfuel
  refine (Ensures.quietly (hrounds.mono ?_ ?_))
  · rintro m outputs ⟨k', xs, state', rfl, -⟩
    exact ⟨by simp [weight], trivial⟩
  · intro m e he
    exact ⟨by simpa using he.1, he.2⟩

theorem quietly_executeSubgraph {E : RunError → Prop} (h : RoutineQuiet c E)
    {graph : GraphRunner} {ctx : ExecutionContext} {subgraph : WorkflowSubgraph}
    {locals : StrMap Value}
    (hgraph : Quietly c (graph ctx subgraph.nodes subgraph.entry locals) (fun _ => True) E) :
    Quietly c (executeSubgraph graph ctx subgraph locals) (fun _ => True) E :=
  .bind hgraph fun _ _ => quietly_resolveInputs h.step _ _ _ _

/-- A plan whose graph is quiet is quiet, up to the result it stores. -/
theorem quietly_executeNodes {E : RunError → Prop} (h : RoutineQuiet c E)
    (hresult : ∀ result, c.Quiet (.setExecutionResult result)) {plan : ExecutionPlan}
    {plugins : PluginRegistry} {limits : ExecutionLimits} {serde : SerdeJson}
    (hgraph : Quietly c (executeGraph maxGraphDepth (plan.context plugins limits serde)
      plan.graph.nodes plan.graph.entry plan.locals) (fun _ => True) E) :
    Quietly c (executeNodes plan plugins limits serde) (fun _ => True) E := by
  refine .bind hgraph fun nodeOutputs _ => ?_
  refine .bind (quietly_resolveInputs h.step _ _ _ _) fun outputs _ => ?_
  dsimp only
  split
  · exact .throw (h.error _ (by simp))
  · exact quietly_request (hresult _) fun _ => h.error _ (by simp)

end KakuneCore
