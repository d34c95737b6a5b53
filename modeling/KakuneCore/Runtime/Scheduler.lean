import KakuneCore.Planner.Accepted
import KakuneCore.Runtime.Graph
import KakuneCore.Scheduling.Activation

/-!
# The scheduler as a transition system

`Sched` is the state machine behind `execute_graph`: close and start a round, then settle one
batch after another. A state is indexed by the batches that are still to run in its round and by
the log of the settlements made so far, so that what the scheduler knows can be read off the log.
`SchedInvariant` collects the facts that hold in every reachable state; the theorem that connects
the machine to the code is in `KakuneCore.Runtime.Contract`.
-/

namespace KakuneCore

/-! ### Closing unselected paths -/

/-- One iteration of the closing loop that closes a node. -/
def CloseStep (nodes : List WorkflowNode) (activated : List String) (s s' : List String) : Prop :=
  ∃ id ∈ nodeIds nodes, closable nodes activated s id = true ∧ s' = id :: s

/-- Some iterations of the closing loop. -/
def Closes (nodes : List WorkflowNode) (activated : List String) :
    List String → List String → Prop :=
  Relation.ReflTransGen (CloseStep nodes activated)

section Closing

variable {nodes : List WorkflowNode} {activated : List String}

theorem mem_predecessors {id p : String} : p ∈ predecessors nodes id ↔ Edge nodes p id :=
  mem_predecessorIds

theorem closable_iff {s : List String} {id : String} :
    closable nodes activated s id = true ↔
      id ∉ s ∧ id ∉ activated ∧ ∀ p, Edge nodes p id → p ∈ s := by
  simp only [closable, Bool.and_eq_true, List.all_eq_true, mem_predecessors, decide_eq_true_eq,
    and_assoc]

theorem closes_closePass {pass : List WorkflowNode} (hsub : pass ⊆ nodes) (s : List String) :
    Closes nodes activated s (closePass nodes activated pass s) := by
  induction pass generalizing s with
  | nil => exact .refl
  | cons node rest ih =>
    have hrest : rest ⊆ nodes := fun x hx => hsub (List.mem_cons_of_mem _ hx)
    rw [closePass]
    split
    · next hc =>
      have hmem : node.id ∈ nodeIds nodes := List.mem_map_of_mem (hsub List.mem_cons_self)
      exact .head ⟨node.id, hmem, hc, rfl⟩ (ih hrest _)
    · exact ih hrest s

theorem closes_closeUnselected (fuel : Nat) (s : List String) :
    Closes nodes activated s (closeUnselected nodes activated fuel s) := by
  induction fuel generalizing s with
  | zero => exact .refl
  | succ fuel ih =>
    rw [closeUnselected]
    split
    · exact .refl
    · exact .trans (closes_closePass (List.Subset.refl _) s) (ih _)

theorem Closes.length_le {s s' : List String} (h : Closes nodes activated s s') :
    s.length ≤ s'.length := by
  induction h with
  | refl => exact le_rfl
  | tail _ hstep ih =>
    obtain ⟨id, -, -, rfl⟩ := hstep
    exact ih.trans (Nat.le_succ _)

theorem Closes.subset {s s' : List String} (h : Closes nodes activated s s') : s ⊆ s' := by
  induction h with
  | refl => exact List.Subset.refl _
  | tail _ hstep ih =>
    obtain ⟨id, -, -, rfl⟩ := hstep
    exact fun x hx => List.mem_cons_of_mem _ (ih hx)

/-- What the settled ids always are. -/
structure SettledOk (nodes : List WorkflowNode) (settled : List String) : Prop where
  nodup : settled.Nodup
  subset : settled ⊆ nodeIds nodes

theorem SettledOk.length_le {settled : List String} (h : SettledOk nodes settled) :
    settled.length ≤ nodes.length := by
  have := (h.nodup.subperm h.subset).length_le
  simpa using this

theorem SettledOk.cons {settled : List String} (h : SettledOk nodes settled) {id : String}
    (hid : id ∈ nodeIds nodes) (hnew : id ∉ settled) : SettledOk nodes (id :: settled) :=
  ⟨List.nodup_cons.mpr ⟨hnew, h.nodup⟩, List.cons_subset.mpr ⟨hid, h.subset⟩⟩

theorem Closes.settledOk {s s' : List String} (h : Closes nodes activated s s')
    (hs : SettledOk nodes s) : SettledOk nodes s' := by
  induction h with
  | refl => exact hs
  | tail _ hstep ih =>
    obtain ⟨id, hid, hc, rfl⟩ := hstep
    exact ih.cons hid (closable_iff.mp hc).1

/-- A pass that does not grow the set closes nothing. -/
theorem not_closable_of_closePass {pass : List WorkflowNode} {s : List String}
    (h : (closePass nodes activated pass s).length = s.length) :
    ∀ node ∈ pass, closable nodes activated s node.id = false := by
  induction pass with
  | nil => simp
  | cons node rest ih =>
    have hgrow : ∀ (rest : List WorkflowNode) (s : List String),
        s.length ≤ (closePass nodes activated rest s).length := by
      intro rest
      induction rest with
      | nil => exact fun s => le_rfl
      | cons first rest ih =>
        intro s
        rw [closePass]
        refine le_trans ?_ (ih _)
        split <;> simp
    rw [closePass] at h
    split at h
    · have := hgrow rest (node.id :: s)
      rw [h, List.length_cons] at this
      omega
    · next hc =>
      simp only [List.mem_cons, forall_eq_or_imp]
      exact ⟨by simpa using hc, ih h⟩

/-- The closing loop stops only when no node can be closed. -/
theorem not_closable_closeUnselected {fuel : Nat} {s : List String} (hs : SettledOk nodes s)
    (hfuel : nodes.length < fuel + s.length) :
    ∀ node ∈ nodes,
      closable nodes activated (closeUnselected nodes activated fuel s) node.id = false := by
  induction fuel generalizing s with
  | zero => exact absurd hs.length_le (by omega)
  | succ fuel ih =>
    rw [closeUnselected]
    split
    · next hlen => exact not_closable_of_closePass hlen
    · next hlen =>
      have hcloses : Closes nodes activated s (closePass nodes activated nodes s) :=
        closes_closePass (List.Subset.refl nodes) s
      have hle := hcloses.length_le
      refine ih (hcloses.settledOk hs) ?_
      omega

end Closing

/-! ### The machine -/

/-- A settled node: the inputs it ran with and the result it gave. -/
structure Settlement where
  node : WorkflowNode
  inputs : StrMap Value
  result : NodeResult

/-- The targets of a route of a node. -/
def WorkflowNode.routeTargets (node : WorkflowNode) (route : String) : List String :=
  ((node.on.get? route).map ControlTargets.iter).getD []

theorem WorkflowNode.routeTargets_subset (node : WorkflowNode) (route : String) :
    node.routeTargets route ⊆ node.targets := by
  intro target ht
  unfold routeTargets at ht
  cases hroute : node.on.get? route with
  | none => simp [hroute] at ht
  | some targets =>
    refine List.mem_flatMap.mpr ⟨targets, StrMap.mem_values_of_get? hroute, ?_⟩
    simpa [hroute] using ht

/-- The targets of the route a settlement selected. -/
def Settlement.selected (x : Settlement) : List String := x.node.routeTargets x.result.route

/-- Settle a batch of results. -/
def GraphState.settleAll (state : GraphState) (xs : List Settlement) : GraphState :=
  xs.foldl (fun state x => state.settle x.node x.inputs x.result) state

/-- `Sched nodes entry locals limit P k batches log state`: after `k` rounds were started, with
these batches of the present round still to run and these settlements made, the scheduler can be in
this state. `P state x` is what a settlement made in a state satisfies. -/
inductive Sched (nodes : List WorkflowNode) (entry : String) (locals : StrMap Value) (limit : Nat)
    (P : GraphState → Settlement → Prop) :
    Nat → List (List WorkflowNode) → List Settlement → GraphState → Prop
  | initial : Sched nodes entry locals limit P 0 [] [] (.initial entry locals)
  | round {k : Nat} {log : List Settlement} {state : GraphState} :
      Sched nodes entry locals limit P k [] log state →
      state.settled.length < nodes.length →
      (state.close nodes).ready nodes ≠ [] →
      checkWriters [] ((state.close nodes).ready nodes) = .ok () →
      Sched nodes entry locals limit P (k + 1)
        (chunks limit ((state.close nodes).ready nodes)) log (state.close nodes)
  | batch {k : Nat} {batch : List WorkflowNode} {batches : List (List WorkflowNode)}
      {log xs : List Settlement} {state : GraphState} :
      Sched nodes entry locals limit P k (batch :: batches) log state →
      xs.map Settlement.node = batch →
      (∀ x ∈ xs, P state x) →
      Sched nodes entry locals limit P k batches (log ++ xs) (state.settleAll xs)

section Machine

variable {nodes : List WorkflowNode} {entry : String} {locals : StrMap Value} {limit : Nat}
  {P : GraphState → Settlement → Prop}

theorem flatten_chunksFrom {α : Type} (size : Nat) (current xs : List α) :
    (chunksFrom size current xs).flatten = current.reverse ++ xs := by
  induction xs generalizing current with
  | nil => cases current <;> simp [chunksFrom]
  | cons x xs ih =>
    rw [chunksFrom]
    split
    · rw [ih]; simp
    · rw [List.flatten_cons, ih]; simp

@[simp]
theorem flatten_chunks {α : Type} (size : Nat) (xs : List α) : (chunks size xs).flatten = xs := by
  simp [chunks, flatten_chunksFrom]

theorem isReady_iff {state : GraphState} {node : WorkflowNode} :
    state.isReady nodes node = true ↔
      node.id ∉ state.settled ∧ node.id ∈ state.activated ∧
        (∀ p, Edge nodes p node.id → p ∈ state.settled) ∧
          ∀ d ∈ node.dependencies, d ∈ state.settled := by
  simp only [GraphState.isReady, Bool.and_eq_true, List.all_eq_true, mem_predecessors,
    decide_eq_true_eq, and_assoc]

/-- The edges selected by the settlements of a log. -/
def Selects (log : List Settlement) (a b : String) : Prop :=
  ∃ x ∈ log, x.node.id = a ∧ b ∈ x.selected

/-- A node of this id was executed. -/
def Executed (log : List Settlement) (id : String) : Prop := ∃ x ∈ log, x.node.id = id

/-- The progress of the scheduler, as the abstract layer sees it. -/
def progress (log : List Settlement) (state : GraphState) : Activation.Progress String where
  settled := {id | id ∈ state.settled}
  executed := {id | Executed log id}
  active := {id | id ∈ state.activated}

/-- The effect of a settlement on the local bindings. -/
def Settlement.write (locals : StrMap Value) (x : Settlement) : StrMap Value :=
  if x.node.kind = .setVariable then
    match x.node.variableName, x.inputs.get? "value" with
    | some name, some value => locals.insert ("$" ++ name) value
    | _, _ => locals
  else locals

/-- What holds of a reachable state, whatever is still to run. -/
structure SchedInvariant (nodes : List WorkflowNode) (entry : String) (locals : StrMap Value)
    (log : List Settlement) (state : GraphState) : Prop where
  settled : SettledOk nodes state.settled
  control : Activation.Invariant (Edge nodes) (Selects log) entry (progress log state)
  log_mem : ∀ x ∈ log, x.node ∈ nodes
  log_nodup : (log.map (·.node.id)).Nodup
  outputs : ∀ x ∈ log, state.outputs.get? x.node.id = some x.result.outputs
  executed : ∀ id, state.outputs.contains id = true → Executed log id
  locals_eq : state.locals = log.foldl Settlement.write locals

theorem SchedInvariant.initial :
    SchedInvariant nodes entry locals [] (.initial entry locals) where
  settled := ⟨List.nodup_nil, List.nil_subset _⟩
  control := by
    have h : Activation.Invariant (Edge nodes) (Selects []) entry ⟨∅, ∅, {entry}⟩ := .initial
    have hprogress : progress [] (.initial entry locals) = ⟨∅, ∅, {entry}⟩ := by
      simp [progress, GraphState.initial, Executed]
    rwa [hprogress]
  log_mem := by simp
  log_nodup := by simp
  outputs := by simp
  executed := by simp [GraphState.initial, StrMap.contains]
  locals_eq := rfl

theorem SchedInvariant.closes {log : List Settlement} {state : GraphState}
    (h : SchedInvariant nodes entry locals log state) {settled : List String}
    (hc : Closes nodes state.activated state.settled settled) :
    SchedInvariant nodes entry locals log { state with settled } := by
  induction hc with
  | refl => exact h
  | @tail s s' _ hstep ih =>
    obtain ⟨id, hid, hclosable, rfl⟩ := hstep
    obtain ⟨hnew, hactive, hpred⟩ := closable_iff.mp hclosable
    refine { ih with settled := ih.settled.cons hid hnew, control := ?_ }
    have hclose := ih.control.close (n := id) hactive hpred
    have hprogress : progress log { state with settled := id :: s } =
        { progress log { state with settled := s } with
          settled := insert id (progress log { state with settled := s }).settled } := by
      simp [progress, Set.insert_def]
    rw [hprogress]
    exact hclose

theorem SchedInvariant.close {log : List Settlement} {state : GraphState}
    (h : SchedInvariant nodes entry locals log state) :
    SchedInvariant nodes entry locals log (state.close nodes) :=
  h.closes (closes_closeUnselected _ _)

/-- **The settling step**: settling a ready node keeps the invariant. -/
theorem SchedInvariant.settle {log : List Settlement} {state : GraphState}
    (h : SchedInvariant nodes entry locals log state) {x : Settlement} (hmem : x.node ∈ nodes)
    (hready : state.isReady nodes x.node = true) :
    SchedInvariant nodes entry locals (log ++ [x]) (state.settle x.node x.inputs x.result) := by
  obtain ⟨hnew, hactive, hpred, -⟩ := isReady_iff.mp hready
  have hid : x.node.id ∈ nodeIds nodes := List.mem_map_of_mem hmem
  have hfresh : ¬ Executed log x.node.id := fun hx => hnew (h.control.executed_settled hx)
  have hsettled : (state.settle x.node x.inputs x.result).settled = x.node.id :: state.settled := by
    simp [GraphState.settle, insertId, hnew]
  refine
    { settled := by rw [hsettled]; exact h.settled.cons hid hnew
      control := ?_
      log_mem := ?_
      log_nodup := ?_
      outputs := ?_
      executed := ?_
      locals_eq := ?_ }
  · have htargets : ∀ t ∈ {t | t ∈ x.selected}, Edge nodes x.node.id t :=
      fun t ht => ⟨x.node, hmem, rfl, x.node.routeTargets_subset _ ht⟩
    have hexec := h.control.execute (fun ⟨y, hy, hya, _⟩ => ⟨y, hy, hya⟩) hnew hactive hpred
      htargets
    have hselects : Selects (log ++ [x]) =
        Activation.select (Selects log) x.node.id {t | t ∈ x.selected} := by
      funext a b
      refine propext ?_
      simp only [Selects, Activation.select, List.mem_append, List.mem_singleton, or_and_right,
        exists_or, exists_eq_left, Set.mem_ofPred_eq]
      rw [eq_comm (a := a)]
    have hprogress : progress (log ++ [x]) (state.settle x.node x.inputs x.result) =
        ⟨insert x.node.id (progress log state).settled,
          insert x.node.id (progress log state).executed,
          {t | t ∈ x.selected} ∪ (progress log state).active⟩ := by
      simp only [progress, hsettled, Activation.Progress.mk.injEq]
      refine ⟨?_, ?_, ?_⟩
      · ext id; simp
      · ext id
        simp only [Executed, List.mem_append, List.mem_singleton, Set.mem_ofPred_eq,
          Set.mem_insert_iff, or_and_right, exists_or, exists_eq_left]
        rw [or_comm, eq_comm (a := x.node.id)]
      · ext id
        simp [GraphState.settle, Settlement.selected, WorkflowNode.routeTargets]
    rw [hselects, hprogress]
    exact hexec
  · intro y hy
    rcases List.mem_append.mp hy with hy | hy
    · exact h.log_mem y hy
    · rw [List.mem_singleton.mp hy]; exact hmem
  · rw [List.map_append, List.map_singleton, List.nodup_append]
    refine ⟨h.log_nodup, List.nodup_singleton _, ?_⟩
    rintro a ha b hb rfl
    obtain ⟨y, hy, hya⟩ := List.mem_map.mp ha
    exact hfresh ⟨y, hy, hya.trans (List.mem_singleton.mp hb)⟩
  · intro y hy
    rcases List.mem_append.mp hy with hy | hy
    · have hne : x.node.id ≠ y.node.id := fun heq => hfresh ⟨y, hy, heq.symm⟩
      rw [GraphState.settle, StrMap.get?_insert_ne _ hne]
      exact h.outputs y hy
    · rw [List.mem_singleton.mp hy, GraphState.settle, StrMap.get?_insert_self]
  · intro id hout
    by_cases hx : x.node.id = id
    · exact ⟨x, by simp, hx⟩
    · rw [StrMap.contains, GraphState.settle, StrMap.get?_insert_ne _ hx] at hout
      obtain ⟨y, hy, hyid⟩ := h.executed id hout
      exact ⟨y, List.mem_append_left _ hy, hyid⟩
  · rw [List.foldl_append, ← h.locals_eq]
    rfl

/-- The nodes that are still to run in the present round: all of them are ready. -/
structure Pending (nodes : List WorkflowNode) (rest : List WorkflowNode) (state : GraphState) :
    Prop where
  mem : ∀ node ∈ rest, node ∈ nodes
  ready : ∀ node ∈ rest, state.isReady nodes node = true
  nodup : (nodeIds rest).Nodup

theorem Pending.of_ready (hnd : (nodeIds nodes).Nodup) (state : GraphState) :
    Pending nodes (state.ready nodes) state where
  mem := fun _ hn => List.mem_of_mem_filter hn
  ready := fun _ hn => List.of_mem_filter hn
  nodup := hnd.sublist (List.filter_sublist.map _)

/-- Settling one node leaves the others ready. -/
theorem Pending.settle {rest : List WorkflowNode} {state : GraphState} {x : Settlement}
    (h : Pending nodes (x.node :: rest) state) :
    Pending nodes rest (state.settle x.node x.inputs x.result) := by
  obtain ⟨hfresh, hnd⟩ := List.nodup_cons.mp h.nodup
  refine ⟨fun node hn => h.mem node (List.mem_cons_of_mem _ hn), fun node hn => ?_, hnd⟩
  obtain ⟨hnew, hactive, hpred, hdeps⟩ := isReady_iff.mp (h.ready node (List.mem_cons_of_mem _ hn))
  have hsub : ∀ id ∈ state.settled, id ∈ (state.settle x.node x.inputs x.result).settled := by
    intro id hid
    simp only [GraphState.settle, insertId]
    split
    · exact hid
    · exact List.mem_cons_of_mem _ hid
  refine isReady_iff.mpr ⟨?_, List.mem_append_right _ hactive,
    fun p hp => hsub p (hpred p hp), fun d hd => hsub d (hdeps d hd)⟩
  have hne : node.id ≠ x.node.id := fun heq => hfresh (heq ▸ List.mem_map_of_mem hn)
  simp only [GraphState.settle, insertId]
  split
  · exact hnew
  · exact fun hmem => (List.mem_cons.mp hmem).elim hne hnew

theorem GraphState.mem_settleAll {state : GraphState} {xs : List Settlement} {id : String} :
    id ∈ (state.settleAll xs).settled ↔ id ∈ state.settled ∨ ∃ x ∈ xs, x.node.id = id := by
  induction xs generalizing state with
  | nil => simp [settleAll]
  | cons x xs ih =>
    have hstep : id ∈ (state.settle x.node x.inputs x.result).settled ↔
        id = x.node.id ∨ id ∈ state.settled := by
      simp only [settle, insertId]
      split
      · next hmem =>
        constructor
        · exact .inr
        · rintro (rfl | h)
          · exact hmem
          · exact h
      · exact List.mem_cons
    have hunfold : state.settleAll (x :: xs) =
        (state.settle x.node x.inputs x.result).settleAll xs := rfl
    rw [hunfold, ih, hstep, List.exists_mem_cons_iff, eq_comm (a := id)]
    tauto

theorem SchedInvariant.settleAll {log xs : List Settlement} {rest : List WorkflowNode}
    {state : GraphState} (h : SchedInvariant nodes entry locals log state)
    (hp : Pending nodes (xs.map Settlement.node ++ rest) state) :
    SchedInvariant nodes entry locals (log ++ xs) (state.settleAll xs) ∧
      Pending nodes rest (state.settleAll xs) := by
  induction xs generalizing log state with
  | nil => simpa [GraphState.settleAll] using ⟨h, hp⟩
  | cons x xs ih =>
    have hmem : x.node ∈ nodes := hp.mem _ (by simp)
    have hready : state.isReady nodes x.node = true := hp.ready _ (by simp)
    have hstep := ih (h.settle (x := x) hmem hready) hp.settle
    rw [List.append_assoc] at hstep
    exact hstep

/-- **Every reachable state satisfies the invariant.** -/
theorem Sched.invariant (hnd : (nodeIds nodes).Nodup) {k : Nat}
    {batches : List (List WorkflowNode)} {log : List Settlement} {state : GraphState}
    (h : Sched nodes entry locals limit P k batches log state) :
    SchedInvariant nodes entry locals log state ∧ Pending nodes batches.flatten state := by
  induction h with
  | initial => exact ⟨.initial, ⟨by simp, by simp, by simp⟩⟩
  | round _ _ _ _ ih => exact ⟨ih.1.close, by simpa using Pending.of_ready hnd _⟩
  | batch _ hxs _ ih =>
    subst hxs
    exact ih.1.settleAll ih.2

/-- Every settlement of the log satisfied `P` in the state it was made in. -/
theorem Sched.mem_log {k : Nat} {batches : List (List WorkflowNode)} {log : List Settlement}
    {state : GraphState} (h : Sched nodes entry locals limit P k batches log state) :
    ∀ x ∈ log, ∃ state, P state x := by
  induction h with
  | initial => simp
  | round _ _ _ _ ih => exact ih
  | batch _ _ hP ih =>
    intro x hx
    rcases List.mem_append.mp hx with hx | hx
    · exact ih x hx
    · exact ⟨_, hP x hx⟩

/-! ### Choices of routes -/

/-- The edges selected when every node takes the route that `routes` gives it. -/
def Chosen (nodes : List WorkflowNode) (routes : String → String) (a b : String) : Prop :=
  ∃ node ∈ nodes, node.id = a ∧ b ∈ node.routeTargets (routes a)

/-- The ids reached from the entry when every node takes the route that `routes` gives it. -/
def Reached (nodes : List WorkflowNode) (entry : String) (routes : String → String)
    (id : String) : Prop :=
  Relation.ReflTransGen (Chosen nodes routes) entry id

/-- A choice of routes agrees with what was executed so far. -/
def Follows (routes : String → String) (log : List Settlement) : Prop :=
  ∀ x ∈ log, routes x.node.id = x.result.route

theorem exists_follows {log : List Settlement} (hnd : (log.map (·.node.id)).Nodup) :
    ∃ routes, Follows routes log := by
  refine ⟨fun id => ((log.find? (·.node.id = id)).map (·.result.route)).getD "", ?_⟩
  intro x hx
  have hfind : log.find? (fun y => y.node.id = x.node.id) = some x := by
    obtain ⟨y, hy⟩ : ∃ y, log.find? (fun y => y.node.id = x.node.id) = some y := by
      rw [← Option.isSome_iff_exists, List.find?_isSome]
      exact ⟨x, hx, by simp⟩
    have hid : y.node.id = x.node.id := by simpa using List.find?_some hy
    rw [hy, List.inj_on_of_nodup_map hnd (List.mem_of_find?_eq_some hy) hx hid]
  simp [hfind]

section Routes

variable {log : List Settlement} {state : GraphState} {routes : String → String}
  (h : SchedInvariant nodes entry locals log state) (hroutes : Follows routes log)
include h hroutes

theorem SchedInvariant.chosen_of_selects {a b : String} (hab : Selects log a b) :
    Chosen nodes routes a b := by
  obtain ⟨x, hx, rfl, hb⟩ := hab
  refine ⟨x.node, h.log_mem x hx, rfl, ?_⟩
  rw [hroutes x hx]
  exact hb

theorem SchedInvariant.reached_of_activated {id : String} (hid : id ∈ state.activated) :
    Reached nodes entry routes id :=
  Relation.ReflTransGen.mono (fun _ _ hab => h.chosen_of_selects hroutes hab) _ _
    (h.control.active_reached hid)

/-- A settled node that the choice reaches was executed. -/
theorem SchedInvariant.executed_of_reached (hnd : (nodeIds nodes).Nodup) {id : String}
    (hid : Reached nodes entry routes id) (hs : id ∈ state.settled) : Executed log id := by
  have hreach : Relation.ReflTransGen (Chosen nodes routes) entry id := hid
  refine h.control.executed_of_reached ?_ ?_ hreach hs
  · rintro a b ⟨node, hn, ha, hb⟩
    exact ⟨node, hn, ha, node.routeTargets_subset _ hb⟩
  · rintro a b ⟨x, hx, rfl⟩ ⟨node, hn, hid, hb⟩
    obtain rfl := eq_of_id_eq hnd hn (h.log_mem x hx) hid
    rw [hroutes x hx] at hb
    exact h.control.active_iff.mpr (.inr ⟨x.node.id, ⟨x, hx, rfl⟩, x, hx, rfl, hb⟩)

end Routes

/-- The control ancestors of a node whose predecessors are settled are settled. -/
theorem SchedInvariant.ancestor_settled {log : List Settlement} {state : GraphState}
    (h : SchedInvariant nodes entry locals log state) {a b : String}
    (hpred : ∀ p, Edge nodes p b → p ∈ state.settled) (hab : Ancestor nodes a b) :
    a ∈ state.settled := by
  induction hab using Relation.TransGen.head_induction_on with
  | single hab => exact hpred _ hab
  | head hac _ ih => exact h.control.settled_closed hac ih

end Machine

end KakuneCore
