import KakuneCore.Workflow.ControlGraph

/-!
# The cycle check is exact

`ensure_acyclic` accepts every graph without a control cycle whose routes stay inside it, its
recursion never gets deeper than there are nodes, and it follows every route at most once.

For the last statement the search is run with a **record** of the routes it follows; the record
changes no answer.
-/

namespace KakuneCore

variable {nodes : List WorkflowNode}

/-- Every route leads to a node of the list. -/
def TargetsInside (nodes : List WorkflowNode) : Prop :=
  ∀ node ∈ nodes, ∀ target ∈ node.targets, target ∈ nodeIds nodes

/-- `ensure_acyclic` with another bound on the depth of the recursion. -/
def ensureAcyclicWithin (nodes : List WorkflowNode) (depth : Nat) : Except String Unit := do
  let _ ← nodes.foldlM (fun state node => visit nodes depth node.id state) {}
  .ok ()

/-! ### What a search leaves on the stack -/

/-- A loop of searches keeps what each of them keeps. -/
private theorem foldlM_visiting {α : Type} {f : VisitState → α → Except String VisitState}
    {xs : List α} (hf : ∀ x ∈ xs, ∀ {state next}, f state x = .ok next →
      next.visiting = state.visiting) {state next : VisitState}
    (h : xs.foldlM f state = .ok next) : next.visiting = state.visiting := by
  induction xs generalizing state with
  | nil =>
    cases h
    rfl
  | cons x xs ih =>
    rw [List.foldlM_cons] at h
    cases hx : f state x with
    | error e => rw [hx] at h; cases h
    | ok middle =>
      rw [hx] at h
      rw [ih (fun y hy => hf y (List.mem_cons_of_mem _ hy)) h, hf x List.mem_cons_self hx]

/-- A search that returns has taken off the stack what it put there. -/
theorem visit_visiting {depth : Nat} {id : String} {state next : VisitState}
    (h : visit nodes depth id state = .ok next) : next.visiting = state.visiting := by
  induction depth generalizing id state next with
  | zero => cases h
  | succ depth ih =>
    rw [visit] at h
    split_ifs at h with hvisited hvisiting
    · cases h
      rfl
    · cases hn : nodeById nodes id with
      | none => rw [hn] at h; cases h
      | some node =>
        rw [hn] at h
        cases hfold : node.targets.foldlM (fun state target => visit nodes depth target state)
            { state with visiting := id :: state.visiting } with
        | error e => simp only [hfold] at h; cases h
        | ok last =>
          simp only [hfold] at h
          cases h
          have hlast : last.visiting = id :: state.visiting :=
            foldlM_visiting (fun _ _ => fun hx => ih hx) hfold
          simp only [hlast, List.erase_cons_head]

/-- The ids on the stack: different ones, of the list. -/
structure OnStack (nodes : List WorkflowNode) (visiting : List String) : Prop where
  nodup : visiting.Nodup
  subset : visiting ⊆ nodeIds nodes

theorem OnStack.length_le {visiting : List String} (h : OnStack nodes visiting) :
    visiting.length ≤ nodes.length := by
  have := (h.nodup.subperm h.subset).length_le
  simpa using this

theorem OnStack.cons {visiting : List String} (h : OnStack nodes visiting) {id : String}
    (hid : id ∈ nodeIds nodes) (hnew : id ∉ visiting) : OnStack nodes (id :: visiting) where
  nodup := List.nodup_cons.mpr ⟨hnew, h.nodup⟩
  subset := List.cons_subset.mpr ⟨hid, h.subset⟩

/-! ### Completeness -/

section Complete

variable (hinside : TargetsInside nodes) (hacyclic : Acyclic nodes)

include hinside hacyclic

/-- A search that meets no cycle succeeds: every id on the stack is an ancestor of the next one, and
the stack leaves room for it. -/
theorem visit_ok {depth : Nat} {id : String} {state : VisitState}
    (hstack : OnStack nodes state.visiting) (hid : id ∈ nodeIds nodes)
    (hancestors : ∀ a ∈ state.visiting, Ancestor nodes a id)
    (hdepth : nodes.length < state.visiting.length + depth) :
    ∃ next, visit nodes depth id state = .ok next := by
  induction depth generalizing id state with
  | zero =>
    have := hstack.length_le
    omega
  | succ depth ih =>
    rw [visit]
    split_ifs with hvisited hvisiting
    · exact ⟨_, rfl⟩
    · exact absurd (hancestors id hvisiting) (hacyclic id)
    · obtain ⟨node, hn⟩ := nodeById_isSome hid
      obtain ⟨hmem, rfl⟩ := nodeById_mem hn
      have hloop : ∀ {targets : List String}, targets ⊆ node.targets → ∀ {state' : VisitState},
          state'.visiting = node.id :: state.visiting →
          ∃ next, targets.foldlM (fun state target => visit nodes depth target state) state' =
            .ok next := by
        intro targets
        induction targets with
        | nil => exact fun _ _ _ => ⟨_, rfl⟩
        | cons target targets ihtargets =>
          intro hsub state' hstate'
          obtain ⟨htarget, htargets⟩ := List.cons_subset.mp hsub
          have hedge : Edge nodes node.id target := ⟨node, hmem, rfl, htarget⟩
          have hancestors' : ∀ a ∈ state'.visiting, Ancestor nodes a target := by
            rw [hstate']
            intro a ha
            rcases List.mem_cons.mp ha with rfl | ha
            · exact .single hedge
            · exact .tail (hancestors a ha) hedge
          have hstack' : OnStack nodes state'.visiting := hstate' ▸ hstack.cons hid hvisiting
          have hroom : nodes.length < state'.visiting.length + depth := by
            rw [hstate', List.length_cons]
            omega
          obtain ⟨middle, hmiddle⟩ :=
            ih hstack' (hinside node hmem target htarget) hancestors' hroom
          obtain ⟨next, hnext⟩ := ihtargets htargets ((visit_visiting hmiddle).trans hstate')
          rw [List.foldlM_cons, hmiddle]
          exact ⟨next, hnext⟩
      obtain ⟨last, hlast⟩ : ∃ last, node.targets.foldlM
          (fun state target => visit nodes depth target state)
          { state with visiting := node.id :: state.visiting } = .ok last :=
        hloop (List.Subset.refl _) rfl
      rw [hn]
      simp only [hlast]
      exact ⟨_, rfl⟩

/-- **Completeness of the cycle check.** -/
theorem ensureAcyclic_of_acyclic : ensureAcyclic nodes = .ok () := by
  have hloop : ∀ {xs : List WorkflowNode}, xs ⊆ nodes → ∀ {state : VisitState},
      state.visiting = [] → ∃ next, xs.foldlM
        (fun state node => visit nodes (nodes.length + 1) node.id state) state = .ok next := by
    intro xs
    induction xs with
    | nil => exact fun _ _ _ => ⟨_, rfl⟩
    | cons node xs ih =>
      intro hsub state hstate
      obtain ⟨hnode, hxs⟩ := List.cons_subset.mp hsub
      have hempty : OnStack nodes state.visiting := hstate ▸ ⟨List.nodup_nil, List.nil_subset _⟩
      have hancestors : ∀ a ∈ state.visiting, Ancestor nodes a node.id := by
        rw [hstate]
        exact fun a ha => absurd ha List.not_mem_nil
      obtain ⟨middle, hmiddle⟩ :
          ∃ middle, visit nodes (nodes.length + 1) node.id state = .ok middle :=
        visit_ok hinside hacyclic hempty (List.mem_map_of_mem hnode) hancestors (by omega)
      obtain ⟨next, hnext⟩ := ih hxs ((visit_visiting hmiddle).trans hstate)
      rw [List.foldlM_cons, hmiddle]
      exact ⟨next, hnext⟩
  obtain ⟨last, hlast⟩ : ∃ last, nodes.foldlM
      (fun state node => visit nodes (nodes.length + 1) node.id state) ({} : VisitState) =
        .ok last :=
    hloop (List.Subset.refl _) rfl
  rw [ensureAcyclic, hlast]
  rfl

end Complete

/-! ### The bound on the depth -/

/-- Two loops whose searches agree while the stack stays as it is. -/
private theorem foldlM_congr {α : Type} {f g : VisitState → α → Except String VisitState}
    {xs : List α} {visiting : List String}
    (hfg : ∀ x ∈ xs, ∀ state : VisitState, state.visiting = visiting → f state x = g state x)
    (hg : ∀ x ∈ xs, ∀ {state next}, g state x = .ok next → next.visiting = state.visiting)
    {state : VisitState} (hstate : state.visiting = visiting) :
    xs.foldlM f state = xs.foldlM g state := by
  induction xs generalizing state with
  | nil => rfl
  | cons x xs ih =>
    rw [List.foldlM_cons, List.foldlM_cons, hfg x List.mem_cons_self state hstate]
    cases hx : g state x with
    | error e => rfl
    | ok middle =>
      exact ih (fun y hy => hfg y (List.mem_cons_of_mem _ hy))
        (fun y hy => hg y (List.mem_cons_of_mem _ hy))
        ((hg x List.mem_cons_self hx).trans hstate)

/-- A bound that leaves room for the nodes that are not on the stack is not reached. -/
theorem visit_depth {depth depth' : Nat} {id : String} {state : VisitState}
    (hstack : OnStack nodes state.visiting)
    (hdepth : nodes.length < state.visiting.length + depth)
    (hdepth' : nodes.length < state.visiting.length + depth') :
    visit nodes depth id state = visit nodes depth' id state := by
  have hlength := hstack.length_le
  induction depth generalizing depth' id state with
  | zero => omega
  | succ depth ih =>
    cases depth' with
    | zero => omega
    | succ depth' =>
      rw [visit, visit]
      split_ifs with hvisited hvisiting
      · rfl
      · rfl
      · cases hn : nodeById nodes id with
        | none => rfl
        | some node =>
          obtain ⟨hmem, rfl⟩ := nodeById_mem hn
          have hstack' := hstack.cons (List.mem_map_of_mem hmem) hvisiting
          have hfold : node.targets.foldlM (fun state target => visit nodes depth target state)
              { state with visiting := node.id :: state.visiting } =
              node.targets.foldlM (fun state target => visit nodes depth' target state)
                { state with visiting := node.id :: state.visiting } := by
            refine foldlM_congr (fun target _ state' hstate' => ?_)
              (fun _ _ => fun hx => visit_visiting hx) rfl
            have hstack' : OnStack nodes state'.visiting := hstate' ▸ hstack'
            have hroom : state'.visiting.length = state.visiting.length + 1 := by rw [hstate']; rfl
            exact ih hstack' (by omega) (by omega) hstack'.length_le
          simp only [hfold]

/-- **The recursion ends**: no bound above the number of nodes is ever reached. -/
theorem ensureAcyclicWithin_eq {depth : Nat} (hdepth : nodes.length < depth) :
    ensureAcyclicWithin nodes depth = ensureAcyclic nodes := by
  have hfold : nodes.foldlM (fun state node => visit nodes depth node.id state)
      ({} : VisitState) =
      nodes.foldlM (fun state node => visit nodes (nodes.length + 1) node.id state) {} := by
    have hnothing : ({} : VisitState).visiting = [] := rfl
    refine foldlM_congr (fun node _ state hstate => ?_)
      (fun _ _ => fun hx => visit_visiting hx) hnothing
    have hempty : OnStack nodes state.visiting := by
      rw [hstate]
      exact ⟨List.nodup_nil, List.nil_subset _⟩
    exact visit_depth hempty (by omega) (by omega)
  rw [ensureAcyclicWithin, ensureAcyclic, hfold]

/-! ### The routes that are followed -/

/-- A route: its node and its position among the targets of the node. -/
abbrev Route := String × Nat

/-- The routes of a list of nodes. -/
def routesOf (nodes : List WorkflowNode) : List Route :=
  nodes.flatMap fun node => (List.range node.targets.length).map fun position => (node.id, position)

/-- An answer with the record of the routes that were followed for it. -/
abbrev Recorded (α : Type) := Except String α × List Route

/-- The loop over the targets of a node, from a position on. -/
def followRoutes (search : String → VisitState → Recorded VisitState) (source : String) :
    Nat → List String → VisitState → Recorded VisitState
  | _, [], state => (.ok state, [])
  | position, target :: targets, state =>
    match search target state with
    | (.error e, routes) => (.error e, (source, position) :: routes)
    | (.ok state, routes) =>
      let rest := followRoutes search source (position + 1) targets state
      (rest.1, (source, position) :: routes ++ rest.2)

/-- The end of `visit`: the node leaves the stack and is finished. -/
def finishVisit (id : String) (followed : Recorded VisitState) : Recorded VisitState :=
  (followed.1.map fun state =>
    { visiting := state.visiting.erase id, visited := id :: state.visited }, followed.2)

/-- `visit` with the record. -/
def visitRecorded (nodes : List WorkflowNode) : Nat → String → VisitState → Recorded VisitState
  | 0, id, _ => (.error s!"node {id} was not found", [])
  | depth + 1, id, state =>
    if id ∈ state.visited then (.ok state, [])
    else if id ∈ state.visiting then
      (.error s!"workflow contains an unstructured control-flow cycle at {id}", [])
    else match nodeById nodes id with
    | none => (.error s!"node {id} was not found", [])
    | some node =>
      finishVisit id (followRoutes (visitRecorded nodes depth) id 0 node.targets
        { state with visiting := id :: state.visiting })

/-- The loop over the nodes. -/
def searchRecorded (search : String → VisitState → Recorded VisitState) :
    List WorkflowNode → VisitState → Recorded VisitState
  | [], state => (.ok state, [])
  | node :: rest, state =>
    match search node.id state with
    | (.error e, routes) => (.error e, routes)
    | (.ok state, routes) =>
      let rest := searchRecorded search rest state
      (rest.1, routes ++ rest.2)

/-- `ensure_acyclic` with the record. -/
def ensureAcyclicRecorded (nodes : List WorkflowNode) : Recorded Unit :=
  let search := searchRecorded (visitRecorded nodes (nodes.length + 1)) nodes {}
  (search.1.map fun _ => (), search.2)

/-! #### The record changes no answer -/

theorem followRoutes_fst {search : String → VisitState → Recorded VisitState}
    {f : String → VisitState → Except String VisitState}
    (hsearch : ∀ target state, (search target state).1 = f target state) (source : String)
    (position : Nat) (targets : List String) (state : VisitState) :
    (followRoutes search source position targets state).1 =
      targets.foldlM (fun state target => f target state) state := by
  induction targets generalizing position state with
  | nil => rfl
  | cons target targets ih =>
    rw [followRoutes, List.foldlM_cons, ← hsearch]
    rcases hx : search target state with ⟨_ | middle, routes⟩
    · rfl
    · exact ih (position + 1) middle

theorem visitRecorded_fst (depth : Nat) (id : String) (state : VisitState) :
    (visitRecorded nodes depth id state).1 = visit nodes depth id state := by
  induction depth generalizing id state with
  | zero => rfl
  | succ depth ih =>
    rw [visitRecorded, visit]
    split_ifs
    · rfl
    · rfl
    · cases hn : nodeById nodes id with
      | none => rfl
      | some node =>
        simp only [finishVisit, followRoutes_fst ih]
        cases node.targets.foldlM (fun state target => visit nodes depth target state)
          { state with visiting := id :: state.visiting } <;> rfl

theorem searchRecorded_fst {search : String → VisitState → Recorded VisitState}
    {f : String → VisitState → Except String VisitState}
    (hsearch : ∀ id state, (search id state).1 = f id state) (xs : List WorkflowNode)
    (state : VisitState) : (searchRecorded search xs state).1 =
      xs.foldlM (fun state node => f node.id state) state := by
  induction xs generalizing state with
  | nil => rfl
  | cons node xs ih =>
    rw [searchRecorded, List.foldlM_cons, ← hsearch]
    rcases hx : search node.id state with ⟨_ | middle, routes⟩
    · rfl
    · exact ih middle

theorem ensureAcyclicRecorded_fst (nodes : List WorkflowNode) :
    (ensureAcyclicRecorded nodes).1 = ensureAcyclic nodes := by
  rw [ensureAcyclicRecorded, ensureAcyclic]
  simp only [searchRecorded_fst (visitRecorded_fst (nodes.length + 1))]
  cases nodes.foldlM (fun state node => visit nodes (nodes.length + 1) node.id state)
    ({} : VisitState) <;> rfl

/-! #### No route is followed twice -/

theorem mem_routesOf {node : WorkflowNode} (h : node ∈ nodes) {position : Nat}
    (hposition : position < node.targets.length) : (node.id, position) ∈ routesOf nodes :=
  List.mem_flatMap.mpr ⟨node, h, List.mem_map_of_mem (List.mem_range.mpr hposition)⟩

/-- What a recorded search keeps: it follows routes of nodes that are neither finished nor on the
stack, each once, and when it returns it has finished these nodes. -/
structure Searched (nodes : List WorkflowNode) (state : VisitState) (answer : Recorded VisitState) :
    Prop where
  nodup : answer.2.Nodup
  fresh : ∀ route ∈ answer.2,
    route ∈ routesOf nodes ∧ route.1 ∉ state.visited ∧ route.1 ∉ state.visiting
  visiting : ∀ next, answer.1 = .ok next → next.visiting = state.visiting
  visited : ∀ next, answer.1 = .ok next → state.visited ⊆ next.visited
  finished : ∀ next, answer.1 = .ok next → ∀ route ∈ answer.2, route.1 ∈ next.visited

/-- The same of the loop over the targets of a node on the stack, whose own routes are followed from
a position on. -/
structure FollowedFrom (nodes : List WorkflowNode) (source : String) (position last : Nat)
    (state : VisitState) (answer : Recorded VisitState) : Prop where
  nodup : answer.2.Nodup
  fresh : ∀ route ∈ answer.2, (route.1 = source ∧ position ≤ route.2 ∧ route.2 < last) ∨
    (route ∈ routesOf nodes ∧ route.1 ∉ state.visited ∧ route.1 ∉ state.visiting)
  visiting : ∀ next, answer.1 = .ok next → next.visiting = state.visiting
  visited : ∀ next, answer.1 = .ok next → state.visited ⊆ next.visited
  finished : ∀ next, answer.1 = .ok next → ∀ route ∈ answer.2,
    route.1 = source ∨ route.1 ∈ next.visited

theorem Searched.nil {state : VisitState} : Searched nodes state (.ok state, []) where
  nodup := List.nodup_nil
  fresh := fun _ h => absurd h List.not_mem_nil
  visiting := fun next h => by cases h; rfl
  visited := fun next h => by cases h; exact List.Subset.refl _
  finished := fun _ _ _ h => absurd h List.not_mem_nil

theorem Searched.error {state : VisitState} {message : String} :
    Searched nodes state (.error message, []) where
  nodup := List.nodup_nil
  fresh := fun _ h => absurd h List.not_mem_nil
  visiting := fun _ h => nomatch h
  visited := fun _ h => nomatch h
  finished := fun _ h => nomatch h

/-- Behind a search that returned, the routes of a second one are different. -/
theorem Searched.disjoint {state middle : VisitState} {routes : List Route}
    (h : Searched nodes state (.ok middle, routes)) {others : List Route}
    (hothers : ∀ route ∈ others, route.1 ∉ middle.visited) : List.Disjoint routes others :=
  fun route hroute hother => hothers route hother (h.finished middle rfl route hroute)

theorem followedFrom_followRoutes {search : String → VisitState → Recorded VisitState}
    {source : String} {visiting : List String} (hsource : source ∈ visiting)
    (hsearch : ∀ target state, state.visiting = visiting →
      Searched nodes state (search target state))
    (position : Nat) (targets : List String) {state : VisitState}
    (hstate : state.visiting = visiting) :
    FollowedFrom nodes source position (position + targets.length) state
      (followRoutes search source position targets state) := by
  induction targets generalizing position state with
  | nil => exact ⟨List.nodup_nil, fun _ h => absurd h List.not_mem_nil, fun _ h => by cases h; rfl,
      fun _ h => by cases h; exact List.Subset.refl _, fun _ _ _ h => absurd h List.not_mem_nil⟩
  | cons target targets ih =>
    have hfirst := hsearch target state hstate
    rw [followRoutes]
    rcases hx : search target state with ⟨e | middle, routes⟩
    · rw [hx] at hfirst
      -- the search of the first target fails: its route is followed, the later ones are not
      have hnew : (source, position) ∉ routes :=
        fun hroute => (hfirst.fresh _ hroute).2.2 (hstate ▸ hsource)
      refine ⟨List.nodup_cons.mpr ⟨hnew, hfirst.nodup⟩, fun route hroute => ?_, nofun, nofun, nofun⟩
      rcases List.mem_cons.mp hroute with rfl | hroute
      · exact .inl ⟨rfl, le_rfl, by simp⟩
      · exact .inr (hfirst.fresh route hroute)
    · rw [hx] at hfirst
      dsimp only
      have hmiddle : middle.visiting = visiting := (hfirst.visiting middle rfl).trans hstate
      have hrest := ih (position + 1) hmiddle
      have hnew : (source, position) ∉ routes :=
        fun hroute => (hfirst.fresh _ hroute).2.2 (hstate ▸ hsource)
      have hlater : ∀ route ∈ (followRoutes search source (position + 1) targets middle).2,
          (route.1 = source ∧ position + 1 ≤ route.2 ∧ route.2 < position + 1 + targets.length) ∨
            (route ∈ routesOf nodes ∧ route.1 ∉ middle.visited ∧ route.1 ∉ visiting) := by
        intro route hroute
        rw [← hmiddle]
        exact hrest.fresh route hroute
      have hnew' : (source, position) ∉
          (followRoutes search source (position + 1) targets middle).2 := by
        intro hroute
        rcases hlater _ hroute with ⟨-, hle, -⟩ | ⟨-, -, hnot⟩
        · exact Nat.not_succ_le_self position hle
        · exact hnot hsource
      have hdisjoint : List.Disjoint routes
          (followRoutes search source (position + 1) targets middle).2 := by
        intro route hroute hother
        rcases hlater _ hother with ⟨heq, -⟩ | ⟨-, hnot, -⟩
        · exact (hfirst.fresh route hroute).2.2 (hstate ▸ heq ▸ hsource)
        · exact hnot (hfirst.finished middle rfl route hroute)
      refine ⟨?_, fun route hroute => ?_, fun next hnext => ?_, fun next hnext => ?_,
        fun next hnext route hroute => ?_⟩
      · rw [List.cons_append, List.nodup_cons, List.mem_append, not_or]
        exact ⟨⟨hnew, hnew'⟩, List.Nodup.append hfirst.nodup hrest.nodup hdisjoint⟩
      · rw [List.cons_append] at hroute
        rcases List.mem_cons.mp hroute with rfl | hroute
        · exact .inl ⟨rfl, le_rfl, by simp⟩
        · rcases List.mem_append.mp hroute with hroute | hroute
          · exact .inr (hfirst.fresh route hroute)
          · rcases hlater route hroute with ⟨heq, hle, hlt⟩ | ⟨hmem, hnot, hnot'⟩
            · refine .inl ⟨heq, Nat.le_of_succ_le hle, ?_⟩
              rw [List.length_cons]
              omega
            · exact .inr ⟨hmem, fun h => hnot (hfirst.visited middle rfl h), hstate ▸ hnot'⟩
      · exact (hrest.visiting next hnext).trans (hfirst.visiting middle rfl)
      · exact List.Subset.trans (hfirst.visited middle rfl) (hrest.visited next hnext)
      · rw [List.cons_append] at hroute
        rcases List.mem_cons.mp hroute with rfl | hroute
        · exact .inl rfl
        · rcases List.mem_append.mp hroute with hroute | hroute
          · exact .inr (hrest.visited next hnext (hfirst.finished middle rfl route hroute))
          · exact hrest.finished next hnext route hroute

/-- A node whose routes were all followed is finished. -/
theorem FollowedFrom.finishVisit {node : WorkflowNode} (hmem : node ∈ nodes) {state : VisitState}
    (hvisited : node.id ∉ state.visited) (hvisiting : node.id ∉ state.visiting)
    {answer : Recorded VisitState} (h : FollowedFrom nodes node.id 0 node.targets.length
      { state with visiting := node.id :: state.visiting } answer) :
    Searched nodes state (finishVisit node.id answer) := by
  obtain ⟨result, routes⟩ := answer
  refine ⟨h.nodup, fun route hroute => ?_, fun next hnext => ?_, fun next hnext => ?_,
    fun next hnext route hroute => ?_⟩
  · rcases h.fresh route hroute with ⟨heq, -, hlt⟩ | ⟨hin, hnot, hnot'⟩
    · obtain ⟨source, position⟩ := route
      obtain rfl : source = node.id := heq
      exact ⟨mem_routesOf hmem hlt, hvisited, hvisiting⟩
    · exact ⟨hin, hnot, fun hon => hnot' (List.mem_cons_of_mem _ hon)⟩
  · cases result with
    | error e => cases hnext
    | ok last =>
      cases hnext
      exact (congrArg (List.erase · node.id) (h.visiting last rfl)).trans
        (List.erase_cons_head _ _)
  · cases result with
    | error e => cases hnext
    | ok last =>
      cases hnext
      exact fun x hx => List.mem_cons_of_mem _ (h.visited last rfl hx)
  · cases result with
    | error e => cases hnext
    | ok last =>
      cases hnext
      rcases h.finished last rfl route hroute with heq | hin
      · exact List.mem_cons.mpr (.inl heq)
      · exact List.mem_cons_of_mem _ hin

theorem searched_visitRecorded (depth : Nat) (id : String) (state : VisitState) :
    Searched nodes state (visitRecorded nodes depth id state) := by
  induction depth generalizing id state with
  | zero => exact .error
  | succ depth ih =>
    rw [visitRecorded]
    split_ifs with hvisited hvisiting
    · exact .nil
    · exact .error
    · cases hn : nodeById nodes id with
      | none => exact .error
      | some node =>
        obtain ⟨hmem, rfl⟩ := nodeById_mem hn
        refine FollowedFrom.finishVisit hmem hvisited hvisiting ?_
        rw [← Nat.zero_add node.targets.length]
        exact followedFrom_followRoutes List.mem_cons_self
          (fun target state' _ => ih target state') 0
          node.targets rfl

theorem searched_searchRecorded {search : String → VisitState → Recorded VisitState}
    (hsearch : ∀ id state, Searched nodes state (search id state)) (xs : List WorkflowNode)
    (state : VisitState) : Searched nodes state (searchRecorded search xs state) := by
  induction xs generalizing state with
  | nil => exact .nil
  | cons node xs ih =>
    have hfirst := hsearch node.id state
    rw [searchRecorded]
    rcases hx : search node.id state with ⟨e | middle, routes⟩
    · rw [hx] at hfirst
      exact ⟨hfirst.nodup, hfirst.fresh, nofun, nofun, nofun⟩
    · rw [hx] at hfirst
      have hrest := ih middle
      refine ⟨List.Nodup.append hfirst.nodup hrest.nodup
        (hfirst.disjoint fun route hroute => (hrest.fresh route hroute).2.1),
        fun route hroute => ?_, fun next hnext => ?_, fun next hnext => ?_,
        fun next hnext route hroute => ?_⟩
      · rcases List.mem_append.mp hroute with hroute | hroute
        · exact hfirst.fresh route hroute
        · obtain ⟨hin, hnot, hnot'⟩ := hrest.fresh route hroute
          exact ⟨hin, fun h => hnot (hfirst.visited middle rfl h),
            hfirst.visiting middle rfl ▸ hnot'⟩
      · exact (hrest.visiting next hnext).trans (hfirst.visiting middle rfl)
      · exact List.Subset.trans (hfirst.visited middle rfl) (hrest.visited next hnext)
      · rcases List.mem_append.mp hroute with hroute | hroute
        · exact hrest.visited next hnext (hfirst.finished middle rfl route hroute)
        · exact hrest.finished next hnext route hroute

/-- **Every route is followed at most once**, whatever the answer: none of a finished node is. -/
theorem ensureAcyclicRecorded_routes (nodes : List WorkflowNode) :
    (ensureAcyclicRecorded nodes).2.Nodup ∧ (ensureAcyclicRecorded nodes).2 ⊆ routesOf nodes := by
  have h : Searched nodes {} (searchRecorded (visitRecorded nodes (nodes.length + 1)) nodes {}) :=
    searched_searchRecorded (searched_visitRecorded (nodes.length + 1)) nodes {}
  exact ⟨h.nodup, fun route hroute => (h.fresh route hroute).1⟩

/-- **The cycle check is exact**: it accepts the graphs without a cycle, its recursion ends, and it
follows each route at most once. -/
theorem ensureAcyclic_iff (nodes : List WorkflowNode) (hnd : (nodeIds nodes).Nodup)
    (hinside : TargetsInside nodes) :
    (ensureAcyclic nodes = .ok () ↔ Acyclic nodes) ∧
      (∀ depth, nodes.length < depth → ensureAcyclicWithin nodes depth = ensureAcyclic nodes) ∧
      (ensureAcyclicRecorded nodes).1 = ensureAcyclic nodes ∧
      (ensureAcyclicRecorded nodes).2.Nodup ∧
      (ensureAcyclicRecorded nodes).2 ⊆ routesOf nodes := by
  refine ⟨⟨acyclic_of_ensureAcyclic hnd, ensureAcyclic_of_acyclic hinside⟩,
    fun _ => ensureAcyclicWithin_eq, ensureAcyclicRecorded_fst nodes,
    ensureAcyclicRecorded_routes nodes⟩

/-- Three nodes, the last of which two routes reach. -/
def diamondNodes : List WorkflowNode :=
  [{ id := "a", nodeType := "set", on := [("failure", .one "c"), ("success", .many ["b", "c"])] },
    { id := "b", nodeType := "set", on := [("success", .one "c")] },
    { id := "c", nodeType := "set" }]

/-- The check accepts them, so there is no cycle. -/
theorem acyclic_diamondNodes : Acyclic diamondNodes :=
  (ensureAcyclic_iff diamondNodes (by decide) (by unfold TargetsInside; decide)).1.mp (by rfl)

end KakuneCore
