import KakuneCore.Planner.Compile

/-!
# The control graph

The control relation of a list of nodes, and what the two searches of the source say about it:
`ensure_acyclic` accepts only graphs without a control cycle, and the planner's worklist search
finds only nodes that are really reachable.
-/

namespace KakuneCore

/-- `Edge nodes a b`: some route of the node `a` has the target `b`. -/
def Edge (nodes : List WorkflowNode) (a b : String) : Prop :=
  ∃ node ∈ nodes, node.id = a ∧ b ∈ node.targets

/-- `Ancestor nodes a b`: the node `a` is a proper control ancestor of `b`. -/
def Ancestor (nodes : List WorkflowNode) : String → String → Prop :=
  Relation.TransGen (Edge nodes)

/-- There is no control cycle. -/
def Acyclic (nodes : List WorkflowNode) : Prop := ∀ a, ¬ Ancestor nodes a a

/-- The ids of a list of nodes. -/
abbrev nodeIds (nodes : List WorkflowNode) : List String := nodes.map WorkflowNode.id

variable {nodes : List WorkflowNode}

theorem Edge.mem_ids {a b : String} (h : Edge nodes a b) : a ∈ nodeIds nodes := by
  obtain ⟨node, hn, rfl, -⟩ := h
  exact List.mem_map_of_mem hn

theorem Ancestor.mem_ids {a b : String} (h : Ancestor nodes a b) : a ∈ nodeIds nodes := by
  obtain ⟨c, hac, -⟩ := Relation.TransGen.head'_iff.mp h
  exact hac.mem_ids

theorem mem_predecessorIds {id p : String} :
    p ∈ (nodes.filter fun candidate => id ∈ candidate.targets).map WorkflowNode.id ↔
      Edge nodes p id := by
  simp only [List.mem_map, List.mem_filter, decide_eq_true_eq, Edge]
  constructor
  · rintro ⟨node, ⟨hn, ht⟩, rfl⟩
    exact ⟨node, hn, rfl, ht⟩
  · rintro ⟨node, hn, rfl, ht⟩
    exact ⟨node, ⟨hn, ht⟩, rfl⟩

/-! ### Nodes by id -/

theorem nodeById_mem {id : String} {node : WorkflowNode} (h : nodeById nodes id = some node) :
    node ∈ nodes ∧ node.id = id := by
  have hmem := List.mem_of_find?_eq_some h
  have hid := List.find?_some h
  exact ⟨by simpa using hmem, by simpa using hid⟩

theorem nodeById_isSome {id : String} (h : id ∈ nodeIds nodes) :
    ∃ node, nodeById nodes id = some node := by
  rw [← Option.isSome_iff_exists, nodeById, List.find?_isSome]
  obtain ⟨node, hn, rfl⟩ := List.mem_map.mp h
  exact ⟨node, by simpa using hn, by simp⟩

/-- With unique ids, two nodes of one id are one node. -/
theorem eq_of_id_eq (hnd : (nodeIds nodes).Nodup) {a b : WorkflowNode} (ha : a ∈ nodes)
    (hb : b ∈ nodes) (h : a.id = b.id) : a = b :=
  List.inj_on_of_nodup_map hnd ha hb h

theorem nodeById_of_mem (hnd : (nodeIds nodes).Nodup) {node : WorkflowNode} (h : node ∈ nodes) :
    nodeById nodes node.id = some node := by
  obtain ⟨found, hf⟩ := nodeById_isSome (List.mem_map_of_mem h)
  obtain ⟨hmem, hid⟩ := nodeById_mem hf
  rw [hf, eq_of_id_eq hnd hmem h hid]

theorem mem_controlSuccessors {a b : String} (h : b ∈ controlSuccessors nodes a) :
    Edge nodes a b := by
  unfold controlSuccessors at h
  cases hn : nodeById nodes a with
  | none => simp [hn] at h
  | some node =>
    obtain ⟨hmem, hid⟩ := nodeById_mem hn
    exact ⟨node, hmem, hid, by simpa [hn] using h⟩

theorem mem_controlSuccessors_iff (hnd : (nodeIds nodes).Nodup) {a b : String} :
    b ∈ controlSuccessors nodes a ↔ Edge nodes a b := by
  refine ⟨mem_controlSuccessors, ?_⟩
  rintro ⟨node, hn, rfl, hb⟩
  rw [controlSuccessors, nodeById_of_mem hnd hn]
  simpa using hb

theorem mem_controlPredecessors {a b : String} :
    a ∈ controlPredecessors nodes b ↔ Edge nodes a b := by
  simp only [controlPredecessors, List.mem_flatMap, List.mem_map, List.mem_filter,
    decide_eq_true_eq, Edge]
  constructor
  · rintro ⟨node, hn, c, ⟨hc, rfl⟩, rfl⟩
    exact ⟨node, hn, rfl, hc⟩
  · rintro ⟨node, hn, rfl, hb⟩
    exact ⟨node, hn, b, ⟨hb, rfl⟩, rfl⟩

/-! ### The depth-first search of the validator -/

/-- Every successor of a listed id is listed after it: the order in which the search finishes. -/
def FinishOrder (successors : String → List String) : List String → Prop
  | [] => True
  | a :: l => (∀ b ∈ successors a, b ∈ l) ∧ FinishOrder successors l

theorem FinishOrder.closed {successors : String → List String} {l : List String}
    (h : FinishOrder successors l) {a b : String} (ha : a ∈ l) (hb : b ∈ successors a) :
    b ∈ l := by
  induction l with
  | nil => cases ha
  | cons x l ih =>
    rcases List.mem_cons.mp ha with rfl | ha
    · exact List.mem_cons_of_mem _ (h.1 b hb)
    · exact List.mem_cons_of_mem _ (ih h.2 ha)

/-- No cycle passes through a listed id. -/
theorem FinishOrder.acyclic {successors : String → List String} {l : List String}
    (h : FinishOrder successors l) {a : String} (ha : a ∈ l) :
    ¬ Relation.TransGen (fun x y => y ∈ successors x) a a := by
  induction l with
  | nil => cases ha
  | cons x l ih =>
    -- everything reachable from a listed id stays in the list
    have hreach : ∀ {c d}, c ∈ l → Relation.TransGen (fun x y => y ∈ successors x) c d →
        d ∈ l := by
      intro c d hc hcd
      induction hcd with
      | single hd => exact h.2.closed hc hd
      | tail _ hd ihd => exact h.2.closed ihd hd
    by_cases hal : a ∈ l
    · exact ih h.2 hal
    · obtain rfl : a = x := (List.mem_cons.mp ha).resolve_right hal
      intro hcycle
      obtain ⟨b, hb, hba⟩ := Relation.TransGen.head'_iff.mp hcycle
      have hbl : b ∈ l := h.1 b hb
      rcases Relation.reflTransGen_iff_eq_or_transGen.mp hba with rfl | hba
      · exact hal hbl
      · exact hal (hreach hbl hba)

/-- What a search step keeps: the finish order, and everything that was finished. -/
private def Extends (nodes : List WorkflowNode) (state next : VisitState) : Prop :=
  FinishOrder (controlSuccessors nodes) next.visited ∧ state.visited ⊆ next.visited

private theorem foldlM_visit {α : Type} {f : VisitState → α → Except String VisitState}
    (done : α → String)
    (hf : ∀ {state x next}, f state x = .ok next →
      FinishOrder (controlSuccessors nodes) state.visited →
      Extends nodes state next ∧ done x ∈ next.visited)
    {xs : List α} {state next : VisitState} (h : xs.foldlM f state = .ok next)
    (hs : FinishOrder (controlSuccessors nodes) state.visited) :
    Extends nodes state next ∧ ∀ x ∈ xs, done x ∈ next.visited := by
  induction xs generalizing state with
  | nil =>
    cases h
    exact ⟨⟨hs, List.Subset.refl _⟩, by simp⟩
  | cons x xs ih =>
    rw [List.foldlM_cons] at h
    cases hx : f state x with
    | error e => rw [hx] at h; cases h
    | ok middle =>
      rw [hx] at h
      obtain ⟨⟨hord, hsub⟩, hdone⟩ := hf hx hs
      obtain ⟨⟨hord', hsub'⟩, hall⟩ := ih h hord
      refine ⟨⟨hord', List.Subset.trans hsub hsub'⟩, ?_⟩
      simp only [List.mem_cons, forall_eq_or_imp]
      exact ⟨hsub' hdone, hall⟩

private theorem visit_extends {depth : Nat} {id : String} {state next : VisitState}
    (h : visit nodes depth id state = .ok next)
    (hs : FinishOrder (controlSuccessors nodes) state.visited) :
    Extends nodes state next ∧ id ∈ next.visited := by
  induction depth generalizing id state next with
  | zero => cases h
  | succ depth ih =>
    rw [visit] at h
    split at h
    · next hv =>
      cases h
      exact ⟨⟨hs, List.Subset.refl _⟩, hv⟩
    · split at h
      · cases h
      · cases hn : nodeById nodes id with
        | none => rw [hn] at h; cases h
        | some node =>
          rw [hn] at h
          cases hfold : node.targets.foldlM (fun state target => visit nodes depth target state)
              { state with visiting := id :: state.visiting } with
          | error e => simp only [hfold] at h; cases h
          | ok last =>
            simp only [hfold] at h
            cases h
            obtain ⟨⟨hord, hsub⟩, hdone⟩ := foldlM_visit
              (fun target => target) (fun hx hst => ih hx hst) hfold hs
            have hsucc : ∀ b ∈ controlSuccessors nodes id, b ∈ last.visited := by
              intro b hb
              exact hdone b (by simpa [controlSuccessors, hn] using hb)
            exact ⟨⟨⟨hsucc, hord⟩, fun x hx => List.mem_cons_of_mem _ (hsub hx)⟩,
              List.mem_cons_self⟩

/-- **Soundness of the cycle check**: an accepted graph with unique ids has no control cycle. -/
theorem acyclic_of_ensureAcyclic (hnd : (nodeIds nodes).Nodup)
    (h : ensureAcyclic nodes = .ok ()) : Acyclic nodes := by
  unfold ensureAcyclic at h
  cases hfold : nodes.foldlM (fun state node => visit nodes (nodes.length + 1) node.id state)
      ({} : VisitState) with
  | error e => rw [hfold] at h; cases h
  | ok last =>
    obtain ⟨⟨hord, -⟩, hdone⟩ := foldlM_visit WorkflowNode.id
      (fun hx hst => visit_extends hx hst) hfold trivial
    intro a ha
    obtain ⟨node, hn, hid⟩ := List.mem_map.mp (Ancestor.mem_ids ha)
    have hedge : (fun x y => y ∈ controlSuccessors nodes x) = Edge nodes := by
      funext x y
      exact propext (mem_controlSuccessors_iff hnd)
    have hcycle := hord.acyclic (hid ▸ hdone node hn)
    rw [hedge] at hcycle
    exact hcycle ha

/-! ### The worklist search of the planner -/

/-- **Soundness of the search**: an id it returns was seen before or is reachable from a pending
one. -/
theorem mem_explore {successors : String → List String} {fuel : Nat}
    {pending seen : List String} {id : String} (h : id ∈ explore successors fuel pending seen) :
    id ∈ seen ∨ ∃ p ∈ pending, Relation.ReflTransGen (fun a b => b ∈ successors a) p id := by
  induction fuel generalizing pending seen with
  | zero => exact .inl h
  | succ fuel ih =>
    rw [explore] at h
    cases hl : pending.getLast? with
    | none => rw [hl] at h; exact .inl h
    | some last =>
      rw [hl] at h
      have hlast : last ∈ pending := List.mem_of_getLast? hl
      dsimp only at h
      split at h
      · rcases ih h with h | ⟨p, hp, hpath⟩
        · exact .inl h
        · exact .inr ⟨p, List.dropLast_subset _ hp, hpath⟩
      · rcases ih h with h | ⟨p, hp, hpath⟩
        · rcases List.mem_cons.mp h with rfl | h
          · exact .inr ⟨_, hlast, .refl⟩
          · exact .inl h
        · rcases List.mem_append.mp hp with hp | hp
          · exact .inr ⟨p, List.dropLast_subset _ hp, hpath⟩
          · exact .inr ⟨last, hlast, .head hp hpath⟩

/-- What `control_reaches` accepts: the node itself, or a proper control ancestor of the
target. -/
theorem eq_or_ancestor_of_controlReaches {source target : String}
    (h : controlReaches nodes source target = true) :
    source = target ∨ Ancestor nodes source target := by
  rw [controlReaches, decide_eq_true_eq] at h
  rcases mem_explore h with h | ⟨p, hp, hpath⟩
  · cases h
  · obtain rfl := List.mem_singleton.mp hp
    have hedge : Relation.ReflTransGen (Edge nodes) p target :=
      Relation.ReflTransGen.mono (fun _ _ hab => mem_controlSuccessors hab) _ _ hpath
    rcases Relation.reflTransGen_iff_eq_or_transGen.mp hedge with h | h
    · exact .inl h.symm
    · exact .inr h

/-- `control_ancestors` lists only proper control ancestors. -/
theorem ancestor_of_mem_controlAncestors {source target : String}
    (h : source ∈ controlAncestors nodes target) : Ancestor nodes source target := by
  rcases mem_explore h with h | ⟨p, hp, hpath⟩
  · cases h
  · have hlast : Edge nodes p target := mem_controlPredecessors.mp hp
    have hback : Relation.ReflTransGen (Edge nodes) source p := by
      refine Relation.reflTransGen_swap.mp ?_
      exact Relation.ReflTransGen.mono (fun _ _ hab => mem_controlPredecessors.mp hab) _ _ hpath
    exact Relation.TransGen.tail' hback hlast

end KakuneCore
