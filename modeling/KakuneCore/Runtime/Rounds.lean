import KakuneCore.Runtime.ExecutedSet

/-!
# In which round a node runs

When every node gives the result assigned to it, the rounds of `execute_graph` are known in advance:
a node runs in the round that is its **level**, the greatest number of reached nodes on a control
path that ends in it, and the ready nodes of a round are all the reached nodes of that level. The
log of the scheduler is sorted by level.
-/

namespace KakuneCore

open Proc

/-! ### Levels -/

/-- The greatest level of a control predecessor. -/
def levelBefore (nodes : List WorkflowNode) (level : String → Nat) (id : String) : Nat :=
  ((predecessors nodes id).map level).foldr max 0

/-- `level` counts the reached nodes on the longest control path that ends in a node. -/
structure Levels (nodes : List WorkflowNode) (reached : String → Prop) (level : String → Nat) :
    Prop where
  reached_eq : ∀ {id}, reached id → level id = levelBefore nodes level id + 1
  unreached_eq : ∀ {id}, ¬ reached id → level id = levelBefore nodes level id

section Levels

variable {nodes : List WorkflowNode} {reached : String → Prop} {level : String → Nat}

theorem le_levelBefore {p id : String} (h : Edge nodes p id) :
    level p ≤ levelBefore nodes level id := by
  have hmax : ∀ (levels : List Nat) (n : Nat), n ∈ levels → n ≤ levels.foldr max 0 := by
    intro levels n hn
    induction levels with
    | nil => cases hn
    | cons first rest ih =>
      rw [List.foldr_cons]
      rcases List.mem_cons.mp hn with rfl | hrest
      · exact le_max_left _ _
      · exact (ih hrest).trans (le_max_right _ _)
  exact hmax _ _ (List.mem_map_of_mem (mem_predecessors.mpr h))

theorem levelBefore_le {id : String} {k : Nat} (h : ∀ p, Edge nodes p id → level p ≤ k) :
    levelBefore nodes level id ≤ k := by
  have hmax : ∀ levels : List Nat, (∀ n ∈ levels, n ≤ k) → levels.foldr max 0 ≤ k := by
    intro levels hall
    induction levels with
    | nil => exact Nat.zero_le k
    | cons first rest ih =>
      rw [List.foldr_cons]
      exact max_le (hall first List.mem_cons_self)
        (ih fun n hn => hall n (List.mem_cons_of_mem _ hn))
  refine hmax _ fun n hn => ?_
  obtain ⟨p, hp, rfl⟩ := List.mem_map.mp hn
  exact h p (mem_predecessors.mp hp)

theorem Levels.le_of_edge (h : Levels nodes reached level) {p id : String}
    (hedge : Edge nodes p id) : level p ≤ level id := by
  have hbefore : level p ≤ levelBefore nodes level id := le_levelBefore hedge
  by_cases hid : reached id
  · have := h.reached_eq hid
    omega
  · have := h.unreached_eq hid
    omega

theorem Levels.lt_of_edge (h : Levels nodes reached level) {p id : String}
    (hedge : Edge nodes p id) (hid : reached id) : level p < level id := by
  have hbefore : level p ≤ levelBefore nodes level id := le_levelBefore hedge
  have := h.reached_eq hid
  omega

theorem Levels.lt_of_ancestor (h : Levels nodes reached level) {a id : String}
    (hab : Ancestor nodes a id) (hid : reached id) : level a < level id := by
  induction hab using Relation.TransGen.head_induction_on with
  | single hedge => exact h.lt_of_edge hedge hid
  | head hedge _ ih => exact lt_of_le_of_lt (h.le_of_edge hedge) ih

theorem Levels.pos (h : Levels nodes reached level) {id : String} (hid : reached id) :
    0 < level id := by
  have := h.reached_eq hid
  omega

/-- An acyclic graph has levels. -/
theorem exists_levels (hacyclic : Acyclic nodes) (reached : String → Prop) :
    ∃ level, Levels nodes reached level := by
  classical
  have hwf : WellFounded (Edge nodes) := by
    refine WellFounded.intro fun id => Acc.intro id fun p hp => ?_
    by_contra hbad
    -- a minimal source without an accessibility proof would have only accessible predecessors
    obtain ⟨q, -, hq, hmin⟩ := Activation.exists_minimal (Edge nodes) {q | q ∈ nodeIds nodes}
      {q | Acc (Edge nodes) q} (List.finite_toSet _) hacyclic (fun h => Ancestor.mem_ids h)
      ⟨p, Ancestor.mem_ids (.single hp), hbad⟩
    exact hq (Acc.intro q fun r hr => hmin r (.single hr))
  let step : (id : String) → ((p : String) → Edge nodes p id → Nat) → Nat := fun id before =>
    ((predecessors nodes id).attach.map fun p => before p.1 (mem_predecessors.mp p.2)).foldr max 0
      + if reached id then 1 else 0
  have hfix : ∀ id, hwf.fix step id =
      levelBefore nodes (hwf.fix step) id + if reached id then 1 else 0 := by
    intro id
    rw [hwf.fix_eq]
    simp only [step, levelBefore]
    rw [List.attach_map_val]
  refine ⟨hwf.fix step, fun hid => ?_, fun hid => ?_⟩
  · rw [hfix, if_pos hid]
  · rw [hfix, if_neg hid, add_zero]

end Levels

/-! ### Rounds -/

open Classical in
/-- The reached nodes of a level, in the order of the document. -/
noncomputable def roundNodes (nodes : List WorkflowNode) (reached : String → Prop)
    (level : String → Nat) (k : Nat) : List WorkflowNode :=
  nodes.filter fun node => reached node.id ∧ level node.id = k

theorem mem_roundNodes {nodes : List WorkflowNode} {reached : String → Prop}
    {level : String → Nat} {k : Nat} {node : WorkflowNode} :
    node ∈ roundNodes nodes reached level k ↔
      node ∈ nodes ∧ reached node.id ∧ level node.id = k := by
  simp [roundNodes]

/-- What the rounds so far have settled: `done` are the batches of round `k` that are over. -/
structure LevelInvariant (nodes : List WorkflowNode) (reached : String → Prop)
    (level : String → Nat) (limit k : Nat) (batches : List (List WorkflowNode))
    (log : List Settlement) (state : GraphState) : Prop where
  settled_le : ∀ id ∈ state.settled, level id ≤ k
  reached_settled : ∀ id ∈ nodeIds nodes, reached id → level id ≤ k →
    id ∈ state.settled ∨ id ∈ nodeIds batches.flatten
  closed_settled : ∀ id ∈ nodeIds nodes, ¬ reached id → level id < k → id ∈ state.settled
  done : ∃ done, done ++ batches = chunks limit (roundNodes nodes reached level k) ∧
    ∀ x ∈ log, level x.node.id = k → x.node ∈ done.flatten
  log_le : ∀ x ∈ log, level x.node.id ≤ k
  sorted : log.Pairwise fun x y => level x.node.id ≤ level y.node.id
  checked : ∀ j ≤ k, checkWriters [] (roundNodes nodes reached level j) = .ok ()

section Rounds

variable {nodes : List WorkflowNode} {entry : String} {routes : String → String}
  {level : String → Nat} {locals : StrMap Value} {limit : Nat}
  {P : GraphState → Settlement → Prop} {k : Nat} {log : List Settlement} {state : GraphState}

theorem roundNodes_zero (hlevels : Levels nodes (Reached nodes entry routes) level) :
    roundNodes nodes (Reached nodes entry routes) level 0 = [] := by
  rw [List.eq_nil_iff_forall_not_mem]
  intro node hn
  obtain ⟨-, hreached, hzero⟩ := mem_roundNodes.mp hn
  have := hlevels.pos hreached
  omega

/-- Closing settles only nodes whose level is no greater than that of the settled ones. -/
theorem Closes.level_le (hnd : (nodeIds nodes).Nodup)
    (hlevels : Levels nodes (Reached nodes entry routes) level)
    (hinv : SchedInvariant nodes entry locals log state) (hroutes : Follows routes log)
    (hle : ∀ id ∈ state.settled, level id ≤ k) {settled : List String}
    (hcloses : Closes nodes state.activated state.settled settled) :
    ∀ id ∈ settled, level id ≤ k := by
  induction hcloses with
  | refl => exact hle
  | @tail s s' hpath hstep ih =>
    obtain ⟨id, hid, hclosable, rfl⟩ := hstep
    obtain ⟨hnew, -, hpred⟩ := closable_iff.mp hclosable
    -- a closed node is not reached: it would have been executed
    have hunreached : ¬ Reached nodes entry routes id := by
      intro hreached
      have hclosed := hinv.closes (hpath.tail ⟨id, hid, hclosable, rfl⟩)
      have hexecuted := hclosed.executed_of_reached hroutes hnd hreached List.mem_cons_self
      exact hnew (Closes.subset hpath (hinv.control.executed_settled hexecuted))
    have hbefore : levelBefore nodes level id ≤ k :=
      levelBefore_le fun p hp => ih p (hpred p hp)
    rw [List.forall_mem_cons]
    exact ⟨by rw [hlevels.unreached_eq hunreached]; exact hbefore, ih⟩

/-- After closing, the unreached nodes up to the present level are settled. -/
theorem mem_close_settled (hacyclic : Acyclic nodes)
    (hlevels : Levels nodes (Reached nodes entry routes) level)
    (hinv : SchedInvariant nodes entry locals log state) (hroutes : Follows routes log)
    (hreached : ∀ id ∈ nodeIds nodes, Reached nodes entry routes id → level id ≤ k →
      id ∈ state.settled) :
    ∀ id ∈ nodeIds nodes, level id ≤ k → id ∈ (state.close nodes).settled := by
  have hsub : state.settled ⊆ (state.close nodes).settled :=
    Closes.subset (closes_closeUnselected _ _)
  by_contra hopen
  push Not at hopen
  obtain ⟨id, hid, hle, hnew⟩ := hopen
  -- take a control-minimal node of these levels that is not settled
  obtain ⟨min, hmin, hminnew, hbelow⟩ := Activation.exists_minimal (Edge nodes)
    {id | id ∈ nodeIds nodes} {id | id ∈ (state.close nodes).settled ∨ k < level id}
    (List.finite_toSet _) hacyclic (fun h => Ancestor.mem_ids h) ⟨id, hid, by simp [hnew, hle]⟩
  simp only [Set.mem_ofPred_eq, not_or, not_lt] at hminnew
  obtain ⟨hminnew, hminle⟩ := hminnew
  have hpred : ∀ p, Edge nodes p min → p ∈ (state.close nodes).settled := by
    intro p hp
    have hple := hlevels.le_of_edge hp
    rcases hbelow p (.single hp) with hsettled | hlate
    · exact hsettled
    · exact absurd hlate (by omega)
  have hinactive : min ∉ state.activated := by
    intro hactive
    have hmin' := hreached min hmin (hinv.reached_of_activated hroutes hactive) hminle
    exact hminnew (hsub hmin')
  obtain ⟨node, hn, rfl⟩ := List.mem_map.mp hmin
  have hstuck : closable nodes state.activated (state.close nodes).settled node.id = false :=
    not_closable_closeUnselected hinv.settled (by omega) node hn
  have hclosable : closable nodes state.activated (state.close nodes).settled node.id = true :=
    closable_iff.mpr ⟨hminnew, hinactive, hpred⟩
  rw [hstuck] at hclosable
  cases hclosable

/-- A reached node whose predecessors are settled is activated. -/
theorem SchedInvariant.activated_of_reached (hnd : (nodeIds nodes).Nodup)
    (hinv : SchedInvariant nodes entry locals log state) (hroutes : Follows routes log)
    {id : String} (hreached : Reached nodes entry routes id)
    (hpred : ∀ p, Edge nodes p id → p ∈ state.settled) : id ∈ state.activated := by
  rcases Relation.ReflTransGen.cases_tail hreached with rfl | ⟨p, hp, node, hn, rfl, htarget⟩
  · exact hinv.control.active_iff.mpr (.inl rfl)
  · have hedge : Edge nodes node.id id := ⟨node, hn, rfl, node.routeTargets_subset _ htarget⟩
    obtain ⟨x, hx, hxid⟩ := hinv.executed_of_reached hroutes hnd hp (hpred _ hedge)
    obtain rfl := eq_of_id_eq hnd (hinv.log_mem x hx) hn hxid
    rw [hroutes x hx] at htarget
    exact hinv.control.active_iff.mpr (.inr ⟨x.node.id, ⟨x, hx, rfl⟩, x, hx, rfl, htarget⟩)

/-- **The ready nodes of a round are the reached nodes of its level.** -/
theorem ready_eq_roundNodes (hnd : (nodeIds nodes).Nodup) (hacyclic : Acyclic nodes)
    (hdeps : DependsOnAncestors nodes)
    (hlevels : Levels nodes (Reached nodes entry routes) level)
    (hinv : SchedInvariant nodes entry locals log state) (hroutes : Follows routes log)
    (hle : ∀ id ∈ state.settled, level id ≤ k)
    (hreached : ∀ id ∈ nodeIds nodes, Reached nodes entry routes id → level id ≤ k →
      id ∈ state.settled) :
    (state.close nodes).ready nodes =
      roundNodes nodes (Reached nodes entry routes) level (k + 1) := by
  have hclose := hinv.close
  have hsettled := mem_close_settled hacyclic hlevels hinv hroutes hreached
  have hclosele : ∀ id ∈ (state.close nodes).settled, level id ≤ k :=
    Closes.level_le hnd hlevels hinv hroutes hle (closes_closeUnselected _ _)
  refine List.filter_congr fun node hn => ?_
  have hid : node.id ∈ nodeIds nodes := List.mem_map_of_mem hn
  rw [Bool.eq_iff_iff, isReady_iff]
  simp only [decide_eq_true_eq]
  constructor
  · rintro ⟨hnew, hactive, hpred, -⟩
    have hnode := hclose.reached_of_activated hroutes hactive
    have hbefore : levelBefore nodes level node.id ≤ k :=
      levelBefore_le fun p hp => hclosele p (hpred p hp)
    have hlate : k < level node.id := by
      by_contra hearly
      exact hnew (hsettled node.id hid (by omega))
    have := hlevels.reached_eq hnode
    exact ⟨hnode, by omega⟩
  · rintro ⟨hnode, hlevel⟩
    have hpred : ∀ p, Edge nodes p node.id → p ∈ (state.close nodes).settled := by
      intro p hp
      have hlt := hlevels.lt_of_edge hp hnode
      exact hsettled p (Ancestor.mem_ids (.single hp)) (by omega)
    refine ⟨fun hmem => ?_, hclose.activated_of_reached hnd hroutes hnode hpred, hpred, ?_⟩
    · have := hclosele _ hmem
      omega
    · exact fun d hd => hclose.ancestor_settled hpred (hdeps node hn d hd)

theorem Sched.follows_of (hP : ∀ state x, P state x → routes x.node.id = x.result.route)
    {batches : List (List WorkflowNode)}
    (hs : Sched nodes entry locals limit P k batches log state) : Follows routes log := by
  intro x hx
  obtain ⟨state', hx'⟩ := hs.mem_log x hx
  exact hP state' x hx'

/-- **Every reachable state keeps to the levels.** -/
theorem Sched.levelInvariant (hnd : (nodeIds nodes).Nodup) (hacyclic : Acyclic nodes)
    (hdeps : DependsOnAncestors nodes)
    (hlevels : Levels nodes (Reached nodes entry routes) level)
    (hP : ∀ state x, P state x → routes x.node.id = x.result.route)
    {batches : List (List WorkflowNode)}
    (hs : Sched nodes entry locals limit P k batches log state) :
    LevelInvariant nodes (Reached nodes entry routes) level limit k batches log state := by
  induction hs with
  | initial =>
    refine ⟨by simp [GraphState.initial], fun id _ hid hle => ?_, fun _ _ _ h => ?_, ?_, by simp,
      by simp, fun j hj => ?_⟩
    · have := hlevels.pos hid
      omega
    · exact absurd h (Nat.not_lt_zero _)
    · exact ⟨[], by rw [roundNodes_zero hlevels]; rfl, by simp⟩
    · obtain rfl : j = 0 := by omega
      rw [roundNodes_zero hlevels]
      rfl
  | @round k log state hs hlen hready hwriters ih =>
    obtain ⟨hinv, -⟩ := hs.invariant hnd
    have hroutes := hs.follows_of hP
    have hreached : ∀ id ∈ nodeIds nodes, Reached nodes entry routes id → level id ≤ k →
        id ∈ state.settled := by
      intro id hid hr hle
      simpa [nodeIds] using ih.reached_settled id hid hr hle
    have heq := ready_eq_roundNodes hnd hacyclic hdeps hlevels hinv hroutes ih.settled_le hreached
    have hsettled := mem_close_settled hacyclic hlevels hinv hroutes hreached
    refine ⟨fun id hid => ?_, fun id hid hr hle => ?_, fun id hid _ hlt => ?_, ?_, fun x hx => ?_,
      ih.sorted, fun j hj => ?_⟩
    · have := Closes.level_le hnd hlevels hinv hroutes ih.settled_le
        (closes_closeUnselected _ _) id hid
      omega
    · by_cases hk : level id ≤ k
      · exact .inl (hsettled id hid hk)
      · obtain ⟨node, hn, rfl⟩ := List.mem_map.mp hid
        refine .inr (List.mem_map_of_mem ?_)
        rw [flatten_chunks, heq]
        exact mem_roundNodes.mpr ⟨hn, hr, by omega⟩
    · exact hsettled id hid (by omega)
    · refine ⟨[], by rw [heq]; rfl, fun x hx hk => ?_⟩
      have := ih.log_le x hx
      omega
    · have := ih.log_le x hx
      omega
    · by_cases hj' : j ≤ k
      · exact ih.checked j hj'
      · obtain rfl : j = k + 1 := by omega
        rw [← heq]
        exact hwriters
  | @batch k batch batches log xs state hs hxs hPx ih =>
    obtain ⟨hinv, hpending⟩ := hs.invariant hnd
    obtain ⟨done, hdone, hdonelog⟩ := ih.done
    have hmem : ∀ x ∈ xs, x.node ∈ batch := fun x hx => hxs ▸ List.mem_map_of_mem hx
    have hlevel : ∀ x ∈ xs, level x.node.id = k := by
      intro x hx
      have hround : x.node ∈ (done ++ batch :: batches).flatten := by simp [hmem x hx]
      rw [hdone, flatten_chunks] at hround
      exact (mem_roundNodes.mp hround).2.2
    refine ⟨fun id hid => ?_, fun id hid hr hle => ?_, fun id hid hr hlt => ?_, ?_, ?_, ?_,
      ih.checked⟩
    · rcases GraphState.mem_settleAll.mp hid with hid | ⟨x, hx, rfl⟩
      · exact ih.settled_le id hid
      · exact (hlevel x hx).le
    · rcases ih.reached_settled id hid hr hle with hid | hid
      · exact .inl (GraphState.mem_settleAll.mpr (.inl hid))
      · rw [List.flatten_cons, nodeIds, List.map_append, List.mem_append] at hid
        rcases hid with hid | hid
        · obtain ⟨node, hn, rfl⟩ := List.mem_map.mp hid
          rw [← hxs] at hn
          obtain ⟨x, hx, rfl⟩ := List.mem_map.mp hn
          exact .inl (GraphState.mem_settleAll.mpr (.inr ⟨x, hx, rfl⟩))
        · exact .inr hid
    · exact GraphState.mem_settleAll.mpr (.inl (ih.closed_settled id hid hr hlt))
    · refine ⟨done ++ [batch], by simpa using hdone, fun x hx hk => ?_⟩
      rcases List.mem_append.mp hx with hx | hx
      · have := hdonelog x hx hk
        simp [this]
      · simp [hmem x hx]
    · intro x hx
      rcases List.mem_append.mp hx with hx | hx
      · exact ih.log_le x hx
      · exact (hlevel x hx).le
    · refine List.pairwise_append.mpr ⟨ih.sorted, ?_, fun x hx y hy => ?_⟩
      · refine List.pairwise_of_forall_mem_list fun x hx y hy => ?_
        rw [hlevel x hx, hlevel y hy]
      · rw [hlevel y hy]
        exact ih.log_le x hx

end Rounds

end KakuneCore
