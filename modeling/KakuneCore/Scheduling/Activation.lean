import Mathlib

/-!
# Activation over a control relation

The general fact behind a scheduler that **activates** the targets of executed nodes and **closes**
the nodes that can no longer be activated. A node is settled once it was executed or closed; both
wait until every control predecessor is settled. Whatever the order of the steps, a settled node
was executed exactly when the selected edges reach it from the entry.
-/

namespace KakuneCore.Activation

variable {α : Type*}

/-- What a scheduler has done so far. -/
structure Progress (α : Type*) where
  settled : Set α
  executed : Set α
  active : Set α

/-- The invariant: `edge` is the control relation, `selected` the edges chosen by the executed
nodes. -/
structure Invariant (edge selected : α → α → Prop) (entry : α) (p : Progress α) : Prop where
  executed_settled : p.executed ⊆ p.settled
  executed_active : p.executed ⊆ p.active
  settled_closed : ∀ {m n}, edge m n → n ∈ p.settled → m ∈ p.settled
  active_executed : ∀ {n}, n ∈ p.settled → n ∈ p.active → n ∈ p.executed
  active_iff : ∀ {n}, n ∈ p.active ↔ n = entry ∨ ∃ m ∈ p.executed, selected m n
  active_reached : ∀ {n}, n ∈ p.active → Relation.ReflTransGen selected entry n

variable {edge selected : α → α → Prop} {entry : α} {p : Progress α}

theorem Invariant.initial : Invariant edge selected entry ⟨∅, ∅, {entry}⟩ where
  executed_settled := Set.empty_subset _
  executed_active := Set.empty_subset _
  settled_closed := by simp
  active_executed := by simp
  active_iff := by simp
  active_reached := by
    rintro n rfl
    exact .refl

/-- Closing a node that was not activated, once its predecessors are settled. -/
theorem Invariant.close (h : Invariant edge selected entry p) {n : α} (hactive : n ∉ p.active)
    (hpred : ∀ m, edge m n → m ∈ p.settled) :
    Invariant edge selected entry { p with settled := insert n p.settled } where
  executed_settled := fun _ hm => Set.mem_insert_of_mem _ (h.executed_settled hm)
  executed_active := h.executed_active
  settled_closed := by
    rintro m k hmk (rfl | hk)
    · exact Set.mem_insert_of_mem _ (hpred m hmk)
    · exact Set.mem_insert_of_mem _ (h.settled_closed hmk hk)
  active_executed := by
    rintro k (rfl | hk) hactive'
    · exact absurd hactive' hactive
    · exact h.active_executed hk hactive'
  active_iff := h.active_iff
  active_reached := h.active_reached

/-- The edges selected after `n` has chosen the targets `targets`. -/
def select (selected : α → α → Prop) (n : α) (targets : Set α) : α → α → Prop :=
  fun a b => selected a b ∨ a = n ∧ b ∈ targets

/-- Executing an activated node, once its predecessors are settled. -/
theorem Invariant.execute (h : Invariant edge selected entry p) {n : α} {targets : Set α}
    (hsel : ∀ {a b}, selected a b → a ∈ p.executed) (hn : n ∉ p.settled) (hactive : n ∈ p.active)
    (hpred : ∀ m, edge m n → m ∈ p.settled) (htargets : ∀ t ∈ targets, edge n t) :
    Invariant edge (select selected n targets) entry
      ⟨insert n p.settled, insert n p.executed, targets ∪ p.active⟩ where
  executed_settled := Set.insert_subset_insert h.executed_settled
  executed_active := by
    rintro m (rfl | hm)
    · exact .inr hactive
    · exact .inr (h.executed_active hm)
  settled_closed := by
    rintro m k hmk (rfl | hk)
    · exact Set.mem_insert_of_mem _ (hpred m hmk)
    · exact Set.mem_insert_of_mem _ (h.settled_closed hmk hk)
  active_executed := by
    rintro k (rfl | hk) hk'
    · exact Set.mem_insert _ _
    · rcases hk' with hk' | hk'
      -- a settled target of `n` would have made `n` wait no longer
      · exact absurd (h.settled_closed (htargets k hk') hk) hn
      · exact Set.mem_insert_of_mem _ (h.active_executed hk hk')
  active_iff := by
    have hne : n ∉ p.executed := fun hmem => hn (h.executed_settled hmem)
    intro k
    constructor
    · rintro (hk | hk)
      · exact .inr ⟨n, Set.mem_insert _ _, .inr ⟨rfl, hk⟩⟩
      · rcases h.active_iff.mp hk with rfl | ⟨m, hm, hmk⟩
        · exact .inl rfl
        · exact .inr ⟨m, Set.mem_insert_of_mem _ hm, .inl hmk⟩
    · rintro (rfl | ⟨m, -, hmk | ⟨-, hk⟩⟩)
      · exact .inr (h.active_iff.mpr (.inl rfl))
      · exact .inr (h.active_iff.mpr (.inr ⟨m, hsel hmk, hmk⟩))
      · exact .inl hk
  active_reached := by
    have hold : ∀ {k}, k ∈ p.active → Relation.ReflTransGen (select selected n targets) entry k :=
      fun hk => Relation.ReflTransGen.mono (fun _ _ hab => .inl hab) _ _ (h.active_reached hk)
    rintro k (hk | hk)
    · exact .tail (hold hactive) (.inr ⟨rfl, hk⟩)
    · exact hold hk

/-- A settled node that the selected edges reach was executed. -/
theorem Invariant.executed_of_reached (h : Invariant edge selected entry p)
    {choice : α → α → Prop} (hedge : ∀ {m n}, choice m n → edge m n)
    (hchoice : ∀ {m n}, m ∈ p.executed → choice m n → n ∈ p.active) {n : α}
    (hr : Relation.ReflTransGen choice entry n) (hn : n ∈ p.settled) : n ∈ p.executed := by
  induction hr with
  | refl => exact h.active_executed hn (h.active_iff.mpr (.inl rfl))
  | tail _ hmn ih =>
    have hm := ih (h.settled_closed (hedge hmn) hn)
    exact h.active_executed hn (hchoice hm hmn)

/-- In a finite set without cycles, some unsettled node has only settled ancestors. -/
theorem exists_minimal (edge : α → α → Prop) (all settled : Set α) (hfin : all.Finite)
    (hacyclic : ∀ a, ¬ Relation.TransGen edge a a)
    (hsource : ∀ {a b}, Relation.TransGen edge a b → a ∈ all) (hopen : ∃ n ∈ all, n ∉ settled) :
    ∃ n ∈ all, n ∉ settled ∧ ∀ m, Relation.TransGen edge m n → m ∈ settled := by
  have : IsStrictOrder α (Relation.TransGen edge) :=
    { irrefl := hacyclic, trans := fun _ _ _ => Relation.TransGen.trans }
  have hwf : all.WellFoundedOn (Relation.TransGen edge) := hfin.wellFoundedOn
  by_contra hnone
  obtain ⟨n, hn, hns⟩ := hopen
  -- otherwise every node is settled, by induction along the ancestors
  refine hns (hwf.induction hn fun k hk ih => ?_)
  by_contra hks
  exact hnone ⟨k, hk, hks, fun m hm => ih m (hsource hm) hm⟩

end KakuneCore.Activation
