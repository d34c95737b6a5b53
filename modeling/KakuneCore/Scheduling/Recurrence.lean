import Mathlib.Data.Set.Card
import Mathlib.Order.Interval.Finset.Basic

/-!
# Recurrences

A schedule as a partial function that gives the next occurrence after one. As long as it **moves
forward**, catching up with the present from a stored occurrence counts each occurrence up to the
present once, stops at a limit, and ends later than everything it has counted.
-/

namespace KakuneCore

namespace Recurrence

variable {α ε : Type} [LinearOrder α] {next : α → Except ε α} {now due last u : α} {limit runs : ℕ}

/-- The next occurrence is later than the one before it. -/
def Advances (next : α → Except ε α) : Prop := ∀ a b, next a = .ok b → a < b

/-- The occurrences from one on. -/
inductive From (next : α → Except ε α) : α → α → Prop
  | first {due : α} : From next due due
  | later {due due' u : α} : next due = .ok due' → From next due' u → From next due u

theorem From.le (hnext : Advances next) (h : From next due u) : due ≤ u := by
  induction h with
  | first => exact le_rfl
  | later hstep _ ih => exact (hnext _ _ hstep).le.trans ih

/-- The occurrences from one up to the present. -/
def Between (next : α → Except ε α) (due now : α) : Set α := {u | From next due u ∧ u ≤ now}

/-- The first occurrences from one on. -/
def firsts (next : α → Except ε α) : ℕ → α → List α
  | 0, _ => []
  | n + 1, due =>
    due :: match next due with
      | .ok due' => firsts next n due'
      | .error _ => []

/-- Catch up with the present: count occurrences that are due, up to a limit. -/
def catchUp (next : α → Except ε α) (now : α) : ℕ → α → Except ε (ℕ × α)
  | 0, due => .ok (0, due)
  | limit + 1, due =>
    if due ≤ now then do
      let due' ← next due
      let (runs, last) ← catchUp next now limit due'
      pure (runs + 1, last)
    else .ok (0, due)

/-- One round of catching up. -/
theorem catchUp_succ (h : catchUp next now (limit + 1) due = .ok (runs, last)) :
    (now < due ∧ runs = 0 ∧ last = due) ∨
      ∃ due' rest, due ≤ now ∧ next due = .ok due' ∧ runs = rest + 1 ∧
        catchUp next now limit due' = .ok (rest, last) := by
  rw [catchUp] at h
  by_cases hdue : due ≤ now
  · rw [if_pos hdue] at h
    cases hnext : next due with
    | error e =>
      rw [hnext] at h
      cases h
    | ok due' =>
      rw [hnext] at h
      change (catchUp next now limit due' >>= fun result => pure (result.1 + 1, result.2)) = _ at h
      cases hrest : catchUp next now limit due' with
      | error e =>
        rw [hrest] at h
        cases h
      | ok result =>
        rw [hrest] at h
        cases h
        exact .inr ⟨due', result.1, hdue, rfl, rfl, hrest⟩
  · rw [if_neg hdue] at h
    cases h
    exact .inl ⟨not_le.mp hdue, rfl, rfl⟩

theorem between_eq_empty (hnext : Advances next) (h : now < due) : Between next due now = ∅ := by
  refine Set.eq_empty_iff_forall_notMem.mpr fun u hu => ?_
  exact absurd (h.trans_le (hu.1.le hnext)) (not_lt.mpr hu.2)

theorem between_eq_insert {due' : α} (hdue : due ≤ now) (hstep : next due = .ok due') :
    Between next due now = insert due (Between next due' now) := by
  ext u
  rw [Set.mem_insert_iff]
  constructor
  · rintro ⟨hfrom, hle⟩
    cases hfrom with
    | first => exact .inl rfl
    | later hstep' hrest =>
      rw [hstep, Except.ok.injEq] at hstep'
      subst hstep'
      exact .inr ⟨hrest, hle⟩
  · rintro (rfl | ⟨hfrom, hle⟩)
    · exact ⟨.first, hdue⟩
    · exact ⟨.later hstep hfrom, hle⟩

theorem between_finite [LocallyFiniteOrder α] (hnext : Advances next) (due now : α) :
    (Between next due now).Finite :=
  (Set.finite_Icc due now).subset fun _ hu => ⟨hu.1.le hnext, hu.2⟩

/-- **Catching up counts the occurrences up to the present**, as many as the limit allows. -/
theorem runs_eq_of_catchUp [LocallyFiniteOrder α] (hnext : Advances next)
    (h : catchUp next now limit due = .ok (runs, last)) :
    runs = min limit (Between next due now).ncard := by
  induction limit generalizing due runs with
  | zero =>
    cases h
    rw [Nat.zero_min]
  | succ limit ih =>
    obtain ⟨hlt, rfl, -⟩ | ⟨due', rest, hdue, hstep, rfl, hrest⟩ := catchUp_succ h
    · rw [between_eq_empty hnext hlt, Set.ncard_empty, Nat.min_zero]
    · have hnew : due ∉ Between next due' now := fun hmem =>
        absurd (hmem.1.le hnext) (not_le.mpr (hnext _ _ hstep))
      rw [between_eq_insert hdue hstep,
        Set.ncard_insert_of_notMem hnew (between_finite hnext due' now), ih hrest]
      omega

theorem runs_le_of_catchUp (h : catchUp next now limit due = .ok (runs, last)) : runs ≤ limit := by
  induction limit generalizing due runs with
  | zero =>
    cases h
    exact le_rfl
  | succ limit ih =>
    obtain ⟨-, rfl, -⟩ | ⟨due', rest, -, -, rfl, hrest⟩ := catchUp_succ h
    · omega
    · have := ih hrest
      omega

/-- What catching up counts is due. -/
theorem le_now_of_mem_firsts (h : catchUp next now limit due = .ok (runs, last))
    (hmem : u ∈ firsts next runs due) : u ≤ now := by
  induction limit generalizing due runs with
  | zero =>
    cases h
    cases hmem
  | succ limit ih =>
    obtain ⟨-, rfl, -⟩ | ⟨due', rest, hdue, hstep, rfl, hrest⟩ := catchUp_succ h
    · cases hmem
    · rw [firsts, hstep, List.mem_cons] at hmem
      obtain rfl | hmem := hmem
      · exact hdue
      · exact ih hrest hmem

omit [LinearOrder α] in
theorem From.of_mem_firsts (h : u ∈ firsts next runs due) : From next due u := by
  induction runs generalizing due with
  | zero => cases h
  | succ runs ih =>
    rw [firsts, List.mem_cons] at h
    obtain rfl | h := h
    · exact .first
    · cases hstep : next due with
      | error e =>
        rw [hstep] at h
        cases h
      | ok due' =>
        rw [hstep] at h
        exact .later hstep (ih h)

/-- Every counted occurrence is counted once. -/
theorem length_firsts_of_catchUp (h : catchUp next now limit due = .ok (runs, last)) :
    (firsts next runs due).length = runs := by
  induction limit generalizing due runs with
  | zero =>
    cases h
    rfl
  | succ limit ih =>
    obtain ⟨-, rfl, -⟩ | ⟨due', rest, -, hstep, rfl, hrest⟩ := catchUp_succ h
    · rfl
    · rw [firsts, hstep, List.length_cons, ih hrest]

end Recurrence

end KakuneCore
