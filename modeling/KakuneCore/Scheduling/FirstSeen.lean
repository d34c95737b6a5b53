import Mathlib

/-!
# Lists without repeats, by first occurrence

`appendNew acc xs` appends to `acc` the elements of `xs` that are not there yet, one after another.
From the empty list it keeps the first occurrence of every element: `firstSeen`.
-/

namespace KakuneCore

variable {α : Type*} [DecidableEq α]

/-- Append an element unless it is there. -/
def pushNew (acc : List α) (x : α) : List α := if x ∈ acc then acc else acc ++ [x]

/-- Append the elements that are not there yet. -/
def appendNew (acc xs : List α) : List α := xs.foldl pushNew acc

/-- The elements of a list, each where it occurs first. -/
def firstSeen (xs : List α) : List α := appendNew [] xs

variable {acc xs ys : List α} {x : α}

@[simp]
theorem appendNew_nil : appendNew acc [] = acc := rfl

theorem appendNew_append : appendNew acc (xs ++ ys) = appendNew (appendNew acc xs) ys :=
  List.foldl_append

theorem mem_pushNew {y : α} : y ∈ pushNew acc x ↔ y ∈ acc ∨ y = x := by
  rw [pushNew]
  split
  · next hx =>
    constructor
    · exact .inl
    · rintro (hy | rfl)
      · exact hy
      · exact hx
  · simp

theorem nodup_pushNew : (pushNew acc x).Nodup ↔ acc.Nodup := by
  rw [pushNew]
  split
  · rfl
  · next hx =>
    have hne : ∀ y ∈ acc, y ≠ x := fun y hy heq => hx (heq ▸ hy)
    simpa [List.nodup_append] using fun _ => hne

@[simp]
theorem mem_appendNew : x ∈ appendNew acc xs ↔ x ∈ acc ∨ x ∈ xs := by
  induction xs generalizing acc with
  | nil => simp
  | cons y xs ih =>
    have hstep : appendNew acc (y :: xs) = appendNew (pushNew acc y) xs := rfl
    rw [hstep, ih, mem_pushNew, List.mem_cons, or_assoc]

/-- What was there keeps its place, so repeats are never removed from it. -/
theorem nodup_appendNew : (appendNew acc xs).Nodup ↔ acc.Nodup := by
  induction xs generalizing acc with
  | nil => rfl
  | cons y xs ih =>
    have hstep : appendNew acc (y :: xs) = appendNew (pushNew acc y) xs := rfl
    rw [hstep, ih, nodup_pushNew]

theorem mem_firstSeen : x ∈ firstSeen xs ↔ x ∈ xs := by simp [firstSeen]

theorem nodup_firstSeen (xs : List α) : (firstSeen xs).Nodup := nodup_appendNew.mpr List.nodup_nil

theorem firstSeen_append : firstSeen (xs ++ ys) = appendNew (firstSeen xs) ys := appendNew_append

/-- A list without repeats is kept. -/
theorem firstSeen_of_nodup (h : xs.Nodup) : firstSeen xs = xs := by
  induction xs using List.reverseRecOn with
  | nil => rfl
  | append_singleton xs x ih =>
    rw [List.nodup_append] at h
    obtain ⟨hxs, -, hdisjoint⟩ := h
    have hx : x ∉ xs := fun hx => hdisjoint x hx x List.mem_cons_self rfl
    rw [firstSeen_append, ih hxs]
    exact if_neg hx

/-- **First-seen order**: of two elements, the one that occurs first comes first. -/
theorem pairwise_firstSeen (xs : List α) :
    (firstSeen xs).Pairwise fun a b => xs.idxOf a < xs.idxOf b := by
  induction xs using List.reverseRecOn with
  | nil => exact .nil
  | append_singleton xs x ih =>
    have hbefore :
        (firstSeen xs).Pairwise fun a b => (xs ++ [x]).idxOf a < (xs ++ [x]).idxOf b := by
      refine ih.imp_of_mem fun ha hb hlt => ?_
      rwa [List.idxOf_append_of_mem (mem_firstSeen.mp ha),
        List.idxOf_append_of_mem (mem_firstSeen.mp hb)]
    rw [firstSeen_append, appendNew, List.foldl_cons, List.foldl_nil, pushNew]
    split
    · exact hbefore
    · next hx =>
      rw [mem_firstSeen] at hx
      refine List.pairwise_append.mpr ⟨hbefore, List.pairwise_singleton _ _, fun a ha b hb => ?_⟩
      obtain rfl := List.mem_singleton.mp hb
      have hlast : xs.length ≤ (xs ++ [b]).idxOf b := by
        rw [List.idxOf_append_of_notMem hx]
        omega
      rw [List.idxOf_append_of_mem (mem_firstSeen.mp ha)]
      exact (List.idxOf_lt_length_of_mem (mem_firstSeen.mp ha)).trans_le hlast

end KakuneCore
