import Mathlib

/-!
# Reading a table page by page

A table whose rows have increasing keys is read in pages: a page holds the first rows behind a
key, and the key of the last row read is where the next page starts. While rows are only appended,
what has been read is at every moment **an initial part of what lies behind the start**, and every
page brings the reader on by its full size, as long as there is something left to read.
-/

namespace KakuneCore

namespace Pages

variable {ρ κ : Type} [LinearOrder κ] (key : ρ → κ)

/-- The rows behind a key. -/
def after (rows : List ρ) (k : κ) : List ρ := rows.filter fun row => k < key row

/-- `WHERE key > k ORDER BY key ASC LIMIT limit`. -/
def page (rows : List ρ) (k : κ) (limit : Nat) : List ρ :=
  ((after key rows k).insertionSort fun a b => key a ≤ key b).take limit

/-- The keys increase. -/
def Increasing (rows : List ρ) : Prop := rows.Pairwise fun a b => key a < key b

variable {key} {rows new : List ρ} {k : κ}

theorem Increasing.sublist {rows' : List ρ} (h : Increasing key rows) (hsub : rows'.Sublist rows) :
    Increasing key rows' :=
  List.Pairwise.sublist hsub h

theorem Increasing.append (h : Increasing key rows) (hnew : Increasing key new)
    (hbound : ∀ row ∈ rows, ∀ row' ∈ new, key row < key row') : Increasing key (rows ++ new) :=
  List.pairwise_append.mpr ⟨h, hnew, hbound⟩

/-- Rows with increasing keys are already in order. -/
theorem page_eq_take (h : Increasing key rows) (limit : Nat) :
    page key rows k limit = (after key rows k).take limit := by
  have hsorted : (after key rows k).Pairwise fun a b => key a ≤ key b :=
    (h.sublist List.filter_sublist).imp le_of_lt
  rw [page, hsorted.insertionSort_eq]

/-- What lies behind the key of a row is what follows the row. -/
theorem after_key {before behind : List ρ} {row : ρ}
    (h : Increasing key (before ++ row :: behind)) :
    after key (before ++ row :: behind) (key row) = behind := by
  rw [Increasing, List.pairwise_append, List.pairwise_cons] at h
  obtain ⟨-, ⟨hbehind, -⟩, hbefore⟩ := h
  have hnone : before.filter (fun other => decide (key row < key other)) = [] := by
    refine List.filter_eq_nil_iff.mpr fun other hother => ?_
    have hlt := hbefore other hother row List.mem_cons_self
    simpa using le_of_lt hlt
  have hall : behind.filter (fun other => decide (key row < key other)) = behind :=
    List.filter_eq_self.mpr fun other hother => by simpa using hbehind other hother
  rw [after, List.filter_append, List.filter_cons_of_neg (by simp), hnone, hall, List.nil_append]

theorem after_append : after key (rows ++ new) k = after key rows k ++ after key new k :=
  List.filter_append ..

/-- A reader that started behind `start` and has `received` some rows so far: the rows of the table
are those up to `start`, the received ones, and those that are still to come. -/
structure Reads (key : ρ → κ) (start : ρ) (received rows : List ρ) : Prop where
  increasing : Increasing key rows
  split : ∃ before coming, rows = before ++ start :: (received ++ coming)

/-- The row at which a reader stands. -/
def position (start : ρ) (received : List ρ) : ρ := received.getLast?.getD start

namespace Reads

variable {start : ρ} {received : List ρ}

theorem of_mem (h : Increasing key rows) (hstart : start ∈ rows) : Reads key start [] rows := by
  obtain ⟨before, coming, hsplit⟩ := List.append_of_mem hstart
  exact ⟨h, before, coming, hsplit⟩

theorem prefix_after (h : Reads key start received rows) :
    received <+: after key rows (key start) := by
  obtain ⟨hincreasing, before, coming, rfl⟩ := h
  rw [after_key hincreasing]
  exact List.prefix_append _ _

theorem mem_position (h : Reads key start received rows) : position start received ∈ rows := by
  obtain ⟨-, before, coming, rfl⟩ := h
  rcases List.eq_nil_or_concat received with rfl | ⟨init, last, rfl⟩
  · simp [position]
  · simp [position]

/-- Behind the position of the reader lies what it has not received. -/
theorem after_position (h : Reads key start received rows) :
    after key rows (key (position start received)) =
      (after key rows (key start)).drop received.length := by
  obtain ⟨hincreasing, before, coming, rfl⟩ := h
  rw [after_key hincreasing, List.drop_left]
  rcases List.eq_nil_or_concat received with rfl | ⟨init, last, rfl⟩
  · exact after_key hincreasing
  · have hsplit : before ++ start :: (init.concat last ++ coming) =
        (before ++ start :: init) ++ last :: coming := by simp
    rw [hsplit] at hincreasing ⊢
    have hposition : position start (init.concat last) = last := by simp [position]
    rw [hposition]
    exact after_key hincreasing

/-- Appending rows does not disturb a reader. -/
theorem append (h : Reads key start received rows) (hnew : Increasing key (rows ++ new)) :
    Reads key start received (rows ++ new) := by
  obtain ⟨-, before, coming, hsplit⟩ := h
  refine ⟨hnew, before, coming ++ new, ?_⟩
  rw [hsplit]
  simp

/-- A page brings the reader on by its size. -/
theorem page (h : Reads key start received rows) (limit : Nat) :
    Reads key start
      (received ++ Pages.page key rows (key (position start received)) limit) rows := by
  have hpage : Pages.page key rows (key (position start received)) limit =
      ((after key rows (key start)).drop received.length).take limit := by
    rw [page_eq_take h.increasing, h.after_position]
  obtain ⟨hincreasing, before, coming, rfl⟩ := h
  refine ⟨hincreasing, before, coming.drop limit, ?_⟩
  rw [hpage, after_key hincreasing, List.drop_left, List.append_assoc, List.take_append_drop]

/-- A page leaves nothing out: either it is full or nothing is left. -/
theorem length_page (h : Reads key start received rows) (limit : Nat) :
    (Pages.page key rows (key (position start received)) limit).length =
      min limit ((after key rows (key start)).length - received.length) := by
  rw [page_eq_take h.increasing, h.after_position, List.length_take, List.length_drop]

end Reads

end Pages

end KakuneCore
