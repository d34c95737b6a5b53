import Mathlib.Data.List.Basic

/-!
# Logs of lines

A log is a list of symbols; a separator ends every record. What stands behind the last separator is
the **tail**, the part of a record whose end was not written.
-/

namespace LineLog

variable {α : Type} {separator : α}

/-- Every record with its separator. -/
def lines (separator : α) (records : List (List α)) : List α :=
  records.flatMap fun record => record ++ [separator]

section Parts

variable [DecidableEq α]

/-- The length of the part up to the last separator. -/
def completeLength (separator : α) (log : List α) : Nat :=
  match log.reverse.findIdx? (· = separator) with
  | some index => log.length - index
  | none => 0

/-- The records of that part, empty ones left out. -/
def records (separator : α) (log : List α) : List (List α) :=
  ((log.take (completeLength separator log)).splitOn separator).filter (· ≠ [])

/-- What stands behind the last separator. -/
def tail (separator : α) (log : List α) : List α := log.drop (completeLength separator log)

end Parts

section Lines

variable {rs rs' : List (List α)} {record log rest : List α}

@[simp]
theorem lines_nil : lines separator [] = [] := rfl

@[simp]
theorem lines_cons :
    lines separator (record :: rs) = record ++ separator :: lines separator rs := by
  rw [lines, List.flatMap_cons, List.append_assoc, List.singleton_append, ← lines]

theorem lines_append : lines separator (rs ++ rs') = lines separator rs ++ lines separator rs' := by
  rw [lines, List.flatMap_append, ← lines, ← lines]

theorem lines_concat :
    lines separator (rs ++ [record]) = lines separator rs ++ record ++ [separator] := by
  rw [lines_append, lines_cons, lines_nil, List.append_assoc]

/-- Lines end with a separator. -/
theorem exists_lines_eq (separator : α) (h : rs ≠ []) :
    ∃ init, lines separator rs = init ++ [separator] := by
  obtain ⟨init, last, rfl⟩ := (List.eq_nil_or_concat rs).resolve_left h
  rw [List.concat_eq_append, lines_concat]
  exact ⟨_, rfl⟩

variable [DecidableEq α]

/-- Behind lines, the tail begins where they end. -/
theorem completeLength_lines_append (hrest : separator ∉ rest) :
    completeLength separator (lines separator rs ++ rest) = (lines separator rs).length := by
  have hnone : rest.reverse.findIdx? (· = separator) = none := by
    rw [List.findIdx?_eq_none_iff]
    intro x hx
    simpa using fun heq : x = separator => hrest (heq ▸ List.mem_reverse.mp hx)
  unfold completeLength
  rw [List.reverse_append, List.findIdx?_append, hnone]
  by_cases hrs : rs = []
  · simp [hrs]
  · obtain ⟨init, hinit⟩ := exists_lines_eq separator hrs
    have hfirst : (init ++ [separator]).reverse.findIdx? (· = separator) = some 0 := by
      rw [List.reverse_append, List.reverse_singleton, List.singleton_append, List.findIdx?_cons]
      simp
    rw [hinit, hfirst]
    simp only [Option.none_or, Option.map_some, List.length_append,
      List.length_reverse, List.length_singleton]
    omega

theorem tail_lines_append (hrest : separator ∉ rest) :
    tail separator (lines separator rs ++ rest) = rest := by
  rw [tail, completeLength_lines_append hrest, List.drop_left]

theorem splitOn_append_cons (hrecord : separator ∉ record) :
    (record ++ separator :: log).splitOn separator = record :: log.splitOn separator := by
  rw [List.splitOn_eq_splitOnP, List.splitOn_eq_splitOnP]
  refine List.splitOnP_append_cons_of_forall_mem (fun x hx => ?_) separator (by simp) log
  simpa using fun heq : x = separator => hrecord (heq ▸ hx)

/-- Lines are cut apart again; nothing stands behind the last one. -/
theorem splitOn_lines (hrs : ∀ r ∈ rs, separator ∉ r) :
    (lines separator rs).splitOn separator = rs ++ [[]] := by
  induction rs with
  | nil => rfl
  | cons r rs ih =>
    rw [List.forall_mem_cons] at hrs
    rw [lines_cons, splitOn_append_cons hrs.1, ih hrs.2, List.cons_append]

/-- The records are read back from their lines. -/
theorem records_lines_append (hrs : ∀ r ∈ rs, separator ∉ r ∧ r ≠ []) (hrest : separator ∉ rest) :
    records separator (lines separator rs ++ rest) = rs := by
  have hsplit := splitOn_lines fun r hr => (hrs r hr).1
  rw [records, completeLength_lines_append hrest, List.take_left, hsplit, List.filter_append]
  have hall : rs.filter (· ≠ []) = rs :=
    List.filter_eq_self.mpr fun r hr => decide_eq_true (hrs r hr).2
  rw [hall]
  simp

end Lines

end LineLog
