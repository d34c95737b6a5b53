import Mathlib

/-!
# Tables

The rows of a relational table as a list, with the statements a store issues: conditional updates,
counts, and lookups by a key. A key column has no repeats, so an update that selects by key changes
**at most one row**.
-/

namespace KakuneCore

namespace Table

variable {ρ κ : Type}

/-- `UPDATE … SET f WHERE p`. -/
def updateWhere (rows : List ρ) (p : ρ → Bool) (f : ρ → ρ) : List ρ :=
  rows.map fun row => if p row then f row else row

theorem mem_updateWhere {rows : List ρ} {p : ρ → Bool} {f : ρ → ρ} {row : ρ} :
    row ∈ updateWhere rows p f ↔
      (row ∈ rows ∧ p row = false) ∨ ∃ row₀ ∈ rows, p row₀ = true ∧ f row₀ = row := by
  simp only [updateWhere, List.mem_map]
  constructor
  · rintro ⟨row₀, hmem, rfl⟩
    by_cases hp : p row₀
    · exact .inr ⟨row₀, hmem, hp, by simp [hp]⟩
    · exact .inl ⟨by simpa [hp] using hmem, by simp [hp]⟩
  · rintro (⟨hmem, hp⟩ | ⟨row₀, hmem, hp, rfl⟩)
    · exact ⟨row, hmem, by simp [hp]⟩
    · exact ⟨row₀, hmem, by simp [hp]⟩

/-- An update that keeps a column. -/
theorem map_updateWhere {rows : List ρ} {p : ρ → Bool} {f : ρ → ρ} (key : ρ → κ)
    (hf : ∀ row, key (f row) = key row) : (updateWhere rows p f).map key = rows.map key := by
  rw [updateWhere, List.map_map]
  refine List.map_congr_left fun row _ => ?_
  by_cases hp : p row
  · simp [hp, hf]
  · simp [hp]

theorem forall₂_updateWhere {rows : List ρ} {p : ρ → Bool} {f : ρ → ρ} {R : ρ → ρ → Prop}
    (hp : ∀ row ∈ rows, p row = true → R row (f row))
    (hn : ∀ row ∈ rows, p row = false → R row row) :
    List.Forall₂ R rows (updateWhere rows p f) := by
  rw [updateWhere, List.forall₂_map_right_iff, List.forall₂_same]
  intro row hmem
  by_cases h : p row
  · simpa [h] using hp row hmem h
  · simpa [h] using hn row hmem (by simpa using h)

/-- Every row after a step comes from a row before it. -/
theorem exists_of_mem_forall₂ {rows rows' : List ρ} {R : ρ → ρ → Prop}
    (h : List.Forall₂ R rows rows') {row' : ρ} (hmem : row' ∈ rows') :
    ∃ row ∈ rows, R row row' := by
  induction h with
  | nil => cases hmem
  | cons hrow _ ih =>
    rcases List.mem_cons.mp hmem with rfl | hmem
    · exact ⟨_, List.mem_cons_self, hrow⟩
    · obtain ⟨row, hmem, hrow⟩ := ih hmem
      exact ⟨row, List.mem_cons_of_mem _ hmem, hrow⟩

/-- A column that every row of a step keeps. -/
theorem map_eq_of_forall₂ {R : ρ → ρ → Prop} (key : ρ → κ)
    (hR : ∀ row row', R row row' → key row' = key row) {rows rows' : List ρ}
    (h : List.Forall₂ R rows rows') : rows'.map key = rows.map key := by
  induction h with
  | nil => rfl
  | cons hrow _ ih => rw [List.map_cons, List.map_cons, hR _ _ hrow, ih]

/-- A key column after some rows are deleted and one is inserted. -/
theorem nodup_map_concat {key : ρ → κ} {rows kept : List ρ} {row : ρ}
    (hrows : (rows.map key).Nodup) (hkept : kept.Sublist rows)
    (hrow : ∀ other ∈ kept, key other ≠ key row) : ((kept ++ [row]).map key).Nodup := by
  rw [List.map_append, List.map_singleton, List.nodup_append]
  refine ⟨hrows.sublist (hkept.map key), List.nodup_singleton _, ?_⟩
  rintro a ha b hb rfl
  obtain ⟨other, hother, heq⟩ := List.mem_map.mp ha
  exact hrow other hother (heq.trans (List.mem_singleton.mp hb))

/-- A count that no row of a step enters does not grow. -/
theorem countP_le_of_forall₂ {rows rows' : List ρ} {q q' : ρ → Bool}
    (h : List.Forall₂ (fun row row' => q' row' = true → q row = true) rows rows') :
    rows'.countP q' ≤ rows.countP q := by
  induction h with
  | nil => simp
  | @cons row row' _ _ hrow _ ih =>
    simp only [List.countP_cons]
    by_cases hq : q' row'
    · simp only [hq, hrow hq]
      omega
    · simp only [hq, Bool.false_eq_true, if_false]
      omega

/-- Selecting by key selects at most one row. -/
theorem countP_key_le_one [DecidableEq κ] {rows : List ρ} {key : ρ → κ}
    (hkeys : (rows.map key).Nodup) (k : κ) : rows.countP (fun row => key row = k) ≤ 1 := by
  have hcount : rows.countP (fun row => key row = k) = (rows.map key).count k := by
    rw [List.count, List.countP_map]
    rfl
  rw [hcount]
  exact List.nodup_iff_count_le_one.mp hkeys k

/-- A count grows by at most the rows that an update moves into it. -/
theorem countP_updateWhere_le (rows : List ρ) (p q : ρ → Bool) (f : ρ → ρ) :
    (updateWhere rows p f).countP q ≤
      rows.countP q + rows.countP (fun row => p row && q (f row)) := by
  induction rows with
  | nil => simp [updateWhere]
  | cons row rows ih =>
    simp only [updateWhere, List.map_cons, List.countP_cons] at ih ⊢
    by_cases hrow : p row
    · simp only [hrow, if_true, Bool.true_and]
      split <;> split <;> omega
    · simp only [hrow, Bool.false_eq_true, if_false, Bool.false_and]
      split <;> omega

/-- An update of one row moves a count by at most one. -/
theorem countP_updateWhere_key_le [DecidableEq κ] {rows : List ρ} {key : ρ → κ}
    (hkeys : (rows.map key).Nodup) {k : κ} {p q : ρ → Bool} {f : ρ → ρ}
    (hp : ∀ row, p row = true → key row = k) :
    (updateWhere rows p f).countP q ≤ rows.countP q + 1 := by
  have hmoved : rows.countP (fun row => p row && q (f row)) ≤
      rows.countP (fun row => key row = k) := by
    refine List.countP_mono_left fun row _ h => ?_
    rw [Bool.and_eq_true] at h
    simpa using hp row h.1
  have hone := countP_key_le_one hkeys k
  have hsum := countP_updateWhere_le rows p q f
  omega

/-- The row stored under a key. -/
def lookup [DecidableEq κ] (key : ρ → κ) (rows : List ρ) (k : κ) : Option ρ :=
  rows.find? fun row => key row = k

section Lookup

variable [DecidableEq κ] {key : ρ → κ} {rows rows' : List ρ} {k : κ} {row : ρ}

theorem mem_of_lookup (h : lookup key rows k = some row) : row ∈ rows ∧ key row = k := by
  refine ⟨List.mem_of_find?_eq_some h, ?_⟩
  simpa using List.find?_some h

theorem lookup_eq_none : lookup key rows k = none ↔ ∀ row ∈ rows, key row ≠ k := by
  simp [lookup]

/-- The rows under a key without repeats are the looked-up row. -/
theorem lookup_of_mem (hkeys : (rows.map key).Nodup) (hmem : row ∈ rows) :
    lookup key rows (key row) = some row := by
  induction rows with
  | nil => cases hmem
  | cons first rows ih =>
    rw [List.map_cons, List.nodup_cons] at hkeys
    rcases List.mem_cons.mp hmem with rfl | hmem
    · simp [lookup]
    · have hne : key first ≠ key row := by
        intro heq
        exact hkeys.1 (heq ▸ List.mem_map_of_mem hmem)
      have := ih hkeys.2 hmem
      simpa [lookup, hne] using this

/-- Rows that step one by one, keeping their keys, step under each key. -/
theorem lookup_of_forall₂ {R : ρ → ρ → Prop} (hR : ∀ row row', R row row' → key row' = key row)
    (h : List.Forall₂ R rows rows') (k : κ) :
    Option.Rel R (lookup key rows k) (lookup key rows' k) := by
  induction h with
  | nil => exact .none
  | @cons row row' _ _ hrow _ ih =>
    by_cases hk : key row = k
    · simpa [lookup, hk, hR _ _ hrow] using Option.Rel.some hrow
    · simpa [lookup, hk, hR _ _ hrow] using ih

/-- An update by key changes the row under that key. -/
theorem lookup_updateWhere_key {k₀ : κ} {f : ρ → ρ} (hf : ∀ row, key (f row) = key row) :
    lookup key (updateWhere rows (fun row => key row = k₀) f) k =
      if k = k₀ then (lookup key rows k).map f else lookup key rows k := by
  induction rows with
  | nil => simp [lookup, updateWhere]
  | cons row rows ih =>
    simp only [lookup, updateWhere, List.map_cons, List.find?_cons, decide_eq_true_eq] at ih ⊢
    by_cases hrow : key row = k₀
    · by_cases hk : k = k₀
      · simp [hrow, hk, hf]
      · have hne : k₀ ≠ k := fun h => hk h.symm
        simpa [hrow, hk, hf, hne] using ih
    · by_cases hkey : key row = k
      · have hk : k ≠ k₀ := fun h => hrow (hkey.trans h)
        simp [hkey, hk]
      · simpa [hrow, hkey] using ih

theorem lookup_append (hrow : key row ∉ rows.map key) :
    lookup key (rows ++ [row]) k =
      if key row = k then some row else lookup key rows k := by
  rw [lookup, List.find?_append, List.find?_singleton]
  by_cases hk : key row = k
  · have hnone : rows.find? (fun r => key r = k) = none := by
      rw [List.find?_eq_none]
      intro r hr
      have hne : key r ≠ key row := fun heq => hrow (heq ▸ List.mem_map_of_mem hr)
      simpa [← hk] using hne
    simp [hk, hnone]
  · simp [hk, lookup]

end Lookup

end Table

end KakuneCore
