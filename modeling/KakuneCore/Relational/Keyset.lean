import KakuneCore.Relational.Table

/-!
# Reading a changing table by its keys

A reader asks for the rows behind a key, in the order of the keys, and for one row more than it
shows: the row that is left over says that there is more. The key of the last row shown is where the
next page starts. Between two pages **the table may change in any way**.

The rows that are shown never repeat and never go back (`Walk.increasing`), each was in the table
when its page was read (`Walk.shown`), and **a key that stayed in the table is shown** by the time
the reader is told that there is no more (`Walk.complete`).
-/

namespace KakuneCore

namespace Keyset

variable {ρ κ : Type} [LinearOrder κ] (key : ρ → κ)

/-- The row lies behind the key, or there is none. -/
def isBehind (after : Option κ) (row : ρ) : Bool := after.all fun k => k < key row

/-- The rows behind a key, in the order of their keys. -/
def sorted (rows : List ρ) (after : Option κ) : List ρ :=
  (rows.filter (isBehind key after)).insertionSort fun a b => key a ≤ key b

/-- `WHERE key > after ORDER BY key ASC LIMIT count`. -/
def select (rows : List ρ) (after : Option κ) (count : Nat) : List ρ :=
  (sorted key rows after).take count

/-- The rows of a page, and whether there is more. -/
def page (rows : List ρ) (after : Option κ) (limit : Nat) : List ρ × Bool :=
  ((select key rows after (limit + 1)).take limit,
    decide (limit < (select key rows after (limit + 1)).length))

/-- No two rows have a key. -/
def UniqueKeys (rows : List ρ) : Prop := (rows.map key).Nodup

theorem insertionSort_congr {r s : ρ → ρ → Prop} [DecidableRel r] [DecidableRel s]
    (h : ∀ a b, r a b ↔ s a b) (rows : List ρ) : rows.insertionSort r = rows.insertionSort s := by
  obtain rfl : r = s := funext fun a => funext fun b => propext (h a b)
  congr!

variable {key} {rows : List ρ} {after : Option κ} {limit : Nat} {row : ρ}

@[simp]
theorem isBehind_none : isBehind key none row = true := rfl

@[simp]
theorem isBehind_some {k : κ} : isBehind key (some k) row = true ↔ k < key row := by
  simp [isBehind]

theorem mem_sorted : row ∈ sorted key rows after ↔ row ∈ rows ∧ isBehind key after row = true := by
  rw [sorted, List.mem_insertionSort, List.mem_filter]

/-- Rows with different keys are in strict order. -/
theorem pairwise_sorted (h : UniqueKeys key rows) :
    (sorted key rows after).Pairwise fun a b => key a < key b := by
  have hle : (sorted key rows after).Pairwise fun a b => key a ≤ key b :=
    List.pairwise_insertionSort _ _
  have hnodup : ((sorted key rows after).map key).Nodup := by
    have hperm : (sorted key rows after).Perm (rows.filter (isBehind key after)) :=
      List.perm_insertionSort _ _
    exact (hperm.map key).nodup_iff.mpr (h.sublist (List.filter_sublist.map key))
  have hne : (sorted key rows after).Pairwise fun a b => key a ≠ key b :=
    List.pairwise_map.mp hnodup
  exact (hle.and hne).imp fun h => lt_of_le_of_ne h.1 h.2

/-! ### Pages -/

theorem page_fst : (page key rows after limit).1 = (sorted key rows after).take limit := by
  rw [page, select, List.take_take, Nat.min_eq_left (Nat.le_succ limit)]

theorem page_snd : (page key rows after limit).2 =
    decide (limit < (sorted key rows after).length) := by
  rw [page, select, List.length_take]
  refine decide_eq_decide.mpr ?_
  omega

theorem length_page_le : (page key rows after limit).1.length ≤ limit := by
  rw [page_fst]
  exact List.length_take_le _ _

theorem length_page (h : (page key rows after limit).2 = true) :
    (page key rows after limit).1.length = limit := by
  rw [page_snd, decide_eq_true_eq] at h
  rw [page_fst, List.length_take, Nat.min_eq_left h.le]

theorem mem_rows_of_mem_page (h : row ∈ (page key rows after limit).1) :
    row ∈ rows ∧ isBehind key after row = true := by
  rw [page_fst] at h
  exact mem_sorted.mp (List.mem_of_mem_take h)

theorem pairwise_page (h : UniqueKeys key rows) :
    (page key rows after limit).1.Pairwise fun a b => key a < key b := by
  rw [page_fst]
  exact (pairwise_sorted h).sublist (List.take_sublist _ _)

/-- **A row is on the page or behind it**, and behind it only where there is more. -/
theorem mem_page_or_behind (limit : Nat) (h : UniqueKeys key rows) (hrow : row ∈ rows)
    (hbehind : isBehind key after row = true) :
    row ∈ (page key rows after limit).1 ∨ (page key rows after limit).2 = true ∧
      ∀ other ∈ (page key rows after limit).1, key other < key row := by
  have hmem : row ∈ sorted key rows after := mem_sorted.mpr ⟨hrow, hbehind⟩
  have hpairs : (sorted key rows after).Pairwise fun a b => key a < key b := pairwise_sorted h
  rw [page_fst, page_snd]
  rw [← List.take_append_drop limit (sorted key rows after), List.mem_append] at hmem
  rw [← List.take_append_drop limit (sorted key rows after), List.pairwise_append] at hpairs
  obtain hshown | hleft := hmem
  · exact .inl hshown
  · refine .inr ⟨decide_eq_true ?_, fun other hother => hpairs.2.2 other hother row hleft⟩
    have hpos := List.length_pos_of_mem hleft
    rw [List.length_drop] at hpos
    omega

/-! ### Walks -/

/-- Where the next page starts. -/
def next (key : ρ → κ) (items : List ρ) : Option κ := items.getLast?.map key

variable (key limit) in
/-- A reader goes from page to page: the tables that it reads, the pages that it is shown, and
whether it was told that there is no more. -/
inductive Walk : Option κ → List (List ρ) → List (List ρ) → Bool → Prop
  | stop {after : Option κ} : Walk after [] [] false
  | last {after : Option κ} {rows : List ρ} (h : (page key rows after limit).2 = false) :
      Walk after [rows] [(page key rows after limit).1] true
  | more {after : Option κ} {rows : List ρ} {tables pages : List (List ρ)} {done : Bool}
      (h : (page key rows after limit).2 = true)
      (hrest : Walk (next key (page key rows after limit).1) tables pages done) :
      Walk after (rows :: tables) ((page key rows after limit).1 :: pages) done

/-- The key where the next page starts lies at or behind all that was shown. -/
theorem key_le_of_next {items : List ρ} {k : κ} (h : next key items = some k)
    (hpairs : items.Pairwise fun a b => key a < key b) (hrow : row ∈ items) : key row ≤ k := by
  obtain ⟨last, hlast, rfl⟩ := Option.map_eq_some_iff.mp h
  obtain ⟨front, rfl⟩ := List.getLast?_eq_some_iff.mp hlast
  obtain hfront | hrow := List.mem_append.mp hrow
  · exact ((List.pairwise_append.mp hpairs).2.2 row hfront last (List.mem_singleton_self _)).le
  · rw [List.mem_singleton.mp hrow]

/-- A page that is not the last one names where the next one starts. -/
theorem exists_next (hlimit : 0 < limit) (h : (page key rows after limit).2 = true) :
    ∃ last ∈ (page key rows after limit).1, next key (page key rows after limit).1 =
      some (key last) := by
  have hne : (page key rows after limit).1 ≠ [] := by
    rw [← List.length_pos_iff, length_page h]
    exact hlimit
  exact ⟨_, List.getLast_mem hne, by rw [next, List.getLast?_eq_some_getLast hne]; rfl⟩

theorem isBehind_of_lt {other : ρ} (hafter : isBehind key after row = true)
    (h : key row < key other) : isBehind key after other = true := by
  cases after with
  | none => rfl
  | some _ => exact isBehind_some.mpr ((isBehind_some.mp hafter).trans h)

namespace Walk

variable {tables pages : List (List ρ)} {done : Bool}

theorem length_le (h : Walk key limit after tables pages done) :
    ∀ items ∈ pages, items.length ≤ limit := by
  induction h with
  | stop => simp
  | last h =>
    rw [List.forall_mem_singleton]
    exact length_page_le
  | more h _ ih => exact List.forall_mem_cons.mpr ⟨length_page_le, ih⟩

/-- Every row that is shown was in the table when its page was read. -/
theorem shown (h : Walk key limit after tables pages done) :
    List.Forall₂ (fun items rows => ∀ row ∈ items, row ∈ rows) pages tables := by
  induction h with
  | stop => exact .nil
  | last h => exact .cons (fun row hrow => (mem_rows_of_mem_page hrow).1) .nil
  | more h _ ih => exact .cons (fun row hrow => (mem_rows_of_mem_page hrow).1) ih

/-- **What is shown is in order**, without repeats, and behind the start. -/
theorem increasing (hlimit : 0 < limit) (h : Walk key limit after tables pages done)
    (hunique : ∀ rows ∈ tables, UniqueKeys key rows) :
    (pages.flatten.Pairwise fun a b => key a < key b) ∧
      ∀ row ∈ pages.flatten, isBehind key after row = true := by
  induction h with
  | stop => simp
  | @last after rows h =>
    rw [List.forall_mem_singleton] at hunique
    rw [List.flatten_cons, List.flatten_nil, List.append_nil]
    exact ⟨pairwise_page hunique, fun row hrow => (mem_rows_of_mem_page hrow).2⟩
  | @more after rows tables pages done h hrest ih =>
    obtain ⟨hrows, htables⟩ := List.forall_mem_cons.mp hunique
    obtain ⟨hpairs, hbehind⟩ := ih htables
    obtain ⟨last, hlast, hnext⟩ := exists_next hlimit h
    have hfirst : (page key rows after limit).1.Pairwise fun a b => key a < key b :=
      pairwise_page hrows
    have hlater : ∀ row ∈ pages.flatten, key last < key row := by
      intro row hrow
      have hrow := hbehind row hrow
      rw [hnext] at hrow
      exact isBehind_some.mp hrow
    rw [List.flatten_cons]
    refine ⟨List.pairwise_append.mpr ⟨hfirst, hpairs, fun row hrow other hother => ?_⟩, ?_⟩
    · exact (key_le_of_next hnext hfirst hrow).trans_lt (hlater other hother)
    · refine List.forall_mem_append.mpr ⟨fun row hrow => (mem_rows_of_mem_page hrow).2, ?_⟩
      intro row hrow
      exact isBehind_of_lt (mem_rows_of_mem_page hlast).2 (hlater row hrow)

/-- **A key that stays in the table is shown** before the reader is told that there is no more. -/
theorem complete (hlimit : 0 < limit) (h : Walk key limit after tables pages done)
    (hunique : ∀ rows ∈ tables, UniqueKeys key rows) (hdone : done = true) {k : κ}
    (hafter : ∀ start ∈ after, start < k) (hstays : ∀ rows ∈ tables, ∃ row ∈ rows, key row = k) :
    ∃ row ∈ pages.flatten, key row = k := by
  induction h with
  | stop => cases hdone
  | @last after rows h =>
    rw [List.forall_mem_singleton] at hunique hstays
    obtain ⟨row, hrow, rfl⟩ := hstays
    have hbehind : isBehind key after row = true := by
      cases after with
      | none => rfl
      | some start => exact isBehind_some.mpr (hafter start rfl)
    obtain hshown | ⟨hmore, -⟩ := mem_page_or_behind limit hunique hrow hbehind
    · exact ⟨row, by simpa using hshown, rfl⟩
    · rw [h] at hmore
      cases hmore
  | @more after rows tables pages done h hrest ih =>
    obtain ⟨hrows, htables⟩ := List.forall_mem_cons.mp hunique
    obtain ⟨⟨row, hrow, rfl⟩, hrestStays⟩ := List.forall_mem_cons.mp hstays
    have hbehind : isBehind key after row = true := by
      cases after with
      | none => rfl
      | some start => exact isBehind_some.mpr (hafter start rfl)
    rw [List.flatten_cons]
    obtain hshown | ⟨-, hlater⟩ := mem_page_or_behind limit hrows hrow hbehind
    · exact ⟨row, List.mem_append_left _ hshown, rfl⟩
    · obtain ⟨last, hlast, hnext⟩ := exists_next hlimit h
      obtain ⟨other, hother, hkey⟩ := ih htables hdone (by
        rw [hnext]
        rintro _ ⟨⟩
        exact hlater last hlast) hrestStays
      exact ⟨other, List.mem_append_right _ hother, hkey⟩

end Walk

end Keyset

end KakuneCore
