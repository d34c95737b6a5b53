import KakuneCore.Encoding.Erasing
import Mathlib.Data.List.TakeWhile

/-!
# Which letters are erased

An occurrence of a pattern is **active** when it does not lie in the run behind an active occurrence
that was looked for before or together with it. `Eraser.ErasesAll.lost_iff`: after one walk for each
pattern exactly the letters of active occurrences and of the runs behind them are lost.
-/

namespace Erasing

open TextSearch Masking

variable {α : Type} {stops : α → Bool} {text pattern pattern' : List α}

/-- No stop among the letters from one position up to another. -/
def Still (stops : α → Bool) (text : List α) (i j : Nat) : Prop :=
  ∀ k a, i ≤ k → k < j → text[k]? = some a → stops a = false

/-- The pattern at a position, with the run behind it, covers a position. -/
def Covers (stops : α → Bool) (text pattern : List α) (i k : Nat) : Prop :=
  i ≤ k ∧ k < text.length ∧ Still stops text (i + pattern.length) (k + 1)

/-- **An active occurrence**: it does not lie in the run behind an active occurrence of the same
pattern, or of one listed before. -/
def Active [DecidableEq α] (stops : α → Bool) (patterns : List (List α)) (text pattern : List α)
    (i : Nat) : Prop :=
  OccursAt pattern text i ∧
    ∀ pattern' ∈ patterns.takeWhile (· ≠ pattern) ++ [pattern], ∀ j, j < i →
      j + pattern'.length ≤ i → Still stops text (j + pattern'.length) i →
        ¬ Active stops patterns text pattern' j
termination_by i

/-- Patterns that can be told apart wherever they stand: none begins with a stop, and no occurrence
overlaps another. -/
structure Separate (stops : α → Bool) (patterns : List (List α)) : Prop where
  nodup : patterns.Nodup
  head : ∀ pattern ∈ patterns, ∃ c rest, pattern = c :: rest ∧ stops c = false
  apart : ∀ pattern ∈ patterns, ∀ pattern' ∈ patterns, ∀ s ∈ pattern'.tails, s ≠ [] →
    (s <+: pattern ∨ pattern <+: s) → s = pattern' ∧ pattern = pattern'

/-! ### Positions -/

section Positions

theorem Still.mono {i i' j j' : Nat} (h : Still stops text i j) (hi : i ≤ i') (hj : j' ≤ j) :
    Still stops text i' j' :=
  fun k a hik hkj => h k a (hi.trans hik) (hkj.trans_le hj)

theorem Still.append {i j k : Nat} (h : Still stops text i j) (h' : Still stops text j k) :
    Still stops text i k := by
  intro n a hin hnk hget
  rcases Nat.lt_or_ge n j with hlt | hge
  · exact h n a hin hlt hget
  · exact h' n a hge hnk hget

theorem occursAt_iff {i : Nat} :
    OccursAt pattern text i ↔ ∀ n (hn : n < pattern.length), text[i + n]? = some pattern[n] := by
  rw [OccursAt, List.prefix_iff_getElem?]
  simp only [List.getElem?_drop]

theorem lt_length_of_occursAt {i n : Nat} (h : OccursAt pattern text i) (hn : n < pattern.length) :
    i + n < text.length :=
  (List.getElem?_eq_some_iff.mp (occursAt_iff.mp h n hn)).1

theorem Separate.length_pos {patterns : List (List α)} (h : Separate stops patterns)
    (hmem : pattern ∈ patterns) : 0 < pattern.length := by
  obtain ⟨c, rest, rfl, -⟩ := h.head pattern hmem
  exact Nat.succ_pos _

/-- The first letter of an occurrence is no stop. -/
theorem Separate.stops_head {patterns : List (List α)} (h : Separate stops patterns)
    (hmem : pattern ∈ patterns) {i : Nat} (hoccurs : OccursAt pattern text i) {a : α}
    (ha : text[i]? = some a) : stops a = false := by
  obtain ⟨c, rest, rfl, hc⟩ := h.head pattern hmem
  have hfirst := occursAt_iff.mp hoccurs 0 (Nat.succ_pos _)
  rw [Nat.add_zero, ha, List.getElem_cons_zero] at hfirst
  rwa [Option.some.inj hfirst]

/-- **Occurrences do not overlap.** -/
theorem Separate.apart_of_le {patterns : List (List α)} (h : Separate stops patterns)
    (hmem : pattern ∈ patterns) (hmem' : pattern' ∈ patterns) {i j : Nat}
    (hi : OccursAt pattern text i) (hj : OccursAt pattern' text j) (hle : j ≤ i) :
    (j = i ∧ pattern = pattern') ∨ j + pattern'.length ≤ i := by
  rcases Nat.lt_or_ge i (j + pattern'.length) with hlt | hge
  · have hdrop : pattern'.drop (i - j) <+: text.drop i := by
      have hprefix := List.IsPrefix.drop hj (i - j)
      rwa [List.drop_drop, Nat.add_sub_of_le hle] at hprefix
    have hne : pattern'.drop (i - j) ≠ [] := by
      rw [Ne, List.drop_eq_nil_iff]
      omega
    obtain ⟨hwhole, heq⟩ := h.apart pattern hmem pattern' hmem' _
      ((List.mem_tails _ _).mpr (List.drop_suffix _ _)) hne
      (List.prefix_or_prefix_of_prefix hdrop hi)
    have hlength := congrArg List.length hwhole
    rw [List.length_drop] at hlength
    exact .inl ⟨by omega, heq⟩
  · exact .inr hge

end Positions

/-! ### One walk -/

section Walk

variable [DecidableEq α] {eraser : Eraser α} {front back before behind : List α} {i j k : Nat}

omit [DecidableEq α] in
theorem getElem?_append_add (front back : List α) (i : Nat) :
    (front ++ back)[front.length + i]? = back[i]? := by
  rw [List.getElem?_append_right (Nat.le_add_right _ _), Nat.add_sub_cancel_left]

omit [DecidableEq α] in
theorem occursAt_append : OccursAt pattern (front ++ back) (front.length + i) ↔
    OccursAt pattern back i := by
  simp only [occursAt_iff, Nat.add_assoc, getElem?_append_add]

omit [DecidableEq α] in
theorem still_append : Still stops (front ++ back) (front.length + i) (front.length + j) ↔
    Still stops back i j := by
  constructor
  · intro h k a hik hkj hget
    exact h (front.length + k) a (by omega) (by omega) (by rwa [getElem?_append_add])
  · intro h k a hik hkj hget
    obtain ⟨k, rfl⟩ := Nat.exists_eq_add_of_le (show front.length ≤ k by omega)
    rw [getElem?_append_add] at hget
    exact h k a (by omega) (by omega) hget

theorem active_singleton : Active stops [pattern] text pattern i ↔
    OccursAt pattern text i ∧ ∀ j, j < i → j + pattern.length ≤ i →
      Still stops text (j + pattern.length) i → ¬ Active stops [pattern] text pattern j := by
  rw [Active]
  simp

/-- The first occurrence, of a pattern that begins with no stop and does not overlap itself. -/
structure FirstRun (eraser : Eraser α) (pattern text before behind : List α) : Prop where
  cut : cutAt pattern text = some (before, behind)
  nonempty : 0 < pattern.length
  head : ∀ i, OccursAt pattern text i → ∀ a, text[i]? = some a → eraser.stops a = false
  apart : ∀ i j, OccursAt pattern text i → OccursAt pattern text j → j < i →
    j + pattern.length ≤ i

/-- The text up to the end of the run behind the first occurrence. -/
def frontOf (eraser : Eraser α) (pattern before behind : List α) : List α :=
  before ++ (pattern ++ eraser.run behind)

omit [DecidableEq α] in
theorem length_frontOf : (frontOf eraser pattern before behind).length =
    before.length + pattern.length + (eraser.run behind).length := by
  rw [frontOf, List.length_append, List.length_append, Nat.add_assoc]

namespace FirstRun

theorem text_eq (h : FirstRun eraser pattern text before behind) :
    text = frontOf eraser pattern before behind ++ eraser.rest behind := by
  rw [frontOf, List.append_assoc, List.append_assoc, eraser.run_append_rest, ← eq_of_cutAt h.cut]

theorem le_of_occursAt (h : FirstRun eraser pattern text before behind)
    (hi : OccursAt pattern text i) : before.length ≤ i := by
  obtain ⟨rest, hrest⟩ := hi
  have htext : text = text.take i ++ (pattern ++ rest) := by rw [hrest, List.take_append_drop]
  exact (prefix_of_cutAt h.cut htext).length_le.trans (List.length_take_le _ _)

theorem occursAt (h : FirstRun eraser pattern text before behind) :
    OccursAt pattern text before.length := by
  rw [OccursAt, eq_of_cutAt h.cut, List.drop_left]
  exact List.prefix_append _ _

/-- The run has no stop, and ends at one or with the text. -/
theorem still_iff (h : FirstRun eraser pattern text before behind) (hk : k < text.length) :
    Still eraser.stops text (before.length + pattern.length) (k + 1) ↔
      k < (frontOf eraser pattern before behind).length := by
  have htext := h.text_eq
  constructor
  · intro hstill
    by_contra hge
    rw [Nat.not_lt] at hge
    -- the letter behind the run is a stop
    have hlength := congrArg List.length htext
    rw [List.length_append] at hlength
    obtain ⟨b, rest, hrest⟩ := List.exists_cons_of_length_pos
      (show 0 < (eraser.rest behind).length by omega)
    have hb : text[(frontOf eraser pattern before behind).length]? = some b := by
      have hget := getElem?_append_add (frontOf eraser pattern before behind) (eraser.rest behind) 0
      rw [← htext, hrest] at hget
      exact hget
    have hnot : (!eraser.stops b) = false := by
      have hhead := List.head?_dropWhile_not (fun b => !eraser.stops b) behind
      rw [Eraser.rest] at hrest
      rw [hrest] at hhead
      exact hhead
    have hle := @length_frontOf _ pattern eraser before behind
    have hfalse := hstill _ b (by omega) (by omega) hb
    rw [hfalse] at hnot
    cases hnot
  · intro hlt n a hn hnk hget
    obtain ⟨m, rfl⟩ := Nat.exists_eq_add_of_le hn
    have hle := @length_frontOf _ pattern eraser before behind
    have hlength : (before ++ pattern).length = before.length + pattern.length := List.length_append
    rw [htext, frontOf, ← List.append_assoc, List.append_assoc, ← hlength, getElem?_append_add,
      List.getElem?_append_left (by omega)] at hget
    have hmem := List.mem_takeWhile_imp (List.mem_of_getElem? hget)
    simpa using hmem

/-- The first occurrence is active. -/
theorem active (h : FirstRun eraser pattern text before behind) :
    Active eraser.stops [pattern] text pattern before.length := by
  refine active_singleton.mpr ⟨h.occursAt, fun j hj _ _ hactive => ?_⟩
  exact Nat.not_lt.mpr (h.le_of_occursAt (active_singleton.mp hactive).1) hj

/-- Of the occurrences that begin in the run, none is active. -/
theorem of_active (h : FirstRun eraser pattern text before behind)
    (hi : Active eraser.stops [pattern] text pattern i) :
    i = before.length ∨ ∃ i', i = (frontOf eraser pattern before behind).length + i' := by
  obtain ⟨hoccurs, hnone⟩ := active_singleton.mp hi
  have hle := h.le_of_occursAt hoccurs
  rcases Nat.eq_or_lt_of_le hle with heq | hlt
  · exact .inl heq.symm
  · refine .inr (Nat.exists_eq_add_of_le ?_)
    by_contra hin
    rw [Nat.not_le] at hin
    have hapart := h.apart i before.length hoccurs h.occursAt hlt
    have hstill := (h.still_iff (lt_length_of_occursAt hoccurs h.nonempty)).mpr hin
    exact hnone _ hlt hapart (hstill.mono le_rfl (Nat.le_succ i)) h.active

/-- Behind the run the active occurrences are those of the rest. -/
theorem active_append_iff (h : FirstRun eraser pattern text before behind) (i : Nat) :
    Active eraser.stops [pattern] text pattern ((frontOf eraser pattern before behind).length + i) ↔
      Active eraser.stops [pattern] (eraser.rest behind) pattern i := by
  have htext := h.text_eq
  induction i using Nat.strong_induction_on with
  | _ i ih =>
    have hoccurs : OccursAt pattern text ((frontOf eraser pattern before behind).length + i) ↔
        OccursAt pattern (eraser.rest behind) i := by
      rw [htext, occursAt_append]
    have hstill (j : Nat) : Still eraser.stops text
          ((frontOf eraser pattern before behind).length + j + pattern.length)
          ((frontOf eraser pattern before behind).length + i) ↔
        Still eraser.stops (eraser.rest behind) (j + pattern.length) i := by
      rw [htext, Nat.add_assoc, still_append]
    rw [active_singleton, active_singleton, hoccurs]
    refine and_congr_right fun hi => ⟨fun hnone j hj hle hs hactive => ?_,
      fun hnone j hj hle hs hactive => ?_⟩
    · exact hnone _ (by omega) (by omega) ((hstill j).mpr hs) ((ih j hj).mpr hactive)
    · obtain rfl | ⟨j, rfl⟩ := h.of_active hactive
      · -- the run would reach the occurrence behind it
        have hlt := lt_length_of_occursAt (hoccurs.mpr hi) h.nonempty
        have hfirst : Still eraser.stops text
            ((frontOf eraser pattern before behind).length + i)
            ((frontOf eraser pattern before behind).length + i + 1) := by
          intro n a hn hni hget
          obtain rfl : n = (frontOf eraser pattern before behind).length + i := by omega
          exact h.head _ (hoccurs.mpr hi) a hget
        have hreach :=
          (h.still_iff (show (frontOf eraser pattern before behind).length < text.length by
          omega)).mp ((hs.append hfirst).mono le_rfl (by omega))
        exact Nat.lt_irrefl _ hreach
      · exact hnone j (by omega) (by omega) ((hstill j).mp hs) ((ih j (by omega)).mp hactive)

/-- What a walk does to the letter at a position: it is hit by an active occurrence or stays. -/
theorem hit_append_iff (h : FirstRun eraser pattern text before behind) (k : Nat) :
    (∃ i, Active eraser.stops [pattern] text pattern i ∧
        Covers eraser.stops text pattern i ((frontOf eraser pattern before behind).length + k)) ↔
      ∃ i, Active eraser.stops [pattern] (eraser.rest behind) pattern i ∧
        Covers eraser.stops (eraser.rest behind) pattern i k := by
  have htext := h.text_eq
  have hcovers (i : Nat) : Covers eraser.stops text pattern
        ((frontOf eraser pattern before behind).length + i)
        ((frontOf eraser pattern before behind).length + k) ↔
      Covers eraser.stops (eraser.rest behind) pattern i k := by
    have hlength := congrArg List.length htext
    rw [List.length_append] at hlength
    rw [Covers, Covers, htext, Nat.add_assoc, Nat.add_assoc, still_append, ← htext]
    refine and_congr (by omega) (and_congr (by omega) Iff.rfl)
  constructor
  · rintro ⟨i, hactive, hcover⟩
    obtain rfl | ⟨i, rfl⟩ := h.of_active hactive
    · have hlt := (h.still_iff hcover.2.1).mp hcover.2.2
      omega
    · exact ⟨i, (h.active_append_iff i).mp hactive, (hcovers i).mp hcover⟩
  · rintro ⟨i, hactive, hcover⟩
    exact ⟨_, (h.active_append_iff i).mpr hactive, (hcovers i).mpr hcover⟩

/-- In the rest no occurrence begins at a stop. -/
theorem head_rest (h : FirstRun eraser pattern text before behind)
    (hi : OccursAt pattern (eraser.rest behind) i) {a : α}
    (ha : (eraser.rest behind)[i]? = some a) : eraser.stops a = false := by
  rw [← @occursAt_append _ _ (frontOf eraser pattern before behind), ← h.text_eq] at hi
  rw [← getElem?_append_add (frontOf eraser pattern before behind), ← h.text_eq] at ha
  exact h.head _ hi a ha

/-- In the rest the occurrences lie apart. -/
theorem apart_rest (h : FirstRun eraser pattern text before behind)
    (hi : OccursAt pattern (eraser.rest behind) i) {j : Nat}
    (hj : OccursAt pattern (eraser.rest behind) j) (hlt : j < i) : j + pattern.length ≤ i := by
  rw [← @occursAt_append _ _ (frontOf eraser pattern before behind), ← h.text_eq] at hi hj
  have hle := h.apart _ _ hi hj (by omega)
  omega

end FirstRun

section Marks

variable {result before behind : List (Option α)} {pattern : List (Option α)}

omit [DecidableEq α]

theorem length_mark (erased : List (Option α)) :
    ((letterEraser stops).mark erased).length = erased.length := by
  rw [letterEraser, List.length_map]

theorem getElem?_mark {erased : List (Option α)} (hk : k < erased.length) :
    ((letterEraser stops).mark erased)[k]? = some none := by
  rw [letterEraser, List.getElem?_map, List.getElem?_eq_getElem hk, Option.map_some]

/-- What is erased is lost. -/
theorem getElem?_marked (hbefore : before.length ≤ k)
    (hin : k < (frontOf (letterEraser stops) pattern before behind).length) :
    (before ++ ((letterEraser stops).mark (pattern ++ (letterEraser stops).run behind) ++
      result))[k]? = some none := by
  obtain ⟨m, rfl⟩ := Nat.exists_eq_add_of_le hbefore
  rw [length_frontOf] at hin
  have hm : m < (pattern ++ (letterEraser stops).run behind).length := by
    rw [List.length_append]
    omega
  rw [getElem?_append_add, List.getElem?_append_left (by rwa [length_mark]), getElem?_mark hm]

/-- What stands behind it is the result of the rest. -/
theorem getElem?_marked_append (k : Nat) :
    (before ++ ((letterEraser stops).mark (pattern ++ (letterEraser stops).run behind) ++
      result))[(frontOf (letterEraser stops) pattern before behind).length + k]? = result[k]? := by
  have hlength : (before ++ (letterEraser stops).mark (pattern ++ (letterEraser stops).run behind)
      ).length = (frontOf (letterEraser stops) pattern before behind).length := by
    rw [List.length_append, length_mark, List.length_append, length_frontOf, Nat.add_assoc]
  rw [← List.append_assoc, ← hlength, getElem?_append_add]

end Marks

/-- **What one walk loses**: the letters an active occurrence covers, and no others. -/
theorem Eraser.Erases.lost {letters letters' pattern : List (Option α)}
    (h : (letterEraser stops).Erases pattern letters letters') (hpos : 0 < pattern.length)
    (hhead : ∀ i, OccursAt pattern letters i → ∀ a, letters[i]? = some a →
      (letterEraser stops).stops a = false)
    (hapart : ∀ i j, OccursAt pattern letters i → OccursAt pattern letters j → j < i →
      j + pattern.length ≤ i) :
    letters'.length = letters.length ∧ ∀ k,
      ((∃ i, Active (letterEraser stops).stops [pattern] letters pattern i ∧
          Covers (letterEraser stops).stops letters pattern i k) → letters'[k]? = some none) ∧
      ((¬ ∃ i, Active (letterEraser stops).stops [pattern] letters pattern i ∧
          Covers (letterEraser stops).stops letters pattern i k) → letters'[k]? = letters[k]?) := by
  induction h with
  | @done letters hcut =>
    refine ⟨rfl, fun k => ⟨fun ⟨i, hactive, _⟩ => ?_, fun _ => rfl⟩⟩
    have hoccurs : pattern <:+: letters :=
      (active_singleton.mp hactive).1.isInfix.trans (List.drop_suffix i letters).isInfix
    rw [← occurs_iff, occurs, hcut] at hoccurs
    cases hoccurs
  | @run letters before behind result hcut _ ih =>
    have hrun : FirstRun (letterEraser stops) pattern letters before behind :=
      ⟨hcut, hpos, hhead, hapart⟩
    have htext := hrun.text_eq
    have hfront := @length_frontOf _ pattern (letterEraser stops) before behind
    -- the rest is walked through as before
    obtain ⟨hlength, hrest⟩ := ih (fun _ hi _ ha => hrun.head_rest hi ha)
      fun _ _ hi hj hlt => hrun.apart_rest hi hj hlt
    refine ⟨?_, fun k => ?_⟩
    · have hletters := congrArg List.length htext
      rw [List.length_append] at hletters ⊢
      rw [List.length_append, length_mark, List.length_append, hlength]
      omega
    rcases Nat.lt_or_ge k before.length with hbefore | hbefore
    · refine ⟨fun ⟨i, hactive, hcover⟩ => ?_, fun _ => ?_⟩
      · have hle := hrun.le_of_occursAt (active_singleton.mp hactive).1
        exact absurd hcover.1 (by omega)
      · rw [List.getElem?_append_left hbefore, eq_of_cutAt hcut,
          List.getElem?_append_left hbefore]
    rcases Nat.lt_or_ge k (frontOf (letterEraser stops) pattern before behind).length
      with hin | hbehind
    · have hk : k < letters.length := by
        rw [htext, List.length_append]
        exact hin.trans_le (Nat.le_add_right _ _)
      have hhit := (hrun.still_iff hk).mpr hin
      exact ⟨fun _ => getElem?_marked hbefore hin,
        fun hnot => absurd ⟨before.length, hrun.active, hbefore, hk, hhit⟩ hnot⟩
    · obtain ⟨k, rfl⟩ := Nat.exists_eq_add_of_le hbehind
      have hget := getElem?_append_add (frontOf (letterEraser stops) pattern before behind)
        ((letterEraser stops).rest behind) k
      rw [← htext] at hget
      rw [hrun.hit_append_iff, getElem?_marked_append, hget]
      exact hrest k

end Walk

/-! ### All walks -/

section Walks

variable [DecidableEq α] {patterns earlier later : List (List α)}
  {letters letters' : List (Option α)}
  {i j k n : Nat}

/-- What is left of a text after the walks for some of the patterns. -/
structure Erased (stops : α → Bool) (patterns earlier : List (List α)) (text : List α)
    (letters : List (Option α)) : Prop where
  length : letters.length = text.length
  kept : ∀ (k : Nat) (a : α), letters[k]? = some (some a) → text[k]? = some a
  lost : ∀ k : Nat, letters[k]? = some none ↔
    ∃ pattern ∈ earlier, ∃ i, Active stops patterns text pattern i ∧ Covers stops text pattern i k

namespace Erased

theorem get (h : Erased stops patterns earlier text letters) (k : Nat) :
    letters[k]? = some none ∨ letters[k]? = text[k]?.map some := by
  rcases hget : letters[k]? with - | - | a
  · rw [List.getElem?_eq_none_iff, h.length, ← List.getElem?_eq_none_iff] at hget
    exact .inr (by rw [hget, Option.map_none])
  · exact .inl rfl
  · exact .inr (by rw [h.kept k a hget, Option.map_some])

theorem get_text (h : Erased stops patterns earlier text letters) {a : α} (ha : text[k]? = some a) :
    letters[k]? = some none ∨ letters[k]? = some (some a) := by
  have hget := h.get k
  rwa [ha] at hget

/-- Up to the next stop that is left, lost letters are followed by lost letters. -/
theorem lost_of_still (h : Erased stops patterns earlier text letters)
    (hlost : letters[j]? = some none) (hle : j ≤ k) (hk : k < text.length)
    (hstill : Still (letterEraser stops).stops letters j (k + 1)) : letters[k]? = some none := by
  induction k, hle using Nat.le_induction with
  | base => exact hlost
  | succ k hle ih =>
    obtain ⟨pattern, hmem, i, hactive, hcover⟩ :=
      (h.lost k).mp (ih (by omega) (hstill.mono le_rfl (Nat.le_succ _)))
    obtain ⟨a, ha⟩ : ∃ a, text[k + 1]? = some a := ⟨_, List.getElem?_eq_getElem hk⟩
    rcases h.get_text ha with hnone | hsome
    · exact hnone
    · -- the run of the occurrence that covers the letter before goes on
      have hstops : stops a = false := hstill (k + 1) (some a) (by omega) (by omega) hsome
      refine (h.lost (k + 1)).mpr ⟨pattern, hmem, i, hactive, Nat.le_succ_of_le hcover.1, hk, ?_⟩
      refine hcover.2.2.append fun n b hn hnk hget => ?_
      obtain rfl : n = k + 1 := by omega
      rw [ha] at hget
      rwa [← Option.some.inj hget]

/-- Before a letter that is left and no stop, the stops of the text are left. -/
theorem still_iff (h : Erased stops patterns earlier text letters) {a : α} (ha : text[i]? = some a)
    (hstops : stops a = false) (hkept : letters[i]? ≠ some none) :
    Still (letterEraser stops).stops letters j i ↔ Still stops text j i := by
  have hi : letters[i]? = some (some a) := (h.get_text ha).resolve_left hkept
  constructor
  · intro hstill k b hjk hki hget
    by_contra hstop
    rw [Bool.not_eq_false] at hstop
    rcases h.get_text hget with hnone | hsome
    · refine hkept (h.lost_of_still hnone hki.le (List.getElem?_eq_some_iff.mp ha).1 ?_)
      refine (hstill.mono hjk le_rfl).append fun n c hn hni hc => ?_
      obtain rfl : n = i := by omega
      rw [hi] at hc
      rw [← Option.some.inj hc]
      exact hstops
    · have hfalse : stops b = false := hstill k (some b) hjk hki hsome
      rw [hstop] at hfalse
      cases hfalse
  · intro hstill k b hjk hki hget
    rcases b with - | b
    · rfl
    · exact hstill k b hjk hki (h.kept k b hget)

theorem occursAt_iff (h : Erased stops patterns earlier text letters) :
    OccursAt (pattern.map some) letters i ↔
      OccursAt pattern text i ∧ ∀ n, n < pattern.length → letters[i + n]? ≠ some none := by
  rw [Erasing.occursAt_iff, Erasing.occursAt_iff]
  simp only [List.length_map, List.getElem_map]
  constructor
  · intro hoccurs
    refine ⟨fun n hn => h.kept _ _ (hoccurs n hn), fun n hn hnone => ?_⟩
    rw [hoccurs n hn] at hnone
    cases hnone
  · rintro ⟨hoccurs, hleft⟩ n hn
    exact (h.get_text (hoccurs n hn)).resolve_left (hleft n hn)

/-- A letter that is left is covered alike in what is left and in the text. -/
theorem covers_of_covers (h : Erased stops patterns earlier text letters)
    (hkept : letters[k]? ≠ some none)
    (hcover : Covers (letterEraser stops).stops letters (pattern.map some) i k) :
    Covers stops text pattern i k := by
  obtain ⟨hle, hk, hstill⟩ := hcover
  rw [List.length_map] at hstill
  rw [h.length] at hk
  refine ⟨hle, hk, ?_⟩
  rcases Nat.lt_or_ge k (i + pattern.length) with hlt | hge
  · exact fun n a hn hnk _ => absurd hn (by omega)
  · have hget : text[k]? = some (text[k]) := List.getElem?_eq_getElem hk
    have hstops : stops (text[k]) = false :=
      hstill k (some (text[k])) hge (Nat.lt_succ_self k) ((h.get_text hget).resolve_left hkept)
    refine ((h.still_iff hget hstops hkept).mp (hstill.mono le_rfl (Nat.le_succ k))).append ?_
    intro n a hn hnk ha
    obtain rfl : n = k := by omega
    rw [hget] at ha
    rwa [← Option.some.inj ha]

theorem start (text : List α) : Erased stops patterns [] text (text.map some) where
  length := List.length_map _
  kept k a h := by simpa using h
  lost k := by simp

end Erased

/-- The patterns listed before one. -/
theorem takeWhile_ne (hnodup : (earlier ++ pattern :: later).Nodup) :
    (earlier ++ pattern :: later).takeWhile (· ≠ pattern) = earlier := by
  have hall : ∀ p ∈ earlier, decide (p ≠ pattern) = true := by
    intro p hp
    rw [decide_eq_true_eq]
    rintro rfl
    exact (List.nodup_append.mp hnodup).2.2 p hp p List.mem_cons_self rfl
  rw [List.takeWhile_append_of_pos hall, List.takeWhile_cons]
  simp

section Step

variable (hsep : Separate stops patterns) (hlist : patterns = earlier ++ pattern :: later)

include hsep hlist

theorem active_iff : Active stops patterns text pattern i ↔
    OccursAt pattern text i ∧ ∀ pattern' ∈ earlier ++ [pattern], ∀ j, j < i →
      j + pattern'.length ≤ i → Still stops text (j + pattern'.length) i →
        ¬ Active stops patterns text pattern' j := by
  have hnodup := hsep.nodup
  rw [hlist] at hnodup
  rw [Active, hlist, takeWhile_ne hnodup]

/-- **The walk for the next pattern** finds the occurrences that are active in the text. -/
theorem Erased.active_iff (h : Erased stops patterns earlier text letters) (i : Nat) :
    Active (letterEraser stops).stops [pattern.map some] letters (pattern.map some) i ↔
      Active stops patterns text pattern i := by
  have hmem : pattern ∈ patterns := by rw [hlist]; simp
  have hearlier : ∀ p ∈ earlier, p ∈ patterns := by
    intro p hp
    rw [hlist]
    exact List.mem_append_left _ hp
  have hnot : pattern ∉ earlier := by
    intro hp
    have hnodup := hsep.nodup
    rw [hlist] at hnodup
    exact (List.nodup_append.mp hnodup).2.2 pattern hp pattern List.mem_cons_self rfl
  have hpos := hsep.length_pos hmem
  induction i using Nat.strong_induction_on with
  | _ i ih =>
    rw [active_singleton, Erasing.active_iff hsep hlist, h.occursAt_iff, List.length_map]
    constructor
    · rintro ⟨⟨hoccurs, hleft⟩, hnone⟩
      have hlt := lt_length_of_occursAt hoccurs hpos
      have hget : text[i]? = some (text[i]) := List.getElem?_eq_getElem hlt
      have hstops := hsep.stops_head hmem hoccurs hget
      have hkept : letters[i]? ≠ some none := hleft 0 hpos
      refine ⟨hoccurs, fun pattern' hp j hj hle hstill hactive => ?_⟩
      rcases List.mem_append.mp hp with hp | hp
      · -- it would have lost the first letter
        refine hkept ((h.lost i).mpr ⟨pattern', hp, j, hactive, hj.le, hlt, hstill.append ?_⟩)
        intro n a hn hni ha
        obtain rfl : n = i := by omega
        exact hsep.stops_head hmem hoccurs ha
      · obtain rfl := List.mem_singleton.mp hp
        exact hnone j hj hle ((h.still_iff hget hstops hkept).mpr hstill) ((ih j hj).mpr hactive)
    · rintro ⟨hoccurs, hnone⟩
      have hleft : ∀ n, n < pattern.length → letters[i + n]? ≠ some none := by
        intro n hn hlost
        obtain ⟨pattern', hp, j, hactive, hcover⟩ := (h.lost (i + n)).mp hlost
        have hoccurs' : OccursAt pattern' text j := by
          rw [Active] at hactive
          exact hactive.1
        rcases Nat.le_total j i with hji | hij
        · rcases hsep.apart_of_le hmem (hearlier pattern' hp) hoccurs hoccurs' hji with
            ⟨-, rfl⟩ | hle
          · exact hnot hp
          · have hpos' := hsep.length_pos (hearlier pattern' hp)
            exact hnone pattern' (List.mem_append_left _ hp) j (by omega) hle
              (hcover.2.2.mono le_rfl (by omega)) hactive
        · rcases hsep.apart_of_le (hearlier pattern' hp) hmem hoccurs' hoccurs hij with
            ⟨-, rfl⟩ | hle
          · exact hnot hp
          · exact absurd hcover.1 (by omega)
      have hlt := lt_length_of_occursAt hoccurs hpos
      have hget : text[i]? = some (text[i]) := List.getElem?_eq_getElem hlt
      refine ⟨⟨hoccurs, hleft⟩, fun j hj hle hstill hactive => ?_⟩
      refine hnone pattern (List.mem_append_right _ (List.mem_singleton_self _)) j hj hle ?_
        ((ih j hj).mp hactive)
      exact (h.still_iff hget (hsep.stops_head hmem hoccurs hget) (hleft 0 hpos)).mp hstill

/-- One walk more. -/
theorem Erased.next (h : Erased stops patterns earlier text letters)
    (hwalk : (letterEraser stops).Erases (pattern.map some) letters letters') :
    Erased stops patterns (earlier ++ [pattern]) text letters' := by
  have hmem : pattern ∈ patterns := by rw [hlist]; simp
  have hpos := hsep.length_pos hmem
  obtain ⟨hlength, hwalked⟩ := hwalk.lost (by rwa [List.length_map])
    (fun i hi a ha => by
      rcases a with - | a
      · rfl
      · exact hsep.stops_head hmem (h.occursAt_iff.mp hi).1 (h.kept i a ha))
    (fun i j hi hj hlt => by
      rw [h.occursAt_iff] at hi hj
      rw [List.length_map]
      rcases hsep.apart_of_le hmem hmem hi.1 hj.1 hlt.le with ⟨rfl, -⟩ | hle
      · exact absurd hlt (Nat.lt_irrefl j)
      · exact hle)
  simp only [h.active_iff hsep hlist] at hwalked
  refine ⟨hlength.trans h.length, fun k a hget => ?_, fun k => ?_⟩
  · by_cases hhit : ∃ i, Active stops patterns text pattern i ∧
        Covers (letterEraser stops).stops letters (pattern.map some) i k
    · rw [(hwalked k).1 hhit] at hget
      cases hget
    · rw [(hwalked k).2 hhit] at hget
      exact h.kept k a hget
  · simp only [List.mem_append, List.mem_singleton, or_and_right, exists_or, exists_eq_left,
      ← h.lost k]
    by_cases hhit : ∃ i, Active stops patterns text pattern i ∧
        Covers (letterEraser stops).stops letters (pattern.map some) i k
    · refine iff_of_true ((hwalked k).1 hhit) ?_
      by_cases hlost : letters[k]? = some none
      · exact .inl hlost
      · obtain ⟨i, hactive, hle, hk, hstill⟩ := hhit
        exact .inr ⟨i, hactive, h.covers_of_covers hlost ⟨hle, hk, hstill⟩⟩
    · rw [(hwalked k).2 hhit]
      refine (or_iff_left ?_).symm
      rintro ⟨i, hactive, hle, hk, hstill⟩
      refine hhit ⟨i, hactive, hle, h.length ▸ hk, fun n a hin hnk hget => ?_⟩
      rcases a with - | a
      · rfl
      · rw [List.length_map] at hin
        exact hstill n a hin hnk (h.kept n a hget)

end Step

/-- **After one walk for each pattern** the letters of active occurrences and of the runs behind
them are lost, and no others. -/
theorem Eraser.ErasesAll.erased (hsep : Separate stops patterns)
    (h : (letterEraser stops).ErasesAll (patterns.map (List.map some)) (text.map some) letters) :
    Erased stops patterns patterns text letters := by
  -- after the first of the patterns, whatever is left of the text
  have hrest : ∀ later earlier middle, patterns = earlier ++ later →
      Erased stops patterns earlier text middle →
      (letterEraser stops).ErasesAll (later.map (List.map some)) middle letters →
      Erased stops patterns patterns text letters := by
    intro later
    induction later with
    | nil =>
      rintro earlier middle hlist herased ⟨⟩
      rw [List.append_nil] at hlist
      rwa [← hlist] at herased
    | cons pattern later ih =>
      intro earlier middle hlist herased hall
      obtain - | ⟨hwalk, hall⟩ := hall
      exact ih (earlier ++ [pattern]) _ (by rw [hlist, List.append_assoc, List.singleton_append])
        (herased.next hsep hlist hwalk) hall
  exact hrest patterns [] _ rfl (.start text) h

end Walks

/-! ### The word behind a pattern -/

section Words

variable [DecidableEq α] {patterns : List (List α)} {letters : List (Option α)} {i a k : Nat}

/-- The first letter from a position on that is no stop. -/
structure Begins (stops : α → Bool) (text : List α) (i a : Nat) : Prop where
  le : i ≤ a
  before : ∀ (k : Nat) (b : α), i ≤ k → k < a → text[k]? = some b → stops b = true
  letter : ∃ b, text[a]? = some b ∧ stops b = false

/-- **A letter of the word behind an occurrence**, after any number of stops. -/
structure WordBehind (stops : α → Bool) (text pattern : List α) (i a k : Nat) : Prop where
  occurs : OccursAt pattern text i
  begins : Begins stops text (i + pattern.length) a
  le : a ≤ k
  lt : k < text.length
  still : Still stops text a (k + 1)

/-- **The word behind an occurrence is not spared**: a pattern occurs where it begins, or it
directly follows the occurrence, which is active or has no stop itself. -/
def Unspared (stops : α → Bool) (patterns : List (List α)) (text pattern : List α) (i a : Nat) :
    Prop :=
  (∃ pattern' ∈ patterns, OccursAt pattern' text a) ∨
    (a = i + pattern.length ∧
      (Active stops patterns text pattern i ∨ ∀ c ∈ pattern, stops c = false))

omit [DecidableEq α] in
theorem Begins.still (h : Begins stops text i a) : Still stops text a (a + 1) := by
  obtain ⟨b, hb, hstops⟩ := h.letter
  intro n c hn hna hget
  obtain rfl : n = a := by omega
  rw [hb] at hget
  rwa [← Option.some.inj hget]

omit [DecidableEq α] in
theorem Begins.lt_length (h : Begins stops text i a) : a < text.length := by
  obtain ⟨b, hb, -⟩ := h.letter
  exact (List.getElem?_eq_some_iff.mp hb).1

omit [DecidableEq α] in
/-- Behind a run there is no word before a stop. -/
theorem Begins.eq_of_still (h : Begins stops text i a) (hstill : Still stops text i (a + 1)) :
    a = i := by
  by_contra hne
  have hle := h.le
  have hlt := h.lt_length
  have hget : text[i]? = some (text[i]) := List.getElem?_eq_getElem (by omega)
  have htrue := h.before i _ le_rfl (by omega) hget
  rw [hstill i _ le_rfl (by omega) hget] at htrue
  cases htrue

/-- An occurrence is active or lies in the run behind an active one. -/
theorem exists_active (hmem : pattern ∈ patterns) (hoccurs : OccursAt pattern text i) :
    Active stops patterns text pattern i ∨ ∃ pattern' ∈ patterns, ∃ j, j < i ∧
      Still stops text (j + pattern'.length) i ∧ Active stops patterns text pattern' j := by
  by_contra hnot
  rw [not_or] at hnot
  refine hnot.1 ?_
  rw [Active]
  refine ⟨hoccurs, fun pattern' hp j hj hle hstill hactive => hnot.2 ?_⟩
  refine ⟨pattern', ?_, j, hj, hstill, hactive⟩
  rcases List.mem_append.mp hp with hp | hp
  · exact (List.takeWhile_prefix _).subset hp
  · rwa [List.mem_singleton.mp hp]

/-- **The words behind all occurrences are lost** exactly when none is spared. -/
theorem Erased.words_lost_iff (h : Erased stops patterns patterns text letters)
    (hsep : Separate stops patterns) :
    (∀ pattern ∈ patterns, ∀ i a k, WordBehind stops text pattern i a k → letters[k]? = some none) ↔
      ∀ pattern ∈ patterns, ∀ i a, OccursAt pattern text i →
        Begins stops text (i + pattern.length) a → Unspared stops patterns text pattern i a := by
  constructor
  · intro hlost pattern hmem i a hoccurs hbegins
    have hlt := hbegins.lt_length
    have hle := hbegins.le
    -- the occurrence that covers the first letter of the word
    obtain ⟨pattern', hmem', j, hactive, hja, -, hstill⟩ :=
      (h.lost a).mp (hlost pattern hmem i a a ⟨hoccurs, hbegins, le_rfl, hlt, hbegins.still⟩)
    have hoccurs' : OccursAt pattern' text j := by
      rw [Active] at hactive
      exact hactive.1
    rcases Nat.eq_or_lt_of_le hja with rfl | hja
    · exact .inl ⟨pattern', hmem', hoccurs'⟩
    rcases Nat.lt_or_ge j (i + pattern.length) with hlt' | hge
    · right
      rcases Nat.le_total j i with hji | hij
      · rcases hsep.apart_of_le hmem hmem' hoccurs hoccurs' hji with ⟨rfl, rfl⟩ | hend
        · exact ⟨hbegins.eq_of_still hstill, .inl hactive⟩
        · -- the occurrence lies in the run, so it has no stop
          refine ⟨hbegins.eq_of_still (hstill.mono (by omega) le_rfl), .inr fun d hd => ?_⟩
          obtain ⟨n, hn, rfl⟩ := List.getElem_of_mem hd
          exact hstill (i + n) _ (by omega) (by omega) (Erasing.occursAt_iff.mp hoccurs n hn)
      · rcases hsep.apart_of_le hmem' hmem hoccurs' hoccurs hij with ⟨rfl, rfl⟩ | hend
        · exact ⟨hbegins.eq_of_still hstill, .inl hactive⟩
        · exact absurd hlt' (by omega)
    · -- an occurrence does not begin among the stops before the word
      have hget : text[j]? = some (text[j]) := List.getElem?_eq_getElem (by omega)
      have htrue := hbegins.before j _ hge hja hget
      rw [hsep.stops_head hmem' hoccurs' hget] at htrue
      cases htrue
  · rintro hunspared pattern hmem i a k ⟨hoccurs, hbegins, hak, hk, hstill⟩
    have hle := hbegins.le
    rw [h.lost k]
    rcases hunspared pattern hmem i a hoccurs hbegins with
      ⟨pattern', hmem', hoccurs'⟩ | ⟨rfl, hactive | hstops⟩
    · rcases exists_active hmem' hoccurs' with hactive | ⟨other, hother, j, hj, hrun, hactive⟩
      · exact ⟨pattern', hmem', a, hactive, hak, hk, hstill.mono (Nat.le_add_right _ _) le_rfl⟩
      · exact ⟨other, hother, j, hactive, by omega, hk, hrun.append hstill⟩
    · exact ⟨pattern, hmem, i, hactive, by omega, hk, hstill⟩
    · rcases exists_active hmem hoccurs with hactive | ⟨other, hother, j, hj, hrun, hactive⟩
      · exact ⟨pattern, hmem, i, hactive, by omega, hk, hstill⟩
      · refine ⟨other, hother, j, hactive, by omega, hk, (hrun.append ?_).append hstill⟩
        intro n c hn hni hget
        obtain ⟨n, rfl⟩ := Nat.exists_eq_add_of_le hn
        have hlt : n < pattern.length := by omega
        rw [Erasing.occursAt_iff.mp hoccurs n hlt] at hget
        rw [← Option.some.inj hget]
        exact hstops _ (List.getElem_mem hlt)

end Words

end Erasing
