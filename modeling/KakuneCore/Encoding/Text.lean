import KakuneCore.Encoding.LineLog
import Mathlib.Data.List.Infix

/-!
# Searching and rewriting text

The searches of a text for a **pattern**: the first occurrence, the pieces between occurrences,
replacement. A text is put together from pieces, and a piece that no occurrence of the pattern can
begin in is passed over whole (`Unmatched`), whatever follows it. So a search in a text is
computed piece by piece, and a replacement token by token.
-/

namespace TextSearch

variable {α : Type} [DecidableEq α]

/-- Cut a text at the first occurrence of a pattern: what stands before it, and what behind it. -/
def cutAt (pattern : List α) : List α → Option (List α × List α)
  | [] => if pattern = [] then some ([], []) else none
  | c :: rest =>
    if pattern <+: c :: rest then some ([], (c :: rest).drop pattern.length)
    else (cutAt pattern rest).map fun cut => (c :: cut.1, cut.2)

/-- The pattern occurs in the text. -/
def occurs (pattern text : List α) : Bool := (cutAt pattern text).isSome

/-- No occurrence of the pattern begins in the piece, whatever text follows it. -/
def Unmatched (pattern piece : List α) : Prop :=
  ∀ s ∈ piece.tails, s ≠ [] → ¬ s <+: pattern ∧ ¬ pattern <+: s

instance (pattern piece : List α) : Decidable (Unmatched pattern piece) :=
  inferInstanceAs (Decidable (∀ s ∈ piece.tails, s ≠ [] → ¬ s <+: pattern ∧ ¬ pattern <+: s))

section Unmatched

omit [DecidableEq α]

variable {pattern piece piece' text : List α} {c : α}

theorem unmatched_nil : Unmatched pattern [] := by
  intro s hs hne
  rw [List.tails, List.mem_singleton] at hs
  exact absurd hs hne

theorem unmatched_cons_iff : Unmatched pattern (c :: piece) ↔
    (¬ c :: piece <+: pattern ∧ ¬ pattern <+: c :: piece) ∧ Unmatched pattern piece := by
  unfold Unmatched
  rw [List.tails, List.forall_mem_cons]
  exact and_congr_left' ⟨fun h => h (List.cons_ne_nil _ _), fun h _ => h⟩

/-- A text the pattern neither begins with nor could begin with is not begun by it. -/
theorem not_prefix_append (h : ¬ piece <+: pattern ∧ ¬ pattern <+: piece) :
    ¬ pattern <+: piece ++ text := by
  intro hpre
  rcases List.prefix_or_prefix_of_prefix hpre (List.prefix_append piece text) with hp | hp
  · exact h.2 hp
  · exact h.1 hp

theorem Unmatched.append (h : Unmatched pattern piece) (h' : Unmatched pattern piece') :
    Unmatched pattern (piece ++ piece') := by
  induction piece with
  | nil => exact h'
  | cons c piece ih =>
    rw [unmatched_cons_iff] at h
    refine unmatched_cons_iff.mpr ⟨⟨fun hpre => h.1.1 ?_, not_prefix_append h.1⟩, ih h.2⟩
    exact (List.prefix_append (c :: piece) piece').trans hpre

theorem unmatched_flatten {pieces : List (List α)} (h : ∀ piece ∈ pieces, Unmatched pattern piece) :
    Unmatched pattern pieces.flatten := by
  induction pieces with
  | nil => exact unmatched_nil
  | cons piece pieces ih =>
    rw [List.forall_mem_cons] at h
    exact h.1.append (ih h.2)

/-- A piece without the first letter of the pattern is passed over. -/
theorem unmatched_of_not_mem (h : c ∉ piece) : Unmatched (c :: pattern) piece := by
  induction piece with
  | nil => exact unmatched_nil
  | cons d piece ih =>
    rw [List.mem_cons, not_or] at h
    refine unmatched_cons_iff.mpr ⟨⟨fun hp => h.1 ?_, fun hp => h.1 ?_⟩, ih h.2⟩
    · exact (List.cons_prefix_cons.mp hp).1.symm
    · exact (List.cons_prefix_cons.mp hp).1

end Unmatched

/-! ### The first occurrence -/

section Cut

variable {pattern piece text before behind : List α} {c : α}

/-- **A piece is passed over** on the way to the first occurrence. -/
theorem cutAt_append (h : Unmatched pattern piece) :
    cutAt pattern (piece ++ text) =
      (cutAt pattern text).map fun cut => (piece ++ cut.1, cut.2) := by
  induction piece with
  | nil => simp
  | cons c piece ih =>
    rw [unmatched_cons_iff] at h
    have hnot : ¬ pattern <+: c :: (piece ++ text) := not_prefix_append h.1
    rw [List.cons_append, cutAt, if_neg hnot, ih h.2, Option.map_map]
    rfl

theorem cutAt_pattern : cutAt pattern (pattern ++ text) = some ([], text) := by
  cases pattern with
  | nil => cases text <;> simp [cutAt]
  | cons c pattern =>
    have hpre : c :: pattern <+: c :: (pattern ++ text) := List.prefix_append (c :: pattern) text
    rw [List.cons_append, cutAt, if_pos hpre]
    simp

/-- The first occurrence behind a piece that is passed over. -/
theorem cutAt_append_pattern (h : Unmatched pattern piece) :
    cutAt pattern (piece ++ (pattern ++ text)) = some (piece, text) := by
  rw [cutAt_append h, cutAt_pattern]
  simp

theorem cutAt_of_unmatched (h : Unmatched pattern text) (hne : pattern ≠ []) :
    cutAt pattern text = none := by
  have heq := @cutAt_append _ _ pattern text [] h
  rw [List.append_nil] at heq
  rw [heq, cutAt, if_neg hne, Option.map_none]

theorem eq_of_cutAt (h : cutAt pattern text = some (before, behind)) :
    text = before ++ (pattern ++ behind) := by
  induction text generalizing before with
  | nil =>
    unfold cutAt at h
    split at h
    · next hnil =>
      cases h
      rw [hnil]
      rfl
    · cases h
  | cons c text ih =>
    unfold cutAt at h
    split at h
    · next hpre =>
      cases h
      rw [List.nil_append]
      exact List.prefix_iff_eq_append.mp hpre |>.symm
    · obtain ⟨cut, hcut, heq⟩ := Option.map_eq_some_iff.mp h
      cases heq
      rw [List.cons_append, ← ih hcut]

theorem occurs_iff : occurs pattern text = true ↔ pattern <:+: text := by
  unfold occurs
  induction text with
  | nil => by_cases hnil : pattern = [] <;> simp [cutAt, hnil]
  | cons c text ih =>
    rw [cutAt, List.infix_cons_iff]
    split
    · next hpre => simp [hpre]
    · next hpre => simp [hpre, ih]

/-- A piece that is passed over has no part in an occurrence. -/
theorem occurs_append (h : Unmatched pattern piece) :
    occurs pattern (piece ++ text) = occurs pattern text := by
  rw [occurs, cutAt_append h, Option.isSome_map, ← occurs]

/-- A letter that the pattern does not have parts its occurrences. -/
theorem occurs_append_cons (hne : pattern ≠ []) (hc : c ∉ pattern) :
    occurs pattern (piece ++ c :: text) = (occurs pattern piece || occurs pattern text) := by
  have hnot : ∀ rest, ¬ pattern <+: c :: rest := by
    rintro rest ⟨behind, hbehind⟩
    obtain ⟨d, pattern, rfl⟩ := List.exists_cons_of_ne_nil hne
    obtain rfl : d = c := (List.cons_eq_cons.mp hbehind).1
    exact hc List.mem_cons_self
  rw [Bool.eq_iff_iff, Bool.or_eq_true, occurs_iff, occurs_iff, occurs_iff]
  induction piece with
  | nil => simp [List.infix_cons_iff, hnot, hne]
  | cons d piece ih =>
    rw [List.cons_append, List.infix_cons_iff, List.infix_cons_iff, ih, or_assoc]
    refine or_congr_left ⟨fun hpre => ?_, fun hpre => ?_⟩
    · -- an occurrence that began in the piece would reach the letter
      rcases List.prefix_or_prefix_of_prefix hpre (List.prefix_append (d :: piece) (c :: text))
        with hp | ⟨behind, hbehind⟩
      · exact hp
      · cases behind with
        | nil => rw [← hbehind, List.append_nil]
        | cons e behind =>
          rw [← hbehind] at hpre hc
          have hcons := (List.prefix_append_right_inj (d :: piece)).mp hpre
          obtain rfl := (List.cons_prefix_cons.mp hcons).1
          exact absurd (List.mem_append_right _ List.mem_cons_self) hc
    · exact hpre.trans (List.prefix_append (d :: piece) (c :: text))

theorem cutAt_of_not_occurs (h : ¬ pattern <:+: text) : cutAt pattern text = none := by
  have hoccurs : occurs pattern text = false := by
    rwa [← Bool.not_eq_true, occurs_iff]
  rwa [occurs, Option.isSome_eq_false_iff, Option.isNone_iff_eq_none] at hoccurs

/-- The pattern does not occur before its first occurrence. -/
theorem not_infix_of_cutAt (hne : pattern ≠ []) (h : cutAt pattern text = some (before, behind)) :
    ¬ pattern <:+: before := by
  induction text generalizing before with
  | nil =>
    rw [cutAt, if_neg hne] at h
    cases h
  | cons c text ih =>
    have hbefore := eq_of_cutAt h
    rw [cutAt] at h
    split at h
    · cases h
      rwa [List.infix_nil]
    · next hnot =>
      obtain ⟨cut, hcut, heq⟩ := Option.map_eq_some_iff.mp h
      cases heq
      rw [List.infix_cons_iff, not_or]
      refine ⟨fun hpre => hnot ?_, ih hcut⟩
      rw [hbefore]
      exact hpre.trans (List.prefix_append _ _)

/-- No occurrence begins before the first one. -/
theorem prefix_of_cutAt (h : cutAt pattern text = some (before, behind)) {first rest : List α}
    (htext : text = first ++ (pattern ++ rest)) : before <+: first := by
  induction text generalizing before first with
  | nil =>
    obtain ⟨rfl, -⟩ := List.append_eq_nil_iff.mp htext.symm
    rw [List.prefix_nil]
    exact (List.append_eq_nil_iff.mp (eq_of_cutAt h).symm).1
  | cons c text ih =>
    rw [cutAt] at h
    split at h
    · cases h
      exact List.nil_prefix
    · next hnot =>
      obtain ⟨cut, hcut, heq⟩ := Option.map_eq_some_iff.mp h
      cases heq
      cases first with
      | nil => exact absurd (htext ▸ List.prefix_append pattern rest) hnot
      | cons d first =>
        obtain ⟨rfl, hrest⟩ := List.cons_eq_cons.mp htext
        exact List.cons_prefix_cons.mpr ⟨rfl, ih hcut hrest⟩

theorem cutAt_length (hne : pattern ≠ []) (h : cutAt pattern text = some (before, behind)) :
    behind.length < text.length := by
  have hlength := congrArg List.length (eq_of_cutAt h)
  have hpos := List.length_pos_iff.mpr hne
  simp only [List.length_append] at hlength
  omega

end Cut

/-! ### The pieces between occurrences -/

/-- The pieces of a text between the occurrences of a nonempty pattern. -/
def piecesOf (pattern text : List α) : List (List α) :=
  if hne : pattern = [] then [text]
  else match h : cutAt pattern text with
  | none => [text]
  | some (before, behind) =>
    have := cutAt_length hne h
    before :: piecesOf pattern behind
termination_by text.length

section Pieces

variable {pattern piece text : List α}

theorem piecesOf_of_cutAt (hne : pattern ≠ []) {before behind : List α}
    (h : cutAt pattern text = some (before, behind)) :
    piecesOf pattern text = before :: piecesOf pattern behind := by
  rw [piecesOf, dif_neg hne]
  split
  · next hnone =>
    rw [hnone] at h
    cases h
  · next hcut =>
    rw [hcut] at h
    cases h
    rfl

theorem piecesOf_of_none (h : cutAt pattern text = none) : piecesOf pattern text = [text] := by
  rw [piecesOf]
  split
  · rfl
  · split
    · rfl
    · next hcut =>
      rw [hcut] at h
      cases h

/-- A piece that is passed over and then the pattern. -/
theorem piecesOf_append_pattern (hne : pattern ≠ []) (h : Unmatched pattern piece) :
    piecesOf pattern (piece ++ (pattern ++ text)) = piece :: piecesOf pattern text :=
  piecesOf_of_cutAt hne (cutAt_append_pattern h)

theorem piecesOf_of_unmatched (hne : pattern ≠ []) (h : Unmatched pattern text) :
    piecesOf pattern text = [text] :=
  piecesOf_of_none (cutAt_of_unmatched h hne)

end Pieces

/-! ### Replacement -/

/-- Replace the occurrences of a pattern. -/
def replaceAll (pattern new text : List α) : List α := new.intercalate (piecesOf pattern text)

section Replace

variable {pattern piece text new : List α}

theorem replaceAll_of_none (h : cutAt pattern text = none) :
    replaceAll pattern new text = text := by
  rw [replaceAll, piecesOf_of_none h]
  simp

theorem replaceAll_of_cutAt (hne : pattern ≠ []) {before behind : List α}
    (h : cutAt pattern text = some (before, behind)) :
    replaceAll pattern new text = before ++ (new ++ replaceAll pattern new behind) := by
  obtain ⟨first, rest, hfirst⟩ : ∃ first rest, piecesOf pattern behind = first :: rest := by
    cases hcut : cutAt pattern behind with
    | none => exact ⟨_, _, piecesOf_of_none hcut⟩
    | some cut => exact ⟨_, _, piecesOf_of_cutAt hne hcut⟩
  rw [replaceAll, piecesOf_of_cutAt hne h, replaceAll, hfirst, List.intercalate_cons_cons,
    List.append_assoc]

theorem replaceAll_nil (hne : pattern ≠ []) : replaceAll pattern new [] = [] :=
  replaceAll_of_none (cutAt_of_unmatched unmatched_nil hne)

theorem replaceAll_pattern (hne : pattern ≠ []) :
    replaceAll pattern new (pattern ++ text) = new ++ replaceAll pattern new text :=
  replaceAll_of_cutAt hne cutAt_pattern

theorem replaceAll_append (hne : pattern ≠ []) (h : Unmatched pattern piece) :
    replaceAll pattern new (piece ++ text) = piece ++ replaceAll pattern new text := by
  have happend := @cutAt_append _ _ pattern piece text h
  cases hcut : cutAt pattern text with
  | none =>
    rw [hcut, Option.map_none] at happend
    rw [replaceAll_of_none happend, replaceAll_of_none hcut]
  | some cut =>
    rw [hcut, Option.map_some] at happend
    rw [replaceAll_of_cutAt hne happend, replaceAll_of_cutAt hne hcut, List.append_assoc]

/-- **A text of tokens is rewritten token by token**: one that is the pattern is replaced, and the
others, in which no occurrence begins, stay. -/
theorem replaceAll_flatten (hne : pattern ≠ []) {tokens : List (List α)}
    (h : ∀ token ∈ tokens, token = pattern ∨ Unmatched pattern token) :
    replaceAll pattern new tokens.flatten =
      (tokens.map fun token => if token = pattern then new else token).flatten := by
  induction tokens with
  | nil => exact replaceAll_nil hne
  | cons token tokens ih =>
    rw [List.forall_mem_cons] at h
    rw [List.flatten_cons, List.map_cons, List.flatten_cons, ← ih h.2]
    by_cases htoken : token = pattern
    · rw [if_pos htoken, htoken, replaceAll_pattern hne]
    · rw [if_neg htoken, replaceAll_append hne (h.1.resolve_left htoken)]

/-- **Induction along the occurrences** of a pattern: from behind each to the text it is cut
from. -/
theorem cut_induction {P : List α → Prop} (hne : pattern ≠ [])
    (hnone : ∀ text, cutAt pattern text = none → P text)
    (hcut : ∀ text before behind, cutAt pattern text = some (before, behind) → P behind → P text)
    (text : List α) : P text := by
  induction hlength : text.length using Nat.strong_induction_on generalizing text with
  | _ n ih =>
    subst hlength
    cases h : cutAt pattern text with
    | none => exact hnone text h
    | some cut => exact hcut text cut.1 cut.2 h (ih _ (cutAt_length hne h) _ rfl)

/-- What is replaced by itself stays. -/
theorem replaceAll_self (hne : pattern ≠ []) (text : List α) :
    replaceAll pattern pattern text = text := by
  induction text using cut_induction hne with
  | hnone text h => exact replaceAll_of_none h
  | hcut text before behind h ih => rw [replaceAll_of_cutAt hne h, ih, ← eq_of_cutAt h]

/-- **A letter that is new leaves no occurrence** of the pattern it replaces. -/
theorem not_infix_replaceAll (hne : pattern ≠ []) {c : α} (hc : c ∉ pattern) (text : List α) :
    ¬ pattern <:+: replaceAll pattern [c] text := by
  induction text using cut_induction hne with
  | hnone text h =>
    rw [replaceAll_of_none h, ← occurs_iff, occurs, h, Option.isSome_none, Bool.not_eq_true]
  | hcut text before behind h ih =>
    rw [replaceAll_of_cutAt hne h, List.singleton_append, ← occurs_iff,
      occurs_append_cons hne hc, Bool.or_eq_true, occurs_iff, occurs_iff, not_or]
    exact ⟨not_infix_of_cutAt hne h, ih⟩

/-- It makes no occurrence of another pattern either. -/
theorem not_infix_replaceAll_of_not_infix (hne : pattern ≠ []) {pattern' : List α} {c : α}
    (hne' : pattern' ≠ []) (hc : c ∉ pattern') {text : List α} (h : ¬ pattern' <:+: text) :
    ¬ pattern' <:+: replaceAll pattern [c] text := by
  induction text using cut_induction hne with
  | hnone text hnone => rwa [replaceAll_of_none hnone]
  | hcut text before behind hcut ih =>
    have htext := eq_of_cutAt hcut
    have hbefore : before <:+: text := htext ▸ (List.prefix_append _ _).isInfix
    have hbehind : behind <:+: text := by
      rw [htext, ← List.append_assoc]
      exact (List.suffix_append _ _).isInfix
    rw [replaceAll_of_cutAt hne hcut, List.singleton_append, ← occurs_iff,
      occurs_append_cons hne' hc, Bool.or_eq_true, occurs_iff, occurs_iff, not_or]
    exact ⟨fun hin => h (hin.trans hbefore), ih fun hin => h (hin.trans hbehind)⟩

/-- A single letter is replaced wherever it stands. -/
theorem replaceAll_letter (a : α) :
    replaceAll [a] new text = text.flatMap fun c => if c = a then new else [c] := by
  have htokens : text = (text.map fun c => [c]).flatten := by
    rw [← List.flatMap_def, List.flatMap_singleton']
  have hsplit : replaceAll [a] new (text.map fun c => [c]).flatten =
      ((text.map fun c => [c]).map fun token => if token = [a] then new else token).flatten := by
    refine replaceAll_flatten (List.cons_ne_nil a []) fun token htoken => ?_
    obtain ⟨c, -, rfl⟩ := List.mem_map.mp htoken
    by_cases hc : c = a
    · exact .inl (by rw [hc])
    · exact .inr (unmatched_of_not_mem (by simpa using Ne.symm hc))
  rw [← htokens, List.map_map] at hsplit
  rw [hsplit, List.flatMap_def]
  congr 1
  refine List.map_congr_left fun c _ => ?_
  simp

end Replace

/-! ### Lines -/

/-- The lines of a text: each ends at a line break, and a carriage return right before it is
dropped. What stands behind the last line break is a line where it is not empty. -/
def linesOf (newline carriageReturn : α) (text : List α) : List (List α) :=
  let pieces := text.splitOn newline
  pieces.dropLast.map (fun line =>
      if line.getLast? = some carriageReturn then line.dropLast else line) ++
    (pieces.getLast?.toList.filter (· ≠ []))

/-- Lines are read back from a text in which each was ended. -/
theorem linesOf_lines {newline carriageReturn : α} {rs : List (List α)}
    (hrs : ∀ r ∈ rs, newline ∉ r ∧ carriageReturn ∉ r) :
    linesOf newline carriageReturn (LineLog.lines newline rs) = rs := by
  have hstay : ∀ r ∈ rs, (if r.getLast? = some carriageReturn then r.dropLast else r) = r :=
    fun r hr => if_neg fun hlast => (hrs r hr).2 (List.mem_of_getLast? hlast)
  rw [linesOf, LineLog.splitOn_lines fun r hr => (hrs r hr).1]
  rw [List.dropLast_concat, List.map_congr_left hstay, List.getLast?_concat]
  simp

/-! ### Words -/

/-- The words of a text: what stands between separators, empty pieces left out. -/
def wordsOf (separates : α → Bool) (text : List α) : List (List α) :=
  (text.splitOnP separates).filter (· ≠ [])

section Words

omit [DecidableEq α]

variable {β : Type} {separates : α → Bool} {separates' : β → Bool}

/-- A separator parts the words before it from those behind it. -/
theorem wordsOf_append_cons {c : α} (hc : separates c = true) (text rest : List α) :
    wordsOf separates (text ++ c :: rest) = wordsOf separates text ++ wordsOf separates rest := by
  rw [wordsOf, List.splitOnP_append_cons text rest hc, List.filter_append, ← wordsOf, ← wordsOf]

theorem wordsOf_of_forall {text : List α} (hne : text ≠ [])
    (h : ∀ c ∈ text, separates c = false) : wordsOf separates text = [text] := by
  rw [wordsOf, List.splitOnP_eq_singleton h]
  simp [hne]

/-- No word has a separator. -/
theorem not_separates_of_mem_wordsOf {text word : List α} (h : word ∈ wordsOf separates text) :
    ∀ c ∈ word, separates c = false := by
  have hpieces : ∀ piece ∈ text.splitOnP separates, ∀ c ∈ piece, separates c = false := by
    clear h
    induction text with
    | nil => simp
    | cons d text ih =>
      rw [List.splitOnP_cons_eq_if_modifyHead]
      split
      · exact List.forall_mem_cons.mpr ⟨by simp, ih⟩
      · next hd =>
        obtain ⟨first, rest, heq⟩ :=
          List.exists_cons_of_ne_nil (List.splitOnP_ne_nil separates text)
        rw [heq] at ih ⊢
        rw [List.forall_mem_cons] at ih
        refine List.forall_mem_cons.mpr ⟨List.forall_mem_cons.mpr ⟨by simpa using hd, ih.1⟩, ih.2⟩
  exact hpieces word (List.mem_filter.mp h).1

theorem splitOnP_append_of_forall {piece rest : List α} (h : ∀ c ∈ piece, separates c = false) :
    (piece ++ rest).splitOnP separates =
      (rest.splitOnP separates).modifyHead (piece ++ ·) := by
  induction piece with
  | nil =>
    obtain ⟨first, words, heq⟩ := List.exists_cons_of_ne_nil (List.splitOnP_ne_nil separates rest)
    simp [heq]
  | cons c piece ih =>
    rw [List.forall_mem_cons] at h
    obtain ⟨first, words, heq⟩ := List.exists_cons_of_ne_nil (List.splitOnP_ne_nil separates rest)
    rw [List.cons_append, List.splitOnP_cons_eq_if_modifyHead, h.1, ih h.2, heq]
    rfl

/-- A letter that is no separator is in one of the pieces. -/
theorem mem_splitOn_iff [DecidableEq α] {separator c : α} {text : List α} (hc : c ≠ separator) :
    c ∈ text ↔ ∃ piece ∈ text.splitOn separator, c ∈ piece := by
  induction text with
  | nil => simp [List.splitOn_nil]
  | cons d text ih =>
    obtain ⟨first, rest, heq⟩ := List.exists_cons_of_ne_nil (List.splitOn_ne_nil separator text)
    rw [List.splitOn_cons_eq_if_modifyHead, List.mem_cons, ih, heq]
    split
    · next hd =>
      have hne : c ≠ d := fun h => hc (h.trans (beq_iff_eq.mp hd))
      simp [hne]
    · simp [or_assoc]

/-- **An encoding that keeps the separators keeps the words**: where a separator is written as one,
and any other letter as a text without separators, the words are those of the original, encoded. -/
theorem wordsOf_flatMap {encode : β → List α}
    (hseparator : ∀ c, separates' c = true → ∃ d, encode c = [d] ∧ separates d = true)
    (hletter : ∀ c, separates' c = false → encode c ≠ [] ∧ ∀ d ∈ encode c, separates d = false)
    (text : List β) : wordsOf separates (text.flatMap encode) =
      (wordsOf separates' text).map (·.flatMap encode) := by
  have hpieces : (text.flatMap encode).splitOnP separates =
      (text.splitOnP separates').map (·.flatMap encode) := by
    induction text with
    | nil => simp
    | cons c text ih =>
      rw [List.flatMap_cons, List.splitOnP_cons_eq_if_modifyHead]
      cases hc : separates' c with
      | true =>
        obtain ⟨d, hencode, hd⟩ := hseparator c hc
        rw [hencode, List.singleton_append, List.splitOnP_cons_eq_if_modifyHead, hd, ih]
        rfl
      | false =>
        obtain ⟨first, rest, heq⟩ :=
          List.exists_cons_of_ne_nil (List.splitOnP_ne_nil separates' text)
        rw [splitOnP_append_of_forall (hletter c hc).2, ih, heq]
        simp
  have hnil : ∀ piece : List β, piece.flatMap encode = [] ↔ piece = [] := by
    intro piece
    cases piece with
    | nil => simp
    | cons c piece =>
      have hne : encode c ≠ [] := by
        cases hc : separates' c with
        | true =>
          obtain ⟨d, hencode, -⟩ := hseparator c hc
          simp [hencode]
        | false => exact (hletter c hc).1
      simp [hne]
  rw [wordsOf, hpieces, List.filter_map, wordsOf]
  congr 1
  refine List.filter_congr fun piece _ => ?_
  simp [hnil piece]

end Words

end TextSearch
