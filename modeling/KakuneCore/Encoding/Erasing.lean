import KakuneCore.Encoding.Masking

/-!
# Erasing runs of text

An `Eraser` looks for a pattern again and again; each time it puts a mark in place of the first
occurrence and of the letters behind it, up to the next **stop**. The search starts over in the
rewritten text. When no occurrence touches a mark (`Fence`), the loop ends, and its result is
described by one walk through the text, `Erases`.

The same eraser runs over tokens that remember what was erased, `tokenEraser`, and over letters that
are kept or lost, `letterEraser`; `Erases.view` relates the three.
-/

namespace Erasing

open TextSearch Masking

/-- Which letters end an erased run, and what is put in its place. -/
structure Eraser (β : Type) where
  stops : β → Bool
  mark : List β → List β

section Definitions

variable {β : Type} [DecidableEq β]

namespace Eraser

variable (eraser : Eraser β)

/-- The letters of a text up to the first stop. -/
def run (text : List β) : List β := text.takeWhile fun b => !eraser.stops b

/-- The text from the first stop on. -/
def rest (text : List β) : List β := text.dropWhile fun b => !eraser.stops b

/-- Erase the first occurrence of the pattern with the run behind it. -/
def step (pattern text : List β) : Option (List β) :=
  (cutAt pattern text).map fun cut =>
    cut.1 ++ (eraser.mark (pattern ++ eraser.run cut.2) ++ eraser.rest cut.2)

/-- Erase as long as the pattern is found, with so much fuel. -/
def loop (pattern : List β) : Nat → List β → Option (List β)
  | 0, _ => none
  | fuel + 1, text =>
    match eraser.step pattern text with
    | none => some text
    | some text' => loop pattern fuel text'

/-- Erase one pattern after another. -/
def loopAll (patterns : List (List β)) (fuel : Nat) (text : List β) : Option (List β) :=
  patterns.foldlM (fun text pattern => eraser.loop pattern fuel text) text

/-- One walk through the text: from mark to mark. -/
inductive Erases (pattern : List β) : List β → List β → Prop
  | done {text : List β} : cutAt pattern text = none → Erases pattern text text
  | run {text before behind result : List β} : cutAt pattern text = some (before, behind) →
      Erases pattern (eraser.rest behind) result →
      Erases pattern text (before ++ (eraser.mark (pattern ++ eraser.run behind) ++ result))

/-- One walk for each pattern. -/
inductive ErasesAll : List (List β) → List β → List β → Prop
  | nil (text : List β) : ErasesAll [] text text
  | cons {pattern text middle result : List β} {patterns : List (List β)} :
      eraser.Erases pattern text middle → ErasesAll patterns middle result →
      ErasesAll (pattern :: patterns) text result

end Eraser

/-- No occurrence of the pattern touches the mark: its first and its last letter are none of the
pattern's, and the pattern does not occur in it. -/
structure Fence (pattern mark : List β) : Prop where
  first : ∃ c rest, mark = c :: rest ∧ c ∉ pattern
  last : ∃ start c, mark = start ++ [c] ∧ c ∉ pattern
  inside : ¬ pattern <:+: mark

end Definitions

/-! ### Fences -/

section Fences

variable {β : Type} [DecidableEq β] {pattern mark before text : List β}

/-- An occurrence lies before the mark or behind it. -/
theorem Fence.infix_iff (h : Fence pattern mark) (hne : pattern ≠ []) :
    pattern <:+: before ++ (mark ++ text) ↔ pattern <:+: before ∨ pattern <:+: text := by
  obtain ⟨c, rest, hmark, hc⟩ := h.first
  obtain ⟨start, d, hmark', hd⟩ := h.last
  have hstart : ¬ pattern <:+: start := fun hin =>
    h.inside (hin.trans (hmark' ▸ (List.prefix_append start [d]).isInfix))
  have hmarked : occurs pattern (mark ++ text) = occurs pattern text := by
    rw [hmark', List.append_assoc, List.singleton_append, occurs_append_cons hne hd,
      Bool.eq_iff_iff, Bool.or_eq_true, occurs_iff]
    exact or_iff_right hstart
  have hrest : occurs pattern (rest ++ text) = occurs pattern text := by
    have hcons := @occurs_append_cons _ _ pattern [] (rest ++ text) c hne hc
    rw [List.nil_append, ← List.cons_append, ← hmark, hmarked] at hcons
    have hnil : occurs pattern [] = false := by
      rw [occurs, cutAt, if_neg hne, Option.isSome_none]
    rw [hcons, hnil, Bool.false_or]
  rw [← occurs_iff, hmark, List.cons_append, occurs_append_cons hne hc, hrest, Bool.or_eq_true,
    occurs_iff, occurs_iff]

/-- A text without the pattern, and a mark: no occurrence begins there, whatever follows. -/
theorem Fence.unmatched (h : Fence pattern mark) (hne : pattern ≠ [])
    (hnot : ¬ pattern <:+: before) :
    Unmatched pattern (before ++ mark) := by
  obtain ⟨start, c, hmark, hc⟩ := h.last
  have hin : ¬ pattern <:+: before ++ mark := by
    have hiff := @Fence.infix_iff _ _ pattern mark before [] h hne
    rw [List.append_nil] at hiff
    rw [hiff, List.infix_nil, not_or]
    exact ⟨hnot, hne⟩
  intro s hs hsne
  have hsuffix : s <:+ before ++ mark := (List.mem_tails s _).mp hs
  refine ⟨fun hpre => hc (hpre.subset ?_), fun hpre => hin ?_⟩
  · -- the suffix ends with the last letter of the mark
    rw [hmark, ← List.append_assoc, List.suffix_concat_iff] at hsuffix
    obtain rfl | ⟨start', rfl, -⟩ := hsuffix
    · exact absurd rfl hsne
    · exact List.mem_append_right _ (List.mem_singleton_self c)
  · exact hpre.isInfix.trans hsuffix.isInfix

end Fences

/-! ### The loop -/

section Loop

variable {β : Type} [DecidableEq β] {eraser : Eraser β} {pattern text result : List β}

omit [DecidableEq β] in
theorem Eraser.run_append_rest (eraser : Eraser β) (text : List β) :
    eraser.run text ++ eraser.rest text = text :=
  List.takeWhile_append_dropWhile

omit [DecidableEq β] in
theorem Eraser.length_rest_le (eraser : Eraser β) (text : List β) :
    (eraser.rest text).length ≤ text.length :=
  (List.dropWhile_suffix _).length_le

/-- Every text is walked through. -/
theorem Eraser.exists_erases (eraser : Eraser β) (hne : pattern ≠ []) (text : List β) :
    ∃ result, eraser.Erases pattern text result := by
  induction hlength : text.length using Nat.strong_induction_on generalizing text with
  | _ n ih =>
    subst hlength
    rcases hcut : cutAt pattern text with - | ⟨before, behind⟩
    · exact ⟨text, .done hcut⟩
    · have hlt := cutAt_length hne hcut
      have hle := eraser.length_rest_le behind
      obtain ⟨result, hresult⟩ := ih _ (by omega) (eraser.rest behind) rfl
      exact ⟨_, .run hcut hresult⟩

/-- **The loop ends** with the result of the walk, also behind a text it has passed. -/
theorem Eraser.Erases.loop_append (h : eraser.Erases pattern text result) (hne : pattern ≠ [])
    (hfence : ∀ erased, erased ≠ [] → Fence pattern (eraser.mark erased)) {passed : List β}
    (hpassed : Unmatched pattern passed) {fuel : Nat} (hfuel : text.length < fuel) :
    eraser.loop pattern fuel (passed ++ text) = some (passed ++ result) := by
  induction h generalizing passed fuel with
  | done hcut =>
    obtain ⟨fuel, rfl⟩ := Nat.exists_eq_add_one_of_ne_zero (Nat.ne_zero_of_lt hfuel)
    rw [Eraser.loop, Eraser.step, cutAt_append hpassed, hcut]
    rfl
  | @run text before behind result hcut _ ih =>
    obtain ⟨fuel, rfl⟩ := Nat.exists_eq_add_one_of_ne_zero (Nat.ne_zero_of_lt hfuel)
    have hlt := cutAt_length hne hcut
    have hle := eraser.length_rest_le behind
    have herased : pattern ++ eraser.run behind ≠ [] := List.append_ne_nil_of_left_ne_nil hne _
    have hmark := (hfence _ herased).unmatched hne (not_infix_of_cutAt hne hcut)
    have hlength : (eraser.rest behind).length < fuel := by omega
    have hih := ih (hpassed.append hmark) hlength
    rw [Eraser.loop, Eraser.step, cutAt_append hpassed, hcut]
    simpa only [Option.map_some, List.append_assoc] using hih

theorem Eraser.Erases.loop (h : eraser.Erases pattern text result) (hne : pattern ≠ [])
    (hfence : ∀ erased, erased ≠ [] → Fence pattern (eraser.mark erased)) {fuel : Nat}
    (hfuel : text.length < fuel) : eraser.loop pattern fuel text = some result :=
  h.loop_append hne hfence unmatched_nil hfuel

omit [DecidableEq β] in
theorem infix_of_rest (eraser : Eraser β) {pattern text : List β}
    (h : pattern <:+: eraser.rest text) :
    pattern <:+: text :=
  h.trans (List.dropWhile_suffix _).isInfix

/-- No occurrence is left. -/
theorem Eraser.Erases.not_infix (h : eraser.Erases pattern text result) (hne : pattern ≠ [])
    (hfence : ∀ erased, erased ≠ [] → Fence pattern (eraser.mark erased)) :
    ¬ pattern <:+: result := by
  induction h with
  | done hcut =>
    rw [← occurs_iff, occurs, hcut, Option.isSome_none, Bool.not_eq_true]
  | @run text before behind result hcut _ ih =>
    have herased := hfence _ (List.append_ne_nil_of_left_ne_nil hne (eraser.run behind))
    rw [herased.infix_iff hne, not_or]
    exact ⟨not_infix_of_cutAt hne hcut, ih⟩

/-- Nor does an occurrence of another pattern come up. -/
theorem Eraser.Erases.not_infix_of (h : eraser.Erases pattern text result) (hne : pattern ≠ [])
    {pattern' : List β} (hne' : pattern' ≠ [])
    (hfence : ∀ erased, erased ≠ [] → Fence pattern' (eraser.mark erased))
    (hnot : ¬ pattern' <:+: text) : ¬ pattern' <:+: result := by
  induction h with
  | done _ => exact hnot
  | @run text before behind result hcut _ ih =>
    have herased := hfence _ (List.append_ne_nil_of_left_ne_nil hne (eraser.run behind))
    have htext := eq_of_cutAt hcut
    rw [herased.infix_iff hne', not_or]
    refine ⟨fun hin => hnot ?_, ih fun hin => hnot ?_⟩
    · exact hin.trans (htext ▸ (List.prefix_append _ _).isInfix)
    · rw [htext, ← List.append_assoc]
      exact (infix_of_rest eraser hin).trans (List.suffix_append _ _).isInfix

/-- More fuel does not change the result. -/
theorem Eraser.loop_mono {fuel fuel' : Nat} (hle : fuel ≤ fuel')
    (h : eraser.loop pattern fuel text = some result) :
    eraser.loop pattern fuel' text = some result := by
  induction fuel generalizing fuel' text with
  | zero => cases h
  | succ fuel ih =>
    obtain ⟨fuel', rfl⟩ := Nat.exists_eq_add_one_of_ne_zero (Nat.ne_zero_of_lt hle)
    rw [Eraser.loop] at h ⊢
    rcases hstep : eraser.step pattern text with - | text'
    · rwa [hstep] at h
    · rw [hstep] at h
      exact ih (Nat.le_of_succ_le_succ hle) h

end Loop

/-! ### All patterns -/

section All

variable {β : Type} [DecidableEq β] {eraser : Eraser β} {patterns : List (List β)}
  {text result : List β}

theorem Eraser.loopAll_cons (eraser : Eraser β) (pattern : List β) (patterns : List (List β))
    (fuel : Nat) (text : List β) :
    eraser.loopAll (pattern :: patterns) fuel text =
      (eraser.loop pattern fuel text).bind (eraser.loopAll patterns fuel) := rfl

theorem Eraser.exists_erasesAll (eraser : Eraser β) (hne : ∀ pattern ∈ patterns, pattern ≠ [])
    (text : List β) : ∃ result, eraser.ErasesAll patterns text result := by
  induction patterns generalizing text with
  | nil => exact ⟨text, .nil text⟩
  | cons pattern patterns ih =>
    rw [List.forall_mem_cons] at hne
    obtain ⟨middle, hmiddle⟩ := eraser.exists_erases hne.1 text
    obtain ⟨result, hresult⟩ := ih hne.2 middle
    exact ⟨result, .cons hmiddle hresult⟩

/-- Marks that no pattern touches. -/
structure Eraser.Fenced (eraser : Eraser β) (patterns : List (List β)) : Prop where
  nonempty : ∀ pattern ∈ patterns, pattern ≠ []
  fence : ∀ pattern ∈ patterns, ∀ erased, erased ≠ [] → Fence pattern (eraser.mark erased)

omit [DecidableEq β] in
theorem Eraser.Fenced.tail {pattern : List β} (h : eraser.Fenced (pattern :: patterns)) :
    eraser.Fenced patterns :=
  ⟨fun p hp => h.nonempty p (List.mem_cons_of_mem _ hp),
    fun p hp => h.fence p (List.mem_cons_of_mem _ hp)⟩

/-- **All loops end**, with the result of the walks. -/
theorem Eraser.ErasesAll.loopAll (h : eraser.ErasesAll patterns text result)
    (hfenced : eraser.Fenced patterns) :
    ∃ enough, ∀ fuel, enough ≤ fuel → eraser.loopAll patterns fuel text = some result := by
  induction h with
  | nil text => exact ⟨0, fun _ _ => rfl⟩
  | @cons pattern text middle result patterns hfirst _ ih =>
    obtain ⟨enough, hrest⟩ := ih hfenced.tail
    refine ⟨max enough (text.length + 1), fun fuel hfuel => ?_⟩
    have hloop := hfirst.loop (hfenced.nonempty pattern List.mem_cons_self)
      (hfenced.fence pattern List.mem_cons_self) (show text.length < fuel by omega)
    rw [Eraser.loopAll_cons, hloop, Option.bind_some, hrest fuel (by omega)]

theorem Eraser.loopAll_mono {fuel fuel' : Nat} (hle : fuel ≤ fuel')
    (h : eraser.loopAll patterns fuel text = some result) :
    eraser.loopAll patterns fuel' text = some result := by
  induction patterns generalizing text with
  | nil => exact h
  | cons pattern patterns ih =>
    rw [Eraser.loopAll_cons] at h ⊢
    obtain ⟨middle, hmiddle, hresult⟩ := Option.bind_eq_some_iff.mp h
    rw [Eraser.loop_mono hle hmiddle, Option.bind_some, ih hresult]

/-- What a run returns is the result of the walks. -/
theorem Eraser.erasesAll_of_loopAll (hfenced : eraser.Fenced patterns) {fuel : Nat}
    (h : eraser.loopAll patterns fuel text = some result) :
    eraser.ErasesAll patterns text result := by
  obtain ⟨result', hresult'⟩ := eraser.exists_erasesAll hfenced.nonempty text
  obtain ⟨enough, hloop⟩ := hresult'.loopAll hfenced
  have heq := Eraser.loopAll_mono (Nat.le_max_left fuel enough) h
  rw [hloop _ (Nat.le_max_right fuel enough)] at heq
  rwa [← Option.some.inj heq]

theorem Eraser.ErasesAll.not_infix_of (h : eraser.ErasesAll patterns text result)
    (hne : ∀ pattern ∈ patterns, pattern ≠ []) {pattern' : List β} (hne' : pattern' ≠ [])
    (hfence : ∀ erased, erased ≠ [] → Fence pattern' (eraser.mark erased))
    (hnot : ¬ pattern' <:+: text) : ¬ pattern' <:+: result := by
  induction h with
  | nil _ => exact hnot
  | cons hfirst _ ih =>
    rw [List.forall_mem_cons] at hne
    exact ih hne.2 (hfirst.not_infix_of hne.1 hne' hfence hnot)

/-- **No occurrence of any pattern is left.** -/
theorem Eraser.ErasesAll.not_infix (h : eraser.ErasesAll patterns text result)
    (hfenced : eraser.Fenced patterns) : ∀ pattern ∈ patterns, ¬ pattern <:+: result := by
  induction h with
  | nil _ => exact fun _ hmem => absurd hmem List.not_mem_nil
  | @cons pattern text middle result patterns hfirst hrest ih =>
    intro pattern' hmem
    rcases List.mem_cons.mp hmem with rfl | hmem
    · have hne := hfenced.nonempty pattern' List.mem_cons_self
      have hfence := hfenced.fence pattern' List.mem_cons_self
      exact hrest.not_infix_of hfenced.tail.nonempty hne hfence (hfirst.not_infix hne hfence)
    · exact ih hfenced.tail pattern' hmem

/-- A text without the patterns stays, already with one look for each of them. -/
theorem Eraser.loopAll_of_not_infix (eraser : Eraser β)
    (h : ∀ pattern ∈ patterns, ¬ pattern <:+: text) (fuel : Nat) :
    eraser.loopAll patterns (fuel + 1) text = some text := by
  induction patterns with
  | nil => rfl
  | cons pattern patterns ih =>
    rw [List.forall_mem_cons] at h
    have hloop : eraser.loop pattern (fuel + 1) text = some text := by
      rw [Eraser.loop, Eraser.step, cutAt_of_not_occurs h.1]
      rfl
    rw [Eraser.loopAll_cons, hloop, Option.bind_some, ih h.2]

end All

/-! ### Views of a run -/

section Views

variable {α β : Type}

/-- The eraser that leaves one mark, whatever was erased. -/
def markEraser (stops : β → Bool) (mark : List β) : Eraser β where
  stops := stops
  mark := fun _ => mark

/-- The eraser whose marks remember what was erased. -/
def tokenEraser (stops : α → Bool) : Eraser (Token α) where
  stops
    | .letter a => stops a
    | .marker _ => false
  mark := fun erased => [.marker (original erased)]

/-- The eraser that loses the letters and keeps their places. -/
def letterEraser (stops : α → Bool) : Eraser (Option α) where
  stops := fun letter => letter.any stops
  mark := fun erased => erased.map fun _ => none

/-- Tokens none of which is an empty marker. -/
def Solid (tokens : List (Token α)) : Prop := Token.marker [] ∉ tokens

/-- A way to look at tokens under which the eraser of tokens is seen as another eraser. -/
structure View (stops : α → Bool) (eraser : Eraser β) (see : Token α → List β) (embed : α → β) :
    Prop where
  letter : ∀ a, see (.letter a) = [embed a]
  injective : Function.Injective embed
  stops_letter : ∀ a, eraser.stops (embed a) = stops a
  stops_marker : ∀ secret, ∀ b ∈ see (.marker secret), eraser.stops b = false
  mark : ∀ erased, see (.marker (original erased)) = eraser.mark (erased.flatMap see)

variable {stops : α → Bool} {eraser : Eraser β} {see : Token α → List β} {embed : α → β}
  {pattern : List α} {tokens tokens' : List (Token α)}

theorem Solid.of_append {before behind : List (Token α)} (h : Solid (before ++ behind)) :
    Solid before ∧ Solid behind := by
  rw [Solid, List.mem_append, not_or] at h
  exact h

theorem View.letters_flatMap (view : View stops eraser see embed) (text : List α) :
    (letters text).flatMap see = text.map embed := by
  rw [letters, List.flatMap_map, List.map_eq_flatMap]
  exact List.flatMap_congr fun a _ => view.letter a

theorem View.prefix_iff (view : View stops eraser see embed)
    (hfirst : ∀ secret, secret ≠ [] → ∃ c rest, see (.marker secret) = c :: rest ∧
      c ∉ pattern.map embed)
    (hsolid : Solid tokens) :
    pattern.map embed <+: tokens.flatMap see ↔ letters pattern <+: tokens := by
  induction pattern generalizing tokens with
  | nil => simp [letters]
  | cons a pattern ih =>
    have htail : ∀ secret, secret ≠ [] → ∃ c rest,
        see (.marker secret) = c :: rest ∧ c ∉ pattern.map embed := by
      intro secret hsecret
      obtain ⟨c, rest, hsee, hc⟩ := hfirst secret hsecret
      exact ⟨c, rest, hsee, fun hmem => hc (List.mem_cons_of_mem _ hmem)⟩
    rcases tokens with - | ⟨b | secret, tokens⟩
    · simp [letters]
    · rw [List.flatMap_cons, view.letter, List.map_cons, List.singleton_append,
        List.cons_prefix_cons,
        ih htail (fun hmem => hsolid (List.mem_cons_of_mem _ hmem)), view.injective.eq_iff]
      simp [letters, List.cons_prefix_cons]
    · have hsecret : secret ≠ [] := fun hnil => hsolid (hnil ▸ List.mem_cons_self)
      obtain ⟨c, rest, hsee, hc⟩ := hfirst secret hsecret
      rw [List.flatMap_cons, hsee, List.map_cons, List.cons_append, List.cons_prefix_cons]
      refine iff_of_false (fun h => hc ?_) (fun h => ?_)
      · exact h.1 ▸ List.mem_cons_self
      · simp [letters, List.cons_prefix_cons] at h

variable [DecidableEq α] [DecidableEq β]

/-- **The first occurrence** is seen where it is. -/
theorem View.cutAt (view : View stops eraser see embed) (hne : pattern ≠ [])
    (hfence : ∀ secret, secret ≠ [] → Fence (pattern.map embed) (see (.marker secret)))
    (hsolid : Solid tokens) :
    cutAt (pattern.map embed) (tokens.flatMap see) =
      (TextSearch.cutAt (letters pattern) tokens).map fun cut =>
        (cut.1.flatMap see, cut.2.flatMap see) := by
  have hmap : pattern.map embed ≠ [] := mt List.map_eq_nil_iff.mp hne
  induction tokens with
  | nil => simp [TextSearch.cutAt, hne]
  | cons token tokens ih =>
    have hprefix := view.prefix_iff (fun secret hsecret => (hfence secret hsecret).first) hsolid
    have htail : Solid tokens := fun hmem => hsolid (List.mem_cons_of_mem _ hmem)
    rcases token with b | secret
    · rw [List.flatMap_cons, view.letter, List.singleton_append] at hprefix ⊢
      rw [TextSearch.cutAt, TextSearch.cutAt]
      by_cases hpre : letters pattern <+: .letter b :: tokens
      · obtain ⟨behind, hbehind⟩ := hpre
        have hseen : embed b :: tokens.flatMap see = pattern.map embed ++ behind.flatMap see := by
          rw [← view.letters_flatMap, ← List.flatMap_append, hbehind, List.flatMap_cons,
            view.letter,
            List.singleton_append]
        rw [← hbehind, hseen, if_pos (List.prefix_append _ _), if_pos (List.prefix_append _ _),
          List.drop_left, List.drop_left, Option.map_some, List.flatMap_nil]
      · rw [if_neg (mt hprefix.mp hpre), if_neg hpre, ih htail, Option.map_map, Option.map_map]
        simp [Function.comp_def, view.letter]
    · have hsecret : secret ≠ [] := fun hnil => hsolid (hnil ▸ List.mem_cons_self)
      have hunmatched :=
        @Fence.unmatched _ _ _ _ [] (hfence secret hsecret) hmap (by simpa using hne)
      have hnot : ¬ letters pattern <+: .marker secret :: tokens := by
        obtain ⟨a, pattern, rfl⟩ := List.exists_cons_of_ne_nil hne
        simp [letters, List.cons_prefix_cons]
      rw [List.nil_append] at hunmatched
      rw [List.flatMap_cons, cutAt_append hunmatched, ih htail, TextSearch.cutAt, if_neg hnot,
        Option.map_map, Option.map_map]
      simp [Function.comp_def]

omit [DecidableEq α] [DecidableEq β] in
theorem View.run_rest (view : View stops eraser see embed) (tokens : List (Token α)) :
    eraser.run (tokens.flatMap see) = ((tokenEraser stops).run tokens).flatMap see ∧
      eraser.rest (tokens.flatMap see) = ((tokenEraser stops).rest tokens).flatMap see := by
  induction tokens with
  | nil => exact ⟨rfl, rfl⟩
  | cons token tokens ih =>
    obtain ⟨hrun, hrest⟩ := ih
    simp only [Eraser.run, Eraser.rest] at hrun hrest ⊢
    rcases token with b | secret
    · have hstops : (tokenEraser stops).stops (.letter b) = stops b := rfl
      rw [List.flatMap_cons, view.letter, List.singleton_append, List.takeWhile_cons,
        List.dropWhile_cons, List.takeWhile_cons, List.dropWhile_cons, view.stops_letter, hstops,
        hrun,
        hrest]
      rcases stops b
      · exact ⟨by simp [view.letter], rfl⟩
      · exact ⟨rfl, by simp [view.letter]⟩
    · have hstops : (tokenEraser stops).stops (.marker secret) = false := rfl
      have hall : ∀ b ∈ see (.marker secret), (!eraser.stops b) = true := by
        intro b hb
        rw [view.stops_marker secret b hb, Bool.not_false]
      rw [List.flatMap_cons, List.takeWhile_append_of_pos hall, List.dropWhile_append_of_pos hall,
        List.takeWhile_cons, List.dropWhile_cons, hstops, hrun, hrest]
      exact ⟨rfl, rfl⟩

/-- **A walk over tokens**, seen as a walk over what they show. -/
theorem Eraser.Erases.view (h : (tokenEraser stops).Erases (letters pattern) tokens tokens')
    (view : View stops eraser see embed) (hne : pattern ≠ [])
    (hfence : ∀ secret, secret ≠ [] → Fence (pattern.map embed) (see (.marker secret)))
    (hsolid : Solid tokens) :
    Solid tokens' ∧ eraser.Erases (pattern.map embed) (tokens.flatMap see)
      (tokens'.flatMap see) := by
  induction h with
  | done hcut =>
    refine ⟨hsolid, .done ?_⟩
    rw [view.cutAt hne hfence hsolid, hcut, Option.map_none]
  | @run tokens before behind result hcut _ ih =>
    obtain ⟨hrun, hrest⟩ := view.run_rest behind
    have htokens := eq_of_cutAt hcut
    obtain ⟨hbefore, hbehind⟩ := Solid.of_append (htokens ▸ hsolid)
    have hsolid' : Solid ((tokenEraser stops).rest behind) := by
      have hparts := (tokenEraser stops).run_append_rest behind
      exact (Solid.of_append (hparts ▸ (Solid.of_append hbehind).2)).2
    obtain ⟨hresult, herases⟩ := ih hsolid'
    refine ⟨?_, ?_⟩
    · rw [Solid, List.mem_append, List.mem_append, not_or, not_or]
      refine ⟨hbefore, fun hmem => ?_, hresult⟩
      have hempty := Token.marker.inj (List.mem_singleton.mp hmem)
      rw [original_append, original_letters] at hempty
      exact hne (List.append_eq_nil_iff.mp hempty.symm).1
    · have hcut' := view.cutAt hne hfence hsolid
      rw [hcut, Option.map_some] at hcut'
      have hmark := view.mark (letters pattern ++ (tokenEraser stops).run behind)
      rw [List.flatMap_append, view.letters_flatMap, ← hrun] at hmark
      rw [← hrest] at herases
      have happend : (before ++ ((tokenEraser stops).mark
          (letters pattern ++ (tokenEraser stops).run behind) ++ result)).flatMap see =
          before.flatMap see ++
            (eraser.mark (pattern.map embed ++ eraser.run (behind.flatMap see)) ++
            result.flatMap see) := by
        rw [← hmark, List.flatMap_append, List.flatMap_append]
        simp [tokenEraser]
      rw [happend]
      exact .run hcut' herases

/-- What was erased is remembered. -/
theorem Eraser.Erases.original (h : (tokenEraser stops).Erases (letters pattern) tokens tokens') :
    original tokens' = original tokens := by
  induction h with
  | done _ => rfl
  | @run tokens before behind result hcut _ ih =>
    have hparts := congrArg Masking.original ((tokenEraser stops).run_append_rest behind)
    have hmark (erased : List (Token α)) :
        Masking.original ((tokenEraser stops).mark erased) = Masking.original erased := by
      simp [tokenEraser, Token.original, Masking.original]
    rw [eq_of_cutAt hcut, original_append, original_append, hmark, ih, original_append,
      original_append, original_append, ← hparts, original_append, List.append_assoc]

theorem Eraser.ErasesAll.original {patterns : List (List α)}
    (h : (tokenEraser stops).ErasesAll (patterns.map letters) tokens tokens') :
    Masking.original tokens' = Masking.original tokens := by
  induction patterns generalizing tokens with
  | nil =>
    cases h
    rfl
  | cons pattern patterns ih =>
    obtain - | ⟨hfirst, hrest⟩ := h
    rw [ih hrest, hfirst.original]

/-- **All walks over tokens**, seen as walks over what they show. -/
theorem Eraser.ErasesAll.view {patterns : List (List α)}
    (h : (tokenEraser stops).ErasesAll (patterns.map letters) tokens tokens')
    (view : View stops eraser see embed) (hne : ∀ pattern ∈ patterns, pattern ≠ [])
    (hfence : ∀ pattern ∈ patterns, ∀ secret, secret ≠ [] →
      Fence (pattern.map embed) (see (.marker secret)))
    (hsolid : Solid tokens) :
    eraser.ErasesAll (patterns.map (List.map embed)) (tokens.flatMap see)
      (tokens'.flatMap see) := by
  induction patterns generalizing tokens with
  | nil =>
    cases h
    exact .nil _
  | cons pattern patterns ih =>
    rw [List.forall_mem_cons] at hne hfence
    obtain - | ⟨hfirst, hrest⟩ := h
    obtain ⟨hsolid', hseen⟩ := hfirst.view view hne.1 hfence.1 hsolid
    exact .cons hseen (ih hrest hne.2 hfence.2 hsolid')

omit [DecidableEq α] in
/-- What is shown of the tokens, each run as one mark. -/
theorem view_shown {mark : List α} (hmark : ∀ c ∈ mark, stops c = false) :
    View stops (markEraser stops mark) (Token.shown mark) id where
  letter _ := rfl
  injective := Function.injective_id
  stops_letter _ := rfl
  stops_marker _ c hc := hmark c hc
  mark _ := rfl

omit [DecidableEq α] in
/-- What is left of the letters, each in its place. -/
theorem view_left : View stops (letterEraser stops) Token.left some where
  letter _ := rfl
  injective := fun _ _ heq => Option.some.inj heq
  stops_letter _ := rfl
  stops_marker secret c hc := by
    obtain ⟨_, -, rfl⟩ := List.mem_map.mp hc
    rfl
  mark erased := by
    have hlength := length_left erased
    rw [Masking.left] at hlength
    simp [letterEraser, Token.left, hlength]

omit [DecidableEq α] in
/-- A lost letter is no letter of a pattern. -/
theorem fence_left {secret : List α} (hsecret : secret ≠ []) (hne : pattern ≠ []) :
    Fence (pattern.map some) (Token.marker secret).left := by
  have hnone : none ∉ pattern.map some := by simp
  obtain ⟨a, pattern, rfl⟩ := List.exists_cons_of_ne_nil hne
  refine ⟨?_, ?_, fun hin => ?_⟩
  · obtain ⟨b, secret, rfl⟩ := List.exists_cons_of_ne_nil hsecret
    exact ⟨none, secret.map fun _ => none, rfl, hnone⟩
  · refine ⟨secret.dropLast.map fun _ => none, none, ?_, hnone⟩
    rw [Token.left, ← List.dropLast_append_getLast hsecret]
    simp
  · have hmem := hin.subset (@List.mem_cons_self _ (some a) _)
    simp [Token.left] at hmem

omit [DecidableEq α] in
/-- Neither is a marker. -/
theorem fence_token {erased : List (Token α)} (hne : pattern ≠ []) :
    Fence (letters pattern) ((tokenEraser stops).mark erased) where
  first := ⟨_, [], rfl, marker_not_mem_letters⟩
  last := ⟨[], _, rfl, marker_not_mem_letters⟩
  inside hin := by
    obtain ⟨a, pattern, rfl⟩ := List.exists_cons_of_ne_nil hne
    have hmem := hin.subset (@List.mem_cons_self _ (Token.letter a) _)
    simp [tokenEraser] at hmem

end Views

end Erasing
