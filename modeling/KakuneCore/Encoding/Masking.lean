import KakuneCore.Encoding.Text
import Mathlib.Data.List.Forall2

/-!
# Masked texts

Secrets are masked in a text one after another: each occurrence gives way to a **mark**. The tokens
of a masked text say which of its letters are letters of the original and which are marks, so that
`mask` replaces runs of letters only. Replacement in the text that is shown does not tell the two
apart; it agrees with `mask` where no occurrence touches a mark (`Apart`).

An occurrence that is overlapped neither by another one of its secret nor by one of a secret masked
before is masked whole (`maskedAt_maskAll`).
-/

namespace Masking

open TextSearch

variable {α : Type}

/-- A part of a masked text. -/
inductive Token (α : Type)
  | letter (a : α)
  | marker (secret : List α)
  deriving DecidableEq

namespace Token

/-- The part of the original. -/
def original : Token α → List α
  | letter a => [a]
  | marker secret => secret

/-- The part that is shown. -/
def shown (mark : List α) : Token α → List α
  | letter a => [a]
  | marker _ => mark

/-- What is left of the part of the original. -/
def left : Token α → List (Option α)
  | letter a => [some a]
  | marker secret => secret.map fun _ => none

def secret? : Token α → Option (List α)
  | letter _ => none
  | marker secret => some secret

end Token

def original (tokens : List (Token α)) : List α := tokens.flatMap Token.original

def shown (mark : List α) (tokens : List (Token α)) : List α := tokens.flatMap (Token.shown mark)

/-- What is left of the original, letter by letter. -/
def left (tokens : List (Token α)) : List (Option α) := tokens.flatMap Token.left

/-- The letter of the original at a position is masked. -/
def MaskedAt (tokens : List (Token α)) (position : Nat) : Prop :=
  (left tokens)[position]? = some none

/-- The secrets that are masked, as often as they are. -/
def secrets (tokens : List (Token α)) : List (List α) := tokens.filterMap Token.secret?

/-- A text of which nothing is masked. -/
def letters (text : List α) : List (Token α) := text.map .letter

/-- Mask the occurrences of a secret among the letters. -/
def mask [DecidableEq α] (secret : List α) (tokens : List (Token α)) : List (Token α) :=
  replaceAll (letters secret) [.marker secret] tokens

/-- Mask one secret after another. -/
def maskAll [DecidableEq α] (sensitive : List (List α)) (tokens : List (Token α)) :
    List (Token α) :=
  sensitive.foldl (fun tokens secret => mask secret tokens) tokens

/-- A secret begins at a position of a text. -/
def OccursAt (secret text : List α) (position : Nat) : Prop := secret <+: text.drop position

/-- The parts of a text at two positions have a letter in common. -/
def Overlap (i : Nat) (text : List α) (j : Nat) (text' : List α) : Prop :=
  i < j + text'.length ∧ j < i + text.length

/-- **No occurrence touches a mark**: each occurrence of the secret in what is shown is made of
letters. -/
def Apart (mark secret : List α) (tokens : List (Token α)) : Prop :=
  ∀ before behind, shown mark tokens = before ++ (secret ++ behind) →
    ∃ first last, tokens = first ++ (letters secret ++ last) ∧ shown mark first = before

/-- Replace the occurrences of one secret after another in a text. -/
def replaceEach [DecidableEq α] (mark : List α) (sensitive : List (List α)) (text : List α) :
    List α :=
  sensitive.foldl (fun text secret => replaceAll secret mark text) text

/-- However occurrences of the secrets are masked in the text, no secret but the mark itself touches
a mark. -/
def KeepsApart (mark : List α) (sensitive : List (List α)) (text : List α) : Prop :=
  ∀ tokens, original tokens = text → (∀ r ∈ secrets tokens, r ∈ sensitive) →
    ∀ secret ∈ sensitive, secret ≠ mark → Apart mark secret tokens

/-- An occurrence of a listed secret is **alone**: no other occurrence of it overlaps it, and none
of a secret listed before. -/
def Alone (sensitive : List (List α)) (text secret : List α) (i : Nat) : Prop :=
  OccursAt secret text i ∧ ∃ earlier later, sensitive = earlier ++ secret :: later ∧
    ∀ r ∈ earlier ++ [secret], ∀ j, OccursAt r text j → Overlap i secret j r → j = i ∧ r = secret

/-- The letters of an occurrence that overlaps one of a shorter secret lie in occurrences that are
alone. -/
def LongerAlone (sensitive : List (List α)) (text : List α) : Prop :=
  ∀ secret ∈ sensitive, ∀ i, OccursAt secret text i →
    ∀ shorter ∈ sensitive, shorter.length < secret.length →
      ∀ j, OccursAt shorter text j → Overlap i secret j shorter →
        ∀ k, i ≤ k → k < i + secret.length →
          ∃ whole i', Alone sensitive text whole i' ∧ i' ≤ k ∧ k < i' + whole.length

/-- **A masked text in which nothing is left** of the secrets: only they are masked, each occurrence
in what is shown lies in a mark, and no letter is left of an occurrence with a marker over it that
is a shorter secret's. -/
structure Cleared (mark : List α) (sensitive : List (List α)) (tokens : List (Token α)) : Prop where
  secrets : ∀ r ∈ secrets tokens, r ∈ sensitive
  outside : ∀ secret ∈ sensitive, ∀ before behind, shown mark tokens = before ++
    (secret ++ behind) →
    ∃ first r last, tokens = first ++ .marker r :: last ∧
      (shown mark first).length ≤ before.length ∧
      before.length + secret.length ≤ (shown mark first).length + mark.length
  fragments : ∀ secret ∈ sensitive, ∀ i, OccursAt secret (original tokens) i →
    ∀ first r last, tokens = first ++ .marker r :: last → r.length < secret.length →
      Overlap i secret (original first).length r →
        ∀ k, i ≤ k → k < i + secret.length → MaskedAt tokens k

/-! ### Tokens -/

section Tokens

variable {mark text text' secret : List α} {token : Token α} {tokens tokens' : List (Token α)}

@[simp]
theorem original_append : original (tokens ++ tokens') = original tokens ++ original tokens' :=
  List.flatMap_append

@[simp]
theorem shown_append : shown mark (tokens ++ tokens') = shown mark tokens ++ shown mark tokens' :=
  List.flatMap_append

@[simp]
theorem left_append : left (tokens ++ tokens') = left tokens ++ left tokens' :=
  List.flatMap_append

@[simp]
theorem secrets_append : secrets (tokens ++ tokens') = secrets tokens ++ secrets tokens' :=
  List.filterMap_append

@[simp]
theorem original_cons : original (token :: tokens) = token.original ++ original tokens := rfl

@[simp]
theorem shown_cons : shown mark (token :: tokens) = token.shown mark ++ shown mark tokens := rfl

@[simp]
theorem left_cons : left (token :: tokens) = token.left ++ left tokens := rfl

@[simp]
theorem secrets_cons :
    secrets (token :: tokens) = token.secret?.toList ++ secrets tokens := by
  cases token with
  | letter a => rfl
  | marker secret => rfl

@[simp]
theorem original_letters : original (letters text) = text := by
  rw [original, letters, List.flatMap_map]
  exact List.flatMap_singleton' text

@[simp]
theorem shown_letters : shown mark (letters text) = text := by
  rw [shown, letters, List.flatMap_map]
  exact List.flatMap_singleton' text

@[simp]
theorem secrets_letters : secrets (letters text) = [] := by
  rw [secrets, letters, List.filterMap_map]
  exact List.filterMap_none text

@[simp]
theorem letters_eq_nil : letters text = [] ↔ text = [] := List.map_eq_nil_iff

@[simp]
theorem marker_not_mem_letters : Token.marker secret ∉ letters text := by
  simp [letters]

theorem Token.length_left (token : Token α) : token.left.length = token.original.length := by
  cases token with
  | letter a => rfl
  | marker secret => exact List.length_map _

@[simp]
theorem length_left (tokens : List (Token α)) :
    (left tokens).length = (original tokens).length := by
  induction tokens with
  | nil => rfl
  | cons token tokens ih =>
    rw [left_cons, original_cons, List.length_append, List.length_append, ih, token.length_left]

/-- What is shown is longer by at most the marks. -/
theorem length_shown_le (mark : List α) (tokens : List (Token α)) :
    (shown mark tokens).length ≤
      (original tokens).length + mark.length * (secrets tokens).length := by
  induction tokens with
  | nil => exact Nat.zero_le _
  | cons token tokens ih =>
    rw [shown_cons, original_cons, secrets_cons, List.length_append, List.length_append,
      List.length_append, Nat.mul_add]
    cases token with
    | letter a =>
      simp only [Token.shown, Token.original, Token.secret?, Option.toList_none, List.length_nil,
        List.length_singleton]
      omega
    | marker secret =>
      simp only [Token.shown, Token.original, Token.secret?, Option.toList_some,
        List.length_singleton]
      omega

/-- A marker stands where its secret occurs. -/
theorem occursAt_of_eq_append {first last : List (Token α)}
    (h : tokens = first ++ .marker secret :: last) :
    OccursAt secret (original tokens) (original first).length := by
  rw [OccursAt, h, original_append, List.drop_left, original_cons]
  exact List.prefix_append _ _

end Tokens

/-! ### Masking one secret -/

section Mask

variable [DecidableEq α] {mark text secret secret' : List α} {token : Token α}
  {tokens before behind : List (Token α)}

theorem mask_of_none (h : cutAt (letters secret) tokens = none) : mask secret tokens = tokens :=
  replaceAll_of_none h

theorem mask_of_cutAt (hne : secret ≠ [])
    (h : cutAt (letters secret) tokens = some (before, behind)) :
    mask secret tokens = before ++ .marker secret :: mask secret behind :=
  replaceAll_of_cutAt (mt letters_eq_nil.mp hne) h

/-- Induction along the runs of letters that spell a secret. -/
theorem run_induction {P : List (Token α) → Prop} (hne : secret ≠ [])
    (hnone : ∀ tokens, cutAt (letters secret) tokens = none → P tokens)
    (hrun : ∀ tokens before behind, cutAt (letters secret) tokens = some (before, behind) →
      tokens = before ++ (letters secret ++ behind) → P behind → P tokens)
    (tokens : List (Token α)) : P tokens := by
  induction tokens using cut_induction (mt letters_eq_nil.mp hne) with
  | hnone tokens h => exact hnone tokens h
  | hcut tokens before behind h ih => exact hrun tokens before behind h (eq_of_cutAt h) ih

theorem original_mask (hne : secret ≠ []) (tokens : List (Token α)) :
    original (mask secret tokens) = original tokens := by
  induction tokens using run_induction hne with
  | hnone tokens h => rw [mask_of_none h]
  | hrun tokens before behind h htokens ih =>
    rw [mask_of_cutAt hne h, original_append, original_cons, ih, htokens, original_append,
      original_append, original_letters]
    rfl

theorem mem_secrets_mask (hne : secret ≠ []) {tokens : List (Token α)}
    (h : secret' ∈ secrets (mask secret tokens)) : secret' = secret ∨ secret' ∈ secrets tokens := by
  induction tokens using run_induction hne with
  | hnone tokens hnone =>
    rw [mask_of_none hnone] at h
    exact .inr h
  | hrun tokens before behind hcut htokens ih =>
    rw [mask_of_cutAt hne hcut, secrets_append, secrets_cons, List.mem_append, List.mem_append] at h
    rw [htokens, secrets_append, secrets_append, secrets_letters, List.nil_append, List.mem_append]
    rcases h with h | h | h
    · exact .inr (.inl h)
    · exact .inl (by simpa [Token.secret?] using h)
    · exact (ih h).imp_right .inr

/-- What is masked stays masked. -/
theorem MaskedAt.mask {position : Nat} (h : MaskedAt tokens position) (hne : secret ≠ []) :
    MaskedAt (mask secret tokens) position := by
  have hcovers : List.Forall₂ (fun a b => b = none ∨ a = b) (left tokens)
      (left (Masking.mask secret tokens)) := by
    clear h
    induction tokens using run_induction hne with
    | hnone tokens hnone =>
      rw [mask_of_none hnone]
      exact List.forall₂_same.mpr fun a _ => .inr rfl
    | hrun tokens before behind hcut htokens ih =>
      rw [mask_of_cutAt hne hcut, htokens, left_append, left_append, left_append, left_cons]
      refine List.rel_append (List.forall₂_same.mpr fun a _ => .inr rfl) (List.rel_append ?_ ih)
      rw [letters, left, List.flatMap_map, Token.left, List.forall₂_map_right_iff]
      rw [show secret.flatMap (fun a => Token.left (.letter a)) = secret.map some from
        List.flatMap_pure_eq_map some secret, List.forall₂_map_left_iff]
      exact List.forall₂_same.mpr fun a _ => .inl rfl
  rw [MaskedAt, List.getElem?_eq_some_iff] at h ⊢
  obtain ⟨hlt, hnone⟩ := h
  refine ⟨hcovers.length_eq ▸ hlt, ?_⟩
  rcases hcovers.get hlt (hcovers.length_eq ▸ hlt) with hb | hab
  · exact hb
  · exact hab.symm.trans hnone

/-- No run of letters spells the secret any more. -/
theorem not_infix_mask (hne : secret ≠ []) (tokens : List (Token α)) :
    ¬ letters secret <:+: mask secret tokens :=
  not_infix_replaceAll (mt letters_eq_nil.mp hne) marker_not_mem_letters tokens

theorem not_infix_mask_of_not_infix (hne : secret ≠ []) (hne' : secret' ≠ [])
    (h : ¬ letters secret' <:+: tokens) : ¬ letters secret' <:+: mask secret tokens :=
  not_infix_replaceAll_of_not_infix (mt letters_eq_nil.mp hne) (mt letters_eq_nil.mp hne')
    marker_not_mem_letters h

/-- Masking the mark itself shows nothing else. -/
theorem shown_mask_mark (hmark : mark ≠ []) (tokens : List (Token α)) :
    shown mark (mask mark tokens) = shown mark tokens := by
  induction tokens using run_induction hmark with
  | hnone tokens h => rw [mask_of_none h]
  | hrun tokens before behind h htokens ih =>
    rw [mask_of_cutAt hmark h, shown_append, shown_cons, ih, htokens, shown_append, shown_append,
      shown_letters]
    rfl

end Mask

/-! ### What is shown -/

section Shown

variable {mark text secret : List α} {token : Token α} {tokens first : List (Token α)}

theorem Token.shown_ne_nil (hmark : mark ≠ []) (token : Token α) : token.shown mark ≠ [] := by
  cases token with
  | letter a => exact List.cons_ne_nil a []
  | marker secret => exact hmark

theorem Apart.of_cons (hmark : mark ≠ []) (h : Apart mark secret (token :: tokens)) :
    Apart mark secret tokens := by
  intro before behind hshown
  obtain ⟨first, last, htokens, hfirst⟩ := h (token.shown mark ++ before) behind (by
    rw [shown_cons, hshown, List.append_assoc])
  cases first with
  | nil =>
    have hnil := (List.append_eq_nil_iff.mp hfirst.symm).1
    exact absurd hnil (token.shown_ne_nil hmark)
  | cons token' first =>
    obtain ⟨rfl, hrest⟩ := List.cons_eq_cons.mp htokens
    exact ⟨first, last, hrest, List.append_cancel_left hfirst⟩

theorem Apart.of_append (hmark : mark ≠ []) (h : Apart mark secret (first ++ tokens)) :
    Apart mark secret tokens := by
  induction first with
  | nil => exact h
  | cons token first ih => exact ih (h.of_cons hmark)

/-- The secret does not occur in what is shown when no run of letters spells it. -/
theorem Apart.not_shown (h : Apart mark secret tokens) (hrun : ¬ letters secret <:+: tokens) :
    ¬ secret <:+: shown mark tokens := by
  rintro ⟨before, behind, hshown⟩
  rw [List.append_assoc] at hshown
  obtain ⟨first, last, htokens, -⟩ := h before behind hshown.symm
  exact hrun ⟨first, last, by rw [htokens, List.append_assoc]⟩

section Simulation

variable [DecidableEq α]

/-- **Replacement agrees with masking** where no occurrence touches a mark. -/
theorem shown_mask (hmark : mark ≠ []) (hne : secret ≠ []) {tokens : List (Token α)}
    (h : Apart mark secret tokens) :
    shown mark (mask secret tokens) = replaceAll secret mark (shown mark tokens) := by
  induction tokens using run_induction hne with
  | hnone tokens hnone =>
    have hrun : ¬ letters secret <:+: tokens := by
      rw [← occurs_iff, occurs, hnone]
      exact Bool.false_ne_true
    rw [mask_of_none hnone, replaceAll_of_none (cutAt_of_not_occurs (h.not_shown hrun))]
  | hrun tokens before behind hcut htokens ih =>
    have hshown : shown mark tokens = shown mark before ++ (secret ++ shown mark behind) := by
      rw [htokens, shown_append, shown_append, shown_letters]
    have hbehind : Apart mark secret behind := by
      rw [htokens, ← List.append_assoc] at h
      exact h.of_append hmark
    -- the first occurrence in what is shown is the first run
    have hfirst :
        cutAt secret (shown mark tokens) = some (shown mark before, shown mark behind) := by
      obtain ⟨cut, hcut'⟩ : ∃ cut, cutAt secret (shown mark tokens) = some cut := by
        rw [← Option.isSome_iff_exists, ← occurs, occurs_iff, hshown]
        exact List.infix_append' _ _ _
      obtain ⟨first, last, htokens', hfirst⟩ := h cut.1 cut.2 (eq_of_cutAt hcut')
      obtain ⟨more, rfl⟩ := prefix_of_cutAt hcut htokens'
      have hle : shown mark before <+: cut.1 := by
        rw [← hfirst, shown_append]
        exact List.prefix_append _ _
      have heq : shown mark before = cut.1 :=
        hle.eq_of_length_le (prefix_of_cutAt hcut' hshown).length_le
      have hlast := (eq_of_cutAt hcut').symm.trans hshown
      rw [heq, List.append_cancel_left_eq, List.append_cancel_left_eq] at hlast
      rw [hcut', heq, ← hlast]
    rw [mask_of_cutAt hne hcut, shown_append, shown_cons, ih hbehind,
      replaceAll_of_cutAt hne hfirst]
    rfl

end Simulation

end Shown

/-! ### Occurrences and positions -/

section Positions

variable {mark text secret : List α} {tokens : List (Token α)}

/-- A part of the original has a marker over it or is a run of letters, from its first letter on. -/
theorem marker_or_run_from_start (hsecrets : ∀ r ∈ secrets tokens, r ≠ []) {n : Nat} (hpos : 0 < n)
    (hn : n ≤ (original tokens).length) :
    (∃ first r last, tokens = first ++ .marker r :: last ∧ (original first).length < n) ∨
      ∃ text last, tokens = letters text ++ last ∧ text.length = n := by
  induction tokens generalizing n with
  | nil =>
    rw [original, List.flatMap_nil, List.length_nil] at hn
    omega
  | cons token tokens ih =>
    cases token with
    | marker r => exact .inl ⟨[], r, tokens, rfl, hpos⟩
    | letter a =>
      rw [original_cons, List.length_append, Token.original, List.length_singleton] at hn
      obtain rfl | ⟨m, rfl⟩ : n = 1 ∨ ∃ m, n = m + 1 + 1 := by
        rcases n with _ | _ | m
        · omega
        · exact .inl rfl
        · exact .inr ⟨m, rfl⟩
      · exact .inr ⟨[a], tokens, rfl, rfl⟩
      · rcases ih hsecrets (Nat.succ_pos m) (by omega) with
          ⟨first, r, last, rfl, hlt⟩ | ⟨text, last, rfl, hlength⟩
        · refine .inl ⟨.letter a :: first, r, last, rfl, ?_⟩
          rw [original_cons, List.length_append, Token.original, List.length_singleton]
          omega
        · refine .inr ⟨a :: text, last, rfl, ?_⟩
          rw [List.length_cons, hlength]

/-- A part of the original has a marker over it or is a run of letters. -/
theorem marker_or_run (hsecrets : ∀ r ∈ secrets tokens, r ≠ []) {i n : Nat} (hpos : 0 < n)
    (hn : i + n ≤ (original tokens).length) :
    (∃ first r last, tokens = first ++ .marker r :: last ∧
        i < (original first).length + r.length ∧ (original first).length < i + n) ∨
      ∃ first text last, tokens = first ++ (letters text ++ last) ∧
        (original first).length = i ∧ text.length = n := by
  induction tokens generalizing i with
  | nil =>
    rw [original, List.flatMap_nil, List.length_nil] at hn
    omega
  | cons token tokens ih =>
    have hrest : ∀ r ∈ secrets tokens, r ≠ [] := fun r hr => hsecrets r (by
      rw [secrets_cons]
      exact List.mem_append_right _ hr)
    have hlength : (original (token :: tokens)).length =
        token.original.length + (original tokens).length := by
      rw [original_cons, List.length_append]
    by_cases hi : i < token.original.length
    · -- the part begins in the first token
      cases token with
      | marker r =>
        have hfirst : (original ([] : List (Token α))).length = 0 := rfl
        rw [Token.original] at hi
        exact .inl ⟨[], r, tokens, rfl, by omega, by omega⟩
      | letter a =>
        obtain rfl : i = 0 := by simpa [Token.original] using hi
        rcases marker_or_run_from_start hsecrets hpos (by omega) with
          ⟨first, r, last, htokens, hlt⟩ | ⟨text, last, htokens, htext⟩
        · have hr : r ≠ [] := hsecrets r (by rw [htokens]; simp [Token.secret?])
          have hlengthPos := List.length_pos_iff.mpr hr
          exact .inl ⟨first, r, last, htokens, by omega, by omega⟩
        · exact .inr ⟨[], text, last, htokens, rfl, htext⟩
    · -- it begins behind it
      rcases ih hrest (show i - token.original.length + n ≤ _ by omega) with
        ⟨first, r, last, rfl, hbefore, hbehind⟩ | ⟨first, text, last, rfl, hfirst, htext⟩
      · refine .inl ⟨token :: first, r, last, rfl, ?_⟩
        rw [original_cons, List.length_append]
        omega
      · refine .inr ⟨token :: first, text, last, rfl, ?_, htext⟩
        rw [original_cons, List.length_append]
        omega

theorem OccursAt.length_le {i : Nat} (hne : secret ≠ []) (h : OccursAt secret text i) :
    i + secret.length ≤ text.length := by
  have hle := List.IsPrefix.length_le h
  have hpos := List.length_pos_iff.mpr hne
  rw [List.length_drop] at hle
  omega

/-- The letters under a marker are masked. -/
theorem maskedAt_of_eq_append {first last : List (Token α)}
    (h : tokens = first ++ .marker secret :: last) {k : Nat} (hle : (original first).length ≤ k)
    (hlt : k < (original first).length + secret.length) : MaskedAt tokens k := by
  rw [MaskedAt, h, left_append, List.getElem?_append_right (by rwa [length_left]), length_left,
    left_cons, List.getElem?_append_left (by simp [Token.left]; omega), Token.left,
    List.getElem?_map, List.getElem?_eq_getElem (by omega), Option.map_some]

/-- **An occurrence is masked whole** when no run spells its secret and every marker over it is its
own. -/
theorem maskedAt_of_alone (hsecrets : ∀ r ∈ secrets tokens, r ≠ []) (hne : secret ≠ [])
    (hrun : ¬ letters secret <:+: tokens) {i : Nat} (hoccurs : OccursAt secret (original tokens) i)
    (halone : ∀ r ∈ secrets tokens, ∀ j, OccursAt r (original tokens) j → Overlap i secret j r →
      j = i ∧ r = secret) {k : Nat} (hle : i ≤ k) (hlt : k < i + secret.length) :
    MaskedAt tokens k := by
  rcases marker_or_run hsecrets (List.length_pos_iff.mpr hne) (hoccurs.length_le hne) with
    ⟨first, r, last, htokens, hbefore, hbehind⟩ | ⟨first, text, last, htokens, hfirst, htext⟩
  · have hr : r ∈ secrets tokens := by rw [htokens]; simp [Token.secret?]
    obtain ⟨rfl, rfl⟩ := halone r hr _ (occursAt_of_eq_append htokens) ⟨hbefore, hbehind⟩
    exact maskedAt_of_eq_append htokens hle hlt
  · rw [OccursAt, htokens, original_append, ← hfirst, List.drop_left, original_append,
      original_letters] at hoccurs
    have hpre : secret <+: text :=
      List.prefix_of_prefix_length_le hoccurs (List.prefix_append _ _) htext.ge
    rw [← hpre.eq_of_length htext.symm] at htokens
    exact absurd ⟨first, last, by rw [htokens, List.append_assoc]⟩ hrun

end Positions

/-! ### A mark that does not overlap itself -/

section Mark

variable {m : α} {mark text : List α} {tokens : List (Token α)}

/-- A text without the first letter of the mark is shown by letters only. -/
theorem letters_prefix_of_shown (hm : m ∉ text) (h : text <+: shown (m :: mark) tokens) :
    letters text <+: tokens := by
  induction text generalizing tokens with
  | nil => exact List.nil_prefix
  | cons c text ih =>
    rw [List.mem_cons, not_or] at hm
    rcases tokens with _ | ⟨a | r, tokens⟩
    · rw [shown, List.flatMap_nil, List.prefix_nil] at h
      cases h
    · obtain ⟨rfl, hrest⟩ := List.cons_prefix_cons.mp h
      exact List.cons_prefix_cons.mpr ⟨rfl, ih hm.2 hrest⟩
    · exact absurd (List.cons_prefix_cons.mp h).1.symm hm.1

/-- Where the mark is shown and no run spells it, there is a marker. -/
theorem exists_marker_of_shown (hm : m ∉ mark) (hrun : ¬ letters (m :: mark) <:+: tokens)
    {before behind : List α} (h : shown (m :: mark) tokens = before ++ (m :: mark ++ behind)) :
    ∃ first r last, tokens = first ++ .marker r :: last ∧ shown (m :: mark) first = before := by
  induction tokens generalizing before with
  | nil => simp [shown] at h
  | cons token tokens ih =>
    have hrest : ¬ letters (m :: mark) <:+: tokens := fun hin =>
      hrun (hin.trans (List.suffix_cons token tokens).isInfix)
    cases token with
    | letter a =>
      rw [shown_cons, Token.shown, List.singleton_append] at h
      cases before with
      | nil =>
        -- the mark begins with this letter, and the letters behind it are spelled by a run
        obtain ⟨rfl, hmark⟩ := List.cons_eq_cons.mp h
        have hpre := letters_prefix_of_shown hm ⟨behind, hmark.symm⟩
        exact absurd (List.cons_prefix_cons.mpr ⟨rfl, hpre⟩).isInfix hrun
      | cons b before =>
        obtain ⟨rfl, hshown⟩ := List.cons_eq_cons.mp h
        obtain ⟨first, r, last, rfl, rfl⟩ := ih hrest hshown
        exact ⟨.letter a :: first, r, last, rfl, rfl⟩
    | marker r =>
      cases before with
      | nil => exact ⟨[], r, tokens, rfl, rfl⟩
      | cons b before =>
        rw [shown_cons, Token.shown] at h
        obtain ⟨rfl, hinner⟩ := List.cons_eq_cons.mp h
        -- the mark does not begin inside the one that is shown here
        rcases List.append_eq_append_iff.mp hinner with ⟨more, rfl, hshown⟩ | ⟨inner, hmark, hshown⟩
        · obtain ⟨first, r', last, rfl, rfl⟩ := ih hrest hshown
          exact ⟨.marker r :: first, r', last, rfl, rfl⟩
        · cases inner with
          | nil =>
            rw [List.append_nil] at hmark
            have hnext : shown (m :: mark) tokens = [] ++ (m :: mark ++ behind) := hshown.symm
            obtain ⟨first, r', last, rfl, hfirst⟩ := ih hrest hnext
            refine ⟨.marker r :: first, r', last, rfl, ?_⟩
            rw [shown_cons, Token.shown, hfirst, hmark, List.append_nil]
          | cons c inner =>
            obtain ⟨rfl, -⟩ := List.cons_eq_cons.mp hshown
            exact absurd (hmark ▸ List.mem_append_right _ List.mem_cons_self) hm

/-- A secret that has no letter of the mark keeps apart from it. -/
theorem apart_of_disjoint {secret : List α} (hne : secret ≠ []) (h : ∀ a ∈ secret, a ∉ m :: mark)
    (tokens : List (Token α)) : Apart (m :: mark) secret tokens := by
  intro before behind hshown
  induction tokens generalizing before with
  | nil =>
    have hnil := (List.append_eq_nil_iff.mp hshown.symm).2
    exact absurd (List.append_eq_nil_iff.mp hnil).1 hne
  | cons token tokens ih =>
    have hfirst : m ∉ secret := fun hin => h m hin List.mem_cons_self
    have hnext : ∀ {rest}, shown (m :: mark) tokens = rest ++ (secret ++ behind) →
        ∃ first last, token :: tokens = first ++ (letters secret ++ last) ∧
          shown (m :: mark) first = token.shown (m :: mark) ++ rest := by
      intro rest hrest
      obtain ⟨first, last, rfl, rfl⟩ := ih rest hrest
      exact ⟨token :: first, last, rfl, rfl⟩
    rw [shown_cons] at hshown
    rcases List.append_eq_append_iff.mp hshown with ⟨rest, rfl, hrest⟩ | ⟨inner, htoken, hinner⟩
    · exact hnext hrest
    · -- the secret begins in what the token shows, so that is a letter
      rcases inner with _ | ⟨c, inner⟩
      · rw [List.append_nil] at htoken
        obtain ⟨first, last, htokens, hbefore⟩ := @hnext [] hinner.symm
        exact ⟨first, last, htokens, by rw [hbefore, htoken, List.append_nil]⟩
      · obtain ⟨d, secret, rfl⟩ := List.exists_cons_of_ne_nil hne
        obtain ⟨rfl, -⟩ := List.cons_eq_cons.mp hinner
        cases token with
        | marker r =>
          have hmark : m :: mark = before ++ d :: inner := htoken
          refine absurd ?_ (h d List.mem_cons_self)
          rw [hmark]
          exact List.mem_append_right _ List.mem_cons_self
        | letter a =>
          obtain rfl : before = [] := by
            have hlength := congrArg List.length htoken
            rw [Token.shown, List.length_append, List.length_singleton, List.length_cons] at hlength
            exact List.eq_nil_of_length_eq_zero (by omega)
          have hpre : d :: secret <+: shown (m :: mark) (.letter a :: tokens) :=
            ⟨behind, by rw [shown_cons]; exact hshown.symm⟩
          obtain ⟨last, hlast⟩ := letters_prefix_of_shown hfirst hpre
          exact ⟨[], last, hlast.symm, rfl⟩

end Mark

/-! ### Masking all secrets -/

section All

variable [DecidableEq α] {mark text : List α} {sensitive earlier later : List (List α)}
  {tokens : List (Token α)}

theorem maskAll_append :
    maskAll (earlier ++ later) tokens = maskAll later (maskAll earlier tokens) :=
  List.foldl_append

theorem original_maskAll (hne : ∀ r ∈ sensitive, r ≠ []) :
    original (maskAll sensitive tokens) = original tokens := by
  induction sensitive generalizing tokens with
  | nil => rfl
  | cons secret sensitive ih =>
    rw [List.forall_mem_cons] at hne
    exact (ih hne.2).trans (original_mask hne.1 tokens)

theorem mem_secrets_maskAll (hne : ∀ r ∈ sensitive, r ≠ []) {r : List α}
    (h : r ∈ secrets (maskAll sensitive tokens)) : r ∈ sensitive ∨ r ∈ secrets tokens := by
  induction sensitive generalizing tokens with
  | nil => exact .inr h
  | cons secret sensitive ih =>
    rw [List.forall_mem_cons] at hne
    rcases ih hne.2 h with hr | hr
    · exact .inl (List.mem_cons_of_mem _ hr)
    · exact (mem_secrets_mask hne.1 hr).imp_left fun (heq : r = secret) => heq ▸ List.mem_cons_self

theorem original_maskAll_letters (hne : ∀ r ∈ sensitive, r ≠ []) :
    original (maskAll sensitive (letters text)) = text :=
  (original_maskAll hne).trans original_letters

theorem mem_of_mem_secrets_maskAll (hne : ∀ r ∈ sensitive, r ≠ []) {r : List α}
    (h : r ∈ secrets (maskAll sensitive (letters text))) : r ∈ sensitive :=
  (mem_secrets_maskAll hne h).resolve_right (by simp)

theorem MaskedAt.maskAll (hne : ∀ r ∈ sensitive, r ≠ []) {k : Nat} (h : MaskedAt tokens k) :
    MaskedAt (maskAll sensitive tokens) k := by
  induction sensitive generalizing tokens with
  | nil => exact h
  | cons secret sensitive ih =>
    rw [List.forall_mem_cons] at hne
    exact ih hne.2 (h.mask hne.1)

/-- No run spells a secret that was masked. -/
theorem not_infix_maskAll (hne : ∀ r ∈ sensitive, r ≠ []) {secret : List α}
    (h : secret ∈ sensitive) : ¬ letters secret <:+: maskAll sensitive tokens := by
  induction sensitive using List.reverseRecOn with
  | nil => cases h
  | append_singleton sensitive last ih =>
    rw [List.forall_mem_append, List.forall_mem_singleton] at hne
    rw [maskAll_append]
    by_cases hlast : secret = last
    · subst hlast
      exact not_infix_mask hne.2 _
    · have hbefore : secret ∈ sensitive :=
        (List.mem_append.mp h).resolve_right fun hin => hlast (List.mem_singleton.mp hin)
      exact not_infix_mask_of_not_infix hne.2 (hne.1 secret hbefore) (ih hne.1 hbefore)

/-- **Replacing one secret after another shows what masking them shows**, where no occurrence ever
touches a mark. -/
theorem shown_maskAll (hmark : mark ≠ []) (hne : ∀ r ∈ sensitive, r ≠ [])
    (h : KeepsApart mark sensitive text) (hlater : ∀ r ∈ later, r ∈ sensitive)
    (horiginal : original tokens = text) (hsecrets : ∀ r ∈ secrets tokens, r ∈ sensitive) :
    shown mark (maskAll later tokens) = replaceEach mark later (shown mark tokens) := by
  induction later generalizing tokens with
  | nil => rfl
  | cons secret later ih =>
    rw [List.forall_mem_cons] at hlater
    have hsecret := hne secret hlater.1
    have hstep : shown mark (mask secret tokens) = replaceAll secret mark (shown mark tokens) := by
      by_cases hself : secret = mark
      · rw [hself, shown_mask_mark hmark, replaceAll_self hmark]
      · exact shown_mask hmark hsecret (h tokens horiginal hsecrets secret hlater.1 hself)
    have hnext : ∀ r ∈ secrets (mask secret tokens), r ∈ sensitive := fun r hr => by
      rcases mem_secrets_mask hsecret hr with rfl | hr
      · exact hlater.1
      · exact hsecrets r hr
    refine (ih hlater.2 ((original_mask hsecret tokens).trans horiginal) hnext).trans ?_
    rw [hstep]
    rfl

/-- **An occurrence that is alone is masked whole**, as soon as its secret is. -/
theorem maskedAt_maskAll (hne : ∀ r ∈ sensitive, r ≠ []) {secret : List α} {i : Nat}
    (h : Alone sensitive text secret i) {k : Nat} (hle : i ≤ k) (hlt : k < i + secret.length) :
    MaskedAt (maskAll sensitive (letters text)) k := by
  obtain ⟨hoccurs, earlier, later, rfl, hothers⟩ := h
  have hsplit : earlier ++ secret :: later = (earlier ++ [secret]) ++ later := by
    rw [List.append_assoc]
    rfl
  rw [hsplit] at hne ⊢
  obtain ⟨hlisted, hlater⟩ := List.forall_mem_append.mp hne
  have hmem : secret ∈ earlier ++ [secret] := List.mem_append_right _ List.mem_cons_self
  have hmasked : MaskedAt (maskAll (earlier ++ [secret]) (letters text)) k := by
    refine maskedAt_of_alone (fun r hr => hlisted r (mem_of_mem_secrets_maskAll hlisted hr))
      (hlisted secret hmem) (not_infix_maskAll hlisted hmem) ?_ (fun r hr j => ?_) hle hlt
    · rwa [original_maskAll_letters hlisted]
    · rw [original_maskAll_letters hlisted]
      exact hothers r (mem_of_mem_secrets_maskAll hlisted hr) j
  rw [maskAll_append]
  exact hmasked.maskAll hlater

/-- **Masking leaves nothing behind**, where the marks keep apart and longer occurrences are
alone. -/
theorem cleared_maskAll {m : α} (hm : m ∉ mark) (hne : ∀ r ∈ sensitive, r ≠ [])
    (hapart : KeepsApart (m :: mark) sensitive text) (halone : LongerAlone sensitive text) :
    Cleared (m :: mark) sensitive (maskAll sensitive (letters text)) := by
  have horiginal : original (maskAll sensitive (letters text)) = text :=
    original_maskAll_letters hne
  have hsecrets : ∀ r ∈ secrets (maskAll sensitive (letters text)), r ∈ sensitive := fun r hr =>
    mem_of_mem_secrets_maskAll hne hr
  refine ⟨hsecrets, ?_, ?_⟩
  · intro secret hsecret before behind hshown
    have hrun : ¬ letters secret <:+: maskAll sensitive (letters text) :=
      not_infix_maskAll hne hsecret
    by_cases hself : secret = m :: mark
    · subst hself
      obtain ⟨first, r, last, htokens, rfl⟩ := exists_marker_of_shown hm hrun hshown
      exact ⟨first, r, last, htokens, Nat.le_refl _, Nat.le_refl _⟩
    · have hnot := (hapart _ horiginal hsecrets secret hsecret hself).not_shown hrun
      exact absurd ⟨before, behind, by rw [hshown, List.append_assoc]⟩ hnot
  · intro secret hsecret i hoccurs first r last htokens hshorter hoverlap k hle hlt
    have hr : r ∈ sensitive := hsecrets r (by rw [htokens]; simp [Token.secret?])
    have hoccurs' : OccursAt r text (original first).length := by
      have hat := occursAt_of_eq_append htokens
      rwa [horiginal] at hat
    rw [horiginal] at hoccurs
    obtain ⟨whole, i', hwhole, hbefore, hbehind⟩ :=
      halone secret hsecret i hoccurs r hr hshorter _ hoccurs' hoverlap k hle hlt
    exact maskedAt_maskAll hne hwhole hbefore hbehind

/-- A text without secrets stays, the mark apart. -/
theorem replaceEach_eq_self (hne : ∀ r ∈ sensitive, r ≠ [])
    (h : ∀ r ∈ sensitive, r = mark ∨ ¬ r <:+: text) : replaceEach mark sensitive text = text := by
  induction sensitive with
  | nil => rfl
  | cons secret sensitive ih =>
    rw [List.forall_mem_cons] at hne h
    have hstep : replaceAll secret mark text = text := by
      rcases h.1 with rfl | hnot
      · exact replaceAll_self hne.1 text
      · exact replaceAll_of_none (cutAt_of_not_occurs hnot)
    rw [replaceEach, List.foldl_cons, hstep]
    exact ih hne.2 h.2

/-- **Replacing again changes nothing** where the marks keep apart. -/
theorem replaceEach_replaceEach (hmark : mark ≠ []) (hne : ∀ r ∈ sensitive, r ≠ [])
    (h : KeepsApart mark sensitive text) :
    replaceEach mark sensitive (replaceEach mark sensitive text) =
      replaceEach mark sensitive text := by
  have hshown := shown_maskAll hmark hne h (fun _ hr => hr) original_letters (by simp)
  rw [shown_letters] at hshown
  rw [← hshown]
  refine replaceEach_eq_self hne fun r hr => or_iff_not_imp_left.mpr fun hself => ?_
  have hsecrets : ∀ r ∈ secrets (maskAll sensitive (letters text)), r ∈ sensitive := fun r hr =>
    mem_of_mem_secrets_maskAll hne hr
  have hapart := h _ (original_maskAll_letters hne) hsecrets r hr hself
  exact hapart.not_shown (not_infix_maskAll hne hr)

end All

end Masking
