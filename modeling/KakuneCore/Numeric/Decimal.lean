import Mathlib.Data.List.Basic
import Mathlib.Data.Nat.Basic
import Mathlib.Tactic.IntervalCases

/-!
# Decimal texts and their order

Numbers written with a fixed count of decimal digits sort as numbers. Without their trailing zeros,
as the digits of a fraction are often written, they do so only as long as neither text is a prefix
of the other: what follows the shorter one then decides.
-/

namespace KakuneCore

namespace Decimal

/-! ### Lexicographic order -/

section Lex

variable {α : Type} [LT α]

/-- Texts of one length decide before what follows them. -/
theorem append_lt_append_iff {xs ys us vs : List α} (h : xs.length = ys.length) :
    xs ++ us < ys ++ vs ↔ xs < ys ∨ xs = ys ∧ us < vs := by
  induction xs generalizing ys with
  | nil =>
    obtain rfl : ys = [] := List.length_eq_zero_iff.mp h.symm
    simp
  | cons x xs ih =>
    cases ys with
    | nil => cases h
    | cons y ys =>
      have hrest := @ih ys (by simpa using h)
      rw [List.cons_append, List.cons_append, List.cons_lt_cons_iff, List.cons_lt_cons_iff, hrest,
        List.cons.injEq]
      tauto

/-- When neither text is a prefix of the other, what follows them does not matter. -/
theorem append_lt_append_iff_of_incomparable {xs ys : List α} (h : ¬ xs <+: ys) (h' : ¬ ys <+: xs)
    (us vs : List α) : xs ++ us < ys ++ vs ↔ xs < ys := by
  induction xs generalizing ys with
  | nil => exact absurd (List.nil_prefix) h
  | cons x xs ih =>
    cases ys with
    | nil => exact absurd (List.nil_prefix) h'
    | cons y ys =>
      rw [List.cons_append, List.cons_append, List.cons_lt_cons_iff, List.cons_lt_cons_iff]
      by_cases hxy : x = y
      · subst hxy
        rw [List.prefix_cons_inj] at h h'
        rw [ih h h']
      · simp only [hxy, false_and, or_false]

end Lex

/-! ### Digits -/

/-- A decimal digit. -/
def digit (n : Nat) : Char := Char.ofNat ('0'.toNat + n % 10)

theorem digit_lt_digit_iff {m n : Nat} (hm : m < 10) (hn : n < 10) : digit m < digit n ↔ m < n := by
  interval_cases m <;> interval_cases n <;> decide

/-- The last `width` decimal digits of a number. -/
def digits : (width : Nat) → Nat → List Char
  | 0, _ => []
  | width + 1, n => digits width (n / 10) ++ [digit (n % 10)]

@[simp]
theorem length_digits (width n : Nat) : (digits width n).length = width := by
  induction width generalizing n with
  | zero => rfl
  | succ width ih => simp [digits, ih]

theorem length_digits_eq (width m n : Nat) : (digits width m).length = (digits width n).length := by
  rw [length_digits, length_digits]

theorem exists_of_mem_digits {width n : Nat} {c : Char} (h : c ∈ digits width n) :
    ∃ d < 10, c = digit d := by
  induction width generalizing n with
  | zero => cases h
  | succ width ih =>
    rw [digits, List.mem_append, List.mem_singleton] at h
    obtain h | rfl := h
    · exact ih h
    · exact ⟨n % 10, by omega, rfl⟩

/-- **Fixed width**: the texts sort as the numbers do. -/
theorem digits_lt_digits_iff {width m n : Nat} (hm : m < 10 ^ width) (hn : n < 10 ^ width) :
    digits width m < digits width n ↔ m < n := by
  induction width generalizing m n with
  | zero =>
    rw [pow_zero] at hm hn
    have hlt : ¬ m < n := by omega
    simp [digits, hlt]
  | succ width ih =>
    rw [pow_succ] at hm hn
    have hfirst := @ih (m / 10) (n / 10) (by omega) (by omega)
    have hinj : digits width (m / 10) = digits width (n / 10) → m / 10 = n / 10 := by
      intro h
      have hgt := @ih (n / 10) (m / 10) (by omega) (by omega)
      rw [h] at hfirst hgt
      have h₁ := hfirst.not.mp (List.lt_irrefl _)
      have h₂ := hgt.not.mp (List.lt_irrefl _)
      omega
    rw [digits, digits, append_lt_append_iff (by simp), hfirst, List.cons_lt_cons_iff,
      digit_lt_digit_iff (by omega) (by omega)]
    constructor
    · rintro (h | ⟨heq, h | ⟨-, h⟩⟩)
      · omega
      · have := hinj heq
        omega
      · exact absurd h (List.not_lt_nil _)
    · intro h
      by_cases hdiv : m / 10 = n / 10
      · exact .inr ⟨by rw [hdiv], .inl (by omega)⟩
      · exact .inl (by omega)

theorem digits_inj {width m n : Nat} (hm : m < 10 ^ width) (hn : n < 10 ^ width) :
    digits width m = digits width n ↔ m = n := by
  constructor
  · intro h
    have hlt := (digits_lt_digits_iff hm hn).not
    have hgt := (digits_lt_digits_iff hn hm).not
    rw [h] at hlt hgt
    have h₁ := hlt.mp (List.lt_irrefl _)
    have h₂ := hgt.mp (List.lt_irrefl _)
    omega
  · rintro rfl
    rfl

/-! ### Fractions -/

/-- The digits of a fraction, without trailing zeros. -/
def fraction : (width : Nat) → Nat → List Char
  | 0, _ => []
  | width + 1, n => if n % 10 = 0 then fraction width (n / 10) else digits (width + 1) n

/-- The digits are those of the fraction and zeros. -/
theorem digits_eq_fraction_append (width n : Nat) :
    ∃ zeros, digits width n = fraction width n ++ List.replicate zeros '0' := by
  induction width generalizing n with
  | zero => exact ⟨0, rfl⟩
  | succ width ih =>
    by_cases h : n % 10 = 0
    · obtain ⟨zeros, hzeros⟩ := ih (n / 10)
      refine ⟨zeros + 1, ?_⟩
      rw [fraction, if_pos h, digits, hzeros, h, List.append_assoc, List.replicate_succ']
      rfl
    · exact ⟨0, by rw [fraction, if_neg h, List.replicate_zero, List.append_nil]⟩

theorem mem_digits_of_mem_fraction {width n : Nat} {c : Char} (h : c ∈ fraction width n) :
    c ∈ digits width n := by
  obtain ⟨zeros, hzeros⟩ := digits_eq_fraction_append width n
  rw [hzeros]
  exact List.mem_append_left _ h

/-- The larger of two fractions is no prefix of the smaller one. -/
theorem not_fraction_prefix {width m n : Nat} (hm : m < 10 ^ width) (hn : n < 10 ^ width)
    (h : m < n) : ¬ fraction width n <+: fraction width m := by
  rintro ⟨rest, hrest⟩
  obtain ⟨zeros, hzeros⟩ := digits_eq_fraction_append width n
  obtain ⟨zeros', hzeros'⟩ := digits_eq_fraction_append width m
  have hlt := (digits_lt_digits_iff hm hn).mpr h
  have hlen : (digits width m).length = (digits width n).length := by simp
  rw [← hrest, List.append_assoc] at hzeros'
  rw [hzeros, hzeros', append_lt_append_iff rfl] at hlt
  rw [hzeros, hzeros', List.length_append, List.length_append] at hlen
  obtain hlt | ⟨-, hlt⟩ := hlt
  · exact List.lt_irrefl _ hlt
  · -- nothing sorts before a row of zeros of its own length
    have hzero : ∀ (cs : List Char) (k : Nat), cs.length = k → (∀ c ∈ cs, ¬ c < '0') →
        ¬ cs < List.replicate k '0' := by
      intro cs
      induction cs with
      | nil => rintro k rfl -; exact List.lt_irrefl _
      | cons c cs ih =>
        rintro k rfl hcs hlt
        rw [List.length_cons, List.replicate_succ, List.cons_lt_cons_iff] at hlt
        obtain hlt | ⟨-, hlt⟩ := hlt
        · exact hcs c List.mem_cons_self hlt
        · exact ih _ rfl (fun c hc => hcs c (List.mem_cons_of_mem _ hc)) hlt
    refine hzero _ _ (by simpa using hlen) (fun c hc => ?_) hlt
    have hmem : c ∈ digits width m := by
      rw [hzeros']
      exact List.mem_append_right _ hc
    obtain ⟨d, hd, rfl⟩ := exists_of_mem_digits hmem
    have := (digit_lt_digit_iff hd (by decide : 0 < 10)).not
    exact this.mpr (Nat.not_lt_zero d)

/-- **Fractions without trailing zeros**, followed by a mark that sorts after the digits: the texts
of two numbers sort as the numbers do, unless the smaller fraction is a prefix of the larger one. -/
theorem fraction_append_lt_iff {width m n : Nat} (hm : m < 10 ^ width) (hn : n < 10 ^ width)
    (h : m < n) {mark : Char} (hmark : ∀ d < 10, digit d < mark) (us vs : List Char) :
    fraction width m ++ mark :: us < fraction width n ++ mark :: vs ↔
      ¬ fraction width m <+: fraction width n := by
  have hlarger := not_fraction_prefix hm hn h
  constructor
  · rintro hlt ⟨rest, hrest⟩
    cases rest with
    | nil =>
      rw [List.append_nil] at hrest
      exact hlarger (hrest ▸ List.prefix_rfl)
    | cons c rest =>
      -- the mark meets a digit of the longer fraction
      have hmem : c ∈ digits width n := by
        refine mem_digits_of_mem_fraction ?_
        rw [← hrest]
        simp
      obtain ⟨d, hd, rfl⟩ := exists_of_mem_digits hmem
      have hdigit := hmark d hd
      rw [← hrest, List.append_assoc, append_lt_append_iff rfl, List.cons_append,
        List.cons_lt_cons_iff] at hlt
      obtain hlt | ⟨-, hlt | ⟨hlt, -⟩⟩ := hlt
      · exact List.lt_irrefl _ hlt
      · exact Std.Asymm.asymm _ _ hlt hdigit
      · rw [hlt] at hdigit
        exact Std.Irrefl.irrefl _ hdigit
  · intro hpre
    rw [append_lt_append_iff_of_incomparable hpre hlarger]
    obtain ⟨zeros, hzeros⟩ := digits_eq_fraction_append width n
    obtain ⟨zeros', hzeros'⟩ := digits_eq_fraction_append width m
    have hlt := (digits_lt_digits_iff hm hn).mpr h
    rwa [hzeros, hzeros', append_lt_append_iff_of_incomparable hpre hlarger] at hlt

end Decimal

end KakuneCore
