import KakuneCore.Numeric.Binary64

/-!
# Integers as binary64 numbers

An integer is rounded to a multiple of a power of two that is at most the integer itself. The
**representable** ones, at most `2 ^ 53` times a power of two, are those that rounding keeps.
-/

namespace KakuneCore

namespace Binary64

/-- An integer that is a binary64 number, unless it is too large for the format. -/
def Representable (z : Int) : Prop := ∃ (m : Int) (k : Nat), |m| ≤ 2 ^ 53 ∧ z = m * 2 ^ k

theorem representable_of_abs_le {z : Int} (h : |z| ≤ 2 ^ 53) : Representable z :=
  ⟨z, 0, h, by simp⟩

/-! ### Rounding to an integer -/

theorem roundHalfEven_intCast (n : Int) : roundHalfEven n = n := by
  simp [roundHalfEven]

theorem abs_roundHalfEven_sub_le (q : Rat) : |(roundHalfEven q : Rat) - q| ≤ 1 / 2 := by
  have hlow : (q.floor : Rat) ≤ q := Rat.floor_le q
  have hhigh : q < q.floor + 1 := by exact_mod_cast Rat.lt_floor_add_one q
  rw [abs_le]
  simp only [roundHalfEven]
  split_ifs with hbelow habove heven
  · constructor <;> linarith
  · push_cast
    constructor <;> linarith
  · constructor <;> linarith
  · push_cast
    constructor <;> linarith

/-! ### The quantum of an integer -/

theorem pow2_natCast (n : Nat) : pow2 n = 2 ^ n := by
  rw [pow2, if_pos (Int.natCast_nonneg n), Int.toNat_natCast]

theorem pow2_pos (e : Int) : 0 < pow2 e := by
  unfold pow2
  split_ifs
  · positivity
  · positivity

/-- The exponent of an integer is the position of its first binary digit. -/
theorem exponent_intCast {z : Int} (hz : z ≠ 0) : exponent z = Nat.log2 z.natAbs := by
  have hne : z.natAbs ≠ 0 := by omega
  have hle : (2 : Rat) ^ Nat.log2 z.natAbs ≤ |(z : Rat)| := by
    rw [← Int.cast_abs, Int.abs_eq_natAbs]
    exact_mod_cast Nat.log2_self_le hne
  have hone : Nat.log2 1 = 0 := by decide
  rw [exponent, Rat.num_intCast, Rat.den_intCast, hone, Int.natCast_zero, Int.sub_zero]
  simp only [pow2_natCast, if_pos hle]

/-- The distance between binary64 numbers of the size of an integer. -/
def quantum (z : Int) : Rat := pow2 (Nat.log2 z.natAbs - 52)

theorem quantum_pos (z : Int) : 0 < quantum z := pow2_pos _

theorem quantum_of_le {z : Int} (h : 52 ≤ Nat.log2 z.natAbs) :
    quantum z = 2 ^ (Nat.log2 z.natAbs - 52) := by
  have hcast : (Nat.log2 z.natAbs : Int) - 52 = ((Nat.log2 z.natAbs - 52 : Nat) : Int) := by omega
  rw [quantum, hcast, pow2_natCast]

theorem quantum_of_lt {z : Int} (h : Nat.log2 z.natAbs < 52) :
    quantum z * 2 ^ (52 - Nat.log2 z.natAbs) = 1 := by
  have hneg : ¬ (0 : Int) ≤ Nat.log2 z.natAbs - 52 := by omega
  have hexp : (-((Nat.log2 z.natAbs : Int) - 52)).toNat = 52 - Nat.log2 z.natAbs := by omega
  rw [quantum, pow2, if_neg hneg, hexp]
  exact one_div_mul_cancel (by positivity)

theorem quantum_le_abs {z : Int} (hz : z ≠ 0) : quantum z ≤ |(z : Rat)| := by
  have hone : (1 : Rat) ≤ |(z : Rat)| := by
    rw [← Int.cast_abs]
    exact_mod_cast Int.one_le_abs hz
  rcases Nat.lt_or_ge (Nat.log2 z.natAbs) 52 with h | h
  · have hpow : (1 : Rat) ≤ 2 ^ (52 - Nat.log2 z.natAbs) := one_le_pow₀ (by norm_num)
    have hmul := quantum_of_lt h
    have hpos := quantum_pos z
    nlinarith
  · have hle : (2 : Rat) ^ Nat.log2 z.natAbs ≤ |(z : Rat)| := by
      rw [← Int.cast_abs, Int.abs_eq_natAbs]
      exact_mod_cast Nat.log2_self_le (by omega)
    rw [quantum_of_le h]
    exact le_trans (pow_le_pow_right₀ (by norm_num) (by omega)) hle

/-- **An integer is rounded** to the nearest multiple of its quantum. -/
theorem round_intCast {z : Int} (hz : z ≠ 0) (hsize : |z| < 2 ^ 1023) :
    round z = .finite (roundHalfEven (z / quantum z) * quantum z) := by
  have hmax : max ((Nat.log2 z.natAbs : Int) - 52) (-1074) = Nat.log2 z.natAbs - 52 := by omega
  have hquantum := quantum_pos z
  have hsmall := quantum_le_abs hz
  have hnear := abs_roundHalfEven_sub_le (z / quantum z)
  -- the distance to the integer is at most half of the quantum
  have hdistance : |(roundHalfEven (z / quantum z) : Rat) * quantum z - z| ≤ 1 / 2 * quantum z := by
    have hmul : (roundHalfEven (z / quantum z) : Rat) * quantum z - z =
        (roundHalfEven (z / quantum z) - z / quantum z) * quantum z := by
      field_simp
    rw [hmul, abs_mul, abs_of_pos hquantum]
    exact mul_le_mul_of_nonneg_right hnear hquantum.le
  have hsizeRat : |(z : Rat)| < 2 ^ 1023 := by
    have hcast := (Int.cast_lt (R := Rat)).mpr hsize
    rwa [Int.cast_abs, Int.cast_pow, Int.cast_ofNat] at hcast
  have hbound : |(roundHalfEven (z / quantum z) : Rat) * quantum z| < pow2 1024 := by
    have htriangle := abs_sub_abs_le_abs_sub
      ((roundHalfEven (z / quantum z) : Rat) * quantum z) (z : Rat)
    have hpow : pow2 1024 = 2 * 2 ^ 1023 := by
      rw [show (1024 : Int) = ((1024 : Nat) : Int) from rfl, pow2_natCast, ← pow_succ']
    rw [hpow]
    generalize (2 : Rat) ^ 1023 = bound at hsizeRat ⊢
    linarith
  have hne : (z : Rat) ≠ 0 := Int.cast_ne_zero.mpr hz
  rw [round, if_neg hne, exponent_intCast hz, hmax]
  exact if_pos hbound

theorem exists_round_intCast {z : Int} (hsize : |z| < 2 ^ 1023) : ∃ q, round z = .finite q := by
  rcases eq_or_ne z 0 with rfl | hz
  · exact ⟨0, rfl⟩
  · exact ⟨_, round_intCast hz hsize⟩

/-! ### The integers that rounding keeps -/

/-- A multiple of the quantum is representable. -/
theorem representable_of_eq_mul_quantum {z n : Int} (h : (z : Rat) = n * quantum z) :
    Representable z := by
  have hlt : z.natAbs < 2 ^ (Nat.log2 z.natAbs + 1) := Nat.lt_log2_self
  rcases Nat.lt_or_ge (Nat.log2 z.natAbs) 52 with hlog | hlog
  · refine representable_of_abs_le ?_
    have hpow : 2 ^ (Nat.log2 z.natAbs + 1) ≤ 2 ^ 53 :=
      Nat.pow_le_pow_right (by decide) (by omega)
    rw [Int.abs_eq_natAbs]
    omega
  · rw [quantum_of_le hlog] at h
    have hint : z = n * 2 ^ (Nat.log2 z.natAbs - 52) := by exact_mod_cast h
    refine ⟨n, Nat.log2 z.natAbs - 52, ?_, hint⟩
    have hsplit : 2 ^ (Nat.log2 z.natAbs + 1) = 2 ^ 53 * 2 ^ (Nat.log2 z.natAbs - 52) := by
      rw [← pow_add]
      congr 1
      omega
    have habs : z.natAbs = n.natAbs * 2 ^ (Nat.log2 z.natAbs - 52) := by
      have hnat := congrArg Int.natAbs hint
      rwa [Int.natAbs_mul, Int.natAbs_pow] at hnat
    rw [hsplit] at hlt
    nth_rewrite 1 [habs] at hlt
    have hn := Nat.lt_of_mul_lt_mul_right hlt
    rw [Int.abs_eq_natAbs]
    omega

/-- A representable integer is a multiple of its quantum. -/
theorem Representable.exists_eq_mul_quantum {z : Int} (hz : z ≠ 0) (h : Representable z) :
    ∃ n : Int, (z : Rat) = n * quantum z := by
  obtain ⟨m, k, hm, hmk⟩ := h
  rw [Int.abs_eq_natAbs] at hm
  rcases Nat.lt_or_ge (Nat.log2 z.natAbs) 52 with hlog | hlog
  · refine ⟨z * 2 ^ (52 - Nat.log2 z.natAbs), ?_⟩
    have hone := quantum_of_lt hlog
    push_cast
    rw [mul_assoc, mul_comm ((2 : Rat) ^ _), hone, mul_one]
  · rw [quantum_of_le hlog]
    have hself : 2 ^ Nat.log2 z.natAbs ≤ z.natAbs := Nat.log2_self_le (by omega)
    have habs : z.natAbs = m.natAbs * 2 ^ k := by
      have hnat := congrArg Int.natAbs hmk
      rwa [Int.natAbs_mul, Int.natAbs_pow] at hnat
    have hm' : m.natAbs ≤ 2 ^ 53 := by omega
    rcases Nat.lt_or_ge k (Nat.log2 z.natAbs - 52) with hk | hk
    · -- then the integer is a power of two, up to its sign
      have hupper : z.natAbs ≤ 2 ^ (53 + k) := by
        rw [habs, pow_add]
        exact Nat.mul_le_mul_right _ hm'
      have hexp : Nat.log2 z.natAbs ≤ 53 + k :=
        (Nat.pow_le_pow_iff_right (by decide)).mp (hself.trans hupper)
      have hlogk : Nat.log2 z.natAbs = 53 + k := by omega
      have hmfull : m.natAbs = 2 ^ 53 := by
        rw [hlogk, habs, pow_add] at hself
        exact le_antisymm hm' (Nat.le_of_mul_le_mul_right hself (by positivity))
      have hgap : Nat.log2 z.natAbs - 52 = k + 1 := by omega
      rw [hgap]
      rcases Int.natAbs_eq m with heq | heq
      · refine ⟨2 ^ 52, ?_⟩
        rw [hmk, heq, hmfull]
        push_cast
        ring
      · refine ⟨-2 ^ 52, ?_⟩
        rw [hmk, heq, hmfull]
        push_cast
        ring
    · refine ⟨m * 2 ^ (k - (Nat.log2 z.natAbs - 52)), ?_⟩
      nth_rewrite 1 [hmk]
      push_cast
      rw [mul_assoc, ← pow_add, Nat.sub_add_cancel hk]

/-- **Rounding keeps exactly the representable integers.** -/
theorem round_intCast_eq_iff {z : Int} (hsize : |z| < 2 ^ 1023) :
    round z = .finite z ↔ Representable z := by
  rcases eq_or_ne z 0 with rfl | hz
  · exact iff_of_true rfl (representable_of_abs_le (by simp))
  · rw [round_intCast hz hsize, finite.injEq]
    have hquantum := quantum_pos z
    constructor
    · intro h
      exact representable_of_eq_mul_quantum h.symm
    · intro h
      obtain ⟨n, hn⟩ := h.exists_eq_mul_quantum hz
      have hdiv : (z : Rat) / quantum z = n := by
        rw [div_eq_iff hquantum.ne']
        exact hn
      rw [hdiv, roundHalfEven_intCast, ← hn]

end Binary64

end KakuneCore
