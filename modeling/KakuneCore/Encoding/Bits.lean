import Mathlib.Data.List.Basic
import Mathlib.Data.Nat.Bitwise

/-!
# Groups of bits

A number stands for its last binary digits, the most significant first. A text of bits can be cut
into groups of any width, and **the groups that are whole can be read back**. A bit buffer is a
number whose last digits have not been given out; digits are pushed behind them, and bytes are taken
before them.
-/

namespace Bits

/-- The last `width` digits of a number, the most significant first. -/
def bits : Nat → Nat → List Bool
  | 0, _ => []
  | width + 1, n => n.testBit width :: bits width n

section Numbers

variable {width m n : Nat}

@[simp]
theorem bits_zero : bits 0 n = [] := rfl

@[simp]
theorem length_bits : (bits width n).length = width := by
  induction width with
  | zero => rfl
  | succ width ih => rw [bits, List.length_cons, ih]

/-- Numbers with the same digits stand for the same bits. -/
theorem bits_congr (h : ∀ i < width, m.testBit i = n.testBit i) : bits width m = bits width n := by
  induction width with
  | zero => rfl
  | succ width ih =>
    rw [bits, bits, h width (Nat.lt_succ_self width), ih fun i hi => h i (hi.trans_le (by omega))]

theorem testBit_eq_of_bits (h : bits width m = bits width n) {i : Nat} (hi : i < width) :
    m.testBit i = n.testBit i := by
  induction width with
  | zero => omega
  | succ width ih =>
    rw [bits, bits, List.cons_eq_cons] at h
    obtain rfl | hlt := Nat.eq_or_lt_of_le (Nat.le_of_lt_succ hi)
    · exact h.1
    · exact ih h.2 hlt

/-- The bits tell a number that has no further digits. -/
theorem bits_inj (hm : m < 2 ^ width) (hn : n < 2 ^ width) (h : bits width m = bits width n) :
    m = n := by
  refine Nat.eq_of_testBit_eq fun i => ?_
  by_cases hi : i < width
  · exact testBit_eq_of_bits h hi
  · have hle : 2 ^ width ≤ 2 ^ i := Nat.pow_le_pow_right Nat.two_pos (not_lt.mp hi)
    rw [Nat.testBit_lt_two_pow (hm.trans_le hle), Nat.testBit_lt_two_pow (hn.trans_le hle)]

/-- Digits further to the left do not matter. -/
theorem bits_mod {k : Nat} (h : width ≤ k) : bits width (n % 2 ^ k) = bits width n := by
  refine bits_congr fun i hi => ?_
  rw [Nat.testBit_mod_two_pow, decide_eq_true (hi.trans_le h), Bool.true_and]

/-- The digits to the left are those of the number shifted. -/
theorem bits_add (v w n : Nat) : bits (v + w) n = bits v (n >>> w) ++ bits w n := by
  induction v with
  | zero => rw [Nat.zero_add, bits_zero, List.nil_append]
  | succ v ih =>
    rw [Nat.add_right_comm, bits, ih, bits, Nat.testBit_shiftRight, Nat.add_comm w v,
      List.cons_append]

/-- Digits are pushed behind a number. -/
theorem bits_shiftLeft_or (v : Nat) {w d : Nat} (hd : d < 2 ^ w) :
    bits (v + w) (n <<< w ||| d) = bits v n ++ bits w d := by
  rw [bits_add]
  congr 1
  · refine bits_congr fun i _ => ?_
    have hnone : d.testBit (w + i) = false :=
      Nat.testBit_lt_two_pow (hd.trans_le (Nat.pow_le_pow_right Nat.two_pos (Nat.le_add_right w i)))
    rw [Nat.testBit_shiftRight, Nat.testBit_or, hnone, Nat.testBit_shiftLeft]
    simp
  · refine bits_congr fun i hi => ?_
    have hshift : ¬ w ≤ i := not_le.mpr hi
    rw [Nat.testBit_or, Nat.testBit_shiftLeft]
    simp [hshift]

end Numbers

/-! ### Groups -/

/-- The bits of numbers, in groups. -/
def groups (width : Nat) (numbers : List Nat) : List Bool := numbers.flatMap (bits width)

section Groups

variable {width : Nat} {number : Nat} {ms ns : List Nat} {rest rest' : List Bool}

@[simp]
theorem groups_nil : groups width [] = [] := rfl

@[simp]
theorem groups_cons : groups width (number :: ns) = bits width number ++ groups width ns := rfl

theorem groups_append : groups width (ms ++ ns) = groups width ms ++ groups width ns :=
  List.flatMap_append

/-- **Whole groups are read back**, whatever part of a group stands behind them. -/
theorem groups_inj (hms : ∀ m ∈ ms, m < 2 ^ width) (hns : ∀ n ∈ ns, n < 2 ^ width)
    (hrest : rest.length < width) (hrest' : rest'.length < width)
    (h : groups width ms ++ rest = groups width ns ++ rest') : ms = ns := by
  have hlong : ∀ {number : Nat} {ns : List Nat} {rest rest' : List Bool}, rest.length < width →
      rest ≠ groups width (number :: ns) ++ rest' := by
    rintro number ns rest rest' hshort rfl
    rw [groups_cons, List.length_append, List.length_append, length_bits] at hshort
    omega
  induction ms generalizing ns with
  | nil =>
    cases ns with
    | nil => rfl
    | cons n ns => exact absurd h (hlong hrest)
  | cons m ms ih =>
    cases ns with
    | nil => exact absurd h.symm (hlong hrest')
    | cons n ns =>
      rw [List.forall_mem_cons] at hms hns
      rw [groups_cons, groups_cons, List.append_assoc, List.append_assoc] at h
      obtain ⟨hfirst, htail⟩ := List.append_inj h (by rw [length_bits, length_bits])
      rw [bits_inj hms.1 hns.1 hfirst, ih hms.2 hns.2 htail]

end Groups

/-! ### Bit buffers -/

/-- The bits of bytes. -/
def byteBits (bytes : List UInt8) : List Bool := groups 8 (bytes.map UInt8.toNat)

/-- What has been read is given out as bytes, but for the last digits of the buffer. -/
def Holds (read : List Bool) (output : List UInt8) (count buffer : Nat) : Prop :=
  byteBits output ++ bits count buffer = read

section Buffers

variable {read rest : List Bool} {bytes output : List UInt8} {count buffer : Nat}

theorem byteBits_append {bytes' : List UInt8} :
    byteBits (bytes ++ bytes') = byteBits bytes ++ byteBits bytes' := by
  rw [byteBits, List.map_append, groups_append, ← byteBits, ← byteBits]

theorem byteBits_singleton (byte : UInt8) : byteBits [byte] = bits 8 byte.toNat := by
  rw [byteBits, List.map_singleton, groups_cons, groups_nil, List.append_nil]

theorem byteBits_cons {byte : UInt8} :
    byteBits (byte :: bytes) = bits 8 byte.toNat ++ byteBits bytes := rfl

/-- A number is given out as the byte of its last digits. -/
theorem bits_toNat_ofNat (n : Nat) : bits 8 (UInt8.ofNat n).toNat = bits 8 n := by
  rw [UInt8.toNat_ofNat']
  exact bits_mod le_rfl

theorem Holds.init (buffer : Nat) : Holds [] [] 0 buffer := rfl

/-- Digits are pushed into a buffer of so many bits, if it is wide enough for them. -/
theorem Holds.push {width d : Nat} (size : Nat) (h : Holds read output count buffer)
    (hd : d < 2 ^ width) (hsize : count + width ≤ size) :
    Holds (read ++ bits width d) output (count + width)
      ((buffer <<< width) % 2 ^ size ||| d) := by
  have hmod : bits (count + width) ((buffer <<< width) % 2 ^ size ||| d) =
      bits (count + width) (buffer <<< width ||| d) := by
    refine bits_congr fun i hi => ?_
    rw [Nat.testBit_or, Nat.testBit_or, Nat.testBit_mod_two_pow, decide_eq_true (hi.trans_le hsize),
      Bool.true_and]
  rw [Holds, hmod, bits_shiftLeft_or count hd, ← List.append_assoc, h]

/-- A byte is taken from a buffer. -/
theorem Holds.take (h : Holds read output (count + 8) buffer) :
    Holds read (output ++ [.ofNat (buffer >>> count)]) count buffer := by
  rw [Nat.add_comm, Holds, bits_add] at h
  rw [Holds, byteBits_append, byteBits_singleton, bits_toNat_ofNat, List.append_assoc, h]

/-- Digits that have been given out may be forgotten. -/
theorem Holds.mask (h : Holds read output count buffer) :
    Holds read output count (buffer &&& (1 <<< count - 1)) := by
  rw [Nat.one_shiftLeft, Nat.and_two_pow_sub_one_eq_mod]
  rwa [Holds, bits_mod le_rfl]

/-- **What is read tells the bytes given out**, but for less than a byte. -/
theorem Holds.eq (h : Holds (byteBits bytes ++ rest) output count buffer) (hcount : count < 8)
    (hrest : rest.length < 8) : output = bytes := by
  have hbytes : ∀ {bytes : List UInt8}, ∀ n ∈ bytes.map UInt8.toNat, n < 2 ^ 8 := by
    intro bytes n hn
    obtain ⟨byte, -, rfl⟩ := List.mem_map.mp hn
    exact byte.toNat_lt
  have hlength : (bits count buffer).length < 8 := by rwa [length_bits]
  have hnumbers := groups_inj hbytes hbytes hlength hrest h
  exact List.map_injective_iff.mpr (fun a b => UInt8.toNat_inj.mp) hnumbers

end Buffers

end Bits
