import Mathlib.Data.List.Basic

/-!
# Text as bytes

The UTF-8 encoding of a list of characters. An ASCII character is the byte of its code, and any
other is written with bytes from 128 on. Bytes that are no text can still be read with **losses**.
-/

namespace Utf8

/-- The bytes of a text. -/
def encode (text : List Char) : List UInt8 := text.flatMap String.utf8EncodeChar

/-- `String::from_utf8`. -/
def decode? (bytes : List UInt8) : Option (List Char) :=
  bytes.toByteArray.utf8Decode?.map Array.toList

@[simp]
theorem encode_nil : encode [] = [] := rfl

@[simp]
theorem encode_cons (c : Char) (text : List Char) :
    encode (c :: text) = String.utf8EncodeChar c ++ encode text := rfl

@[simp]
theorem encode_append (text rest : List Char) :
    encode (text ++ rest) = encode text ++ encode rest := List.flatMap_append

/-- **A text is read back from its bytes.** -/
theorem decode?_encode (text : List Char) : decode? (encode text) = some text := by
  have hbytes : (encode text).toByteArray = text.utf8Encode := rfl
  rw [decode?, hbytes, List.utf8Decode?_utf8Encode, Option.map_some]

theorem encode_injective {text text' : List Char} (h : encode text = encode text') :
    text = text' := by
  have hdecode := decode?_encode text
  rw [h, decode?_encode] at hdecode
  exact (Option.some.inj hdecode).symm

/-- An ASCII character is one byte. -/
theorem encodeChar_of_lt {c : Char} (h : c.toNat < 128) :
    String.utf8EncodeChar c = [.ofNat c.toNat] := by
  have hle : c.val.toNat ≤ 0x7f := Nat.le_of_lt_succ h
  rw [String.utf8EncodeChar]
  exact if_pos hle

/-- A text of ASCII characters is the bytes of their codes. -/
theorem encode_of_lt {text : List Char} (h : ∀ c ∈ text, c.toNat < 128) :
    encode text = text.map fun c => .ofNat c.toNat := by
  induction text with
  | nil => rfl
  | cons c text ih =>
    rw [List.forall_mem_cons] at h
    rw [encode_cons, encodeChar_of_lt h.1, ih h.2, List.map_cons, List.singleton_append]

theorem toNat_digitChar_lt : ∀ n : Fin 16, (Nat.digitChar n).toNat < 128 := by decide

/-- Any other character has no byte that is one of an ASCII character. -/
theorem le_of_mem_encodeChar {c : Char} (h : 128 ≤ c.toNat) {byte : UInt8}
    (hmem : byte ∈ String.utf8EncodeChar c) : 128 ≤ byte.toNat := by
  have hgt : ¬ c.val.toNat ≤ 0x7f := Nat.not_le.mpr h
  rw [String.utf8EncodeChar, if_neg hgt] at hmem
  split at hmem
  · simp only [List.mem_cons, List.not_mem_nil, or_false] at hmem
    rcases hmem with rfl | rfl <;> rw [UInt8.toNat_ofNat'] <;> omega
  · split at hmem
    · simp only [List.mem_cons, List.not_mem_nil, or_false] at hmem
      rcases hmem with rfl | rfl | rfl <;> rw [UInt8.toNat_ofNat'] <;> omega
    · simp only [List.mem_cons, List.not_mem_nil, or_false] at hmem
      rcases hmem with rfl | rfl | rfl | rfl <;> rw [UInt8.toNat_ofNat'] <;> omega

/-! ### Reading with losses -/

def isContinuation (byte : UInt8) : Bool := 0x80 ≤ byte ∧ byte ≤ 0xBF

/-- How many bytes are given up where no character can be read: the longest beginning of one. -/
def invalidLength (bytes : List UInt8) : Nat :=
  let first := bytes[0]?.getD 0
  let second := bytes[1]?.getD 0
  if (first = 0xE0 ∧ 0xA0 ≤ second ∧ second ≤ 0xBF) ∨
      (0xE1 ≤ first ∧ first ≤ 0xEC ∧ isContinuation second) ∨
      (first = 0xED ∧ 0x80 ≤ second ∧ second ≤ 0x9F) ∨
      (0xEE ≤ first ∧ first ≤ 0xEF ∧ isContinuation second) then 2
  else if (first = 0xF0 ∧ 0x90 ≤ second ∧ second ≤ 0xBF) ∨
      (0xF1 ≤ first ∧ first ≤ 0xF3 ∧ isContinuation second) ∨
      (first = 0xF4 ∧ 0x80 ≤ second ∧ second ≤ 0x8F) then
    if isContinuation (bytes[2]?.getD 0) then 3 else 2
  else 1

theorem invalidLength_pos (bytes : List UInt8) : 0 < invalidLength bytes := by
  unfold invalidLength
  grind

/-- `String::from_utf8_lossy`: each part that is no text becomes one replacement character. -/
def lossy : List UInt8 → List Char
  | [] => []
  | byte :: rest =>
    match (byte :: rest).toByteArray.utf8DecodeChar? 0 with
    | some c => c :: lossy ((byte :: rest).drop c.utf8Size)
    | none => Char.ofNat 0xFFFD :: lossy ((byte :: rest).drop (invalidLength (byte :: rest)))
termination_by bytes => bytes.length
decreasing_by
  · rw [List.length_drop]
    have := c.utf8Size_pos
    simp only [List.length_cons]
    omega
  · rw [List.length_drop]
    have := invalidLength_pos (byte :: rest)
    simp only [List.length_cons]
    omega

/-- A character that is read was written there. -/
theorem encodeChar_prefix {bytes : List UInt8} {c : Char}
    (h : bytes.toByteArray.utf8DecodeChar? 0 = some c) : String.utf8EncodeChar c <+: bytes := by
  have hextract := String.toByteArray_utf8EncodeChar_of_utf8DecodeChar?_eq_some h
  have hlist := congrArg (fun b : ByteArray => b.data.toList) hextract
  have htake : String.utf8EncodeChar c = bytes.take c.utf8Size := by
    simpa using hlist
  rw [htake]
  exact List.take_prefix _ _

theorem lossy_encodeChar_append (c : Char) (rest : List UInt8) :
    lossy (String.utf8EncodeChar c ++ rest) = c :: lossy rest := by
  obtain ⟨byte, behind, hbytes⟩ := List.exists_cons_of_ne_nil
    (String.utf8EncodeChar_ne_nil (c := c))
  have hdecode : (String.utf8EncodeChar c ++ rest).toByteArray.utf8DecodeChar? 0 = some c := by
    have happend := ByteArray.utf8DecodeChar?_utf8EncodeChar_append (b := rest.toByteArray) (c := c)
    rwa [← List.toByteArray_append] at happend
  have hdrop : (String.utf8EncodeChar c ++ rest).drop c.utf8Size = rest := by
    rw [← String.length_utf8EncodeChar c, List.drop_left]
  rw [hbytes, List.cons_append] at hdecode hdrop ⊢
  rw [lossy, hdecode]
  dsimp only
  rw [hdrop]

/-- **A text is read without losses.** -/
theorem lossy_encode (text : List Char) : lossy (encode text) = text := by
  induction text with
  | nil => rw [encode_nil, lossy]
  | cons c text ih => rw [encode_cons, lossy_encodeChar_append, ih]

/-- Reading invents no NUL. -/
theorem nul_not_mem_lossy {bytes : List UInt8} (h : 0 ∉ bytes) : Char.ofNat 0 ∉ lossy bytes := by
  induction bytes using lossy.induct with
  | case1 => simp [lossy]
  | case2 byte rest c hc ih =>
    rw [lossy, hc, List.mem_cons, not_or]
    refine ⟨?_, ih fun hmem => h (List.mem_of_mem_drop hmem)⟩
    rintro rfl
    have hpre := encodeChar_prefix hc
    rw [encodeChar_of_lt (by decide)] at hpre
    exact h (hpre.subset List.mem_cons_self)
  | case3 byte rest hnone ih =>
    rw [lossy, hnone, List.mem_cons, not_or]
    exact ⟨by decide, ih fun hmem => h (List.mem_of_mem_drop hmem)⟩

end Utf8
