import KakuneCore.Encoding.Bits
import KakuneCore.Encoding.Utf8
import KakuneCore.Lifecycle.Basic

/-!
# Base64

Three hand-written codecs: the encoder and the decoder of texts in tokens, without padding, and the
decoder of the digest of a package, which stops at the padding. Each decoder keeps a **bit buffer**;
what it returns are the whole bytes of what it has read, whatever its text. Texts are read as their
bytes in UTF-8.
-/

namespace KakuneCore

open Bits

/-! ### Tokens -/

def base64UrlTable : List Char :=
  "ABCDEFGHIJKLMNOPQRSTUVWXYZabcdefghijklmnopqrstuvwxyz0123456789-_".toList

/-- `slice::chunks(3)`. -/
def chunksOfThree : Bytes → List Bytes
  | [] => []
  | [a] => [[a]]
  | [a, b] => [[a, b]]
  | a :: b :: c :: rest => [a, b, c] :: chunksOfThree rest

/-- The characters of a chunk. -/
def base64UrlChunk (chunk : Bytes) : List Char :=
  let value := (chunk.getD 0 0).toNat <<< 16 ||| (chunk.getD 1 0).toNat <<< 8 |||
    (chunk.getD 2 0).toNat
  let digit (n : Nat) := base64UrlTable.getD (n &&& 63) 'A'
  [digit (value >>> 18), digit (value >>> 12)] ++
    (if 1 < chunk.length then [digit (value >>> 6)] else []) ++
    (if 2 < chunk.length then [digit value] else [])

/-- `base64_url`. -/
def base64Url (input : Bytes) : String := .ofList ((chunksOfThree input).flatMap base64UrlChunk)

/-- The number of a character: capital letters, small letters, digits, and two more. -/
def base64UrlDigit (byte : UInt8) : Option Nat :=
  if 65 ≤ byte ∧ byte ≤ 90 then some (byte - 65).toNat
  else if 97 ≤ byte ∧ byte ≤ 122 then some (byte - 97 + 26).toNat
  else if 48 ≤ byte ∧ byte ≤ 57 then some (byte - 48 + 52).toNat
  else if byte = 45 then some 62
  else if byte = 95 then some 63
  else none

/-- The inner loop: whole bytes are put out, and their bits are cleared. -/
def base64UrlDrain (value bits : Nat) (output : Bytes) : Nat × Nat × Bytes :=
  if 8 ≤ bits then
    base64UrlDrain (value &&& (1 <<< (bits - 8) - 1)) (bits - 8)
      (output ++ [.ofNat (value >>> (bits - 8))])
  else (value, bits, output)
termination_by bits

/-- The loop over the bytes of the text. -/
def base64UrlDecodeBytes (value bits : Nat) (output : Bytes) : Bytes → Option Bytes
  | [] => some output
  | byte :: rest => do
    let part ← base64UrlDigit byte
    let (value, bits, output) :=
      base64UrlDrain ((value <<< 6) % 2 ^ 32 ||| part) (bits + 6) output
    base64UrlDecodeBytes value bits output rest

/-- `base64_url_decode`. -/
def base64UrlDecode (input : String) : Option Bytes :=
  base64UrlDecodeBytes 0 0 [] (Utf8.encode input.toList)

/-! ### The digest of a package -/

def base64Alphabet : Bytes :=
  asciiBytes "ABCDEFGHIJKLMNOPQRSTUVWXYZabcdefghijklmnopqrstuvwxyz0123456789+/"

/-- `u8::is_ascii_whitespace`. -/
def isAsciiWhitespaceByte (byte : UInt8) : Bool := byte ∈ ([32, 9, 10, 12, 13] : Bytes)

/-- The inner loop, which clears nothing. -/
def base64Drain (buffer bits : Nat) (output : Bytes) : Nat × Bytes :=
  if 8 ≤ bits then
    base64Drain buffer (bits - 8) (output ++ [.ofNat (buffer >>> (bits - 8) &&& 0xff)])
  else (bits, output)
termination_by bits

/-- The loop over the bytes of the text, up to the padding. -/
def base64DecodeBytes (buffer bits : Nat) (output : Bytes) : Bytes → Except String Bytes
  | [] => .ok output
  | byte :: rest =>
    if byte = 61 then .ok output
    else do
      let value ← match base64Alphabet.idxOf? byte with
        | some value => .ok value
        | none => .error "npm integrity is not valid base64"
      let buffer := (buffer <<< 6) % 2 ^ 32 ||| value
      let (bits, output) := base64Drain buffer (bits + 6) output
      base64DecodeBytes buffer bits output rest

/-- `base64_decode`. -/
def base64Decode (value : String) : Except String Bytes :=
  base64DecodeBytes 0 0 [] ((Utf8.encode value.toList).filter fun byte =>
    !isAsciiWhitespaceByte byte)

/-- `str::strip_prefix`. -/
def stripPrefix (start text : String) : Option String :=
  if start.toList.isPrefixOf text.toList then some (.ofList (text.toList.drop start.toList.length))
  else none

/-- `verify_npm_integrity`, for the function of the library that is the digest. -/
def verifyNpmIntegrity (sha512 : Bytes → Bytes) (bytes : Bytes) (integrity : String) :
    Except String Unit := do
  let encoded ← match stripPrefix "sha512-" integrity with
    | some encoded => .ok encoded
    | none => .error "npm integrity must use sha512"
  let expected ← base64Decode encoded
  if expected = sha512 bytes then .ok () else .error "npm tarball integrity check failed"

/-! ### The standard -/

/-- The digits of a text: its bits in groups of six, the last group filled up with zeros. -/
def sextets : Bytes → List Nat
  | [] => []
  | [a] => [a.toNat / 4, a.toNat % 4 * 16]
  | [a, b] => [a.toNat / 4, a.toNat % 4 * 16 + b.toNat / 16, b.toNat % 16 * 4]
  | a :: b :: c :: rest => [a.toNat / 4, a.toNat % 4 * 16 + b.toNat / 16,
      b.toNat % 16 * 4 + c.toNat / 64, c.toNat % 64] ++ sextets rest

/-- The characters of the standard alphabet. -/
def standardChar (n : Nat) : Char :=
  "ABCDEFGHIJKLMNOPQRSTUVWXYZabcdefghijklmnopqrstuvwxyz0123456789+/".toList.getD n 'A'

/-- The padded text of the standard alphabet: its length is a multiple of four. -/
def standardBase64 (bytes : Bytes) : String :=
  .ofList ((sextets bytes).map standardChar ++ List.replicate ((3 - bytes.length % 3) % 3) '=')

/-! ### The encoders -/

/-- The characters of the alphabet for tokens. -/
def base64UrlChar (n : Nat) : Char := base64UrlTable.getD n 'A'

theorem sextets_lt (bytes : Bytes) : ∀ n ∈ sextets bytes, n < 2 ^ 6 := by
  induction bytes using sextets.induct with
  | case1 => simp [sextets]
  | case2 a =>
    have ha := a.toNat_lt
    simp only [sextets, List.forall_mem_cons, List.not_mem_nil, false_implies, implies_true,
      and_true]
    omega
  | case3 a b =>
    have ha := a.toNat_lt
    have hb := b.toNat_lt
    simp only [sextets, List.forall_mem_cons, List.not_mem_nil, false_implies, implies_true,
      and_true]
    omega
  | case4 a b c rest ih =>
    have ha := a.toNat_lt
    have hb := b.toNat_lt
    have hc := c.toNat_lt
    simp only [sextets, List.forall_mem_append, List.forall_mem_cons, List.not_mem_nil,
      false_implies, implies_true, and_true]
    refine ⟨?_, ih⟩
    omega

/-- Digits behind a number, by sums. -/
theorem bits_mul_add {v w m n d : Nat} (hd : d < 2 ^ w) (hm : m = n * 2 ^ w + d) :
    bits (v + w) m = bits v n ++ bits w d := by
  rw [hm, ← Nat.shiftLeft_eq, Nat.shiftLeft_add_eq_or_of_lt hd, bits_shiftLeft_or v hd]

/-- The digits of a number that stand to the left of others, and the others. -/
theorem bits_div_mod (v w n : Nat) : bits (v + w) n = bits v (n / 2 ^ w) ++ bits w (n % 2 ^ w) := by
  rw [bits_add, Nat.shiftRight_eq_div_pow, bits_mod le_rfl]

/-- **The digits hold the bits of the text**, and less than a byte of zeros. -/
theorem groups_sextets (bytes : Bytes) :
    ∃ rest, rest.length < 8 ∧ groups 6 (sextets bytes) = byteBits bytes ++ rest := by
  have hfirst (a : UInt8) : bits 8 a.toNat = bits 6 (a.toNat / 4) ++ bits 2 (a.toNat % 4) :=
    bits_div_mod 6 2 a.toNat
  have hsecond (b : UInt8) : bits 8 b.toNat = bits 4 (b.toNat / 16) ++ bits 4 (b.toNat % 16) :=
    bits_div_mod 4 4 b.toNat
  induction bytes using sextets.induct with
  | case1 => exact ⟨[], by decide, rfl⟩
  | case2 a =>
    refine ⟨bits 4 0, by decide, ?_⟩
    have hlast : bits 6 (a.toNat % 4 * 16) = bits 2 (a.toNat % 4) ++ bits 4 0 :=
      bits_mul_add (v := 2) (w := 4) (by decide) (by omega)
    rw [sextets, groups_cons, groups_cons, groups_nil, hlast, byteBits_singleton, hfirst,
      List.append_nil, List.append_assoc]
  | case3 a b =>
    refine ⟨bits 2 0, by decide, ?_⟩
    have hb := b.toNat_lt
    have hmiddle : bits 6 (a.toNat % 4 * 16 + b.toNat / 16) =
        bits 2 (a.toNat % 4) ++ bits 4 (b.toNat / 16) :=
      bits_mul_add (v := 2) (w := 4) (by omega) (by omega)
    have hlast : bits 6 (b.toNat % 16 * 4) = bits 4 (b.toNat % 16) ++ bits 2 0 :=
      bits_mul_add (v := 4) (w := 2) (by decide) (by omega)
    rw [sextets, groups_cons, groups_cons, groups_cons, groups_nil, hmiddle, hlast,
      byteBits_cons, byteBits_singleton, hfirst a, hsecond b]
    simp only [List.append_assoc, List.append_nil]
  | case4 a b c rest ih =>
    obtain ⟨bitsLeft, hshort, hrest⟩ := ih
    refine ⟨bitsLeft, hshort, ?_⟩
    have hb := b.toNat_lt
    have hc := c.toNat_lt
    have hthird : bits 8 c.toNat = bits 2 (c.toNat / 64) ++ bits 6 (c.toNat % 64) :=
      bits_div_mod 2 6 c.toNat
    have hleft : bits 6 (a.toNat % 4 * 16 + b.toNat / 16) =
        bits 2 (a.toNat % 4) ++ bits 4 (b.toNat / 16) :=
      bits_mul_add (v := 2) (w := 4) (by omega) (by omega)
    have hright : bits 6 (b.toNat % 16 * 4 + c.toNat / 64) =
        bits 4 (b.toNat % 16) ++ bits 2 (c.toNat / 64) :=
      bits_mul_add (v := 4) (w := 2) (by omega) (by omega)
    rw [sextets, groups_append, hrest, groups_cons, groups_cons, groups_cons, groups_cons,
      groups_nil, hleft, hright, byteBits_cons, byteBits_cons, byteBits_cons, hfirst a, hsecond b,
      hthird]
    simp only [List.append_assoc, List.nil_append]

theorem base64UrlChunk_value {a b c : UInt8} :
    a.toNat <<< 16 ||| b.toNat <<< 8 ||| c.toNat =
      a.toNat * 65536 + b.toNat * 256 + c.toNat := by
  have hb := b.toNat_lt
  have hc := c.toNat_lt
  have hlow : b.toNat <<< 8 + c.toNat = b.toNat <<< 8 ||| c.toNat :=
    Nat.shiftLeft_add_eq_or_of_lt hc b.toNat
  have hhigh : a.toNat <<< 16 + (b.toNat <<< 8 + c.toNat) =
      a.toNat <<< 16 ||| (b.toNat <<< 8 + c.toNat) :=
    Nat.shiftLeft_add_eq_or_of_lt (by rw [Nat.shiftLeft_eq]; omega) a.toNat
  rw [Nat.or_assoc, ← hlow, ← hhigh, Nat.shiftLeft_eq, Nat.shiftLeft_eq]
  omega

/-- The last six digits of a number that is shifted. -/
theorem shiftRight_and_sixtyThree (n k : Nat) : n >>> k &&& 63 = n / 2 ^ k % 64 := by
  rw [Nat.shiftRight_eq_div_pow, show 63 = 2 ^ 6 - 1 by rfl, Nat.and_two_pow_sub_one_eq_mod]

/-- The four digits of a chunk of three bytes. -/
theorem base64UrlChunk_digits (a b c : UInt8) :
    let value := a.toNat <<< 16 ||| b.toNat <<< 8 ||| c.toNat
    value >>> 18 &&& 63 = a.toNat / 4 ∧
      value >>> 12 &&& 63 = a.toNat % 4 * 16 + b.toNat / 16 ∧
      value >>> 6 &&& 63 = b.toNat % 16 * 4 + c.toNat / 64 ∧
      value &&& 63 = c.toNat % 64 := by
  intro value
  have ha := a.toNat_lt
  have hb := b.toNat_lt
  have hc := c.toNat_lt
  have hvalue : value = a.toNat * 65536 + b.toNat * 256 + c.toNat := base64UrlChunk_value
  have hzero : value &&& 63 = value % 64 := Nat.and_two_pow_sub_one_eq_mod value 6
  rw [shiftRight_and_sixtyThree, shiftRight_and_sixtyThree, shiftRight_and_sixtyThree, hzero,
    hvalue]
  omega

/-- **The encoder** writes the digits of its text. -/
theorem toList_base64Url (input : Bytes) :
    (base64Url input).toList = (sextets input).map base64UrlChar := by
  have hzero : (0 : UInt8).toNat = 0 := rfl
  rw [base64Url, String.toList_ofList]
  induction input using sextets.induct with
  | case1 => rfl
  | case2 a =>
    obtain ⟨hfirst, hsecond, -, -⟩ := base64UrlChunk_digits a 0 0
    rw [hzero, Nat.zero_div, Nat.add_zero] at hsecond
    have hchunk : base64UrlChunk [a] = [base64UrlChar (a.toNat / 4),
        base64UrlChar (a.toNat % 4 * 16)] := by
      rw [← hfirst, ← hsecond]
      rfl
    rw [chunksOfThree, List.flatMap_singleton, hchunk]
    rfl
  | case3 a b =>
    obtain ⟨hfirst, hsecond, hthird, -⟩ := base64UrlChunk_digits a b 0
    rw [hzero, Nat.zero_div, Nat.add_zero] at hthird
    have hchunk : base64UrlChunk [a, b] = [base64UrlChar (a.toNat / 4),
        base64UrlChar (a.toNat % 4 * 16 + b.toNat / 16), base64UrlChar (b.toNat % 16 * 4)] := by
      rw [← hfirst, ← hsecond, ← hthird]
      rfl
    rw [chunksOfThree, List.flatMap_singleton, hchunk]
    rfl
  | case4 a b c rest ih =>
    obtain ⟨hfirst, hsecond, hthird, hfourth⟩ := base64UrlChunk_digits a b c
    have hchunk : base64UrlChunk [a, b, c] = [base64UrlChar (a.toNat / 4),
        base64UrlChar (a.toNat % 4 * 16 + b.toNat / 16),
        base64UrlChar (b.toNat % 16 * 4 + c.toNat / 64), base64UrlChar (c.toNat % 64)] := by
      rw [← hfirst, ← hsecond, ← hthird, ← hfourth]
      rfl
    rw [chunksOfThree, List.flatMap_cons, ih, hchunk, sextets, List.map_append]
    rfl

/-! ### The decoder of tokens -/

section Decoders

variable {read : List Bool} {digits : List Nat} {bytes output : Bytes} {count value buffer : Nat}

/-- Whole bytes are put out until less than one is left. -/
theorem base64UrlDrain_spec (h : Holds read output count value) :
    ∃ value' count' output', base64UrlDrain value count output = (value', count', output') ∧
      count' < 8 ∧ Holds read output' count' value' := by
  fun_induction base64UrlDrain value count output with
  | case1 value count output hbyte ih =>
    obtain ⟨left, rfl⟩ := Nat.exists_eq_add_of_le' hbyte
    rw [Nat.add_sub_cancel] at ih ⊢
    exact ih h.take.mask
  | case2 value count output hshort => exact ⟨value, count, output, rfl, by omega, h⟩

/-- **The decoder of tokens puts out the whole bytes of what it reads.** -/
theorem base64UrlDecodeBytes_spec
    (hdigits : List.Forall₂ (fun byte d => base64UrlDigit byte = some d ∧ d < 2 ^ 6) bytes digits)
    (hcount : count < 8) (h : Holds read output count value) :
    ∃ value' count' output', base64UrlDecodeBytes value count output bytes = some output' ∧
      count' < 8 ∧ Holds (read ++ groups 6 digits) output' count' value' := by
  induction hdigits generalizing read output count value with
  | nil => exact ⟨value, count, output, rfl, hcount, by rwa [groups_nil, List.append_nil]⟩
  | cons hdigit _ ih =>
    obtain ⟨hdigit, hlt⟩ := hdigit
    obtain ⟨value', count', output', hdrain, hcount', hdrained⟩ :=
      base64UrlDrain_spec (h.push 32 hlt (by omega))
    obtain ⟨value'', count'', output'', hrest, hcount'', hread⟩ := ih hcount' hdrained
    refine ⟨value'', count'', output'', ?_, hcount'', ?_⟩
    · rw [base64UrlDecodeBytes, hdigit]
      simp only [Option.bind_eq_bind, Option.bind_some]
      rw [hdrain]
      exact hrest
    · rwa [groups_cons, ← List.append_assoc]

theorem base64UrlDigit_char :
    ∀ n : Fin 64, (base64UrlChar n).toNat < 128 ∧
      base64UrlDigit (.ofNat (base64UrlChar n).toNat) = some n.val := by
  decide +kernel

/-! ### The decoder of digests -/

theorem base64Drain_spec (h : Holds read output count buffer) :
    ∃ count' output', base64Drain buffer count output = (count', output') ∧ count' < 8 ∧
      Holds read output' count' buffer := by
  fun_induction base64Drain buffer count output with
  | case1 count output hbyte ih =>
    obtain ⟨left, rfl⟩ := Nat.exists_eq_add_of_le' hbyte
    rw [Nat.add_sub_cancel] at ih ⊢
    have hmask : (255 : Nat) = 2 ^ 8 - 1 := rfl
    have hbyte : UInt8.ofNat (buffer >>> left &&& 0xff) = UInt8.ofNat (buffer >>> left) := by
      rw [hmask, Nat.and_two_pow_sub_one_eq_mod]
      exact UInt8.ofNat_mod_size
    rw [hbyte] at ih ⊢
    exact ih h.take
  | case2 count output hshort => exact ⟨count, output, rfl, by omega, h⟩

/-- Nothing is read from the padding on. -/
theorem base64DecodeBytes_padding (padding : Nat) :
    base64DecodeBytes buffer count output (List.replicate padding 61) = .ok output := by
  cases padding with
  | zero => rfl
  | succ padding => rw [List.replicate_succ, base64DecodeBytes, if_pos rfl]

/-- **The decoder of digests puts out the whole bytes of what it reads**, up to the padding. -/
theorem base64DecodeBytes_spec (padding : Nat)
    (hdigits : List.Forall₂ (fun byte d => byte ≠ 61 ∧ base64Alphabet.idxOf? byte = some d ∧
      d < 2 ^ 6) bytes digits)
    (hcount : count < 8) (h : Holds read output count buffer) :
    ∃ buffer' count' output',
      base64DecodeBytes buffer count output (bytes ++ List.replicate padding 61) = .ok output' ∧
      count' < 8 ∧ Holds (read ++ groups 6 digits) output' count' buffer' := by
  induction hdigits generalizing read output count buffer with
  | nil =>
    refine ⟨buffer, count, output, base64DecodeBytes_padding padding, hcount, ?_⟩
    rwa [groups_nil, List.append_nil]
  | cons hdigit _ ih =>
    obtain ⟨hpadding, hdigit, hlt⟩ := hdigit
    obtain ⟨count', output', hdrain, hcount', hdrained⟩ :=
      base64Drain_spec (h.push 32 hlt (by omega))
    obtain ⟨buffer'', count'', output'', hrest, hcount'', hread⟩ := ih hcount' hdrained
    refine ⟨buffer'', count'', output'', ?_, hcount'', ?_⟩
    · rw [List.cons_append, base64DecodeBytes, if_neg hpadding, hdigit]
      simp only [bind, Except.bind, hdrain]
      exact hrest
    · rwa [groups_cons, ← List.append_assoc]

end Decoders

theorem base64Alphabet_char :
    ∀ n : Fin 64, (standardChar n).toNat < 128 ∧ UInt8.ofNat (standardChar n).toNat ≠ 61 ∧
      isAsciiWhitespaceByte (.ofNat (standardChar n).toNat) = false ∧
      base64Alphabet.idxOf? (.ofNat (standardChar n).toNat) = some n.val := by
  decide +kernel

/-- **The decoder of tokens is the inverse of their encoder.** -/
theorem base64UrlDecode_base64Url (bytes : Bytes) :
    base64UrlDecode (base64Url bytes) = some bytes := by
  have hdigit : ∀ n ∈ sextets bytes, (base64UrlChar n).toNat < 128 ∧
      base64UrlDigit (.ofNat (base64UrlChar n).toNat) = some n := fun n hn =>
    base64UrlDigit_char ⟨n, sextets_lt bytes n hn⟩
  obtain ⟨rest, hshort, hgroups⟩ := groups_sextets bytes
  have htext : Utf8.encode (base64Url bytes).toList =
      (sextets bytes).map fun n => .ofNat (base64UrlChar n).toNat := by
    rw [toList_base64Url, Utf8.encode_of_lt (List.forall_mem_map.mpr fun n hn => (hdigit n hn).1),
      List.map_map]
    rfl
  have hdigits : List.Forall₂ (fun byte d => base64UrlDigit byte = some d ∧ d < 2 ^ 6)
      ((sextets bytes).map fun n => .ofNat (base64UrlChar n).toNat) (sextets bytes) := by
    rw [List.forall₂_map_left_iff, List.forall₂_same]
    exact fun n hn => ⟨(hdigit n hn).2, sextets_lt bytes n hn⟩
  obtain ⟨value, count, output, houtput, hcount, hread⟩ :=
    base64UrlDecodeBytes_spec hdigits (by decide) (Holds.init 0)
  rw [List.nil_append, hgroups] at hread
  rw [base64UrlDecode, htext, houtput, hread.eq hcount hshort]

example : standardBase64 [104, 105] = "aGk=" := by decide +kernel

theorem encode_standardBase64 (bytes : Bytes) :
    Utf8.encode (standardBase64 bytes).toList =
      (sextets bytes).map (fun n => .ofNat (standardChar n).toNat) ++
        List.replicate ((3 - bytes.length % 3) % 3) 61 := by
  have hchars : ∀ c ∈ (sextets bytes).map standardChar, c.toNat < 128 :=
    List.forall_mem_map.mpr fun n hn => (base64Alphabet_char ⟨n, sextets_lt bytes n hn⟩).1
  have hpadding : ∀ c ∈ List.replicate ((3 - bytes.length % 3) % 3) '=', c.toNat < 128 :=
    fun c hc => (List.eq_of_mem_replicate hc).symm ▸ by decide
  rw [standardBase64, String.toList_ofList, Utf8.encode_append, Utf8.encode_of_lt hchars,
    Utf8.encode_of_lt hpadding, List.map_map, List.map_replicate]
  rfl

/-- **The decoder of digests is the inverse of the standard.** -/
theorem base64Decode_standardBase64 (bytes : Bytes) :
    base64Decode (standardBase64 bytes) = .ok bytes := by
  have hdigit : ∀ n ∈ sextets bytes, (standardChar n).toNat < 128 ∧
      UInt8.ofNat (standardChar n).toNat ≠ 61 ∧
      isAsciiWhitespaceByte (.ofNat (standardChar n).toNat) = false ∧
      base64Alphabet.idxOf? (.ofNat (standardChar n).toNat) = some n := fun n hn =>
    base64Alphabet_char ⟨n, sextets_lt bytes n hn⟩
  obtain ⟨rest, hshort, hgroups⟩ := groups_sextets bytes
  -- no character of the text is left out as white space
  have htext : (Utf8.encode (standardBase64 bytes).toList).filter
      (fun byte => !isAsciiWhitespaceByte byte) = Utf8.encode (standardBase64 bytes).toList := by
    rw [encode_standardBase64, List.filter_eq_self]
    intro byte hbyte
    rcases List.mem_append.mp hbyte with hbyte | hbyte
    · obtain ⟨n, hn, rfl⟩ := List.mem_map.mp hbyte
      rw [(hdigit n hn).2.2.1, Bool.not_false]
    · rw [List.eq_of_mem_replicate hbyte]
      rfl
  have hdigits : List.Forall₂ (fun byte d => byte ≠ 61 ∧ base64Alphabet.idxOf? byte = some d ∧
      d < 2 ^ 6) ((sextets bytes).map fun n => .ofNat (standardChar n).toNat) (sextets bytes) := by
    rw [List.forall₂_map_left_iff, List.forall₂_same]
    exact fun n hn => ⟨(hdigit n hn).2.1, (hdigit n hn).2.2.2, sextets_lt bytes n hn⟩
  obtain ⟨buffer, count, output, houtput, hcount, hread⟩ :=
    base64DecodeBytes_spec ((3 - bytes.length % 3) % 3) hdigits (by decide)
      (Holds.init 0)
  rw [List.nil_append, hgroups] at hread
  rw [base64Decode, htext, encode_standardBase64, houtput, hread.eq hcount hshort]

theorem stripPrefix_append (start text : String) :
    stripPrefix start (start ++ text) = some text := by
  have hstart : start.toList.isPrefixOf (start.toList ++ text.toList) = true :=
    List.isPrefixOf_iff_prefix.mpr (List.prefix_append _ _)
  rw [stripPrefix, String.toList_append, if_pos hstart, List.drop_left, String.ofList_toList]

/-- The texts of the standard are checked as their digests. -/
theorem verifyNpmIntegrity_standardBase64 {sha512 : Bytes → Bytes} {tarball digest : Bytes} :
    verifyNpmIntegrity sha512 tarball ("sha512-" ++ standardBase64 digest) = .ok () ↔
      digest = sha512 tarball := by
  rw [verifyNpmIntegrity, stripPrefix_append]
  simp only [bind, Except.bind, base64Decode_standardBase64]
  split
  · exact iff_of_true rfl ‹_›
  · exact iff_of_false (by rintro ⟨⟩) ‹_›

/-- **The codecs are inverse**: a token is read back from its text, a digest from its standard text,
and a package passes with the standard text of a digest if and only if the digest is its own. -/
theorem base64_codecs_are_inverse :
    (∀ bytes, base64UrlDecode (base64Url bytes) = some bytes) ∧
      (∀ bytes, base64Decode (standardBase64 bytes) = .ok bytes) ∧
      ∀ (sha512 : Bytes → Bytes) (tarball digest : Bytes),
        verifyNpmIntegrity sha512 tarball ("sha512-" ++ standardBase64 digest) = .ok () ↔
          digest = sha512 tarball :=
  ⟨base64UrlDecode_base64Url, base64Decode_standardBase64, fun _ _ _ =>
    verifyNpmIntegrity_standardBase64⟩

end KakuneCore
