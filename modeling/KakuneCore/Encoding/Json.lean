import KakuneCore.Encoding.Utf8
import KakuneCore.Numeric.Binary64
import KakuneCore.Workflow.Value

/-!
# JSON texts

A writer and a reader for JSON texts. The writer puts no blanks between tokens and escapes what has
to be escaped; the reader accepts the whole grammar, keeps the members of an object in the order of
the text, and follows arrays and objects to a given depth. What is **written** is read back
(`parse_render`), and so are the digits of a number between blanks (`parse_digits`), while no other
white space may stand around a text.
-/

namespace Json

open KakuneCore

/-! ### Blanks -/

/-- The white space that may stand between tokens. -/
def isBlank (c : Char) : Bool := c = ' ' || c = '\t' || c = '\n' || c = '\r'

def skipBlank (text : List Char) : List Char := text.dropWhile isBlank

theorem skipBlank_cons {c : Char} (h : isBlank c = false) (text : List Char) :
    skipBlank (c :: text) = c :: text := by
  rw [skipBlank, List.dropWhile_cons_of_neg (by simp [h])]

theorem skipBlank_append {blanks : List Char} (h : ∀ c ∈ blanks, isBlank c = true)
    (text : List Char) : skipBlank (blanks ++ text) = skipBlank text :=
  List.dropWhile_append_of_pos h

/-! ### Strings -/

/-- The escape of a control character with a code below 32. -/
def escapeControl (n : Nat) : List Char :=
  if n = 8 then ['\\', 'b']
  else if n = 9 then ['\\', 't']
  else if n = 10 then ['\\', 'n']
  else if n = 12 then ['\\', 'f']
  else if n = 13 then ['\\', 'r']
  else ['\\', 'u', '0', '0', Nat.digitChar (n / 16), Nat.digitChar (n % 16)]

def escapeChar (c : Char) : List Char :=
  if c = '"' then ['\\', '"']
  else if c = '\\' then ['\\', '\\']
  else if c.toNat < 32 then escapeControl c.toNat
  else [c]

/-- The text of a string, with its closing quote and what follows. -/
def stringTail (s rest : List Char) : List Char := s.flatMap escapeChar ++ '"' :: rest

/-- The value of a hexadecimal digit. -/
def hexValue? (c : Char) : Option Nat :=
  if '0' ≤ c ∧ c ≤ '9' then some (c.toNat - '0'.toNat)
  else if 'a' ≤ c ∧ c ≤ 'f' then some (c.toNat - 'a'.toNat + 10)
  else if 'A' ≤ c ∧ c ≤ 'F' then some (c.toNat - 'A'.toNat + 10)
  else none

/-- The value of four hexadecimal digits, and what follows them. -/
def readHex4 : List Char → Option (Nat × List Char)
  | a :: b :: c :: d :: rest => do
    let a ← hexValue? a
    let b ← hexValue? b
    let c ← hexValue? c
    let d ← hexValue? d
    some (((a * 16 + b) * 16 + c) * 16 + d, rest)
  | _ => none

/-- The second half of a surrogate pair. -/
def readLowSurrogate (high : Nat) : List Char → Option (Char × List Char)
  | '\\' :: 'u' :: rest => do
    let (low, rest) ← readHex4 rest
    if 0xDC00 ≤ low ∧ low < 0xE000 then
      some (Char.ofNat (0x10000 + (high - 0xD800) * 0x400 + (low - 0xDC00)), rest)
    else none
  | _ => none

/-- The character of an escape, behind its backslash. -/
def readEscape : List Char → Option (Char × List Char)
  | '"' :: rest => some ('"', rest)
  | '\\' :: rest => some ('\\', rest)
  | '/' :: rest => some ('/', rest)
  | 'b' :: rest => some (Char.ofNat 8, rest)
  | 't' :: rest => some (Char.ofNat 9, rest)
  | 'n' :: rest => some (Char.ofNat 10, rest)
  | 'f' :: rest => some (Char.ofNat 12, rest)
  | 'r' :: rest => some (Char.ofNat 13, rest)
  | 'u' :: rest => do
    let (n, rest) ← readHex4 rest
    if 0xD800 ≤ n ∧ n < 0xDC00 then readLowSurrogate n rest
    else if 0xDC00 ≤ n ∧ n < 0xE000 then none
    else some (Char.ofNat n, rest)
  | _ => none

/-- The characters of a string up to its closing quote, and what follows it. -/
def readString : Nat → List Char → Option (List Char × List Char)
  | 0, _ => none
  | _ + 1, [] => none
  | fuel + 1, c :: rest =>
    if c = '"' then some ([], rest)
    else if c = '\\' then do
      let (d, rest) ← readEscape rest
      let (s, rest) ← readString fuel rest
      some (d :: s, rest)
    else if c.toNat < 32 then none
    else do
      let (s, rest) ← readString fuel rest
      some (c :: s, rest)

theorem readEscape_escapeControl : ∀ n : Fin 32, ∀ rest : List Char,
    readEscape ((escapeControl n).tail ++ rest) = some (Char.ofNat n, rest) := by
  intro n rest
  fin_cases n <;> rfl

theorem head?_escapeControl (n : Nat) : (escapeControl n).head? = some '\\' := by
  unfold escapeControl
  split_ifs <;> rfl

/-- An escaped character is read as itself. -/
theorem readString_escapeChar (fuel : Nat) (c : Char) (rest : List Char) :
    readString (fuel + 1) (escapeChar c ++ rest) =
      (readString fuel rest).map fun found => (c :: found.1, found.2) := by
  unfold escapeChar
  split_ifs with hquote hslash hcontrol
  · subst hquote
    rcases h : readString fuel rest with - | ⟨s, rest'⟩ <;>
      simp [readString, readEscape, h]
  · subst hslash
    rcases h : readString fuel rest with - | ⟨s, rest'⟩ <;>
      simp [readString, readEscape, h]
  · -- the escape is a backslash and what `readEscape` turns back into the character
    obtain ⟨first, behind, hescape⟩ := List.exists_cons_of_ne_nil
      (show escapeControl c.toNat ≠ [] from fun hnil => by
        have hhead := head?_escapeControl c.toNat
        rw [hnil] at hhead
        simp at hhead)
    have hfirst : first = '\\' := by
      have hhead := head?_escapeControl c.toNat
      rw [hescape] at hhead
      exact Option.some.inj hhead
    have hread := readEscape_escapeControl ⟨c.toNat, hcontrol⟩ rest
    rw [hescape, List.tail_cons, Char.ofNat_toNat] at hread
    rw [hescape, hfirst, List.cons_append]
    rcases h : readString fuel rest with - | ⟨s, rest'⟩ <;>
      simp [readString, hread, h]
  · rcases h : readString fuel rest with - | ⟨s, rest'⟩ <;>
      simp [readString, hquote, hslash, hcontrol, h]

theorem length_escapeChar_pos (c : Char) : 0 < (escapeChar c).length := by
  unfold escapeChar escapeControl
  split_ifs <;> simp

theorem stringTail_append (s rest more : List Char) :
    stringTail s rest ++ more = stringTail s (rest ++ more) := by
  simp [stringTail]

theorem length_stringTail (s rest : List Char) :
    (stringTail s rest).length = (s.flatMap escapeChar).length + 1 + rest.length := by
  simp only [stringTail, List.length_append, List.length_cons]
  omega

/-- **A string is read back.** -/
theorem readString_stringTail {fuel : Nat} {s rest : List Char}
    (h : (stringTail s rest).length ≤ fuel + rest.length) :
    readString fuel (stringTail s rest) = some (s, rest) := by
  induction s generalizing fuel with
  | nil =>
    simp only [stringTail, List.flatMap_nil, List.nil_append, List.length_cons] at h
    obtain ⟨fuel, rfl⟩ : ∃ n, fuel = n + 1 := ⟨fuel - 1, by omega⟩
    simp [stringTail, readString]
  | cons c s ih =>
    have hpos := length_escapeChar_pos c
    rw [stringTail, List.flatMap_cons, List.append_assoc, ← stringTail] at h ⊢
    rw [List.length_append] at h
    have hlength : rest.length < (stringTail s rest).length := by
      rw [length_stringTail]
      omega
    obtain ⟨fuel, rfl⟩ : ∃ n, fuel = n + 1 := ⟨fuel - 1, by omega⟩
    rw [readString_escapeChar, ih (by omega)]
    rfl

/-! ### Numbers -/

/-- The nearest binary64, unless it is not finite. -/
def nearestFloat (q : Rat) : Option Number :=
  match Binary64.round q with
  | .finite q => some (.float q)
  | .nonFinite => none

/-- An integer in the range of `u64` or `i64` stays one. -/
def integerNumber (negative : Bool) (n : Nat) : Option Number :=
  if negative then
    if n = 0 then some (.float 0)
    else if n ≤ 2 ^ 63 then some (.int (-n))
    else nearestFloat (-n)
  else if n < 2 ^ 64 then some (.int n)
  else nearestFloat n

/-- The digits behind a point. -/
def readFraction : List Char → Option (List Char × List Char)
  | '.' :: rest =>
    if rest.takeWhile Char.isDigit = [] then none
    else some (rest.takeWhile Char.isDigit, rest.dropWhile Char.isDigit)
  | text => some ([], text)

/-- The digits of an exponent, behind its sign. -/
def readExponentDigits (negative : Bool) (text : List Char) : Option (Option Int × List Char) :=
  if text.takeWhile Char.isDigit = [] then none
  else
    let n := Nat.ofDigitChars 10 (text.takeWhile Char.isDigit) 0
    some (some (if negative then -n else n), text.dropWhile Char.isDigit)

def readExponent : List Char → Option (Option Int × List Char)
  | [] => some (none, [])
  | c :: rest =>
    if c = 'e' ∨ c = 'E' then
      match rest with
      | '-' :: rest => readExponentDigits true rest
      | '+' :: rest => readExponentDigits false rest
      | rest => readExponentDigits false rest
    else some (none, c :: rest)

/-- A number without its sign. -/
def readUnsigned (negative : Bool) (text : List Char) : Option (Number × List Char) :=
  let digits := text.takeWhile Char.isDigit
  if digits = [] ∨ (digits.head? = some '0' ∧ digits ≠ ['0']) then none
  else do
    let (fraction, rest) ← readFraction (text.dropWhile Char.isDigit)
    let (exponent, rest) ← readExponent rest
    let mantissa := Nat.ofDigitChars 10 (digits ++ fraction) 0
    let number ←
      if fraction = [] ∧ exponent = none then integerNumber negative mantissa
      else
        let scale : Rat := 10 ^ (exponent.getD 0 - fraction.length)
        nearestFloat ((if negative then -1 else 1) * mantissa * scale)
    some (number, rest)

def readNumber : List Char → Option (Number × List Char)
  | '-' :: rest => readUnsigned true rest
  | text => readUnsigned false text

/-- The text does not go on with a character that could belong to a number before it. -/
def EndsNumber (rest : List Char) : Prop :=
  ∀ c ∈ rest.head?, c.isDigit = false ∧ c ≠ '.' ∧ c ≠ 'e' ∧ c ≠ 'E'

theorem takeWhile_digits {digits rest : List Char} (h : ∀ c ∈ digits, c.isDigit = true)
    (hrest : EndsNumber rest) : (digits ++ rest).takeWhile Char.isDigit = digits := by
  rw [List.takeWhile_append_of_pos h]
  rcases rest with - | ⟨c, rest⟩
  · simp
  · have hc := (hrest c rfl).1
    simp [hc]

theorem dropWhile_digits {digits rest : List Char} (h : ∀ c ∈ digits, c.isDigit = true)
    (hrest : EndsNumber rest) : (digits ++ rest).dropWhile Char.isDigit = rest := by
  rw [List.dropWhile_append_of_pos h]
  rcases rest with - | ⟨c, rest⟩
  · simp
  · have hc := (hrest c rfl).1
    simp [hc]

theorem readFraction_of_ends {rest : List Char} (h : EndsNumber rest) :
    readFraction rest = some ([], rest) := by
  rcases rest with - | ⟨c, rest⟩
  · rfl
  · have hc := (h c rfl).2.1
    unfold readFraction
    split
    · next heq =>
      obtain ⟨rfl, -⟩ := List.cons.inj heq
      exact absurd rfl hc
    · rfl

theorem readExponent_of_ends {rest : List Char} (h : EndsNumber rest) :
    readExponent rest = some (none, rest) := by
  rcases rest with - | ⟨c, rest⟩
  · rfl
  · obtain ⟨-, -, he, hE⟩ := h c rfl
    simp [readExponent, he, hE]

theorem isDigit_of_mem_toDigits {n : Nat} : ∀ c ∈ Nat.toDigits 10 n, c.isDigit = true :=
  fun _ hc => Nat.isDigit_of_mem_toDigits (by decide) (by decide) hc

/-- The decimal digits of a positive number do not begin with a zero. -/
theorem head?_toDigits {n : Nat} (h : 0 < n) : (Nat.toDigits 10 n).head? ≠ some '0' := by
  induction n using Nat.strong_induction_on with
  | h n ih =>
    rw [Nat.toDigits_eq_if (by decide)]
    split_ifs with hlt
    · have hdigit : ∀ d : Fin 10, 0 < d.val → Nat.digitChar d ≠ '0' := by decide
      simpa using hdigit ⟨n, hlt⟩ h
    · have hne : Nat.toDigits 10 (n / 10) ≠ [] := Nat.toDigits_ne_nil
      rw [List.head?_append_of_ne_nil _ hne]
      exact ih (n / 10) (by omega) (by omega)

/-- **The digits of a number are read as it.** -/
theorem readUnsigned_toDigits (negative : Bool) (n : Nat) {rest : List Char}
    (h : EndsNumber rest) :
    readUnsigned negative (Nat.toDigits 10 n ++ rest) =
      (integerNumber negative n).map fun number => (number, rest) := by
  have hzero : ¬ (Nat.toDigits 10 n = [] ∨
      ((Nat.toDigits 10 n).head? = some '0' ∧ Nat.toDigits 10 n ≠ ['0'])) := by
    rintro (hnil | ⟨hhead, hne⟩)
    · exact Nat.toDigits_ne_nil hnil
    · rcases Nat.eq_zero_or_pos n with rfl | hpos
      · exact hne (Nat.toDigits_zero 10)
      · exact head?_toDigits hpos hhead
  simp only [readUnsigned, takeWhile_digits isDigit_of_mem_toDigits h,
    dropWhile_digits isDigit_of_mem_toDigits h, if_neg hzero, readFraction_of_ends h,
    readExponent_of_ends h, Option.bind_eq_bind, Option.bind_some, List.append_nil, and_self,
    if_true, Nat.ofDigitChars_ten_toDigits]
  rcases integerNumber negative n with - | number <;> rfl

/-- The text of an integer. -/
def renderInt (z : Int) : List Char :=
  if z < 0 then '-' :: Nat.toDigits 10 z.natAbs else Nat.toDigits 10 z.natAbs

theorem readNumber_of_digit {c : Char} (h : c.isDigit = true) (text : List Char) :
    readNumber (c :: text) = readUnsigned false (c :: text) := by
  unfold readNumber
  split
  · next heq =>
    obtain ⟨rfl, -⟩ := List.cons.inj heq
    simp at h
  · rfl

theorem exists_toDigits (n : Nat) :
    ∃ c cs, Nat.toDigits 10 n = c :: cs ∧ c.isDigit = true := by
  obtain ⟨c, cs, h⟩ := List.exists_cons_of_ne_nil (Nat.toDigits_ne_nil (b := 10) (n := n))
  exact ⟨c, cs, h, isDigit_of_mem_toDigits c (h ▸ List.mem_cons_self)⟩

theorem readNumber_toDigits (n : Nat) {rest : List Char} (h : EndsNumber rest) :
    readNumber (Nat.toDigits 10 n ++ rest) =
      (integerNumber false n).map fun number => (number, rest) := by
  obtain ⟨c, cs, hdigits, hc⟩ := exists_toDigits n
  rw [← readUnsigned_toDigits false n h, hdigits, List.cons_append, readNumber_of_digit hc]

/-- **An integer in range is read back.** -/
theorem readNumber_renderInt {z : Int} (hlow : -(2 ^ 63) ≤ z) (hhigh : z < 2 ^ 64)
    {rest : List Char} (h : EndsNumber rest) :
    readNumber (renderInt z ++ rest) = some (.int z, rest) := by
  unfold renderInt
  split_ifs with hneg
  · rw [List.cons_append, readNumber, readUnsigned_toDigits true _ h]
    have hne : z.natAbs ≠ 0 := by omega
    have hle : z.natAbs ≤ 2 ^ 63 := by omega
    have hz : -(z.natAbs : Int) = z := by omega
    rw [integerNumber, if_pos rfl, if_neg hne, if_pos hle, hz]
    rfl
  · rw [readNumber_toDigits _ h]
    have hlt : z.natAbs < 2 ^ 64 := by omega
    have hz : (z.natAbs : Int) = z := by omega
    rw [integerNumber, if_neg (by decide), if_pos hlt, hz]
    rfl

/-! ### Values -/

section Render

variable (floatText : Rat → List Char)

def renderNumber : Number → List Char
  | .int z => renderInt z
  | .float q => floatText q

mutual

/-- The text of a value, without blanks. -/
def render : Value → List Char
  | .null => ['n', 'u', 'l', 'l']
  | .bool true => ['t', 'r', 'u', 'e']
  | .bool false => ['f', 'a', 'l', 's', 'e']
  | .number n => renderNumber floatText n
  | .string s => '"' :: stringTail s.toList []
  | .array [] => ['[', ']']
  | .array (item :: items) => '[' :: (render item ++ renderItems items)
  | .object [] => ['{', '}']
  | .object ((key, value) :: fields) =>
    '{' :: '"' :: stringTail key.toList (':' :: (render value ++ renderFields fields))

/-- The items behind the first one, with the closing bracket. -/
def renderItems : List Value → List Char
  | [] => [']']
  | item :: items => ',' :: (render item ++ renderItems items)

/-- The members behind the first one, with the closing brace. -/
def renderFields : List (String × Value) → List Char
  | [] => ['}']
  | (key, value) :: fields =>
    ',' :: '"' :: stringTail key.toList (':' :: (render value ++ renderFields fields))

end

end Render

mutual

/-- Read a value, with arrays and objects nested at most `depth` deep. -/
def readValue : (fuel depth : Nat) → List Char → Option (Value × List Char)
  | 0, _, _ => none
  | fuel + 1, depth, text =>
    match skipBlank text with
    | 'n' :: 'u' :: 'l' :: 'l' :: rest => some (.null, rest)
    | 't' :: 'r' :: 'u' :: 'e' :: rest => some (.bool true, rest)
    | 'f' :: 'a' :: 'l' :: 's' :: 'e' :: rest => some (.bool false, rest)
    | '"' :: rest => do
      let (s, rest) ← readString fuel rest
      some (.string (String.ofList s), rest)
    | '[' :: rest =>
      match depth with
      | 0 => none
      | depth + 1 =>
        match skipBlank rest with
        | ']' :: rest => some (.array [], rest)
        | rest => do
          let (items, rest) ← readItems fuel depth rest
          some (.array items, rest)
    | '{' :: rest =>
      match depth with
      | 0 => none
      | depth + 1 =>
        match skipBlank rest with
        | '}' :: rest => some (.object [], rest)
        | rest => do
          let (fields, rest) ← readFields fuel depth rest
          some (.object fields, rest)
    | text => do
      let (n, rest) ← readNumber text
      some (.number n, rest)

/-- Read the items of an array up to its closing bracket. -/
def readItems : (fuel depth : Nat) → List Char → Option (List Value × List Char)
  | 0, _, _ => none
  | fuel + 1, depth, text => do
    let (item, rest) ← readValue fuel depth text
    match skipBlank rest with
    | ']' :: rest => some ([item], rest)
    | ',' :: rest => do
      let (items, rest) ← readItems fuel depth rest
      some (item :: items, rest)
    | _ => none

/-- Read the members of an object up to its closing brace. -/
def readFields : (fuel depth : Nat) → List Char → Option (List (String × Value) × List Char)
  | 0, _, _ => none
  | fuel + 1, depth, text =>
    match skipBlank text with
    | '"' :: rest => do
      let (key, rest) ← readString fuel rest
      match skipBlank rest with
      | ':' :: rest => do
        let (value, rest) ← readValue fuel depth rest
        match skipBlank rest with
        | '}' :: rest => some ([(String.ofList key, value)], rest)
        | ',' :: rest => do
          let (fields, rest) ← readFields fuel depth rest
          some ((String.ofList key, value) :: fields, rest)
        | _ => none
      | _ => none
    | _ => none

end

/-- A whole text: one value with blanks around it. -/
def parse (depth : Nat) (text : List Char) : Option Value :=
  match readValue (text.length + 1) depth text with
  | some (value, rest) => if rest.all isBlank then some value else none
  | none => none

/-- `Written depth value`: integers in range, no fractions, nested at most `depth` deep. -/
inductive Written : Nat → Value → Prop
  | null {depth : Nat} : Written depth .null
  | bool {depth : Nat} (b : Bool) : Written depth (.bool b)
  | int {depth : Nat} {z : Int} : -(2 ^ 63) ≤ z → z < 2 ^ 64 → Written depth (.number (.int z))
  | string {depth : Nat} (s : String) : Written depth (.string s)
  | array {depth : Nat} {items : List Value} :
      (∀ item ∈ items, Written depth item) → Written (depth + 1) (.array items)
  | object {depth : Nat} {fields : List (String × Value)} :
      (∀ field ∈ fields, Written depth field.2) → Written (depth + 1) (.object fields)

theorem endsNumber_cons {c : Char} (rest : List Char)
    (h : c.isDigit = false ∧ c ≠ '.' ∧ c ≠ 'e' ∧ c ≠ 'E') : EndsNumber (c :: rest) := by
  intro d hd
  obtain rfl : c = d := Option.some.inj hd
  exact h

theorem endsNumber_nil : EndsNumber [] := by
  intro c hc
  cases hc

/-- A number begins with a digit or a minus sign. -/
theorem readValue_number (fuel depth : Nat) {c : Char} (h : c.isDigit = true ∨ c = '-')
    (text : List Char) :
    readValue (fuel + 1) depth (c :: text) =
      (readNumber (c :: text)).map fun found => (.number found.1, found.2) := by
  have hblank : isBlank c = false := by
    rcases h with h | rfl
    · rw [isBlank]
      by_contra hcontra
      simp only [Bool.or_eq_true, decide_eq_true_eq, Bool.not_eq_false] at hcontra
      rcases hcontra with ((rfl | rfl) | rfl) | rfl <;> simp at h
    · rfl
  rw [readValue, skipBlank_cons hblank]
  split
  case h_7 =>
    rcases readNumber (c :: text) with - | ⟨n, rest⟩ <;> rfl
  all_goals
    next heq =>
      obtain ⟨rfl, -⟩ := List.cons.inj heq
      simp at h

theorem readValue_array (fuel depth : Nat) {c : Char} (hblank : isBlank c = false) (hc : c ≠ ']')
    (text : List Char) :
    readValue (fuel + 1) (depth + 1) ('[' :: c :: text) =
      (readItems fuel depth (c :: text)).map fun found => (.array found.1, found.2) := by
  rw [readValue, skipBlank_cons (by decide)]
  simp only [skipBlank_cons hblank]
  split
  · next heq =>
    obtain ⟨rfl, -⟩ := List.cons.inj heq
    exact absurd rfl hc
  · rcases readItems fuel depth (c :: text) with - | ⟨items, rest⟩ <;> rfl

theorem readValue_object (fuel depth : Nat) (text : List Char) :
    readValue (fuel + 1) (depth + 1) ('{' :: '"' :: text) =
      (readFields fuel depth ('"' :: text)).map fun found => (.object found.1, found.2) := by
  rw [readValue, skipBlank_cons (by decide)]
  simp only [skipBlank_cons (show isBlank '"' = false by decide)]
  split
  · next heq =>
    obtain ⟨hquote, -⟩ := List.cons.inj heq
    exact absurd hquote (by decide)
  · rcases readFields fuel depth ('"' :: text) with - | ⟨fields, rest⟩ <;> rfl

section Render

variable {floatText : Rat → List Char}

theorem exists_renderInt (z : Int) :
    ∃ c cs, renderInt z = c :: cs ∧ (c.isDigit = true ∨ c = '-') := by
  unfold renderInt
  split_ifs with hneg
  · exact ⟨'-', _, rfl, .inr rfl⟩
  · obtain ⟨c, cs, hdigits, hc⟩ := exists_toDigits z.natAbs
    exact ⟨c, cs, hdigits, .inl hc⟩

/-- The text of a value begins with a character that neither is blank nor closes an array. -/
theorem exists_render {depth : Nat} {value : Value} (h : Written depth value) :
    ∃ c cs, render floatText value = c :: cs ∧ isBlank c = false ∧ c ≠ ']' := by
  rcases h with - | b | ⟨hlow, hhigh⟩ | s | h | h
  · exact ⟨_, _, rfl, by decide, by decide⟩
  · rcases b with - | -
    · exact ⟨_, _, rfl, by decide, by decide⟩
    · exact ⟨_, _, rfl, by decide, by decide⟩
  · obtain ⟨c, cs, htext, hc⟩ := exists_renderInt _
    refine ⟨c, cs, htext, ?_, ?_⟩
    · rcases hc with hc | rfl
      · rw [isBlank]
        by_contra hcontra
        simp only [Bool.or_eq_true, decide_eq_true_eq, Bool.not_eq_false] at hcontra
        rcases hcontra with ((rfl | rfl) | rfl) | rfl <;> simp at hc
      · rfl
    · rintro rfl
      simp at hc
  · exact ⟨_, _, rfl, by decide, by decide⟩
  · rename_i items
    rcases items with - | ⟨item, items⟩
    · exact ⟨_, _, rfl, by decide, by decide⟩
    · exact ⟨_, _, rfl, by decide, by decide⟩
  · rename_i fields
    rcases fields with - | ⟨⟨key, value⟩, fields⟩
    · exact ⟨_, _, rfl, by decide, by decide⟩
    · exact ⟨_, _, rfl, by decide, by decide⟩

/-- A value is read back, whatever follows it. -/
def ReadsBack (floatText : Rat → List Char) (depth : Nat) (value : Value) : Prop :=
  ∀ fuel rest, (render floatText value).length ≤ fuel → EndsNumber rest →
    readValue (fuel + 1) depth (render floatText value ++ rest) = some (value, rest)

theorem endsNumber_renderItems (items : List Value) (rest : List Char) :
    EndsNumber (renderItems floatText items ++ rest) := by
  rcases items with - | ⟨item, items⟩
  · exact endsNumber_cons _ (by decide)
  · exact endsNumber_cons _ (by decide)

theorem endsNumber_renderFields (fields : List (String × Value)) (rest : List Char) :
    EndsNumber (renderFields floatText fields ++ rest) := by
  rcases fields with - | ⟨⟨key, value⟩, fields⟩
  · exact endsNumber_cons _ (by decide)
  · exact endsNumber_cons _ (by decide)

/-- The items of an array are read back up to its closing bracket. -/
theorem readItems_render {depth : Nat} {items : List Value} {item : Value}
    (h : ∀ value ∈ item :: items, ReadsBack floatText depth value) {fuel : Nat} (rest : List Char)
    (hfuel : (render floatText item ++ renderItems floatText items).length ≤ fuel) :
    readItems (fuel + 1) depth (render floatText item ++ renderItems floatText items ++ rest) =
      some (item :: items, rest) := by
  induction items generalizing item fuel with
  | nil =>
    simp only [renderItems, List.length_append, List.length_singleton] at hfuel
    obtain ⟨fuel, rfl⟩ : ∃ n, fuel = n + 1 := ⟨fuel - 1, by omega⟩
    have hitem := h item List.mem_cons_self fuel (renderItems floatText [] ++ rest) (by omega)
      (endsNumber_renderItems [] rest)
    rw [readItems, List.append_assoc, hitem]
    rfl
  | cons next items ih =>
    simp only [renderItems, List.length_append, List.length_cons] at hfuel
    obtain ⟨fuel, rfl⟩ : ∃ n, fuel = n + 1 := ⟨fuel - 1, by omega⟩
    have hitem := h item List.mem_cons_self fuel (renderItems floatText (next :: items) ++ rest)
      (by omega) (endsNumber_renderItems (next :: items) rest)
    have hrest : readItems (fuel + 1) depth
        (render floatText next ++ renderItems floatText items ++ rest) =
          some (next :: items, rest) :=
      ih (fun value hv => h value (List.mem_cons_of_mem _ hv)) (by rw [List.length_append]; omega)
    rw [readItems, List.append_assoc, hitem]
    simp only [renderItems, List.cons_append, Option.bind_eq_bind, Option.bind_some,
      skipBlank_cons (show isBlank ',' = false by decide), hrest]

/-- The key and the value of a member are read back, whatever members follow. -/
theorem readMember_render {depth : Nat} {key : String} {value : Value}
    (h : ReadsBack floatText depth value) (fields : List (String × Value)) (rest : List Char)
    {keyFuel valueFuel : Nat} (hkey : (key.toList.flatMap escapeChar).length < keyFuel)
    (hvalue : (render floatText value).length ≤ valueFuel) :
    readString keyFuel (stringTail key.toList
        (':' :: (render floatText value ++ (renderFields floatText fields ++ rest)))) =
      some (key.toList,
        ':' :: (render floatText value ++ (renderFields floatText fields ++ rest))) ∧
    readValue (valueFuel + 1) depth
        (render floatText value ++ (renderFields floatText fields ++ rest)) =
      some (value, renderFields floatText fields ++ rest) := by
  refine ⟨readString_stringTail (by rw [length_stringTail]; omega), ?_⟩
  exact h valueFuel _ hvalue (endsNumber_renderFields fields rest)

/-- The members of an object are read back up to its closing brace. -/
theorem readFields_render {depth : Nat} {fields : List (String × Value)} {key : String}
    {value : Value} (h : ∀ field ∈ (key, value) :: fields, ReadsBack floatText depth field.2)
    {fuel : Nat} (rest : List Char)
    (hfuel : (stringTail key.toList
      (':' :: (render floatText value ++ renderFields floatText fields))).length < fuel) :
    readFields (fuel + 1) depth ('"' :: stringTail key.toList
        (':' :: (render floatText value ++ renderFields floatText fields) ++ rest)) =
      some ((key, value) :: fields, rest) := by
  induction fields generalizing key value fuel with
  | nil =>
    rw [length_stringTail] at hfuel
    simp only [renderFields, List.length_append, List.length_cons, List.length_nil] at hfuel
    obtain ⟨fuel, rfl⟩ : ∃ n, fuel = n + 1 := ⟨fuel - 1, by omega⟩
    obtain ⟨hkey, hvalue⟩ := @readMember_render floatText depth key value
      (h _ List.mem_cons_self) [] rest (fuel + 1) fuel (by omega) (by omega)
    rw [readFields, skipBlank_cons (by decide)]
    simp only [hkey, List.cons_append, List.append_assoc, Option.bind_eq_bind, Option.bind_some,
      skipBlank_cons (show isBlank ':' = false by decide), hvalue, String.ofList_toList]
    rfl
  | cons next fields ih =>
    obtain ⟨key', value'⟩ := next
    rw [length_stringTail] at hfuel
    simp only [renderFields, List.length_append, List.length_cons] at hfuel
    obtain ⟨fuel, rfl⟩ : ∃ n, fuel = n + 1 := ⟨fuel - 1, by omega⟩
    obtain ⟨hkey, hvalue⟩ := @readMember_render floatText depth key value
      (h _ List.mem_cons_self) ((key', value') :: fields) rest (fuel + 1) fuel (by omega) (by omega)
    have hrest : readFields (fuel + 1) depth ('"' :: stringTail key'.toList
        (':' :: (render floatText value' ++ renderFields floatText fields) ++ rest)) =
          some ((key', value') :: fields, rest) :=
      ih (fun field hf => h field (List.mem_cons_of_mem _ hf)) (by omega)
    rw [readFields, skipBlank_cons (by decide)]
    simp only [hkey, List.cons_append, List.append_assoc, Option.bind_eq_bind, Option.bind_some,
      skipBlank_cons (show isBlank ':' = false by decide), hvalue, String.ofList_toList]
    simp only [List.cons_append, List.append_assoc] at hrest
    simp only [renderFields, List.cons_append, stringTail_append, List.append_assoc,
      skipBlank_cons (show isBlank ',' = false by decide), hrest, Option.bind_some]

/-- **What is written is read back**, whatever follows it. -/
theorem readsBack_of_written {depth : Nat} {value : Value} (h : Written depth value) :
    ReadsBack floatText depth value := by
  induction h with
  | null => intro fuel rest _ _; rfl
  | bool b =>
    intro fuel rest _ _
    rcases b with - | -
    · rfl
    · rfl
  | int hlow hhigh =>
    intro fuel rest _ hends
    obtain ⟨c, cs, htext, hc⟩ := exists_renderInt _
    have hread := readNumber_renderInt hlow hhigh hends
    rw [render, renderNumber, htext, List.cons_append, readValue_number fuel _ hc]
    rw [htext, List.cons_append] at hread
    rw [hread]
    rfl
  | string s =>
    intro fuel rest hfuel _
    rw [render, List.length_cons, length_stringTail, List.length_nil] at hfuel
    have hread := @readString_stringTail fuel s.toList rest (by rw [length_stringTail]; omega)
    rw [render, List.cons_append, stringTail_append, List.nil_append, readValue,
      skipBlank_cons (by decide)]
    simp only [hread, Option.bind_eq_bind, Option.bind_some, String.ofList_toList]
  | @array depth items hitems ih =>
    intro fuel rest hfuel _
    rcases items with - | ⟨item, items⟩
    · rfl
    · obtain ⟨c, cs, htext, hblank, hc⟩ := exists_render (hitems item List.mem_cons_self)
      rw [render, List.length_cons] at hfuel
      obtain ⟨fuel, rfl⟩ : ∃ n, fuel = n + 1 := ⟨fuel - 1, by omega⟩
      have hread := readItems_render ih rest (Nat.le_of_succ_le_succ hfuel)
      rw [render, List.cons_append, htext, List.cons_append, List.cons_append,
        readValue_array _ _ hblank hc]
      rw [htext, List.cons_append, List.cons_append] at hread
      rw [hread]
      rfl
  | @object depth fields hfields ih =>
    intro fuel rest hfuel _
    rcases fields with - | ⟨⟨key, value⟩, fields⟩
    · rfl
    · rw [render, List.length_cons, List.length_cons] at hfuel
      obtain ⟨fuel, rfl⟩ : ∃ n, fuel = n + 1 := ⟨fuel - 1, by omega⟩
      have hread := readFields_render ih rest (Nat.lt_of_succ_le (Nat.le_of_succ_le_succ hfuel))
      rw [render, List.cons_append, List.cons_append, stringTail_append, readValue_object, hread]
      rfl

/-- **A written value is the value of its text.** -/
theorem parse_render {depth : Nat} {value : Value} (h : Written depth value) :
    parse depth (render floatText value) = some value := by
  have hread := @readsBack_of_written floatText depth value h
    (render floatText value).length [] le_rfl endsNumber_nil
  rw [List.append_nil] at hread
  rw [parse, hread]
  rfl

end Render

/-! ### Maps -/

mutual

/-- A tree with its objects as maps: the keys in order, and of a repeated key the last member. -/
def normalize : Value → Value
  | .array items => .array (normalizeItems items)
  | .object fields => .object (normalizeFields fields [])
  | .null => .null
  | .bool b => .bool b
  | .number n => .number n
  | .string s => .string s

def normalizeItems : List Value → List Value
  | [] => []
  | item :: items => normalize item :: normalizeItems items

def normalizeFields : List (String × Value) → StrMap Value → StrMap Value
  | [], found => found
  | (key, value) :: fields, found => normalizeFields fields (found.insert key (normalize value))

end

/-! ### A number with white space around it -/

/-- The characters a value begins with or a number goes on with. -/
def isTokenChar (c : Char) : Bool :=
  c.isDigit || c ∈ ['n', 't', 'f', '"', '[', '{', '-', '.', 'e', 'E']

theorem readValue_append_blanks {blanks : List Char} (h : ∀ c ∈ blanks, isBlank c = true)
    (fuel depth : Nat) (text : List Char) :
    readValue (fuel + 1) depth (blanks ++ text) = readValue (fuel + 1) depth text := by
  rw [readValue, readValue, skipBlank_append h]

/-- No value begins with another character. -/
theorem readValue_eq_none {c : Char} (hblank : isBlank c = false) (h : isTokenChar c = false)
    (fuel depth : Nat) (text : List Char) : readValue (fuel + 1) depth (c :: text) = none := by
  simp only [isTokenChar, Bool.or_eq_false_iff, decide_eq_false_iff_not, List.mem_cons,
    List.not_mem_nil, or_false, not_or] at h
  obtain ⟨hdigit, hn, ht, hf, hquote, hbracket, hbrace, hminus, -⟩ := h
  have hnumber : readNumber (c :: text) = none := by
    unfold readNumber
    split
    · next heq => exact absurd (List.cons.inj heq).1 hminus
    · simp [readUnsigned, hdigit]
  rw [readValue, skipBlank_cons hblank]
  split
  case h_7 => rw [hnumber]; rfl
  all_goals
    next heq =>
      have hc := (List.cons.inj heq).1
      contradiction

/-- A text is read up to its first character that is neither blank nor part of a value. -/
theorem parse_eq_none {blanks : List Char} (h : ∀ c ∈ blanks, isBlank c = true) {c : Char}
    (hblank : isBlank c = false) (htoken : isTokenChar c = false) (depth : Nat)
    (text : List Char) : parse depth (blanks ++ c :: text) = none := by
  rw [parse, readValue_append_blanks h, readValue_eq_none hblank htoken]

/-- **The digits of a number** are its text, with blanks and with no other white space around
them. -/
theorem parse_digits (depth n : Nat) {before after : List Char}
    (h : ∀ c ∈ before ++ after, isTokenChar c = false) :
    parse depth (before ++ (Nat.toDigits 10 n ++ after)) =
      if (before ++ after).all isBlank then (integerNumber false n).map .number else none := by
  rcases hdrop : before.dropWhile isBlank with - | ⟨c, more⟩
  · have hbefore : ∀ c ∈ before, isBlank c = true := List.dropWhile_eq_nil_iff.mp hdrop
    have hends : EndsNumber after := by
      intro c hc
      have htoken := h c (List.mem_append_right _ (List.mem_of_mem_head? hc))
      simp only [isTokenChar, Bool.or_eq_false_iff, decide_eq_false_iff_not, List.mem_cons,
        List.not_mem_nil, or_false, not_or] at htoken
      exact ⟨htoken.1, htoken.2.2.2.2.2.2.2.2⟩
    obtain ⟨c, cs, hdigits, hc⟩ := exists_toDigits n
    have hread := readNumber_toDigits n hends
    rw [hdigits, List.cons_append] at hread
    rw [parse, readValue_append_blanks hbefore, hdigits, List.cons_append,
      readValue_number _ _ (.inl hc), hread, List.all_append, List.all_eq_true.mpr hbefore,
      Bool.true_and]
    rcases integerNumber false n with - | number
    · simp
    · simp
  · -- the first character that is not blank belongs to no value
    have hsplit := List.takeWhile_append_dropWhile (p := isBlank) (l := before)
    have hmem : c ∈ before := List.dropWhile_subset _ (hdrop ▸ List.mem_cons_self)
    have hblank : isBlank c = false := by
      have hhead := List.head?_dropWhile_not isBlank before
      rw [hdrop] at hhead
      simpa using hhead
    have hall : (before ++ after).all isBlank = false := by
      rw [List.all_eq_false]
      exact ⟨c, List.mem_append_left _ hmem, by simp [hblank]⟩
    rw [hall, if_neg (by simp), ← hsplit, hdrop, List.append_assoc, List.cons_append]
    exact parse_eq_none (fun d hd => List.mem_takeWhile_imp hd) hblank
      (h c (List.mem_append_left _ hmem)) depth _

/-! ### Libraries -/

/-- A JSON library: the bytes it writes for a value, and the value it reads from bytes. -/
structure Library where
  toVec : Value → List UInt8
  fromSlice : List UInt8 → Option Value

/-- What the library reads into a `Value`. -/
def Library.readValue (library : Library) (bytes : List UInt8) : Option Value :=
  (library.fromSlice bytes).map normalize

/-- The library follows the grammar: it reads back what it writes, reads nothing from nothing, and
reads a number between blanks but between no other white space. -/
structure Library.Conforms (library : Library) (depth : Nat) : Prop where
  roundTrip : ∀ value, Written depth value → library.fromSlice (library.toVec value) = some value
  empty : library.fromSlice [] = none
  digits : ∀ (n : Nat) (before after : List Char), n < 2 ^ 64 →
    (∀ c ∈ before ++ after, isTokenChar c = false) →
    library.fromSlice (Utf8.encode (before ++ (Nat.toDigits 10 n ++ after))) =
      if (before ++ after).all isBlank then some (.number (.int n)) else none

/-- The library of this file; fractions are written as zero. -/
def reference (depth : Nat) : Library where
  toVec value := Utf8.encode (render (fun _ => ['0']) value)
  fromSlice bytes := (Utf8.decode? bytes).bind (parse depth)

theorem reference_conforms (depth : Nat) : (reference depth).Conforms depth where
  roundTrip value h := by
    simp only [reference, Utf8.decode?_encode, Option.bind_some, parse_render h]
  empty := by
    have hnil : Utf8.decode? [] = some [] := Utf8.decode?_encode []
    simp only [reference, hnil, Option.bind_some]
    rfl
  digits n before after hn h := by
    have hnumber : integerNumber false n = some (.int n) := by
      rw [integerNumber, if_neg (by decide), if_pos hn]
    simp only [reference, Utf8.decode?_encode, Option.bind_some, parse_digits depth n h, hnumber,
      Option.map_some]

end Json
