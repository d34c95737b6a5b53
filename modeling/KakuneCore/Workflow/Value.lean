import Mathlib

/-!
# JSON values and string-keyed maps

The data every workflow carries: `StrMap`, the ordered string-keyed map behind both
`BTreeMap<String, _>` and `serde_json::Map`, and `Value`, the JSON tree. Integers are the
signed and unsigned 64-bit numbers of `serde_json::Number` in one `int`; a floating-point
number is represented by the rational it denotes.
-/

namespace KakuneCore

/-! ### Ordered string-keyed maps -/

/-- A map in increasing key order, as it is iterated. -/
abbrev StrMap (α : Type) : Type := List (String × α)

namespace StrMap

variable {α : Type}

/-- The value stored under a key. -/
def get? (m : StrMap α) (key : String) : Option α :=
  match m with
  | [] => none
  | (k, v) :: m => if k = key then some v else get? m key

/-- Store a value under a key, replacing what was there and keeping the order. -/
def insert (m : StrMap α) (key : String) (value : α) : StrMap α :=
  match m with
  | [] => [(key, value)]
  | (k, v) :: m =>
    if key < k then (key, value) :: (k, v) :: m
    else if key = k then (key, value) :: m
    else (k, v) :: insert m key value

def contains (m : StrMap α) (key : String) : Bool := (m.get? key).isSome

def keys (m : StrMap α) : List String := m.map Prod.fst

def values (m : StrMap α) : List α := m.map Prod.snd

@[simp]
theorem get?_nil (key : String) : get? ([] : StrMap α) key = none := rfl

@[simp]
theorem get?_cons (k : String) (v : α) (m : StrMap α) (key : String) :
    get? ((k, v) :: m) key = if k = key then some v else get? m key := rfl

theorem get?_insert (m : StrMap α) (key key' : String) (value : α) :
    get? (m.insert key value) key' = if key = key' then some value else get? m key' := by
  induction m with
  | nil => simp [insert]
  | cons p m ih =>
    obtain ⟨k, v⟩ := p
    simp only [insert]
    split
    · simp
    · split
      · next h =>
        subst h
        by_cases hk : key = key' <;> simp [hk]
      · next h =>
        by_cases hk : k = key'
        · subst hk
          simp [h]
        · simp [hk, ih]

@[simp]
theorem get?_insert_self (m : StrMap α) (key : String) (value : α) :
    get? (m.insert key value) key = some value := by
  simp [get?_insert]

theorem get?_insert_ne (m : StrMap α) {key key' : String} (h : key ≠ key') (value : α) :
    get? (m.insert key value) key' = get? m key' := by
  simp [get?_insert, h]

theorem get?_filter (m : StrMap α) (keep : String → Bool) (key : String) :
    get? (m.filter fun entry => keep entry.1) key =
      if keep key then get? m key else none := by
  induction m with
  | nil => simp
  | cons entry m ih =>
    obtain ⟨k, v⟩ := entry
    rw [List.filter_cons]
    by_cases hk : k = key
    · subst hk
      by_cases hkeep : keep k = true
      · simp [hkeep]
      · simp [hkeep, ih]
    · by_cases hkeep : keep k = true
      · simp [hkeep, hk, ih]
      · simp [hkeep, hk, ih]

theorem mem_of_get? {m : StrMap α} {key : String} {v : α} (h : m.get? key = some v) :
    (key, v) ∈ m := by
  induction m with
  | nil => cases h
  | cons p m ih =>
    obtain ⟨k, w⟩ := p
    rw [get?_cons] at h
    split at h
    · next hk => cases h; exact hk ▸ List.mem_cons_self
    · exact List.mem_cons_of_mem _ (ih h)

theorem mem_values_of_get? {m : StrMap α} {key : String} {v : α} (h : m.get? key = some v) :
    v ∈ m.values :=
  List.mem_map.mpr ⟨_, mem_of_get? h, rfl⟩

theorem mem_keys_iff {m : StrMap α} {key : String} :
    key ∈ m.keys ↔ ∃ v, m.get? key = some v := by
  induction m with
  | nil => simp [keys]
  | cons p m ih =>
    obtain ⟨k, v⟩ := p
    rw [keys, List.map_cons, List.mem_cons, get?_cons]
    by_cases hk : k = key
    · simp [hk]
    · simpa [hk, Ne.symm hk, keys] using ih

/-- The keys increase, as those of a `BTreeMap` do. -/
def Ordered (m : StrMap α) : Prop := m.keys.Pairwise (· < ·)

theorem mem_keys_insert {m : StrMap α} {key key' : String} {value : α} :
    key' ∈ (m.insert key value).keys ↔ key' = key ∨ key' ∈ m.keys := by
  rw [mem_keys_iff, mem_keys_iff, get?_insert]
  by_cases hk : key = key'
  · simp [hk]
  · simp [hk, Ne.symm hk]

theorem Ordered.insert {m : StrMap α} (h : m.Ordered) (key : String) (value : α) :
    (m.insert key value).Ordered := by
  induction m with
  | nil => exact List.pairwise_singleton _ _
  | cons p m ih =>
    obtain ⟨k, v⟩ := p
    obtain ⟨hfirst, hrest⟩ := List.pairwise_cons.mp h
    rw [StrMap.insert]
    split
    · next hlt =>
      refine List.pairwise_cons.mpr ⟨fun k' hk' => ?_, h⟩
      obtain rfl | hk' := List.mem_cons.mp hk'
      · exact hlt
      · exact lt_trans hlt (hfirst k' hk')
    · next hnot =>
      split
      · next heq =>
        subst heq
        exact h
      · next hne =>
        refine List.pairwise_cons.mpr ⟨fun k' hk' => ?_, ih hrest⟩
        obtain rfl | hk' := mem_keys_insert.mp hk'
        · exact lt_of_le_of_ne (not_lt.mp hnot) (Ne.symm hne)
        · exact hfirst k' hk'

theorem Ordered.get?_of_mem {m : StrMap α} (h : m.Ordered) {key : String} {value : α}
    (hmem : (key, value) ∈ m) : m.get? key = some value := by
  induction m with
  | nil => cases hmem
  | cons p m ih =>
    obtain ⟨k, v⟩ := p
    obtain ⟨hfirst, hrest⟩ := List.pairwise_cons.mp h
    rw [get?_cons]
    obtain heq | hmem := List.mem_cons.mp hmem
    · cases heq
      exact if_pos rfl
    · have hlt : k < key := hfirst key (List.mem_map_of_mem hmem)
      rw [if_neg (ne_of_lt hlt)]
      exact ih hrest hmem

/-- Ordered maps with the same entries are equal. -/
theorem Ordered.ext {m m' : StrMap α} (h : m.Ordered) (h' : m'.Ordered)
    (heq : ∀ key, m.get? key = m'.get? key) : m = m' := by
  induction m generalizing m' with
  | nil =>
    cases m' with
    | nil => rfl
    | cons p m' =>
      obtain ⟨k, v⟩ := p
      have := heq k
      simp at this
  | cons p m ih =>
    obtain ⟨k, v⟩ := p
    cases m' with
    | nil =>
      have := heq k
      simp at this
    | cons p' m' =>
      obtain ⟨k', v'⟩ := p'
      obtain ⟨hfirst, hrest⟩ := List.pairwise_cons.mp h
      obtain ⟨hfirst', hrest'⟩ := List.pairwise_cons.mp h'
      -- the first keys are the least ones, so they are equal
      have hmem : k ∈ StrMap.keys ((k', v') :: m') :=
        mem_keys_iff.mpr ⟨v, by rw [← heq k, get?_cons, if_pos rfl]⟩
      have hmem' : k' ∈ StrMap.keys ((k, v) :: m) :=
        mem_keys_iff.mpr ⟨v', by rw [heq k', get?_cons, if_pos rfl]⟩
      have hk : k = k' := by
        obtain hk | hk := List.mem_cons.mp hmem
        · exact hk
        obtain hk' | hk' := List.mem_cons.mp hmem'
        · exact hk'.symm
        · exact absurd (hfirst k' hk') (lt_asymm (hfirst' k hk))
      subst hk
      have hv : v = v' := by simpa using heq k
      subst hv
      rw [ih hrest hrest' fun key => ?_]
      have := heq key
      rw [get?_cons, get?_cons] at this
      split at this
      · next hkey =>
        subst hkey
        have hnot : ∀ {w : StrMap α}, (∀ k' ∈ w.keys, k < k') → w.get? k = none := by
          intro w hw
          cases hget : w.get? k with
          | none => rfl
          | some x => exact absurd (hw k (mem_keys_iff.mpr ⟨x, hget⟩)) (lt_irrefl k)
        rw [hnot hfirst, hnot hfirst']
      · exact this

end StrMap

/-! ### Text helpers -/

/-- Texts as lists of characters are compared lawfully. -/
instance lawfulBEqChars : LawfulBEq (List Char) := inferInstance

/-- Split at the first occurrence of a character, as `str::split_once`. -/
def splitOnceChars (c : Char) : List Char → Option (List Char × List Char)
  | [] => none
  | x :: xs =>
    if x = c then some ([], xs) else (splitOnceChars c xs).map fun p => (x :: p.1, p.2)

/-- `str::split_once('.')`. -/
def splitOnceDot (s : String) : Option (String × String) :=
  (splitOnceChars '.' s.toList).map fun p => (String.ofList p.1, String.ofList p.2)

/-- Split at every occurrence of a character, as `str::split`. -/
def splitChars (c : Char) : List Char → List (List Char)
  | [] => [[]]
  | x :: xs =>
    match splitChars c xs with
    | [] => [[x]]
    | part :: parts => if x = c then [] :: part :: parts else (x :: part) :: parts

/-- `str::split('.')`. -/
def splitDots (s : String) : List String := (splitChars '.' s.toList).map String.ofList

/-- `str::starts_with('$')`. -/
def startsWithDollar (s : String) : Bool := s.toList.head? = some '$'

/-- `char::is_whitespace`: the Unicode `White_Space` property. -/
def isWhitespace (c : Char) : Bool :=
  let n := c.toNat
  (9 ≤ n && n ≤ 13) || n = 32 || n = 133 || n = 160 || n = 5760 || (8192 ≤ n && n ≤ 8202) ||
    n = 8232 || n = 8233 || n = 8239 || n = 8287 || n = 12288

/-- `str::trim().is_empty()`. -/
def blank (s : String) : Bool := s.toList.all isWhitespace

/-! ### JSON -/

/-- A JSON number. -/
inductive Number
  | int (z : Int)
  | float (q : Rat)
  deriving DecidableEq, Repr

namespace Number

/-- `Number::as_u64`. -/
def asU64 : Number → Option Nat
  | int z => if 0 ≤ z then some z.toNat else none
  | float _ => none

/-- `Number::as_i64`. -/
def asI64 : Number → Option Int
  | int z => if z < 2 ^ 63 then some z else none
  | float _ => none

end Number

/-- A JSON value, `serde_json::Value`. -/
inductive Value
  | null
  | bool (b : Bool)
  | number (n : Number)
  | string (s : String)
  | array (items : List Value)
  | object (fields : List (String × Value))
  deriving Repr, Inhabited

namespace Value

mutual

/-- Decide equality of two JSON values. -/
def decEq : (a b : Value) → Decidable (a = b)
  | null, null => isTrue rfl
  | bool a, bool b =>
    if h : a = b then isTrue (h ▸ rfl) else isFalse fun e => h (by injection e)
  | number a, number b =>
    if h : a = b then isTrue (h ▸ rfl) else isFalse fun e => h (by injection e)
  | string a, string b =>
    if h : a = b then isTrue (h ▸ rfl) else isFalse fun e => h (by injection e)
  | array a, array b =>
    match decEqItems a b with
    | isTrue h => isTrue (h ▸ rfl)
    | isFalse h => isFalse fun e => h (by injection e)
  | object a, object b =>
    match decEqFields a b with
    | isTrue h => isTrue (h ▸ rfl)
    | isFalse h => isFalse fun e => h (by injection e)
  | null, bool _ | null, number _ | null, string _ | null, array _ | null, object _
  | bool _, null | bool _, number _ | bool _, string _ | bool _, array _ | bool _, object _
  | number _, null | number _, bool _ | number _, string _ | number _, array _
  | number _, object _
  | string _, null | string _, bool _ | string _, number _ | string _, array _
  | string _, object _
  | array _, null | array _, bool _ | array _, number _ | array _, string _ | array _, object _
  | object _, null | object _, bool _ | object _, number _ | object _, string _
  | object _, array _ => isFalse fun e => by cases e

/-- Decide equality of two JSON arrays. -/
def decEqItems : (a b : List Value) → Decidable (a = b)
  | [], [] => isTrue rfl
  | [], _ :: _ | _ :: _, [] => isFalse fun e => by cases e
  | a :: as, b :: bs =>
    match decEq a b, decEqItems as bs with
    | isTrue h, isTrue h' => isTrue (by rw [h, h'])
    | isFalse h, _ => isFalse fun e => h (by injection e)
    | _, isFalse h => isFalse fun e => h (by injection e)

/-- Decide equality of two JSON objects. -/
def decEqFields : (a b : List (String × Value)) → Decidable (a = b)
  | [], [] => isTrue rfl
  | [], _ :: _ | _ :: _, [] => isFalse fun e => by cases e
  | (k, a) :: as, (k', b) :: bs =>
    if hk : k = k' then
      match decEq a b, decEqFields as bs with
      | isTrue h, isTrue h' => isTrue (by rw [hk, h, h'])
      | isFalse h, _ => isFalse fun e => h (by injection e with e _; injection e)
      | _, isFalse h => isFalse fun e => h (by injection e)
    else isFalse fun e => hk (by injection e with e _; injection e)

end

instance : DecidableEq Value := decEq

/-- `Value::as_str`. -/
def asStr : Value → Option String
  | string s => some s
  | _ => none

/-- `Value::as_bool`. -/
def asBool : Value → Option Bool
  | bool b => some b
  | _ => none

/-- `Value::as_u64`. -/
def asU64 : Value → Option Nat
  | number n => n.asU64
  | _ => none

/-- `Value::as_array`. -/
def asArray : Value → Option (List Value)
  | array items => some items
  | _ => none

/-- `Value::as_object`. -/
def asObject : Value → Option (StrMap Value)
  | object fields => some fields
  | _ => none

/-- `Value::get` with a string key: a member of an object, nothing elsewhere. -/
def get? (v : Value) (key : String) : Option Value :=
  match v with
  | object fields => StrMap.get? fields key
  | _ => none

def isNull : Value → Bool
  | null => true
  | _ => false

end Value

end KakuneCore
