import Mathlib

/-!
# Frames

A list of fields is written as one text: before each field stands its length, in a code of fixed
width. **The text determines the fields.** Records are fields with a name, which ends at a
terminator.
-/

namespace Frames

variable {α : Type}

/-- A code for the lengths below a bound. -/
structure LengthCode (α : Type) where
  bound : Nat
  width : Nat
  code : Nat → List α
  length_code : ∀ n, (code n).length = width
  code_injective : ∀ {m n : Nat}, m < bound → n < bound → code m = code n → m = n

/-- Every field behind its length. -/
def frames (prefixes : LengthCode α) (fields : List (List α)) : List α :=
  fields.flatMap fun field => prefixes.code field.length ++ field

variable {prefixes : LengthCode α} {fields fields' : List (List α)} {field : List α}

@[simp]
theorem frames_nil : frames prefixes [] = [] := rfl

@[simp]
theorem frames_cons :
    frames prefixes (field :: fields) =
      prefixes.code field.length ++ (field ++ frames prefixes fields) := by
  rw [frames, List.flatMap_cons, List.append_assoc, ← frames]

/-- **Frames are injective.** -/
theorem frames_injective (hpos : 0 < prefixes.width)
    (hfields : ∀ field ∈ fields, field.length < prefixes.bound)
    (hfields' : ∀ field ∈ fields', field.length < prefixes.bound)
    (h : frames prefixes fields = frames prefixes fields') : fields = fields' := by
  have hne : ∀ n (rest : List α), prefixes.code n ++ rest ≠ [] := by
    intro n rest hnil
    have hlength := prefixes.length_code n
    rw [(List.append_eq_nil_iff.mp hnil).1, List.length_nil] at hlength
    omega
  induction fields generalizing fields' with
  | nil =>
    cases fields' with
    | nil => rfl
    | cons field' fields' =>
      rw [frames_nil, frames_cons] at h
      exact absurd h.symm (hne _ _)
  | cons field fields ih =>
    cases fields' with
    | nil =>
      rw [frames_nil, frames_cons] at h
      exact absurd h (hne _ _)
    | cons field' fields' =>
      rw [frames_cons, frames_cons] at h
      obtain ⟨hcode, hrest⟩ := List.append_inj h
        (by rw [prefixes.length_code, prefixes.length_code])
      have hlength : field.length = field'.length :=
        prefixes.code_injective (hfields field List.mem_cons_self)
          (hfields' field' List.mem_cons_self) hcode
      obtain ⟨hfield, htail⟩ := List.append_inj hrest hlength
      rw [hfield, ih (fun f hf => hfields f (List.mem_cons_of_mem _ hf))
        (fun f hf => hfields' f (List.mem_cons_of_mem _ hf)) htail]

/-! ### Records -/

/-- Every record: its name, the terminator, and its field behind its length. -/
def records (prefixes : LengthCode α) (terminator : α) (entries : List (List α × List α)) :
    List α :=
  entries.flatMap fun entry =>
    entry.1 ++ terminator :: (prefixes.code entry.2.length ++ entry.2)

theorem records_cons {terminator : α} {entry : List α × List α}
    {entries : List (List α × List α)} :
    records prefixes terminator (entry :: entries) = entry.1 ++ terminator ::
      (prefixes.code entry.2.length ++ (entry.2 ++ records prefixes terminator entries)) := by
  rw [records, List.flatMap_cons, ← records]
  simp

/-- A name ends at the first terminator. -/
theorem append_terminator_inj {terminator : α} {name name' rest rest' : List α}
    (hname : terminator ∉ name) (hname' : terminator ∉ name')
    (h : name ++ terminator :: rest = name' ++ terminator :: rest') :
    name = name' ∧ rest = rest' := by
  induction name generalizing name' with
  | nil =>
    cases name' with
    | nil => exact ⟨rfl, (List.cons_eq_cons.mp h).2⟩
    | cons c name' =>
      obtain rfl := (List.cons_eq_cons.mp h).1
      exact absurd List.mem_cons_self hname'
  | cons c name ih =>
    cases name' with
    | nil =>
      obtain rfl := (List.cons_eq_cons.mp h).1
      exact absurd List.mem_cons_self hname
    | cons d name' =>
      obtain ⟨rfl, htail⟩ := List.cons_eq_cons.mp h
      rw [List.mem_cons, not_or] at hname hname'
      obtain ⟨rfl, hrest⟩ := ih hname.2 hname'.2 htail
      exact ⟨rfl, hrest⟩

/-- What the names and lengths of records must be. -/
def Writable (prefixes : LengthCode α) (terminator : α) (entries : List (List α × List α)) : Prop :=
  ∀ entry ∈ entries, terminator ∉ entry.1 ∧ entry.2.length < prefixes.bound

/-- **Records are injective.** -/
theorem records_injective {terminator : α} {entries entries' : List (List α × List α)}
    (hentries : Writable prefixes terminator entries)
    (hentries' : Writable prefixes terminator entries')
    (h : records prefixes terminator entries = records prefixes terminator entries') :
    entries = entries' := by
  induction entries generalizing entries' with
  | nil =>
    cases entries' with
    | nil => rfl
    | cons entry' entries' =>
      rw [records_cons] at h
      simp [records] at h
  | cons entry entries ih =>
    cases entries' with
    | nil =>
      rw [records_cons] at h
      simp [records] at h
    | cons entry' entries' =>
      rw [Writable, List.forall_mem_cons] at hentries hentries'
      rw [records_cons, records_cons] at h
      obtain ⟨hname, hrest⟩ := append_terminator_inj hentries.1.1 hentries'.1.1 h
      obtain ⟨hcode, hrest⟩ := List.append_inj hrest
        (by rw [prefixes.length_code, prefixes.length_code])
      have hlength := prefixes.code_injective hentries.1.2 hentries'.1.2 hcode
      obtain ⟨hfield, hrest⟩ := List.append_inj hrest hlength
      rw [Prod.ext hname hfield, ih hentries.2 hentries'.2 hrest]

/-! ### Lengths in bytes -/

/-- The last `width` bytes of a number, the most significant first. -/
def bigEndianBytes : Nat → Nat → List UInt8
  | 0, _ => []
  | width + 1, n => bigEndianBytes width (n / 256) ++ [.ofNat (n % 256)]

theorem length_bigEndianBytes (width n : Nat) : (bigEndianBytes width n).length = width := by
  induction width generalizing n with
  | zero => rfl
  | succ width ih => rw [bigEndianBytes, List.length_append, ih, List.length_singleton]

theorem bigEndianBytes_injective {width m n : Nat} (hm : m < 256 ^ width) (hn : n < 256 ^ width)
    (h : bigEndianBytes width m = bigEndianBytes width n) : m = n := by
  induction width generalizing m n with
  | zero => omega
  | succ width ih =>
    rw [bigEndianBytes, bigEndianBytes] at h
    obtain ⟨hhigh, hlow⟩ := List.append_inj h
      (by rw [length_bigEndianBytes, length_bigEndianBytes])
    have hquotient : m / 256 = n / 256 := by
      refine ih ?_ ?_ hhigh
      all_goals
        rw [Nat.div_lt_iff_lt_mul (by omega), ← Nat.pow_succ]
        assumption
    have hremainder : m % 256 = n % 256 := by
      have hbyte := congrArg UInt8.toNat (List.singleton_inj.mp hlow)
      rwa [UInt8.toNat_ofNat', UInt8.toNat_ofNat', Nat.mod_mod, Nat.mod_mod] at hbyte
    omega

/-- Lengths in a number of bytes. -/
def byteLengths (width : Nat) : LengthCode UInt8 where
  bound := 256 ^ width
  width
  code := bigEndianBytes width
  length_code := length_bigEndianBytes width
  code_injective := bigEndianBytes_injective

end Frames
