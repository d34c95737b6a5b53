import KakuneCore.Encoding.Json

/-!
# Management cursors

A page of a management listing ends with a cursor: the filters, the order and the high water of
the listing and the position reached in it, as JSON written in hexadecimal. The next request sends
the cursor back, and `validate_binding` compares it with the listing that is asked for.

The JSON library is a parameter. What is used of it is that it reads back what it writes; what the
derived serializers do with a cursor, the hexadecimal layer and the comparison are modelled.
-/

namespace KakuneCore

open Json (hexValue?)

/-! ### Hexadecimal text -/

/-- The text of a byte: `{byte:02x}`. -/
def byteHex (byte : UInt8) : List Char :=
  [Nat.digitChar (byte.toNat / 16), Nat.digitChar (byte.toNat % 16)]

def hexText (bytes : List UInt8) : List Char := bytes.flatMap byteHex

/-- The digit of a byte of text. -/
def hexDigit? (byte : UInt8) : Option Nat := hexValue? (Char.ofNat byte.toNat)

/-- `u8::from_str_radix` of two bytes of text: a leading plus sign is accepted. -/
def hexPair? (high low : UInt8) : Option UInt8 :=
  if high = 43 then (hexDigit? low).map .ofNat
  else do
    let high ← hexDigit? high
    let low ← hexDigit? low
    some (.ofNat (16 * high + low))

/-- The bytes of a text, read two at a time. -/
def readHex : List UInt8 → Option (List UInt8)
  | high :: low :: rest => do
    let byte ← hexPair? high low
    let bytes ← readHex rest
    some (byte :: bytes)
  | _ => some []

theorem hexPair?_byteHex : ∀ byte : Fin 256,
    hexPair? (.ofNat (Nat.digitChar (byte.val / 16)).toNat)
      (.ofNat (Nat.digitChar (byte.val % 16)).toNat) = some (.ofNat byte.val) := by
  decide +kernel

theorem encode_byteHex (byte : UInt8) : Utf8.encode (byteHex byte) =
    [.ofNat (Nat.digitChar (byte.toNat / 16)).toNat,
      .ofNat (Nat.digitChar (byte.toNat % 16)).toNat] := by
  have hbyte : byte.toNat < 256 := byte.toNat_lt
  have hhigh := Utf8.toNat_digitChar_lt ⟨byte.toNat / 16, by omega⟩
  have hlow := Utf8.toNat_digitChar_lt ⟨byte.toNat % 16, by omega⟩
  rw [byteHex, Utf8.encode_cons, Utf8.encode_cons, Utf8.encode_nil,
    Utf8.encodeChar_of_lt hhigh, Utf8.encodeChar_of_lt hlow]
  rfl

/-- **Bytes are read back from their hexadecimal text.** -/
theorem readHex_encode_hexText (bytes : List UInt8) :
    readHex (Utf8.encode (hexText bytes)) = some bytes := by
  induction bytes with
  | nil => rfl
  | cons byte bytes ih =>
    have hpair := hexPair?_byteHex ⟨byte.toNat, byte.toNat_lt⟩
    simp only [UInt8.ofNat_toNat] at hpair
    rw [hexText, List.flatMap_cons, ← hexText, Utf8.encode_append, encode_byteHex]
    simp only [List.cons_append, List.nil_append, readHex, hpair, ih, Option.bind_eq_bind,
      Option.bind_some]

theorem length_encode_hexText (bytes : List UInt8) :
    (Utf8.encode (hexText bytes)).length = 2 * bytes.length := by
  induction bytes with
  | nil => rfl
  | cons byte bytes ih =>
    rw [hexText, List.flatMap_cons, ← hexText, Utf8.encode_append, encode_byteHex,
      List.length_append, ih, List.length_cons, List.length_cons, List.length_cons, List.length_nil]
    omega

theorem hexText_injective {bytes bytes' : List UInt8} (h : hexText bytes = hexText bytes') :
    bytes = bytes' := by
  have hread := readHex_encode_hexText bytes
  rw [h, readHex_encode_hexText] at hread
  exact (Option.some.inj hread).symm

/-! ### Cursors -/

inductive CursorOrder
  | executionCreatedDescending
  | metadataIdentityAscending
  | nodeRowIdAscending
  | triggerCompositeIdentityAscending
  | eventSequenceAscending
  deriving DecidableEq, Repr

namespace CursorOrder

/-- The kebab-case name of an order. -/
def name : CursorOrder → String
  | executionCreatedDescending => "execution-created-descending"
  | metadataIdentityAscending => "metadata-identity-ascending"
  | nodeRowIdAscending => "node-row-id-ascending"
  | triggerCompositeIdentityAscending => "trigger-composite-identity-ascending"
  | eventSequenceAscending => "event-sequence-ascending"

def all : List CursorOrder :=
  [executionCreatedDescending, metadataIdentityAscending, nodeRowIdAscending,
    triggerCompositeIdentityAscending, eventSequenceAscending]

def ofName? (name : String) : Option CursorOrder := all.find? (·.name = name)

theorem ofName?_name (order : CursorOrder) : ofName? order.name = some order := by
  rcases order with - | - | - | - | - <;> decide

/-- The derived `Deserialize`: the name, or an object with the name as its only key. -/
def ofJson : Value → Option CursorOrder
  | .string name => ofName? name
  | .object [(name, .null)] => ofName? name
  | _ => none

end CursorOrder

/-- Filters, as the `BTreeMap` that holds them. -/
abbrev Filters : Type := {entries : StrMap String // entries.Ordered}

structure ManagementCursor where
  filters : Filters
  order : CursorOrder
  highWater : Option UInt64
  position : List String
  deriving DecidableEq

namespace ManagementCursor

/-- The derived `Serialize`. -/
def toJson (cursor : ManagementCursor) : Value :=
  .object
    [("filters", .object (cursor.filters.val.map fun entry => (entry.1, .string entry.2))),
      ("order", .string cursor.order.name),
      ("highWater", match cursor.highWater with
        | some n => .number (.int n.toNat)
        | none => .null),
      ("position", .array (cursor.position.map .string))]

/-- Insert the entries of a text one after another: the last one of a key stays. -/
def collectFilters : List (String × Value) → Filters → Option Filters
  | [], filters => some filters
  | (key, .string value) :: entries, filters =>
    collectFilters entries ⟨filters.val.insert key value, filters.property.insert key value⟩
  | _ :: _, _ => none

def filtersOfJson : Value → Option Filters
  | .object entries => collectFilters entries ⟨[], List.Pairwise.nil⟩
  | _ => none

def highWaterOfJson : Value → Option (Option UInt64)
  | .null => some none
  | .number (.int z) => if 0 ≤ z ∧ z < 2 ^ 64 then some (some (.ofNat z.toNat)) else none
  | _ => none

def positionOfJson : Value → Option (List String)
  | .array items => items.mapM Value.asStr
  | _ => none

/-- The derived `Deserialize`: an object without a repeated field, or the fields in their order. A
missing high water is none; other members are ignored. -/
def ofJson : Value → Option ManagementCursor
  | .object fields => do
    if (["filters", "order", "highWater", "position"].any fun name =>
      2 ≤ fields.countP fun field => field.1 = name) then none
    let filters ← filtersOfJson (← StrMap.get? fields "filters")
    let order ← CursorOrder.ofJson (← StrMap.get? fields "order")
    let highWater ← highWaterOfJson ((StrMap.get? fields "highWater").getD .null)
    let position ← positionOfJson (← StrMap.get? fields "position")
    some { filters, order, highWater, position }
  | .array [filters, order, highWater, position] => do
    let filters ← filtersOfJson filters
    let order ← CursorOrder.ofJson order
    let highWater ← highWaterOfJson highWater
    let position ← positionOfJson position
    some { filters, order, highWater, position }
  | _ => none

section Library

variable (json : Json.Library)

def encode (cursor : ManagementCursor) : Except String String :=
  .ok (.ofList (hexText (json.toVec cursor.toJson)))

def decode (value : String) : Except String ManagementCursor :=
  let text := Utf8.encode value.toList
  if text.isEmpty ∨ text.length % 2 ≠ 0 ∨ 16384 < text.length then
    .error "management cursor is malformed or exceeds its limit"
  else
    match ((readHex text).bind json.fromSlice).bind ofJson with
    | some cursor => .ok cursor
    | none => .error "management cursor is invalid"

end Library

def validateBinding (cursor : ManagementCursor) (filters : Filters) (order : CursorOrder)
    (highWater : Option UInt64) : Except String Unit :=
  if cursor.filters ≠ filters ∨ cursor.order ≠ order ∨ cursor.highWater ≠ highWater then
    .error "management cursor does not match the requested snapshot"
  else .ok ()

/-! ### What is read back -/

/-- Entries in key order are collected one by one behind those of other filters. -/
theorem exists_collectFilters {entries : StrMap String} (h : entries.Ordered) (filters : Filters) :
    ∃ collected, collectFilters (entries.map fun entry => (entry.1, .string entry.2)) filters =
        some collected ∧
      ∀ key, collected.val.get? key = (entries.get? key).or (filters.val.get? key) := by
  induction entries generalizing filters with
  | nil => exact ⟨filters, rfl, fun key => rfl⟩
  | cons entry entries ih =>
    obtain ⟨name, value⟩ := entry
    obtain ⟨hfirst, hrest⟩ := List.pairwise_cons.mp h
    obtain ⟨collected, hcollect, hget⟩ := ih hrest
      ⟨filters.val.insert name value, filters.property.insert name value⟩
    refine ⟨collected, hcollect, fun key => ?_⟩
    rw [hget, StrMap.get?_insert, StrMap.get?_cons]
    by_cases hkey : name = key
    · -- the name does not occur again, so its value stays
      subst hkey
      have hnone : StrMap.get? entries name = none := by
        rcases hfound : StrMap.get? entries name with - | other
        · rfl
        · exact absurd (hfirst name (StrMap.mem_keys_iff.mpr ⟨other, hfound⟩)) (lt_irrefl name)
      simp [hnone]
    · simp [hkey]

theorem filtersOfJson_entries (filters : Filters) :
    filtersOfJson (.object (filters.val.map fun entry => (entry.1, .string entry.2))) =
      some filters := by
  obtain ⟨collected, hcollect, hget⟩ :=
    exists_collectFilters filters.property ⟨[], List.Pairwise.nil⟩
  rw [filtersOfJson, hcollect]
  refine congrArg some (Subtype.ext (StrMap.Ordered.ext collected.property filters.property ?_))
  intro key
  simp [hget]

theorem positionOfJson_strings (position : List String) :
    positionOfJson (.array (position.map .string)) = some position := by
  rw [positionOfJson]
  induction position with
  | nil => rfl
  | cons text position ih =>
    rw [List.map_cons, List.mapM_cons, ih]
    rfl

/-- **A cursor is decoded from its own JSON.** -/
theorem ofJson_toJson (cursor : ManagementCursor) : ofJson cursor.toJson = some cursor := by
  obtain ⟨filters, order, highWater, position⟩ := cursor
  have hhigh : highWaterOfJson (match highWater with
      | some n => .number (.int n.toNat)
      | none => .null) = some highWater := by
    rcases highWater with - | n
    · rfl
    · have hlt := n.toNat_lt
      have hrange : (0 : Int) ≤ n.toNat ∧ (n.toNat : Int) < 2 ^ 64 := by omega
      simp only [highWaterOfJson, if_pos hrange, Int.toNat_natCast, UInt64.ofNat_toNat]
  simp only [toJson, ofJson]
  simp [filtersOfJson_entries, positionOfJson_strings, CursorOrder.ofJson,
    CursorOrder.ofName?_name, hhigh]

theorem written_toJson (cursor : ManagementCursor) (depth : Nat) :
    Json.Written (depth + 2) cursor.toJson := by
  refine .object fun field hfield => ?_
  simp only [List.mem_cons, List.not_mem_nil, or_false] at hfield
  rcases hfield with rfl | rfl | rfl | rfl
  · refine .object fun entry hentry => ?_
    obtain ⟨⟨key, value⟩, -, rfl⟩ := List.mem_map.mp hentry
    exact .string value
  · exact .string _
  · rcases cursor.highWater with - | n
    · exact .null
    · have hlt := n.toNat_lt
      exact .int (by omega) (by omega)
  · refine .array fun item hitem => ?_
    obtain ⟨text, -, rfl⟩ := List.mem_map.mp hitem
    exact .string text

theorem toJson_injective {cursor cursor' : ManagementCursor}
    (h : cursor.toJson = cursor'.toJson) : cursor = cursor' := by
  have hread := ofJson_toJson cursor
  rw [h, ofJson_toJson] at hread
  exact (Option.some.inj hread).symm

section Library

variable {json : Json.Library} {depth : Nat}

/-- The library writes no cursor as nothing. -/
theorem toVec_ne_nil (hjson : json.Conforms (depth + 2)) (cursor : ManagementCursor) :
    json.toVec cursor.toJson ≠ [] := by
  intro hnil
  have hread := hjson.roundTrip cursor.toJson (written_toJson cursor depth)
  rw [hnil, hjson.empty] at hread
  cases hread

/-- **A cursor is decoded from its text**, if the text is within the limit. -/
theorem decode_of_encode (hjson : json.Conforms (depth + 2)) {cursor : ManagementCursor}
    {text : String} (h : cursor.encode json = .ok text)
    (hlimit : (Utf8.encode text.toList).length ≤ 16384) : decode json text = .ok cursor := by
  obtain rfl : String.ofList (hexText (json.toVec cursor.toJson)) = text := Except.ok.inj h
  have hlength := length_encode_hexText (json.toVec cursor.toJson)
  have hpos := List.length_pos_iff.mpr (toVec_ne_nil hjson cursor)
  rw [String.toList_ofList] at hlimit
  have haccepted : ¬ ((Utf8.encode (hexText (json.toVec cursor.toJson))).isEmpty ∨
      (Utf8.encode (hexText (json.toVec cursor.toJson))).length % 2 ≠ 0 ∨
      16384 < (Utf8.encode (hexText (json.toVec cursor.toJson))).length) := by
    rw [List.isEmpty_iff_length_eq_zero]
    omega
  simp only [decode, String.toList_ofList, if_neg haccepted, readHex_encode_hexText,
    Option.bind_some, hjson.roundTrip _ (written_toJson cursor depth), ofJson_toJson]

/-- **Different cursors have different texts.** -/
theorem encode_injective (hjson : json.Conforms (depth + 2)) {cursor cursor' : ManagementCursor}
    (h : cursor.encode json = cursor'.encode json) : cursor = cursor' := by
  have hbytes := hexText_injective (String.ofList_injective (Except.ok.inj h))
  have hread := hjson.roundTrip cursor.toJson (written_toJson cursor depth)
  rw [hbytes, hjson.roundTrip _ (written_toJson cursor' depth)] at hread
  exact toJson_injective (Option.some.inj hread).symm

end Library

theorem validateBinding_eq_ok_iff {cursor : ManagementCursor} {filters : Filters}
    {order : CursorOrder} {highWater : Option UInt64} :
    cursor.validateBinding filters order highWater = .ok () ↔
      cursor.filters = filters ∧ cursor.order = order ∧ cursor.highWater = highWater := by
  unfold validateBinding
  split_ifs with hdiffers
  · constructor
    · intro h
      cases h
    · rintro ⟨hfilters, horder, hhigh⟩
      rcases hdiffers with hne | hne | hne
      · exact absurd hfilters hne
      · exact absurd horder hne
      · exact absurd hhigh hne
  · simpa only [not_or, ne_eq, not_not, true_iff] using hdiffers

end ManagementCursor

open ManagementCursor in
/-- **Cursors round trip and are bound to their listing**: within the length limit the text of a
cursor decodes to the cursor, no two cursors share a text, and what was made for one set of
filters, order and high water validates for no other. -/
theorem cursors_round_trip (json : Json.Library) (hjson : json.Conforms 127) :
    (∀ (cursor : ManagementCursor) text, cursor.encode json = .ok text →
      (Utf8.encode text.toList).length ≤ 16384 → decode json text = .ok cursor) ∧
    (∀ cursor cursor' : ManagementCursor, cursor.encode json = cursor'.encode json →
      cursor = cursor') ∧
    ∀ (cursor : ManagementCursor) text, cursor.encode json = .ok text →
      (Utf8.encode text.toList).length ≤ 16384 →
      ∀ filters order highWater,
        (filters, order, highWater) ≠ (cursor.filters, cursor.order, cursor.highWater) →
        ∃ decoded, decode json text = .ok decoded ∧
          decoded.validateBinding filters order highWater =
            .error "management cursor does not match the requested snapshot" := by
  refine ⟨fun cursor text htext hlimit => decode_of_encode hjson htext hlimit,
    fun cursor cursor' h => encode_injective hjson h, ?_⟩
  intro cursor text htext hlimit filters order highWater hne
  refine ⟨cursor, decode_of_encode hjson htext hlimit, ?_⟩
  have hrefused : ¬ cursor.validateBinding filters order highWater = .ok () := by
    rw [validateBinding_eq_ok_iff]
    rintro ⟨rfl, rfl, rfl⟩
    exact hne rfl
  unfold validateBinding at hrefused ⊢
  split_ifs at hrefused ⊢ with hdiffers
  · rfl
  · exact absurd rfl hrefused

/-- A cursor into a listing of failed executions. -/
def failedExecutionsCursor : ManagementCursor where
  filters := ⟨[("status", "failed\n\"é\"")], List.pairwise_singleton _ _⟩
  order := .executionCreatedDescending
  highWater := some 42
  position := ["2026-01-01", "17"]

theorem failedExecutionsCursor_round_trips :
    ∃ text, failedExecutionsCursor.encode (Json.reference 127) = .ok text ∧
      (Utf8.encode text.toList).length ≤ 16384 ∧
      ManagementCursor.decode (Json.reference 127) text = .ok failedExecutionsCursor := by
  have hlength : (Utf8.encode (String.ofList
      (hexText ((Json.reference 127).toVec failedExecutionsCursor.toJson))).toList).length ≤
        16384 := by
    rw [String.toList_ofList, length_encode_hexText]
    decide +kernel
  exact ⟨_, rfl, hlength,
    (cursors_round_trip _ (Json.reference_conforms 127)).1 failedExecutionsCursor _ rfl hlength⟩

end KakuneCore
