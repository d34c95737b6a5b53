import KakuneCore.Encoding.Text
import KakuneCore.Planner.Analysis
import Mathlib.Data.List.DropRight

/-!
# Source ranges of diagnostics

A diagnostic names its place by a JSON pointer. `range_for_pointer` walks the marked YAML tree to
the named key or element and makes a range of its span. The marks count characters, and `range_at`
takes them for byte offsets: the two are the same in ASCII text only.
-/

namespace KakuneCore

/-! ### Positions in a text -/

structure SourcePosition where
  line : Nat
  utf8ByteColumn : Nat
  utf16Column : Nat
  byteOffset : Nat
  deriving DecidableEq, Repr

structure SourceRange where
  start : SourcePosition
  «end» : SourcePosition
  deriving DecidableEq, Repr

def utf8Length (text : List Char) : Nat := (text.map Char.utf8Size).sum

/-- `encode_utf16().count()`. -/
def utf16Length (text : List Char) : Nat :=
    (text.map fun c => if c.toNat < 2 ^ 16 then 1 else 2).sum

/-- `&source[..offset]`; slicing panics where a character is cut. -/
def textBefore : List Char → (offset : Nat) → Except String (List Char)
  | _, 0 => .ok []
  | [], _ + 1 => .error "byte index is out of bounds"
  | c :: source, offset =>
    if c.utf8Size ≤ offset then (textBefore source (offset - c.utf8Size)).map (c :: ·)
    else .error "byte index is not a char boundary"

/-- `rfind('\n').map_or(0, |index| index + 1)`. -/
def lineStart (text : List Char) : Nat := utf8Length (text.rdropWhile (· ≠ '\n'))

/-- `&text[line_start..]`. -/
def lineText (text : List Char) : List Char := text.rtakeWhile (· ≠ '\n')

/-- The position `range_at` computes for an offset in the source. The casts to `u32` truncate. -/
def positionAt (source : List Char) (offset : Nat) : Except String SourcePosition := do
  let text ← textBefore source offset
  pure {
    line := text.count '\n' % 2 ^ 32
    utf8ByteColumn := (offset - lineStart text) % 2 ^ 32
    utf16Column := utf16Length (lineText text) % 2 ^ 32
    byteOffset := offset % 2 ^ 32 }

def rangeAt (source : List Char) (byteOffset width : Nat) : Except String SourceRange := do
  let offset := min byteOffset (utf8Length source)
  let endOffset := min (offset + width) (utf8Length source)
  let start ← positionAt source offset
  let stop ← positionAt source endOffset
  pure ⟨start, stop⟩

/-- The position behind a beginning of the source. -/
def exactPosition (text : List Char) : SourcePosition where
  line := text.count '\n'
  utf8ByteColumn := utf8Length (lineText text)
  utf16Column := utf16Length (lineText text)
  byteOffset := utf8Length text

/-! ### The marked tree -/

/-- Two marks: indices of characters. -/
structure Span where
  start : Nat
  stop : Nat
  deriving DecidableEq, Repr

/-- The exact range of a span. -/
def Span.range (span : Span) (source : List Char) : SourceRange :=
  ⟨exactPosition (source.take span.start), exactPosition (source.take span.stop)⟩

/-- `MarkedYaml`, with the data that the walk looks at. -/
inductive MarkedYaml
  | string (span : Span) (text : String)
  | representation (span : Span) (text : String)
  | sequence (span : Span) (items : List MarkedYaml)
  | mapping (span : Span) (entries : List (MarkedYaml × MarkedYaml))
  | other (span : Span)

def MarkedYaml.span : MarkedYaml → Span
  | string span _ | representation span _ | sequence span _ | mapping span _ | other span => span

def mapKeySpanKey : MarkedYaml → Option String
  | .string _ text => some text
  | .representation _ text => some text
  | _ => none

/-- The entry of a mapping that has the key. -/
def keyEntry (entries : List (MarkedYaml × MarkedYaml)) (key : String) :
    Option (MarkedYaml × MarkedYaml) :=
  entries.find? fun entry => mapKeySpanKey entry.1 = some key

/-- The item of a sequence with the index that the text says. -/
def indexItem (items : List MarkedYaml) (key : String) : Option MarkedYaml :=
  (parseUnsigned (2 ^ 64) key.toList).bind fun index => items[index]?

def decodePointerSegment (segment : List Char) : String :=
  .ofList (TextSearch.replaceAll ['~', '0'] ['~'] (TextSearch.replaceAll ['~', '1'] ['/'] segment))

/-- The loop of `range_for_pointer` over the segments, and the choice of the span behind it: the key
of a mapping, the item of a sequence, and at a scalar the key that led there. -/
def spanOf (node : MarkedYaml) (lastKeySpan : Span) (key : String) : List String → Option Span
  | [] =>
    match node with
    | .mapping _ entries => (keyEntry entries key).map fun entry => entry.1.span
    | .sequence _ items => (indexItem items key).map MarkedYaml.span
    | _ => some lastKeySpan
  | next :: segments =>
    match node with
    | .mapping _ entries =>
      (keyEntry entries key).bind fun entry => spanOf entry.2 entry.1.span next segments
    | .sequence _ items =>
      (indexItem items key).bind fun item => spanOf item lastKeySpan next segments
    | _ => none

def spanToRange (source : List Char) (span : Span) : Except String SourceRange :=
  let start := min span.start (utf8Length source)
  let stop := max (min span.stop (utf8Length source)) start
  rangeAt source start (stop - start)

/-- `pointer.split('/').skip(1)`, decoded. -/
def pointerSegments (pointer : String) : List String :=
  ((splitChars '/' pointer.toList).drop 1).map decodePointerSegment

/-- `YamlIndex::range_for_pointer`; an error is a panic. -/
def rangeForPointer (root : Option MarkedYaml) (source : List Char) (pointer : String) :
    Except String (Option SourceRange) :=
  match root with
  | none => .ok none
  | some root =>
    let span :=
      match pointerSegments pointer with
      | [] => some root.span
      | key :: segments => spanOf root root.span key segments
    match span with
    | none => .ok none
    | some span => (spanToRange source span).map some

/-! ### What a pointer names -/

/-- The JSON pointer with the given segments. -/
def pointerOf (segments : List String) : String :=
  .ofList (segments.flatMap fun segment => '/' :: (escapePointer segment).toList)

/-- The segments name a key or an element below the node; its span. An entry is found by the first
key that spells the segment, and an index is a `usize`. -/
inductive Names : MarkedYaml → List String → Span → Prop
  | key {span : Span} {before after : List (MarkedYaml × MarkedYaml)} {key value : MarkedYaml}
      {name : String} : mapKeySpanKey key = some name →
      (∀ entry ∈ before, mapKeySpanKey entry.1 ≠ some name) →
      Names (.mapping span (before ++ (key, value) :: after)) [name] key.span
  | element {span : Span} {items : List MarkedYaml} {item : MarkedYaml} {index : Nat} :
      items[index]? = some item → index < 2 ^ 64 →
      Names (.sequence span items) [toString index] item.span
  | member {span named : Span} {before after : List (MarkedYaml × MarkedYaml)}
      {key value : MarkedYaml} {name : String} {segments : List String} :
      mapKeySpanKey key = some name → (∀ entry ∈ before, mapKeySpanKey entry.1 ≠ some name) →
      Names value segments named →
      Names (.mapping span (before ++ (key, value) :: after)) (name :: segments) named
  | nested {span named : Span} {items : List MarkedYaml} {item : MarkedYaml} {index : Nat}
      {segments : List String} :
      items[index]? = some item → index < 2 ^ 64 → Names item segments named →
      Names (.sequence span items) (toString index :: segments) named

/-! ### Lengths -/

@[simp] theorem utf8Length_nil : utf8Length [] = 0 := rfl

theorem utf8Length_cons (c : Char) (text : List Char) :
    utf8Length (c :: text) = c.utf8Size + utf8Length text := rfl

theorem utf8Length_append (text rest : List Char) :
    utf8Length (text ++ rest) = utf8Length text + utf8Length rest := by
  rw [utf8Length, List.map_append, List.sum_append]
  rfl

theorem length_le_utf8Length (text : List Char) : text.length ≤ utf8Length text := by
  induction text with
  | nil => simp
  | cons c text ih =>
    have hpos := c.utf8Size_pos
    rw [List.length_cons, utf8Length_cons]
    omega

/-- A text has as many bytes as characters when it is ASCII. -/
theorem utf8Length_eq_length_iff {text : List Char} :
    utf8Length text = text.length ↔ ∀ c ∈ text, c.toNat < 128 := by
  induction text with
  | nil => simp
  | cons c text ih =>
    have hpos := c.utf8Size_pos
    have hle := length_le_utf8Length text
    have hone : c.utf8Size = 1 ↔ c.toNat < 128 := by
      rw [Char.utf8Size_eq_one_iff]
      exact Nat.lt_succ_iff.symm
    rw [List.length_cons, utf8Length_cons, List.forall_mem_cons, ← hone, ← ih]
    omega

theorem utf16Length_le_utf8Length (text : List Char) : utf16Length text ≤ utf8Length text := by
  induction text with
  | nil => simp [utf16Length]
  | cons c text ih =>
    have hwidth : (if c.toNat < 2 ^ 16 then 1 else 2) ≤ c.utf8Size := by
      have hpos := c.utf8Size_pos
      split_ifs with hc
      · exact hpos
      · have hne : c.utf8Size ≠ 1 := by
          rw [Ne, Char.utf8Size_eq_one_iff]
          intro hle
          have hle : c.toNat ≤ 127 := hle
          omega
        omega
    rw [utf8Length_cons]
    have hcons : utf16Length (c :: text) =
        (if c.toNat < 2 ^ 16 then 1 else 2) + utf16Length text := rfl
    omega

/-! ### Slices and positions -/

/-- A slice that ends behind a character. -/
theorem textBefore_of_prefix {source text : List Char} (h : text <+: source) :
    textBefore source (utf8Length text) = .ok text := by
  induction text generalizing source with
  | nil => rw [utf8Length_nil, textBefore]
  | cons c text ih =>
    obtain ⟨rest, rfl⟩ := h
    have hpos := c.utf8Size_pos
    obtain ⟨n, hn⟩ : ∃ n, utf8Length (c :: text) = n + 1 :=
      Nat.exists_eq_succ_of_ne_zero (by rw [utf8Length_cons]; omega)
    have hrest : n + 1 - c.utf8Size = utf8Length text := by
      rw [← hn, utf8Length_cons]
      omega
    have hle : c.utf8Size ≤ n + 1 := by
      rw [← hn, utf8Length_cons]
      omega
    rw [hn, List.cons_append, textBefore, if_pos hle, hrest, ih (List.prefix_append text rest)]
    · rfl
    · exact Nat.succ_ne_zero n

/-- The column counts from behind the last newline. -/
theorem utf8Length_sub_lineStart (text : List Char) :
    utf8Length text - lineStart text = utf8Length (lineText text) := by
  have hsplit := utf8Length_append (text.rdropWhile (· ≠ '\n')) (text.rtakeWhile (· ≠ '\n'))
  rw [List.rdropWhile_append_rtakeWhile] at hsplit
  rw [hsplit, lineStart, lineText, Nat.add_sub_cancel_left]

theorem utf8Length_lineText_le (text : List Char) :
    utf8Length (lineText text) ≤ utf8Length text := by
  rw [← utf8Length_sub_lineStart]
  exact Nat.sub_le _ _

/-- **A position is exact** behind a beginning of the source shorter than 4 GiB. -/
theorem positionAt_of_prefix {source text : List Char} (h : text <+: source)
    (hsmall : utf8Length text < 2 ^ 32) :
    positionAt source (utf8Length text) = .ok (exactPosition text) := by
  have hline : text.count '\n' < 2 ^ 32 :=
    (List.count_le_length.trans (length_le_utf8Length text)).trans_lt hsmall
  have hcolumn : utf8Length (lineText text) < 2 ^ 32 :=
    (utf8Length_lineText_le text).trans_lt hsmall
  have hunits : utf16Length (lineText text) < 2 ^ 32 :=
    (utf16Length_le_utf8Length _).trans_lt hcolumn
  rw [positionAt, textBefore_of_prefix h]
  change Except.ok (SourcePosition.mk (text.count '\n' % 2 ^ 32)
    ((utf8Length text - lineStart text) % 2 ^ 32) (utf16Length (lineText text) % 2 ^ 32)
    (utf8Length text % 2 ^ 32)) = _
  rw [utf8Length_sub_lineStart, Nat.mod_eq_of_lt hline, Nat.mod_eq_of_lt hcolumn,
    Nat.mod_eq_of_lt hunits, Nat.mod_eq_of_lt hsmall, exactPosition]

theorem byteOffset_of_positionAt {source : List Char} {offset : Nat} {position : SourcePosition}
    (h : positionAt source offset = .ok position) : position.byteOffset = offset % 2 ^ 32 := by
  rw [positionAt] at h
  rcases htext : textBefore source offset with error | text
  · rw [htext] at h
    cases h
  · rw [htext] at h
    obtain rfl := Except.ok.inj h
    rfl

/-! ### The range of a span -/

/-- The marks of a span lie in the source, in order. -/
structure Span.In (span : Span) (source : List Char) : Prop where
  ordered : span.start ≤ span.stop
  within : span.stop ≤ source.length

/-- Inside the source nothing is cut off. -/
theorem spanToRange_eq {source : List Char} {span : Span} (h : span.In source) :
    spanToRange source span = (do
      let start ← positionAt source span.start
      let stop ← positionAt source span.stop
      pure ⟨start, stop⟩) := by
  have hordered := h.ordered
  have hwithin := h.within
  have hlength := length_le_utf8Length source
  have hstart : min span.start (utf8Length source) = span.start := by omega
  have hstop : max (min span.stop (utf8Length source)) span.start = span.stop := by omega
  have hend :
      min (span.start + (span.stop - span.start)) (utf8Length source) = span.stop := by omega
  simp only [spanToRange, rangeAt, hstart, hstop, hend]

/-- **A span has its exact range** when the source is ASCII up to the end of the span, which is less
than 4 GiB behind the beginning. -/
theorem spanToRange_exact_iff {source : List Char} {span : Span} (h : span.In source) :
    spanToRange source span = .ok (span.range source) ↔
      (∀ c ∈ source.take span.stop, c.toNat < 128) ∧ span.stop < 2 ^ 32 := by
  have hwithin := h.within
  have hlength : (source.take span.stop).length = span.stop := List.length_take_of_le hwithin
  rw [spanToRange_eq h, ← utf8Length_eq_length_iff, hlength]
  constructor
  · intro hrange
    rcases hstart : positionAt source span.start with error | start
    · rw [hstart] at hrange
      cases hrange
    · rcases hstop : positionAt source span.stop with error | stop
      · rw [hstart, hstop] at hrange
        cases hrange
      · rw [hstart, hstop] at hrange
        have heq : stop = exactPosition (source.take span.stop) :=
          congrArg SourceRange.end (Except.ok.inj hrange)
        have hoffset := byteOffset_of_positionAt hstop
        have hbytes : stop.byteOffset = utf8Length (source.take span.stop) := by rw [heq]; rfl
        -- the cast only makes the offset smaller, and the bytes only make it larger
        have hle := length_le_utf8Length (source.take span.stop)
        omega
  · rintro ⟨hstop, hsmall⟩
    have hstart : utf8Length (source.take span.start) = span.start := by
      have hascii := utf8Length_eq_length_iff.mp (hstop.trans hlength.symm)
      have hbegins : source.take span.start <+: source.take span.stop :=
        List.take_prefix_take_left h.ordered
      have heq := utf8Length_eq_length_iff.mpr fun c hc => hascii c (hbegins.subset hc)
      rw [heq, List.length_take_of_le (h.ordered.trans hwithin)]
    have hfirst := positionAt_of_prefix (List.take_prefix span.start source)
      (by have := h.ordered; omega)
    have hsecond := positionAt_of_prefix (List.take_prefix span.stop source) (by omega)
    rw [hstart] at hfirst
    rw [hstop] at hsecond
    rw [hfirst, hsecond]
    rfl

/-! ### The walk -/

theorem splitChars_append_cons {c : Char} {piece : List Char} (h : c ∉ piece) (rest : List Char) :
    splitChars c (piece ++ c :: rest) = piece :: splitChars c rest := by
  obtain ⟨first, others, hrest⟩ : ∃ first others, splitChars c rest = first :: others := by
    rcases rest with - | ⟨d, rest⟩
    · exact ⟨[], [], rfl⟩
    · rw [splitChars]
      split
      · exact ⟨_, _, rfl⟩
      · split_ifs
        · exact ⟨_, _, rfl⟩
        · exact ⟨_, _, rfl⟩
  induction piece with
  | nil => simp [splitChars, hrest]
  | cons d piece ih =>
    rw [List.mem_cons, not_or] at h
    rw [List.cons_append, splitChars, ih h.2]
    simp [Ne.symm h.1]

theorem splitChars_of_not_mem {c : Char} {piece : List Char} (h : c ∉ piece) :
    splitChars c piece = [piece] := by
  induction piece with
  | nil => rfl
  | cons d piece ih =>
    rw [List.mem_cons, not_or] at h
    rw [splitChars, ih h.2]
    simp [Ne.symm h.1]

/-- The escape of a character. -/
def escapeChar (c : Char) : List Char :=
  if c = '~' then ['~', '0'] else if c = '/' then ['~', '1'] else [c]

theorem toList_escapePointer (segment : String) :
    (escapePointer segment).toList = segment.toList.flatMap escapeChar := by
  rw [escapePointer, String.toList_ofList]
  rfl

theorem slash_not_mem_escapePointer (segment : String) : '/' ∉ (escapePointer segment).toList := by
  rw [toList_escapePointer, List.mem_flatMap]
  rintro ⟨c, -, hc⟩
  rw [escapeChar] at hc
  split_ifs at hc with htilde hslash
  · simp at hc
  · simp at hc
  · exact hslash (List.mem_singleton.mp hc).symm

/-- **A segment is read back from its escape.** -/
theorem decodePointerSegment_escapePointer (segment : String) :
    decodePointerSegment (escapePointer segment).toList = segment := by
  have hslash : TextSearch.replaceAll ['~', '1'] ['/'] (escapePointer segment).toList =
      (segment.toList.map fun c => if c = '~' then ['~', '0'] else [c]).flatten := by
    rw [toList_escapePointer, List.flatMap_def, TextSearch.replaceAll_flatten (by simp),
      List.map_map]
    · congr 1
      refine List.map_congr_left fun c _ => ?_
      rw [Function.comp_apply, escapeChar]
      split_ifs <;> simp_all
    · intro token htoken
      obtain ⟨c, -, rfl⟩ := List.mem_map.mp htoken
      rw [escapeChar]
      split_ifs with htilde hslash
      · exact .inr (by decide)
      · exact .inl rfl
      · exact .inr (TextSearch.unmatched_of_not_mem (by simpa using Ne.symm htilde))
  rw [decodePointerSegment, hslash, TextSearch.replaceAll_flatten (by simp), List.map_map]
  · have hchars : (segment.toList.map ((fun token => if token = ['~', '0'] then ['~'] else token) ∘
        fun c => if c = '~' then ['~', '0'] else [c])) = segment.toList.map fun c => [c] := by
      refine List.map_congr_left fun c _ => ?_
      rw [Function.comp_apply]
      split_ifs <;> simp_all
    rw [hchars, ← List.flatMap_def, List.flatMap_singleton', String.ofList_toList]
  · intro token htoken
    obtain ⟨c, -, rfl⟩ := List.mem_map.mp htoken
    split_ifs with htilde
    · exact .inl rfl
    · exact .inr (TextSearch.unmatched_of_not_mem (by simpa using Ne.symm htilde))

/-- **The segments of a pointer** are read back. -/
theorem pointerSegments_pointerOf (segments : List String) :
    pointerSegments (pointerOf segments) = segments := by
  have hsplit : ∀ piece : List Char, '/' ∉ piece →
      splitChars '/'
        (piece ++ segments.flatMap fun segment => '/' :: (escapePointer segment).toList) =
        piece :: segments.map fun segment => (escapePointer segment).toList := by
    induction segments with
    | nil =>
      intro piece hpiece
      rw [List.flatMap_nil, List.append_nil, splitChars_of_not_mem hpiece, List.map_nil]
    | cons segment segments ih =>
      intro piece hpiece
      rw [List.flatMap_cons, List.cons_append, splitChars_append_cons hpiece,
        ih _ (slash_not_mem_escapePointer segment), List.map_cons]
  have hpointer := hsplit [] List.not_mem_nil
  rw [List.nil_append] at hpointer
  rw [pointerSegments, pointerOf, String.toList_ofList, hpointer, List.drop_one, List.tail_cons,
    List.map_map]
  have hid : decodePointerSegment ∘ (fun segment => (escapePointer segment).toList) = id :=
    funext decodePointerSegment_escapePointer
  rw [hid, List.map_id]

theorem keyEntry_eq {before after : List (MarkedYaml × MarkedYaml)} {key value : MarkedYaml}
    {name : String} (hkey : mapKeySpanKey key = some name)
    (hbefore : ∀ entry ∈ before, mapKeySpanKey entry.1 ≠ some name) :
    keyEntry (before ++ (key, value) :: after) name = some (key, value) := by
  rw [keyEntry, List.find?_append, List.find?_eq_none.mpr, Option.none_or, List.find?_cons_of_pos]
  · simpa using hkey
  · simpa using hbefore

theorem indexItem_eq {items : List MarkedYaml} {item : MarkedYaml} {index : Nat}
    (hitem : items[index]? = some item) (hindex : index < 2 ^ 64) :
    indexItem items (toString index) = some item := by
  have hdigits : (toString index).toList = Nat.toDigits 10 index := by
    rw [Nat.toString_eq_ofList_toDigits, String.toList_ofList]
  rw [indexItem, hdigits, parseUnsigned_toDigits hindex]
  exact hitem

/-- **The walk finds what the segments name**, whatever key led to the node. -/
theorem Names.spanOf_eq {node : MarkedYaml} {segments : List String} {named : Span}
    (h : Names node segments named) (lastKeySpan : Span) :
    ∃ key rest, segments = key :: rest ∧ spanOf node lastKeySpan key rest = some named := by
  induction h generalizing lastKeySpan with
  | key hkey hbefore =>
    refine ⟨_, [], rfl, ?_⟩
    rw [spanOf, keyEntry_eq hkey hbefore]
    rfl
  | element hitem hindex =>
    refine ⟨_, [], rfl, ?_⟩
    rw [spanOf, indexItem_eq hitem hindex]
    rfl
  | member hkey hbefore _ ih =>
    obtain ⟨next, rest, rfl, hspan⟩ := ih _
    refine ⟨_, _, rfl, ?_⟩
    rw [spanOf, keyEntry_eq hkey hbefore]
    exact hspan
  | nested hitem hindex _ ih =>
    obtain ⟨next, rest, rfl, hspan⟩ := ih _
    refine ⟨_, _, rfl, ?_⟩
    rw [spanOf, indexItem_eq hitem hindex]
    exact hspan

/-- The pointer names the whole document, or a key or an element of it. -/
def MarkedYaml.Named (root : MarkedYaml) (pointer : String) (span : Span) : Prop :=
  (pointer = "" ∧ span = root.span) ∨
    ∃ segments, pointer = pointerOf segments ∧ Names root segments span

/-- The range of what is named is made of its span. -/
theorem rangeForPointer_eq {root : MarkedYaml} {source : List Char} {pointer : String} {span : Span}
    (h : root.Named pointer span) :
    rangeForPointer (some root) source pointer = (spanToRange source span).map some := by
  rcases h with ⟨rfl, rfl⟩ | ⟨segments, rfl, hnames⟩
  · rfl
  · obtain ⟨key, rest, rfl, hspan⟩ := hnames.spanOf_eq root.span
    rw [rangeForPointer, pointerSegments_pointerOf]
    simp only [hspan]

/-- **The range of a named key or element** is the exact one when the source is ASCII up to its end,
which is less than 4 GiB behind the beginning. -/
theorem source_range_exact_iff (root : MarkedYaml) (source : List Char) (pointer : String)
    (span : Span) (hnamed : root.Named pointer span) (hspan : span.In source) :
    rangeForPointer (some root) source pointer = .ok (some (span.range source)) ↔
      (∀ c ∈ source.take span.stop, c.toNat < 128) ∧ span.stop < 2 ^ 32 := by
  rw [rangeForPointer_eq hnamed, ← spanToRange_exact_iff hspan]
  rcases spanToRange source span with error | range
  · simp [Except.map]
  · simp [Except.map]

/-- The tree of two lines with a key of one letter and a digit each. -/
def twoKeys (first second : String) : MarkedYaml :=
  .mapping ⟨0, 9⟩ [(.string ⟨0, 1⟩ first, .other ⟨3, 4⟩), (.string ⟨5, 6⟩ second, .other ⟨8, 9⟩)]

theorem named_twoKeys (first : String) (h : first ≠ "b") :
    (twoKeys first "b").Named "/b" ⟨5, 6⟩ :=
  .inr ⟨["b"], by decide, @Names.key _ [(.string ⟨0, 1⟩ first, .other ⟨3, 4⟩)] []
    (.string ⟨5, 6⟩ "b") _ _ rfl (List.forall_mem_singleton.mpr (by simpa [mapKeySpanKey] using h))⟩

/-- The second key of an ASCII source. -/
theorem ascii_key_has_exact_range :
    rangeForPointer (some (twoKeys "a" "b")) "a: 1\nb: 2".toList "/b" =
      .ok (some ⟨⟨1, 0, 0, 5⟩, ⟨1, 1, 1, 6⟩⟩) := by
  have hrange : (⟨5, 6⟩ : Span).range "a: 1\nb: 2".toList = ⟨⟨1, 0, 0, 5⟩, ⟨1, 1, 1, 6⟩⟩ := by
    decide +kernel
  rw [← hrange]
  have hin : (⟨5, 6⟩ : Span).In "a: 1\nb: 2".toList := ⟨by decide, by decide⟩
  have hascii : ∀ c ∈ "a: 1\nb: 2".toList.take 6, c.toNat < 128 := by simp
  have hsmall : 6 < 2 ^ 32 := by decide
  exact (source_range_exact_iff (twoKeys "a" "b") _ "/b" ⟨5, 6⟩ (named_twoKeys "a" (by decide))
    hin).mpr ⟨hascii, hsmall⟩

/-- Where the first key is not ASCII, the range of the second one begins a byte too early, and that
of the first one panics. -/
theorem accented_key_panics :
    (twoKeys "é" "b").Named "/é" ⟨0, 1⟩ ∧ (⟨0, 1⟩ : Span).In "é: 1\nb: 2".toList ∧
      rangeForPointer (some (twoKeys "é" "b")) "é: 1\nb: 2".toList "/é" =
        .error "byte index is not a char boundary" ∧
      rangeForPointer (some (twoKeys "é" "b")) "é: 1\nb: 2".toList "/b" =
        .ok (some ⟨⟨0, 5, 4, 5⟩, ⟨1, 0, 0, 6⟩⟩) := by
  have hfirst : (twoKeys "é" "b").Named "/é" ⟨0, 1⟩ :=
    .inr ⟨["é"], by decide, @Names.key _ [] _ (.string ⟨0, 1⟩ "é") _ _ rfl (by simp)⟩
  refine ⟨hfirst, ⟨by decide, by decide⟩, ?_, ?_⟩
  · rw [rangeForPointer_eq hfirst]
    decide +kernel
  · rw [rangeForPointer_eq (named_twoKeys "é" (by decide))]
    decide +kernel

end KakuneCore
