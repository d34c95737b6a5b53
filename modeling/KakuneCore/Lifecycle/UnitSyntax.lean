import KakuneCore.Lifecycle.Systemd

/-!
# What systemd reads

The documented syntax of a unit: words stand between whitespace, single and double quotation marks
group, a backslash begins an escape, `%%` is a percent sign, and in a command `$$` is a dollar sign.

The main result, `unit_is_read_iff`: the unit that is rendered for a valid definition is read as its
command and its data directory exactly when there is no **single quotation mark** in them and no
**dollar sign** in the data directory. Neither is escaped: the first groups, and the second is
doubled where nothing takes the pair for one.
-/

namespace KakuneCore

open TextSearch

namespace SystemdSyntax

/-! ### The syntax -/

/-- A byte of a value, or one that an escape stands for. -/
inductive Symbol
  | plain (byte : UInt8)
  | escaped (byte : UInt8)
  deriving DecidableEq, Repr

def Symbol.byte : Symbol → UInt8
  | plain byte | escaped byte => byte

/-- The escapes of one letter. -/
def simpleEscape (letter : UInt8) : Option UInt8 :=
  ([(97, 7), (98, 8), (102, 12), (110, 10), (114, 13), (116, 9), (118, 11), (92, 92), (34, 34),
    (39, 39), (115, 32)].find? fun entry : UInt8 × UInt8 => entry.1 = letter).map Prod.snd

/-- The escapes of a value. -/
def symbols : Bytes → Option (List Symbol)
  | [] => some []
  | 92 :: 120 :: high :: low :: rest => do
    let h ← hexValue high
    let l ← hexValue low
    return .escaped (16 * h + l) :: (← symbols rest)
  | 92 :: letter :: rest => do return .escaped (← simpleEscape letter) :: (← symbols rest)
  | [92] => none
  | byte :: rest => do return .plain byte :: (← symbols rest)

def isQuote (byte : UInt8) : Bool := byte = 34 || byte = 39

def isSeparator (byte : UInt8) : Bool := byte = 32 || byte = 9 || byte = 10 || byte = 13

/-- A word with another byte. -/
def push (word : Option Bytes) (byte : UInt8) : Option Bytes := some (word.getD [] ++ [byte])

/-- The words of a value, behind an open quotation mark and the part of a word. -/
def group : Option UInt8 → Option Bytes → List Symbol → Option (List Bytes)
  | none, word, [] => some word.toList
  | some _, _, [] => none
  | quote, word, .escaped byte :: rest => group quote (push word byte) rest
  | none, word, .plain byte :: rest =>
    if isQuote byte then group (some byte) (some (word.getD [])) rest
    else if isSeparator byte then (group none none rest).map (word.toList ++ ·)
    else group none (push word byte) rest
  | some quote, word, .plain byte :: rest =>
    if byte = quote then group none word rest else group (some quote) (push word byte) rest

def words (value : Bytes) : Option (List Bytes) := (symbols value).bind (group none none)

/-- A pair of marks stands for one; a single mark begins something else. -/
def undouble (mark : UInt8) : Bytes → Option Bytes
  | [] => some []
  | [byte] => if byte = mark then none else some [byte]
  | byte :: next :: rest =>
    if byte = mark then
      if next = mark then (undouble mark rest).map (mark :: ·) else none
    else (undouble mark (next :: rest)).map (byte :: ·)

/-- The percent sign of specifiers. -/
def percent : UInt8 := 37

/-- The dollar sign of variables. -/
def dollar : UInt8 := 36

/-- A command. -/
def command (value : Bytes) : Option (List Bytes) := do
  (← words value).mapM fun word => (undouble percent word).bind (undouble dollar)

/-- A list of paths. -/
def pathList (value : Bytes) : Option (List Bytes) := do (← words value).mapM (undouble percent)

/-- The command of a unit. -/
def unitCommand (unit : List Char) : Option (List Bytes) :=
  (setting "ExecStart=" (linesOf '\n' '\r' unit)).bind fun value => command (Utf8.encode value)

/-- The paths that a unit may write to. -/
def unitPaths (unit : List Char) : Option (List Bytes) :=
  (setting "ReadWritePaths=" (linesOf '\n' '\r' unit)).bind fun value =>
    pathList (Utf8.encode value)

/-! ### Words -/

/-- A symbol that is part of a word wherever it stands. -/
def Symbol.IsOrdinary : Symbol → Prop
  | escaped _ => True
  | plain byte => isQuote byte = false ∧ isSeparator byte = false

theorem group_ordinary {text rest : List Symbol} (h : ∀ symbol ∈ text, symbol.IsOrdinary)
    (word : Bytes) : group none (some word) (text ++ rest) =
      group none (some (word ++ text.map Symbol.byte)) rest := by
  induction text generalizing word with
  | nil => simp
  | cons symbol text ih =>
    rw [List.forall_mem_cons] at h
    have hpush : group none (some word) (symbol :: (text ++ rest)) =
        group none (some (word ++ [symbol.byte])) (text ++ rest) := by
      cases symbol with
      | escaped byte => rfl
      | plain byte =>
        obtain ⟨hquote, hseparator⟩ := h.1
        rw [group, hquote, hseparator]
        rfl
    rw [List.cons_append, hpush, ih h.2, List.map_cons, List.append_assoc, List.singleton_append]

instance (symbol : Symbol) : Decidable symbol.IsOrdinary := by
  cases symbol <;> unfold Symbol.IsOrdinary <;> infer_instance

/-- A word begins with its first symbol. -/
theorem group_begin {text rest : List Symbol} (h : ∀ symbol ∈ text, symbol.IsOrdinary)
    (hne : text ≠ []) :
    group none none (text ++ rest) = group none (some (text.map Symbol.byte)) rest := by
  obtain ⟨symbol, text, rfl⟩ := List.exists_cons_of_ne_nil hne
  rw [List.forall_mem_cons] at h
  have hpush : group none none (symbol :: (text ++ rest)) =
      group none (some [symbol.byte]) (text ++ rest) := by
    cases symbol with
    | escaped byte => rfl
    | plain byte =>
      obtain ⟨hquote, hseparator⟩ := h.1
      rw [group, hquote, hseparator]
      rfl
  rw [List.cons_append, hpush, group_ordinary h.2, List.map_cons, List.singleton_append]

/-- Ordinary words between spaces. -/
theorem group_words {texts : List (List Symbol)}
    (h : ∀ text ∈ texts, text ≠ [] ∧ ∀ symbol ∈ text, symbol.IsOrdinary) :
    group none none ([.plain 32].intercalate texts) =
      some (texts.map (·.map Symbol.byte)) := by
  induction texts with
  | nil => rfl
  | cons text texts ih =>
    rw [List.forall_mem_cons] at h
    cases texts with
    | nil =>
      have hlast := @group_begin text [] h.1.2 h.1.1
      rw [List.append_nil] at hlast
      rw [List.intercalate_singleton, hlast]
      rfl
    | cons next texts =>
      rw [List.intercalate_cons_cons, List.append_assoc, group_begin h.1.2 h.1.1,
        List.singleton_append, group, if_neg (by decide), if_pos (by decide), ih h.2]
      rfl

/-- A text whose only quotation marks are single ones loses them all. -/
theorem quote_not_mem_group {text : List Symbol}
    (h : ∀ symbol ∈ text, symbol ≠ .escaped 39 ∧ symbol ≠ .plain 34) {quote : Option UInt8}
    (hquote : ∀ byte ∈ quote, byte = 39) {word : Option Bytes} (hword : ∀ w ∈ word, 39 ∉ w)
    {found : List Bytes} (hfound : group quote word text = some found) :
    ∀ w ∈ found, 39 ∉ w := by
  induction text generalizing quote word found with
  | nil =>
    cases quote with
    | none =>
      cases hfound
      simpa using hword
    | some byte => cases hfound
  | cons symbol text ih =>
    rw [List.forall_mem_cons] at h
    have hpush : ∀ byte, byte ≠ 39 → ∀ w ∈ push word byte, (39 : UInt8) ∉ w := by
      intro byte hbyte w hw
      cases hw
      rw [List.mem_append, not_or, List.mem_singleton]
      refine ⟨?_, Ne.symm hbyte⟩
      cases word with
      | none => exact List.not_mem_nil
      | some word => exact hword word rfl
    cases symbol with
    | escaped byte =>
      rw [group] at hfound
      exact ih h.2 hquote (hpush byte fun heq => h.1.1 (heq ▸ rfl)) hfound
    | plain byte =>
      cases quote with
      | none =>
        rw [group] at hfound
        split_ifs at hfound with hmark hspace
        · -- the mark can only be a single one
          have hbyte : byte = 39 := by
            simp only [isQuote, Bool.or_eq_true, decide_eq_true_eq] at hmark
            exact hmark.resolve_left fun heq => h.1.2 (heq ▸ rfl)
          refine ih h.2 (by simpa using hbyte) ?_ hfound
          cases word with
          | none => simp
          | some word => simpa using hword
        · cases hrest : group none none text with
          | none => rw [hrest] at hfound; cases hfound
          | some rest =>
            rw [hrest] at hfound
            cases hfound
            intro w hw
            rcases List.mem_append.mp hw with hw | hw
            · exact hword w (by simpa using hw)
            · exact ih h.2 hquote (by simp) hrest w hw
        · refine ih h.2 hquote (hpush byte ?_) hfound
          rintro rfl
          exact hmark rfl
      | some mark =>
        obtain rfl : mark = 39 := hquote mark rfl
        rw [group] at hfound
        split_ifs at hfound with hclose
        · exact ih h.2 (by simp) hword hfound
        · exact ih h.2 hquote (hpush byte hclose) hfound

/-! ### Pairs of marks -/

/-- Every mark twice. -/
def double (mark : UInt8) (text : Bytes) : Bytes :=
  text.flatMap fun byte => if byte = mark then [byte, byte] else [byte]

theorem undouble_cons {mark byte : UInt8} (h : byte ≠ mark) (text : Bytes) :
    undouble mark (byte :: text) = (undouble mark text).map (byte :: ·) := by
  cases text with
  | nil => simp [undouble, h]
  | cons next text => rw [undouble, if_neg h]

theorem undouble_double (mark : UInt8) (text : Bytes) :
    undouble mark (double mark text) = some text := by
  induction text with
  | nil => rfl
  | cons byte text ih =>
    rw [double, List.flatMap_cons, ← double]
    split_ifs with h
    · subst h
      rw [List.cons_append, List.singleton_append, undouble, if_pos rfl, if_pos rfl, ih]
      rfl
    · rw [List.singleton_append, undouble_cons h, ih]
      rfl

/-- Nothing new is read. -/
theorem mem_of_undouble {mark byte : UInt8} {text read : Bytes} (h : undouble mark text = some read)
    (hmem : byte ∈ read) : byte ∈ text := by
  fun_induction undouble mark text generalizing read with
  | case1 => cases h; exact hmem
  | case2 => cases h
  | case3 => cases h; exact hmem
  | case4 rest ih =>
    obtain ⟨tail, htail, rfl⟩ := Option.map_eq_some_iff.mp h
    rcases List.mem_cons.mp hmem with rfl | hmem
    · exact List.mem_cons_self
    · exact List.mem_cons_of_mem _ (List.mem_cons_of_mem _ (ih htail hmem))
  | case5 => cases h
  | case6 byte' next rest hne ih =>
    obtain ⟨tail, htail, rfl⟩ := Option.map_eq_some_iff.mp h
    rcases List.mem_cons.mp hmem with rfl | hmem
    · exact List.mem_cons_self
    · exact List.mem_cons_of_mem _ (ih htail hmem)

theorem double_append (mark : UInt8) (text rest : Bytes) :
    double mark (text ++ rest) = double mark text ++ double mark rest :=
  List.flatMap_append

theorem double_of_not_mem {mark : UInt8} {text : Bytes} (h : mark ∉ text) :
    double mark text = text := by
  have hsingle : ∀ byte ∈ text, (if byte = mark then [byte, byte] else [byte]) = [byte] := by
    intro byte hbyte
    rw [if_neg]
    rintro rfl
    exact h hbyte
  rw [double, List.flatMap_congr hsingle, List.flatMap_singleton']

/-- A text is as it was where it had no mark. -/
theorem double_eq_self_iff {mark : UInt8} {text : Bytes} :
    double mark text = text ↔ mark ∉ text := by
  refine ⟨fun h hmem => ?_, double_of_not_mem⟩
  have hcount : ∀ bytes : Bytes, (double mark bytes).count mark = 2 * bytes.count mark := by
    intro bytes
    induction bytes with
    | nil => rfl
    | cons byte bytes ih =>
      rw [double, List.flatMap_cons, ← double, List.count_append, ih]
      by_cases hbyte : byte = mark
      · subst hbyte
        rw [if_pos rfl, List.count_cons_self, List.count_cons_self, List.count_cons_self,
          List.count_nil]
        omega
      · rw [if_neg hbyte, List.count_cons_of_ne (by simpa using hbyte),
          List.count_cons_of_ne (by simpa using hbyte), List.count_nil]
        omega
  have hpos := List.count_pos_iff.mpr hmem
  have htext := hcount text
  rw [h] at htext
  omega

/-! ### The rendered values -/

/-- The symbols of an escaped character. -/
def unitSymbols (c : Char) : List Symbol :=
  if 128 ≤ c.toNat then (String.utf8EncodeChar c).map .plain
  else if c = ' ' ∨ c = '\t' ∨ c = '\\' ∨ c = '"' then [.escaped (.ofNat c.toNat)]
  else if c = '$' ∨ c = '%' then [.plain (.ofNat c.toNat), .plain (.ofNat c.toNat)]
  else if c.toNat < 32 ∨ c.toNat = 127 then [.escaped (.ofNat c.toNat)]
  else [.plain (.ofNat c.toNat)]

theorem symbols_plain {byte : UInt8} (h : byte ≠ 92) (rest : Bytes) :
    symbols (byte :: rest) = (symbols rest).map (.plain byte :: ·) := by
  rw [symbols.eq_def]
  split
  case h_5 heq =>
    cases heq
    cases symbols rest <;> rfl
  all_goals simp_all

theorem symbols_copy {bytes : Bytes} (h : 92 ∉ bytes) (rest : Bytes) :
    symbols (bytes ++ rest) = (symbols rest).map (bytes.map .plain ++ ·) := by
  induction bytes with
  | nil =>
    rw [List.nil_append]
    cases symbols rest <;> rfl
  | cons byte bytes ih =>
    rw [List.mem_cons, not_or] at h
    rw [List.cons_append, symbols_plain (Ne.symm h.1), ih h.2, Option.map_map]
    rfl

theorem symbols_hex : ∀ n : Fin 128, ∀ rest,
    symbols (92 :: 120 :: .ofNat (Nat.digitChar (n / 16)).toNat ::
      .ofNat (Nat.digitChar (n % 16)).toNat :: rest) =
        (symbols rest).map (.escaped (.ofNat n) :: ·) := by
  have hdigits : ∀ n : Fin 128, ∃ high low,
      hexValue (.ofNat (Nat.digitChar (n / 16)).toNat) = some high ∧
        hexValue (.ofNat (Nat.digitChar (n % 16)).toNat) = some low ∧
        16 * high + low = .ofNat n := by
    intro n
    have hhigh : ∀ m : Fin 16, hexValue (.ofNat (Nat.digitChar m).toNat) = some (.ofNat m) := by
      decide
    have hsum : ∀ m : Fin 128, 16 * UInt8.ofNat (m / 16) + UInt8.ofNat (m % 16) = .ofNat m := by
      decide
    exact ⟨_, _, hhigh ⟨n / 16, by omega⟩, hhigh ⟨n % 16, by omega⟩, hsum n⟩
  intro n rest
  obtain ⟨high, low, hhigh, hlow, hsum⟩ := hdigits n
  rw [symbols, hhigh, hlow, ← hsum]
  cases symbols rest <;> rfl

theorem symbols_slash (rest : Bytes) :
    symbols (92 :: 92 :: rest) = (symbols rest).map (.escaped 92 :: ·) := by
  rw [symbols, show simpleEscape 92 = some 92 by decide]
  · cases symbols rest <;> rfl
  · rintro high low tail ⟨⟩

/-- **An escaped character is read as its symbols**, in front of any text. -/
theorem symbols_escapeChar (c : Char) (rest : Bytes) :
    symbols (Utf8.encode (systemdEscapeChar c) ++ rest) =
      (symbols rest).map (unitSymbols c ++ ·) := by
  by_cases hwide : 128 ≤ c.toNat
  · -- its bytes are beyond those that begin an escape
    have hslash : 92 ∉ String.utf8EncodeChar c := fun hmem =>
      absurd (Utf8.le_of_mem_encodeChar hwide hmem) (by decide)
    rw [systemdEscapeChar, if_pos hwide, unitSymbols, if_pos hwide, Utf8.encode_cons,
      Utf8.encode_nil, List.append_nil, symbols_copy hslash]
  · have hlt : c.toNat < 128 := by omega
    have hhex : symbols (Utf8.encode ['\\', 'x', Nat.digitChar (c.toNat / 16),
        Nat.digitChar (c.toNat % 16)] ++ rest) =
          (symbols rest).map ([.escaped (.ofNat c.toNat)] ++ ·) := by
      rw [encode_of_lt (by decide), encode_of_lt (by decide),
        encode_of_lt (Utf8.toNat_digitChar_lt ⟨c.toNat / 16, by omega⟩),
        encode_of_lt (Utf8.toNat_digitChar_lt ⟨c.toNat % 16, by omega⟩)]
      exact symbols_hex ⟨c.toNat, hlt⟩ rest
    have hplain : c ≠ '\\' → ∀ text, symbols (.ofNat c.toNat :: text) =
        (symbols text).map (.plain (.ofNat c.toNat) :: ·) := by
      intro hne text
      refine symbols_plain (fun heq => hne (Char.toNat_inj.mp ?_)) text
      have hnat := congrArg UInt8.toNat heq
      rwa [UInt8.toNat_ofNat', Nat.mod_eq_of_lt (by omega)] at hnat
    have htwice : c ≠ '\\' → symbols (Utf8.encode [c, c] ++ rest) =
        (symbols rest).map ([.plain (.ofNat c.toNat), .plain (.ofNat c.toNat)] ++ ·) := by
      intro hne
      rw [encode_of_lt hlt, encode_of_lt hlt, Utf8.encode_nil, List.cons_append, hplain hne,
        List.singleton_append, hplain hne, Option.map_map]
      rfl
    rw [systemdEscapeChar, if_neg hwide, unitSymbols, if_neg hwide]
    by_cases hspace : c = ' '
    · subst hspace
      exact hhex
    by_cases htab : c = '\t'
    · subst htab
      exact hhex
    by_cases hslash : c = '\\'
    · subst hslash
      exact symbols_slash rest
    by_cases hquote : c = '"'
    · subst hquote
      exact hhex
    have hescaped : ¬ (c = ' ' ∨ c = '\t' ∨ c = '\\' ∨ c = '"') := by tauto
    rw [if_neg hspace, if_neg htab, if_neg hslash, if_neg hquote, if_neg hescaped]
    by_cases hdollar : c = '$'
    · subst hdollar
      rw [if_pos rfl, if_pos (.inl rfl)]
      exact htwice (by decide)
    by_cases hpercent : c = '%'
    · subst hpercent
      rw [if_neg hdollar, if_pos rfl, if_pos (.inr rfl)]
      exact htwice (by decide)
    have hdoubled : ¬ (c = '$' ∨ c = '%') := by tauto
    rw [if_neg hdollar, if_neg hpercent, if_neg hdoubled]
    by_cases hcontrol : c.toNat < 32 ∨ c.toNat = 127
    · rw [if_pos hcontrol, if_pos hcontrol]
      exact hhex
    · rw [if_neg hcontrol, if_neg hcontrol, encode_of_lt hlt, Utf8.encode_nil]
      exact hplain hslash rest

theorem symbols_escapeArgument (argument : List Char) (rest : Bytes) :
    symbols (Utf8.encode (systemdEscapeArgument argument) ++ rest) =
      (symbols rest).map (argument.flatMap unitSymbols ++ ·) := by
  induction argument with
  | nil =>
    rw [systemdEscapeArgument, List.flatMap_nil, Utf8.encode_nil, List.nil_append]
    cases symbols rest <;> rfl
  | cons c argument ih =>
    rw [systemdEscapeArgument, List.flatMap_cons, ← systemdEscapeArgument, Utf8.encode_append,
      List.append_assoc, symbols_escapeChar, ih, Option.map_map, List.flatMap_cons]
    simp [Function.comp_def]

/-- A command is read as the symbols of its arguments, between spaces. -/
theorem symbols_command (arguments : List (List Char)) :
    symbols (Utf8.encode ([' '].intercalate (arguments.map systemdEscapeArgument))) =
      some ([.plain 32].intercalate (arguments.map (·.flatMap unitSymbols))) := by
  induction arguments with
  | nil => rfl
  | cons first arguments ih =>
    cases arguments with
    | nil =>
      have hlast := symbols_escapeArgument first []
      rw [List.append_nil] at hlast
      rw [List.map_singleton, List.map_singleton, List.intercalate_singleton,
        List.intercalate_singleton, hlast]
      simp [symbols]
    | cons second arguments =>
      have hspace : Utf8.encode [' '] = [32] := by decide
      rw [List.map_cons, List.map_cons, List.intercalate_cons_cons, ← List.map_cons,
        List.append_assoc, Utf8.encode_append, symbols_escapeArgument, Utf8.encode_append, hspace,
        List.singleton_append, symbols_plain (by decide), ih, List.map_cons, List.map_cons,
        List.map_cons, List.intercalate_cons_cons]
      simp

/-! ### Ordinary arguments -/

/-- The mark that is not escaped. -/
def singleQuote : Char := .ofNat 39

theorem ofNat_ne_ofNat {m n : Nat} (hm : m < 128) (hn : n < 128) (hne : m ≠ n) :
    UInt8.ofNat m ≠ UInt8.ofNat n := by
  intro heq
  have hnat := congrArg UInt8.toNat heq
  rw [UInt8.toNat_ofNat', UInt8.toNat_ofNat', Nat.mod_eq_of_lt (by omega),
    Nat.mod_eq_of_lt (by omega)] at hnat
  exact hne hnat

/-- An ASCII byte stands for its character. -/
theorem mem_encode_iff {d : Char} (hd : d.toNat < 128) {text : List Char} :
    UInt8.ofNat d.toNat ∈ Utf8.encode text ↔ d ∈ text := by
  constructor
  · intro hmem
    obtain ⟨c, hc, hbyte⟩ := List.mem_flatMap.mp hmem
    by_cases hwide : 128 ≤ c.toNat
    · have hlarge := Utf8.le_of_mem_encodeChar hwide hbyte
      rw [UInt8.toNat_ofNat', Nat.mod_eq_of_lt (by omega)] at hlarge
      omega
    · rw [Utf8.encodeChar_of_lt (by omega), List.mem_singleton] at hbyte
      by_contra hnot
      refine ofNat_ne_ofNat hd (by omega) ?_ hbyte
      intro heq
      exact hnot (Char.toNat_inj.mp heq ▸ hc)
  · intro hmem
    refine List.mem_flatMap.mpr ⟨d, hmem, ?_⟩
    rw [Utf8.encodeChar_of_lt hd]
    exact List.mem_singleton_self _

/-- What holds of the symbols of the ASCII characters and of other bytes holds of all. -/
theorem unitSymbols_cases {motive : Char → List Symbol → Prop}
    (hascii : ∀ n : Fin 128, motive (.ofNat n) (unitSymbols (.ofNat n)))
    (hwide : ∀ c : Char, 128 ≤ c.toNat → motive c ((String.utf8EncodeChar c).map .plain))
    (c : Char) : motive c (unitSymbols c) := by
  by_cases hc : 128 ≤ c.toNat
  · rw [unitSymbols, if_pos hc]
    exact hwide c hc
  · have hcase := hascii ⟨c.toNat, by omega⟩
    rwa [Char.ofNat_toNat] at hcase

theorem ne_of_mem_encodeChar {c : Char} (hc : 128 ≤ c.toNat) {byte other : UInt8}
    (hbyte : byte ∈ String.utf8EncodeChar c) (hother : other < 128) : byte ≠ other := by
  rintro rfl
  have hlarge := Utf8.le_of_mem_encodeChar hc hbyte
  have hsmall : byte.toNat < 128 := UInt8.lt_iff_toNat_lt.mp hother
  omega

/-- Every symbol of another character is part of a word. -/
theorem isOrdinary_unitSymbols (c : Char) : c ≠ singleQuote →
    unitSymbols c ≠ [] ∧ ∀ symbol ∈ unitSymbols c, symbol.IsOrdinary := by
  refine @unitSymbols_cases (fun c text => c ≠ singleQuote →
    text ≠ [] ∧ ∀ symbol ∈ text, symbol.IsOrdinary) ?_ (fun c hc _ => ⟨?_, ?_⟩) c
  · decide +kernel
  · rw [Ne, List.map_eq_nil_iff]
    exact String.utf8EncodeChar_ne_nil
  · rintro symbol hsymbol
    obtain ⟨byte, hbyte, rfl⟩ := List.mem_map.mp hsymbol
    have hne : ∀ other, other < 128 → byte ≠ other := fun other =>
      ne_of_mem_encodeChar hc hbyte
    refine ⟨?_, ?_⟩
    · simp [isQuote, hne]
    · simp [isSeparator, hne]

/-- The bytes of the symbols: the signs of variables and specifiers are doubled. -/
theorem byte_unitSymbols (c : Char) :
    (unitSymbols c).map Symbol.byte = double percent (double dollar (String.utf8EncodeChar c)) := by
  refine @unitSymbols_cases (fun c text => text.map Symbol.byte =
    double percent (double dollar (String.utf8EncodeChar c))) ?_ (fun c hc => ?_) c
  · decide +kernel
  · have hkeep : ∀ mark : UInt8, mark < 128 →
        double mark (String.utf8EncodeChar c) = String.utf8EncodeChar c := fun mark hmark =>
      double_of_not_mem fun hmem => ne_of_mem_encodeChar hc hmem hmark rfl
    rw [hkeep dollar (by decide), hkeep percent (by decide), List.map_map]
    exact List.map_id _

/-- Single quotation marks are the only ones that are left. -/
theorem unitSymbols_ne (c : Char) :
    ∀ symbol ∈ unitSymbols c, symbol ≠ .escaped 39 ∧ symbol ≠ .plain 34 := by
  refine @unitSymbols_cases (fun _ text => ∀ symbol ∈ text, symbol ≠ .escaped 39 ∧
    symbol ≠ .plain 34) ?_ (fun c hc => ?_) c
  · decide +kernel
  · intro symbol hsymbol
    obtain ⟨byte, hbyte, rfl⟩ := List.mem_map.mp hsymbol
    refine ⟨nofun, fun heq => ?_⟩
    exact ne_of_mem_encodeChar hc hbyte (by decide) (Symbol.plain.inj heq)

/-- The symbols of an argument. -/
def unitText (argument : List Char) : List Symbol := argument.flatMap unitSymbols

theorem byte_unitText (argument : List Char) :
    (unitText argument).map Symbol.byte =
      double percent (double dollar (Utf8.encode argument)) := by
  induction argument with
  | nil => rfl
  | cons c argument ih =>
    rw [unitText, List.flatMap_cons, ← unitText, List.map_append, byte_unitSymbols, ih,
      Utf8.encode_cons, double_append, double_append]

theorem isOrdinary_unitText {argument : List Char} (hne : argument ≠ [])
    (h : singleQuote ∉ argument) :
    unitText argument ≠ [] ∧ ∀ symbol ∈ unitText argument, symbol.IsOrdinary := by
  have hc : ∀ c ∈ argument, unitSymbols c ≠ [] ∧ ∀ symbol ∈ unitSymbols c, symbol.IsOrdinary :=
    fun c hmem => isOrdinary_unitSymbols c fun heq => h (heq ▸ hmem)
  refine ⟨fun hnil => ?_, fun symbol hsymbol => ?_⟩
  · obtain ⟨c, argument, rfl⟩ := List.exists_cons_of_ne_nil hne
    exact (hc c List.mem_cons_self).1 (List.flatMap_eq_nil_iff.mp hnil c List.mem_cons_self)
  · obtain ⟨c, hmem, hsymbol⟩ := List.mem_flatMap.mp hsymbol
    exact (hc c hmem).2 symbol hsymbol

/-- Arguments without single quotation marks are the words. -/
theorem words_command {arguments : List (List Char)}
    (h : ∀ argument ∈ arguments, argument ≠ [] ∧ singleQuote ∉ argument) :
    words (Utf8.encode ([' '].intercalate (arguments.map systemdEscapeArgument))) =
      some (arguments.map fun argument =>
        double percent (double dollar (Utf8.encode argument))) := by
  rw [words, symbols_command, Option.bind_some, group_words, List.map_map]
  · exact congrArg some (List.map_congr_left fun argument _ => byte_unitText argument)
  · intro text htext
    obtain ⟨argument, hargument, rfl⟩ := List.mem_map.mp htext
    exact isOrdinary_unitText (h argument hargument).1 (h argument hargument).2

/-- **No word has a single quotation mark**: those that were written group. -/
theorem quote_not_mem_words {arguments : List (List Char)} {found : List Bytes}
    (h : words (Utf8.encode ([' '].intercalate (arguments.map systemdEscapeArgument))) =
      some found) : ∀ word ∈ found, 39 ∉ word := by
  rw [words, symbols_command, Option.bind_some] at h
  refine quote_not_mem_group (fun symbol hsymbol => ?_) (by simp) (by simp) h
  have hmem : ∀ texts : List (List Symbol), symbol ∈ [.plain 32].intercalate texts →
      symbol = .plain 32 ∨ ∃ text ∈ texts, symbol ∈ text := by
    intro texts
    induction texts with
    | nil => simp
    | cons text texts ih =>
      cases texts with
      | nil =>
        rw [List.intercalate_singleton]
        exact fun htext => .inr ⟨text, List.mem_cons_self, htext⟩
      | cons next texts =>
        rw [List.intercalate_cons_cons, List.mem_append, List.mem_append, List.mem_singleton]
        rintro ((htext | hspace) | hrest)
        · exact .inr ⟨text, List.mem_cons_self, htext⟩
        · exact .inl hspace
        · refine (ih hrest).imp_right fun ⟨other, hother, hsymbol⟩ => ?_
          exact ⟨other, List.mem_cons_of_mem _ hother, hsymbol⟩
  rcases hmem _ hsymbol with rfl | ⟨text, htext, hsymbol⟩
  · decide
  · obtain ⟨argument, -, rfl⟩ := List.mem_map.mp htext
    obtain ⟨c, -, hsymbol⟩ := List.mem_flatMap.mp hsymbol
    exact unitSymbols_ne c symbol hsymbol

/-- Expansion brings no single quotation mark back. -/
theorem quote_not_mem_mapM {expand : Bytes → Option Bytes}
    (hexpand : ∀ {word read}, expand word = some read → 39 ∈ read → 39 ∈ word)
    {found read : List Bytes} (hfound : ∀ word ∈ found, (39 : UInt8) ∉ word)
    (h : found.mapM expand = some read) : ∀ word ∈ read, 39 ∉ word := by
  induction found generalizing read with
  | nil =>
    cases h
    exact fun _ hmem => absurd hmem List.not_mem_nil
  | cons word found ih =>
    rw [List.forall_mem_cons] at hfound
    rw [List.mapM_cons] at h
    obtain ⟨first, hfirst, h⟩ := Option.bind_eq_some_iff.mp h
    obtain ⟨rest, hrest, h⟩ := Option.bind_eq_some_iff.mp h
    cases h
    rw [List.forall_mem_cons]
    exact ⟨fun hmem => hfound.1 (hexpand hfirst hmem), ih hfound.2 hrest⟩

theorem mapM_eq_map {α β γ : Type} {f : α → β} {g : β → Option γ} {k : α → γ}
    {items : List α} (h : ∀ item ∈ items, g (f item) = some (k item)) :
    (items.map f).mapM g = some (items.map k) := by
  induction items with
  | nil => rfl
  | cons item items ih =>
    rw [List.forall_mem_cons] at h
    rw [List.map_cons, List.mapM_cons, h.1, ih h.2]
    rfl

/-- **A command is read as its arguments exactly where they have no single quotation mark.** -/
theorem command_iff {arguments : List (List Char)} (hne : ∀ argument ∈ arguments, argument ≠ []) :
    command (Utf8.encode ([' '].intercalate (arguments.map systemdEscapeArgument))) =
        some (arguments.map Utf8.encode) ↔
      ∀ argument ∈ arguments, singleQuote ∉ argument := by
  constructor
  · intro h argument hargument hmem
    obtain ⟨found, hfound, h⟩ := Option.bind_eq_some_iff.mp h
    refine quote_not_mem_mapM (fun {word read} hread hquote => ?_) (quote_not_mem_words hfound) h
      (Utf8.encode argument) (List.mem_map_of_mem hargument)
      ((mem_encode_iff (by decide)).mpr hmem)
    obtain ⟨middle, hmiddle, hread⟩ := Option.bind_eq_some_iff.mp hread
    exact mem_of_undouble hmiddle (mem_of_undouble hread hquote)
  · intro h
    rw [command, words_command fun argument hmem => ⟨hne argument hmem, h argument hmem⟩]
    refine mapM_eq_map fun argument _ => ?_
    rw [undouble_double, Option.bind_some, undouble_double]

/-- **A path is read as it was exactly where it has neither a single quotation mark nor a dollar
sign**, whose pair stays. -/
theorem pathList_iff {path : List Char} (hne : path ≠ []) :
    pathList (Utf8.encode (systemdEscapeArgument path)) = some [Utf8.encode path] ↔
      singleQuote ∉ path ∧ '$' ∉ path := by
  have hread : singleQuote ∉ path →
      pathList (Utf8.encode (systemdEscapeArgument path)) =
        some [double dollar (Utf8.encode path)] := by
    intro hquote
    have hword := @words_command [path] (List.forall_mem_singleton.mpr ⟨hne, hquote⟩)
    rw [List.map_singleton, List.intercalate_singleton] at hword
    rw [pathList, hword]
    exact @mapM_eq_map _ _ _ _ (undouble percent) (fun path => double dollar (Utf8.encode path))
      [path] fun path _ => undouble_double percent _
  have hdollar : double dollar (Utf8.encode path) = Utf8.encode path ↔ '$' ∉ path :=
    double_eq_self_iff.trans (not_congr (@mem_encode_iff '$' (by decide) path))
  constructor
  · intro h
    have hquote : singleQuote ∉ path := by
      intro hmem
      obtain ⟨found, hfound, hpaths⟩ := Option.bind_eq_some_iff.mp h
      have hnone := @quote_not_mem_words [path] found
      rw [List.map_singleton, List.intercalate_singleton] at hnone
      exact quote_not_mem_mapM (fun hread => mem_of_undouble hread) (hnone hfound) hpaths
        (Utf8.encode path) List.mem_cons_self ((mem_encode_iff (by decide)).mpr hmem)
    rw [hread hquote, Option.some.injEq, List.cons.injEq] at h
    exact ⟨hquote, hdollar.mp h.1⟩
  · rintro ⟨hquote, hnot⟩
    rw [hread hquote, hdollar.mpr hnot]

end SystemdSyntax

/-! ### The rendered unit -/

open SystemdSyntax

section Unit

variable {library : DefinitionLibrary} {definition : ServiceDefinition}

/-- The unit is read as the command of the definition and its data directory. -/
def ReadsUnit (definition : ServiceDefinition) : Prop :=
  unitCommand (renderSystemdUnit definition) = some (definition.command.map Utf8.encode) ∧
    unitPaths (renderSystemdUnit definition) = some [Utf8.encode definition.dataDir.toList]

/-- No word of a valid command is empty. -/
theorem ne_nil_of_mem_command (h : definition.ValidFields) :
    ∀ word ∈ definition.command, word ≠ [] := by
  obtain ⟨path, harguments, -, hcomponents⟩ := h.arguments
  have hpath : path.toList ≠ [] := by
    intro hnil
    have habsolute := (isAbsolutePath_congr hcomponents).trans h.dataDir
    rw [isAbsolutePath, hnil] at habsolute
    cases habsolute
  rw [ServiceDefinition.command, harguments]
  simp only [List.map_cons, List.map_nil, List.forall_mem_cons]
  exact ⟨h.executable_ne_nil, by decide, by decide, by decide, hpath, by simp⟩

/-- The command has single quotation marks in the executable and the data directory only. -/
theorem quote_not_mem_command (h : definition.ValidFields) :
    (∀ word ∈ definition.command, singleQuote ∉ word) ↔
      singleQuote ∉ definition.executable.toList ∧ singleQuote ∉ definition.dataDir.toList := by
  obtain ⟨path, harguments, -, hcomponents⟩ := h.arguments
  have hpath : singleQuote ∈ path.toList ↔ singleQuote ∈ definition.dataDir.toList := by
    rw [mem_iff_pathComponents (by decide) (by decide), hcomponents,
      ← mem_iff_pathComponents (by decide) (by decide)]
  rw [ServiceDefinition.command, harguments]
  simp only [List.map_cons, List.map_nil, List.forall_mem_cons, hpath]
  constructor
  · rintro ⟨hexecutable, -, -, -, hdata, -⟩
    exact ⟨hexecutable, hdata⟩
  · rintro ⟨hexecutable, hdata⟩
    exact ⟨hexecutable, by decide, by decide, by decide, hdata, by simp⟩

/-- **What systemd reads**: the unit of a valid definition is read as its command and its data
directory exactly where neither the executable nor the data directory has a single quotation mark,
and the data directory has no dollar sign. -/
theorem unit_is_read_iff (h : definition.validate library = .ok ()) :
    ReadsUnit definition ↔
      singleQuote ∉ definition.executable.toList ∧ singleQuote ∉ definition.dataDir.toList ∧
        '$' ∉ definition.dataDir.toList := by
  have hvalid := (ServiceDefinition.validate_eq_ok_iff.mp h).1
  have hdata : definition.dataDir.toList ≠ [] := by
    intro hnil
    have habsolute := hvalid.dataDir
    rw [isAbsolutePath, hnil] at habsolute
    cases habsolute
  unfold ReadsUnit unitCommand unitPaths
  rw [linesOf_unit hvalid, setting_execStart, setting_readWritePaths, Option.bind_some,
    Option.bind_some, command_iff (ne_nil_of_mem_command hvalid), quote_not_mem_command hvalid,
    pathList_iff hdata]
  tauto

end Unit

/-- The unit of a directory with spaces, percent signs and other scripts is read. -/
theorem percent_unit_is_read :
    ReadsUnit (linuxService pathDigest "/var/lib/kakune 雪 100%") ↔
      singleQuote ∉ "/usr/local/bin/kakune core".toList ∧
        singleQuote ∉ "/var/lib/kakune 雪 100%".toList ∧ '$' ∉ "/var/lib/kakune 雪 100%".toList :=
  @unit_is_read_iff pathDigest (linuxService pathDigest "/var/lib/kakune 雪 100%") (by decide)

/-- A dollar sign is doubled in the paths, and a single quotation mark opens a group that nothing
closes. -/
theorem unescaped_marks_are_misread :
    ((linuxService pathDigest "/srv/$kakune").validate pathDigest = .ok () ∧
      unitPaths (renderSystemdUnit (linuxService pathDigest "/srv/$kakune")) =
        some [Utf8.encode "/srv/$$kakune".toList] ∧
      ¬ ReadsUnit (linuxService pathDigest "/srv/$kakune")) ∧
    (linuxService pathDigest "/srv/o'kakune").validate pathDigest = .ok () ∧
      unitCommand (renderSystemdUnit (linuxService pathDigest "/srv/o'kakune")) = none ∧
      ¬ ReadsUnit (linuxService pathDigest "/srv/o'kakune") := by
  have hvalid :
      ∀ {dataDir : String}, (linuxService pathDigest dataDir).validate pathDigest = .ok () →
      (linuxService pathDigest dataDir).ValidFields := fun h =>
    (ServiceDefinition.validate_eq_ok_iff.mp h).1
  have hdollar : (linuxService pathDigest "/srv/$kakune").validate pathDigest = .ok () := by decide
  have hquote : (linuxService pathDigest "/srv/o'kakune").validate pathDigest = .ok () := by decide
  have hpaths : unitPaths (renderSystemdUnit (linuxService pathDigest "/srv/$kakune")) =
      some [Utf8.encode "/srv/$$kakune".toList] := by
    rw [unitPaths, linesOf_unit (hvalid hdollar), setting_readWritePaths]
    decide +kernel
  have hcommand : unitCommand (renderSystemdUnit (linuxService pathDigest "/srv/o'kakune")) =
      none := by
    rw [unitCommand, linesOf_unit (hvalid hquote), setting_execStart]
    decide +kernel
  refine ⟨⟨hdollar, hpaths, fun h => ?_⟩, hquote, hcommand, fun h => ?_⟩
  · have hread := h.2
    rw [hpaths] at hread
    revert hread
    decide +kernel
  · have hread := h.1
    rw [hcommand] at hread
    cases hread

end KakuneCore
