import KakuneCore.Encoding.Utf8
import KakuneCore.Lifecycle.Rendering

/-!
# Reading a systemd unit

A unit is read back into the definition it was rendered from. The command line is cut into **words**
at the whitespace of Unicode, but only that of ASCII was escaped: a definition comes back exactly
where its command has no other whitespace.
-/

namespace KakuneCore

open TextSearch

/-! ### Words -/

/-- A hexadecimal digit. -/
def hexValue (byte : UInt8) : Option UInt8 :=
  if 48 ≤ byte ∧ byte ≤ 57 then some (byte - 48)
  else if 97 ≤ byte ∧ byte ≤ 102 then some (byte - 87)
  else if 65 ≤ byte ∧ byte ≤ 70 then some (byte - 55)
  else none

/-- `u8::from_str_radix`, of two bytes; a leading plus sign is accepted. -/
def hexByte (high low : UInt8) : Option UInt8 :=
  if high = 43 then hexValue low
  else do
    let h ← hexValue high
    let l ← hexValue low
    some (16 * h + l)

/-- The bytes that `decode_systemd_word` collects. -/
def decodeSystemdBytes : Bytes → Except LifecycleError Bytes
  | [] => .ok []
  | 92 :: 92 :: rest => do .ok (92 :: (← decodeSystemdBytes rest))
  | 92 :: 120 :: high :: low :: rest =>
    match hexByte high low with
    | some byte => do .ok (byte :: (← decodeSystemdBytes rest))
    | none => .error (.unsafeOwnership "invalid systemd hex escape")
  | 92 :: _ => .error (.unsafeOwnership "unsupported systemd escape in native definition")
  | 36 :: 36 :: rest => do .ok (36 :: (← decodeSystemdBytes rest))
  | 37 :: 37 :: rest => do .ok (37 :: (← decodeSystemdBytes rest))
  | byte :: rest => do .ok (byte :: (← decodeSystemdBytes rest))

/-- `decode_systemd_word`. -/
def decodeSystemdWord (input : List Char) : Except LifecycleError String := do
  match Utf8.decode? (← decodeSystemdBytes (Utf8.encode input)) with
  | some text => pure (.ofList text)
  | none => throw (.unsafeOwnership "systemd value is not UTF-8")

/-- `parse_systemd_words`. -/
def parseSystemdWords (input : List Char) : Except LifecycleError (List String) :=
  (wordsOf isWhitespace input).mapM decodeSystemdWord

/-! ### Units -/

/-- The settings a unit must have. -/
def requiredSettings : List String :=
  ["Type=notify", "NotifyAccess=main", "Restart=on-failure", "KillMode=mixed", "SendSIGKILL=no",
    "TimeoutStopSec=30", "WantedBy=multi-user.target"]

/-- `lines().find_map(|line| line.strip_prefix(key))`. -/
def setting (key : String) (lines : List (List Char)) : Option (List Char) :=
  lines.findSome? fun line =>
    if key.toList <+: line then some (line.drop key.toList.length) else none

/-- The setting, or the error that it is missing. -/
def requireSetting (key message : String) (lines : List (List Char)) :
    Except LifecycleError (List Char) :=
  match setting key lines with
  | some value => .ok value
  | none => .error (.conflictingServiceDefinition message)

/-- `parse_unit_definition`. -/
def parseUnitDefinition (library : DefinitionLibrary) (serviceId : String) (contents : List Char) :
    Except LifecycleError ServiceDefinition := do
  let lines := linesOf '\n' '\r' contents
  match requiredSettings.find? fun required => required.toList ∉ lines with
  | some required =>
    throw (.conflictingServiceDefinition s!"systemd unit is missing required setting {required}")
  | none =>
    let account ← requireSetting "User=" "systemd unit has no explicit service account" lines
    let command ← requireSetting "ExecStart=" "systemd unit has no ExecStart" lines
    match ← parseSystemdWords command with
    | [] => throw (.conflictingServiceDefinition "systemd ExecStart is empty")
    | executable :: arguments =>
      let data ← requireSetting "ReadWritePaths="
        "systemd unit does not identify the persistent data path" lines
      let dataDir ← decodeSystemdWord data
      let definition ← ServiceDefinition.new library .linuxSystemd serviceId executable arguments
        (.ofList account) dataDir
      if (← renderServiceDefinition library definition) ≠ contents then
        throw (.conflictingServiceDefinition
          "systemd unit contains fields outside Kakune's verified definition")
      else if definition.bootPolicy ≠ .automatic then
        throw (.conflictingServiceDefinition "systemd boot policy is not automatic")
      else pure definition

/-! ### Escapes -/

/-- Whitespace that is not escaped: that of Unicode beyond ASCII. -/
def isWideSpace (c : Char) : Bool := 128 ≤ c.toNat && isWhitespace c

/-- The escapes by code: each is a byte sequence that is decoded to the byte of the character. -/
theorem hexByte_digitChar : ∀ n : Fin 128,
    hexByte (.ofNat (Nat.digitChar (n / 16)).toNat) (.ofNat (Nat.digitChar (n % 16)).toNat) =
      some (.ofNat n) := by decide

theorem encode_of_lt {c : Char} (h : c.toNat < 128) (text : List Char) :
    Utf8.encode (c :: text) = .ofNat c.toNat :: Utf8.encode text := by
  rw [Utf8.encode_cons, Utf8.encodeChar_of_lt h, List.singleton_append]

theorem decodeSystemdBytes_plain {byte : UInt8} (h : byte ≠ 92 ∧ byte ≠ 36 ∧ byte ≠ 37)
    (rest : Bytes) : decodeSystemdBytes (byte :: rest) =
      (decodeSystemdBytes rest).map (byte :: ·) := by
  obtain ⟨hslash, hdollar, hpercent⟩ := h
  rw [decodeSystemdBytes.eq_def]
  split
  case h_7 heq =>
    cases heq
    cases decodeSystemdBytes rest <;> rfl
  all_goals simp_all

/-- A byte string without the letters that begin an escape is copied. -/
theorem decodeSystemdBytes_copy {bytes : Bytes}
    (h : ∀ byte ∈ bytes, byte ≠ 92 ∧ byte ≠ 36 ∧ byte ≠ 37) (rest : Bytes) :
    decodeSystemdBytes (bytes ++ rest) = (decodeSystemdBytes rest).map (bytes ++ ·) := by
  induction bytes with
  | nil =>
    rw [List.nil_append]
    cases decodeSystemdBytes rest <;> rfl
  | cons byte bytes ih =>
    rw [List.forall_mem_cons] at h
    rw [List.cons_append, decodeSystemdBytes_plain h.1, ih h.2]
    cases decodeSystemdBytes rest <;> rfl

theorem decodeSystemdBytes_hex {high low byte : UInt8} (h : hexByte high low = some byte)
    (rest : Bytes) : decodeSystemdBytes (92 :: 120 :: high :: low :: rest) =
      (decodeSystemdBytes rest).map (byte :: ·) := by
  rw [decodeSystemdBytes, h]
  cases decodeSystemdBytes rest <;> rfl

theorem decodeSystemdBytes_twice {byte : UInt8} (h : byte = 92 ∨ byte = 36 ∨ byte = 37)
    (rest : Bytes) : decodeSystemdBytes (byte :: byte :: rest) =
      (decodeSystemdBytes rest).map (byte :: ·) := by
  rcases h with rfl | rfl | rfl
  all_goals
    rw [decodeSystemdBytes]
    cases decodeSystemdBytes rest <;> rfl

/-- **What is escaped is decoded**, in front of any text. -/
theorem decode_escapeChar (c : Char) (rest : Bytes) :
    decodeSystemdBytes (Utf8.encode (systemdEscapeChar c) ++ rest) =
      (decodeSystemdBytes rest).map (String.utf8EncodeChar c ++ ·) := by
  by_cases hwide : 128 ≤ c.toNat
  · -- its bytes are beyond those that begin an escape
    rw [systemdEscapeChar, if_pos hwide, Utf8.encode_cons, Utf8.encode_nil, List.append_nil]
    refine decodeSystemdBytes_copy (fun byte hbyte => ?_) rest
    have hlarge := Utf8.le_of_mem_encodeChar hwide hbyte
    refine ⟨?_, ?_, ?_⟩
    all_goals
      rintro rfl
      exact absurd hlarge (by decide)
  · have hlt : c.toNat < 128 := by omega
    have hhex : ∀ high low : Char, high.toNat < 128 → low.toNat < 128 →
        hexByte (.ofNat high.toNat) (.ofNat low.toNat) = some (.ofNat c.toNat) →
        decodeSystemdBytes (Utf8.encode ['\\', 'x', high, low] ++ rest) =
          (decodeSystemdBytes rest).map ([.ofNat c.toNat] ++ ·) := by
      intro high low hhigh hlow hbyte
      rw [encode_of_lt (by decide), encode_of_lt (by decide), encode_of_lt hhigh, encode_of_lt hlow]
      exact decodeSystemdBytes_hex hbyte rest
    have htwice : ∀ byte : UInt8, byte = 92 ∨ byte = 36 ∨ byte = 37 → byte = .ofNat c.toNat →
        decodeSystemdBytes (Utf8.encode [c, c] ++ rest) =
          (decodeSystemdBytes rest).map ([.ofNat c.toNat] ++ ·) := by
      intro byte hbyte heq
      rw [encode_of_lt hlt, encode_of_lt hlt, ← heq]
      exact decodeSystemdBytes_twice hbyte rest
    rw [Utf8.encodeChar_of_lt hlt, systemdEscapeChar, if_neg hwide]
    split
    · next hc => exact hhex _ _ (by decide) (by decide) (by rw [hc]; decide)
    split
    · next hc => exact hhex _ _ (by decide) (by decide) (by rw [hc]; decide)
    split
    · next hc => exact hc ▸ htwice 92 (by decide) (by rw [hc]; decide)
    split
    · next hc => exact hhex _ _ (by decide) (by decide) (by rw [hc]; decide)
    split
    · next hc => exact hc ▸ htwice 36 (by decide) (by rw [hc]; decide)
    split
    · next hc => exact hc ▸ htwice 37 (by decide) (by rw [hc]; decide)
    split
    · -- another control character
      refine hhex _ _ ?_ ?_ (hexByte_digitChar ⟨c.toNat, hlt⟩)
      · exact Utf8.toNat_digitChar_lt ⟨c.toNat / 16, by omega⟩
      · exact Utf8.toNat_digitChar_lt ⟨c.toNat % 16, by omega⟩
    · next hslash _ hdollar hpercent _ =>
      have hplain : ∀ d : Char, d.toNat < 128 → c ≠ d → UInt8.ofNat c.toNat ≠ .ofNat d.toNat := by
        intro d hd hne heq
        refine hne (Char.toNat_inj.mp ?_)
        have hnat := congrArg UInt8.toNat heq
        rwa [UInt8.toNat_ofNat', UInt8.toNat_ofNat', Nat.mod_eq_of_lt (by omega),
          Nat.mod_eq_of_lt (by omega)] at hnat
      rw [encode_of_lt hlt, Utf8.encode_nil]
      refine decodeSystemdBytes_copy (fun byte hbyte => ?_) rest
      obtain rfl := List.mem_singleton.mp hbyte
      exact ⟨hplain '\\' (by decide) hslash, hplain '$' (by decide) hdollar,
        hplain '%' (by decide) hpercent⟩

theorem decode_escapeArgument (argument : List Char) :
    decodeSystemdBytes (Utf8.encode (systemdEscapeArgument argument)) =
      .ok (Utf8.encode argument) := by
  induction argument with
  | nil => rfl
  | cons c argument ih =>
    have hsplit : Utf8.encode (systemdEscapeArgument (c :: argument)) =
        Utf8.encode (systemdEscapeChar c) ++ Utf8.encode (systemdEscapeArgument argument) := by
      rw [systemdEscapeArgument, List.flatMap_cons, Utf8.encode_append, ← systemdEscapeArgument]
    rw [hsplit, decode_escapeChar, ih]
    rfl

/-- **A word is read back from its escaped text.** -/
theorem decodeSystemdWord_escape (argument : List Char) :
    decodeSystemdWord (systemdEscapeArgument argument) = .ok (.ofList argument) := by
  rw [decodeSystemdWord, decode_escapeArgument]
  change (match Utf8.decode? (Utf8.encode argument) with
    | some text => Except.ok (String.ofList text)
    | none => Except.error (LifecycleError.unsafeOwnership "systemd value is not UTF-8")) = _
  rw [Utf8.decode?_encode]

/-! ### Spaces -/

theorem not_whitespace_of_all {text : List Char} (h : (text.all fun d => !isWhitespace d) = true) :
    ∀ d ∈ text, isWhitespace d = false := by
  simpa using h

/-- A character that is no wide space is written without whitespace. -/
theorem isWhitespace_escapeChar {c : Char} (h : isWideSpace c = false) :
    systemdEscapeChar c ≠ [] ∧ ∀ d ∈ systemdEscapeChar c, isWhitespace d = false := by
  have hdigit : ∀ n : Fin 16, isWhitespace (Nat.digitChar n) = false := by decide
  unfold systemdEscapeChar
  split
  · next hwide =>
    refine ⟨List.cons_ne_nil _ _, fun d hd => ?_⟩
    obtain rfl := List.mem_singleton.mp hd
    simpa [isWideSpace, hwide] using h
  next hlt =>
  split
  · exact ⟨List.cons_ne_nil _ _, not_whitespace_of_all (by decide)⟩
  next hspace =>
  split
  · exact ⟨List.cons_ne_nil _ _, not_whitespace_of_all (by decide)⟩
  split
  · exact ⟨List.cons_ne_nil _ _, not_whitespace_of_all (by decide)⟩
  split
  · exact ⟨List.cons_ne_nil _ _, not_whitespace_of_all (by decide)⟩
  split
  · exact ⟨List.cons_ne_nil _ _, not_whitespace_of_all (by decide)⟩
  split
  · exact ⟨List.cons_ne_nil _ _, not_whitespace_of_all (by decide)⟩
  split
  · refine ⟨List.cons_ne_nil _ _, ?_⟩
    simp only [List.forall_mem_cons]
    refine ⟨by decide, by decide, ?_, ?_, by simp⟩
    · exact hdigit ⟨c.toNat / 16, by omega⟩
    · exact hdigit ⟨c.toNat % 16, by omega⟩
  next hcontrol =>
  refine ⟨List.cons_ne_nil _ _, fun d hd => ?_⟩
  obtain rfl := List.mem_singleton.mp hd
  have hne : d.toNat ≠ 32 := fun heq => hspace (Char.toNat_inj.mp heq)
  unfold isWhitespace
  simp only [Bool.or_eq_false_iff, Bool.and_eq_false_iff, decide_eq_false_iff_not]
  omega

theorem isWhitespace_of_wide {c : Char} (h : isWideSpace c = true) :
    ∃ d, systemdEscapeChar c = [d] ∧ isWhitespace d = true := by
  simp only [isWideSpace, Bool.and_eq_true, decide_eq_true_eq] at h
  exact ⟨c, if_pos h.1, h.2⟩

/-- The parts of an argument between its wide spaces. -/
def wideParts (argument : List Char) : List (List Char) := wordsOf isWideSpace argument

/-- An escaped command falls into the parts of its arguments. -/
theorem wordsOf_command (arguments : List (List Char)) :
    wordsOf isWhitespace ([' '].intercalate (arguments.map systemdEscapeArgument)) =
      (arguments.flatMap wideParts).map systemdEscapeArgument := by
  have hwords : ∀ argument, wordsOf isWhitespace (systemdEscapeArgument argument) =
      (wideParts argument).map systemdEscapeArgument :=
    wordsOf_flatMap (fun _ => isWhitespace_of_wide) fun _ => isWhitespace_escapeChar
  induction arguments with
  | nil => rfl
  | cons first arguments ih =>
    cases arguments with
    | nil => simpa [List.intercalate_singleton] using hwords first
    | cons second arguments =>
      have hjoin : [' '].intercalate ((first :: second :: arguments).map systemdEscapeArgument) =
          systemdEscapeArgument first ++
            ' ' :: [' '].intercalate ((second :: arguments).map systemdEscapeArgument) := by
        simp [List.intercalate_cons_cons]
      have hparts : (first :: second :: arguments).flatMap wideParts =
          wideParts first ++ (second :: arguments).flatMap wideParts := rfl
      rw [hjoin, wordsOf_append_cons (by decide), ih, hwords, hparts, List.map_append]

theorem mapM_decode (words : List (List Char)) :
    (words.map systemdEscapeArgument).mapM decodeSystemdWord =
      .ok (words.map String.ofList) := by
  induction words with
  | nil => rfl
  | cons word words ih =>
    rw [List.map_cons, List.mapM_cons, decodeSystemdWord_escape, ih]
    rfl

/-- **A command is read as the parts of its arguments.** -/
theorem parseSystemdWords_command (arguments : List (List Char)) :
    parseSystemdWords ([' '].intercalate (arguments.map systemdEscapeArgument)) =
      .ok ((arguments.flatMap wideParts).map String.ofList) := by
  rw [parseSystemdWords, wordsOf_command, mapM_decode]

/-- An argument without wide spaces is one part. -/
theorem wideParts_of_forall {argument : List Char} (hne : argument ≠ [])
    (h : ∀ c ∈ argument, isWideSpace c = false) : wideParts argument = [argument] :=
  wordsOf_of_forall hne h

/-! ### Lines of the unit -/

theorem hasControl_eq_false {text : String} (h : ServiceDefinition.hasControl text = false) :
    '\n' ∉ text.toList ∧ '\r' ∉ text.toList := by
  simp only [ServiceDefinition.hasControl, List.any_eq_false] at h
  exact ⟨fun hmem => h _ hmem (by decide), fun hmem => h _ hmem (by decide)⟩

/-- No line break is left in an escaped text. -/
theorem not_mem_escapeArgument {argument : List Char} {c : Char} (hc : c = '\n' ∨ c = '\r') :
    c ∉ systemdEscapeArgument argument := by
  have hspace :
      isWhitespace c = true ∧ isWideSpace c = false := by rcases hc with rfl | rfl <;> decide
  intro hmem
  obtain ⟨d, -, hd⟩ := List.mem_flatMap.mp hmem
  cases hwide : isWideSpace d with
  | true =>
    simp only [isWideSpace, Bool.and_eq_true, decide_eq_true_eq] at hwide
    rw [systemdEscapeChar, if_pos hwide.1, List.mem_singleton] at hd
    subst hd
    rw [isWideSpace, hspace.1, Bool.and_true, decide_eq_false_iff_not] at hspace
    exact hspace.2 hwide.1
  | false =>
    have hfalse := (isWhitespace_escapeChar hwide).2 c hd
    rw [hspace.1] at hfalse
    cases hfalse

theorem not_mem_intercalate {words : List (List Char)} {c separator : Char} (hc : c ≠ separator)
    (h : ∀ word ∈ words, c ∉ word) : c ∉ [separator].intercalate words := by
  induction words with
  | nil => simp
  | cons first words ih =>
    rw [List.forall_mem_cons] at h
    cases words with
    | nil => simpa [List.intercalate_singleton] using h.1
    | cons second words =>
      rw [List.intercalate_cons_cons, List.mem_append, List.mem_append, List.mem_singleton]
      rintro ((hfirst | hseparator) | hrest)
      · exact h.1 hfirst
      · exact hc hseparator
      · exact ih h.2 hrest

/-- The lines of a unit are lines. -/
theorem not_mem_unitLines {definition : ServiceDefinition} (h : definition.ValidFields) {c : Char}
    (hc : c = '\n' ∨ c = '\r') : ∀ line ∈ unitLines definition, c ∉ line := by
  have haccount : c ∉ definition.account.toList := by
    rcases hc with rfl | rfl
    · exact (hasControl_eq_false h.account.2).1
    · exact (hasControl_eq_false h.account.2).2
  have hcommand : c ∉ [' '].intercalate (definition.command.map systemdEscapeArgument) := by
    refine not_mem_intercalate (by rcases hc with rfl | rfl <;> decide) fun word hword => ?_
    obtain ⟨argument, -, rfl⟩ := List.mem_map.mp hword
    exact not_mem_escapeArgument hc
  have hdata : c ∉ systemdEscapeArgument definition.dataDir.toList := not_mem_escapeArgument hc
  have hfixed : ∀ text : String, (text.toList.all fun d => d ≠ '\n' ∧ d ≠ '\r') = true →
      c ∉ text.toList := by
    intro text htext hmem
    have hd := List.all_eq_true.mp htext c hmem
    rcases hc with rfl | rfl <;> simp at hd
  have hkeyed : ∀ (key : String) (value : List Char),
      (key.toList.all fun d => d ≠ '\n' ∧ d ≠ '\r') = true → c ∉ value →
      c ∉ key.toList ++ value := by
    intro key value hkey hvalue hmem
    rcases List.mem_append.mp hmem with hmem | hmem
    · exact hfixed key hkey hmem
    · exact hvalue hmem
  unfold unitLines
  simp only [List.forall_mem_cons]
  refine ⟨hfixed _ (by decide), hfixed _ (by decide), hfixed _ (by decide), hfixed _ (by decide),
    List.not_mem_nil, hfixed _ (by decide), hfixed _ (by decide), hfixed _ (by decide),
    hkeyed _ _ (by decide) haccount, hkeyed _ _ (by decide) hcommand, hfixed _ (by decide),
    hfixed _ (by decide), hfixed _ (by decide), hfixed _ (by decide), hfixed _ (by decide),
    hfixed _ (by decide), hfixed _ (by decide), hfixed _ (by decide), hfixed _ (by decide),
    hkeyed _ _ (by decide) hdata, List.not_mem_nil, hfixed _ (by decide), hfixed _ (by decide), ?_⟩
  exact fun _ hmem => absurd hmem List.not_mem_nil

/-- The lines are read back. -/
theorem linesOf_unit {definition : ServiceDefinition} (h : definition.ValidFields) :
    linesOf '\n' '\r' (renderSystemdUnit definition) = unitLines definition :=
  linesOf_lines fun line hline => ⟨not_mem_unitLines h (.inl rfl) line hline,
    not_mem_unitLines h (.inr rfl) line hline⟩

theorem setting_cons_of_not {key : String} {line : List Char} {lines : List (List Char)}
    (h : ¬ key.toList <+: line) : setting key (line :: lines) = setting key lines := by
  rw [setting, List.findSome?_cons, if_neg h, ← setting]

theorem setting_cons_self {key : String} {value : List Char} {lines : List (List Char)} :
    setting key ((key.toList ++ value) :: lines) = some value := by
  rw [setting, List.findSome?_cons, if_pos (List.prefix_append _ _), List.drop_left]

theorem setting_user (definition : ServiceDefinition) :
    setting "User=" (unitLines definition) = some definition.account.toList := by
  unfold unitLines
  iterate 8 rw [setting_cons_of_not (by decide)]
  exact setting_cons_self

theorem setting_execStart (definition : ServiceDefinition) :
    setting "ExecStart=" (unitLines definition) =
      some ([' '].intercalate (definition.command.map systemdEscapeArgument)) := by
  unfold unitLines
  iterate 8 rw [setting_cons_of_not (by decide)]
  rw [setting_cons_of_not (not_prefix_append ⟨by decide, by decide⟩)]
  exact setting_cons_self

theorem setting_readWritePaths (definition : ServiceDefinition) :
    setting "ReadWritePaths=" (unitLines definition) =
      some (systemdEscapeArgument definition.dataDir.toList) := by
  unfold unitLines
  iterate 8 rw [setting_cons_of_not (by decide)]
  rw [setting_cons_of_not (not_prefix_append ⟨by decide, by decide⟩),
    setting_cons_of_not (not_prefix_append ⟨by decide, by decide⟩)]
  iterate 9 rw [setting_cons_of_not (by decide)]
  exact setting_cons_self

/-- Every required setting is written. -/
theorem find?_requiredSettings (definition : ServiceDefinition) :
    (requiredSettings.find? fun required => required.toList ∉ unitLines definition) = none := by
  rw [List.find?_eq_none]
  unfold requiredSettings unitLines
  simp only [List.mem_cons, decide_eq_true_eq, not_not]
  simp

/-! ### The round trip -/

section RoundTrip

variable {library : DefinitionLibrary} {definition parsed : ServiceDefinition}

/-- Reading a rendered unit makes a definition from the parts of the command. -/
theorem parse_rendered_unit (h : definition.ValidFields) (serviceId : String) :
    parseUnitDefinition library serviceId (renderSystemdUnit definition) =
      (match (definition.command.flatMap wideParts).map String.ofList with
      | [] => .error (.conflictingServiceDefinition "systemd ExecStart is empty")
      | executable :: arguments => do
        let made ← ServiceDefinition.new library .linuxSystemd serviceId executable arguments
          definition.account definition.dataDir
        if (← renderServiceDefinition library made) ≠ renderSystemdUnit definition then
          .error (.conflictingServiceDefinition
            "systemd unit contains fields outside Kakune's verified definition")
        else if made.bootPolicy ≠ .automatic then
          .error (.conflictingServiceDefinition "systemd boot policy is not automatic")
        else .ok made) := by
  have hdata := decodeSystemdWord_escape definition.dataDir.toList
  have hcommand := parseSystemdWords_command definition.command
  rw [String.ofList_toList] at hdata
  unfold parseUnitDefinition requireSetting
  rw [linesOf_unit h]
  dsimp only
  rw [find?_requiredSettings, setting_user, setting_execStart, setting_readWritePaths]
  dsimp only
  change (parseSystemdWords _ >>= _) = _
  rw [hcommand]
  cases (definition.command.flatMap wideParts).map String.ofList with
  | nil => rfl
  | cons executable arguments =>
    change (decodeSystemdWord _ >>= _) = _
    rw [hdata]
    change (ServiceDefinition.new _ _ _ _ _ (String.ofList definition.account.toList) _ >>= _) = _
    rw [String.ofList_toList]
    rfl

/-- A unit that is read has been rendered from what is read, whose words are the parts. -/
theorem parsed_of_parse (h : definition.ValidFields) {serviceId : String}
    (hparse : parseUnitDefinition library serviceId (renderSystemdUnit definition) = .ok parsed) :
    parsed.executable :: parsed.arguments =
        (definition.command.flatMap wideParts).map String.ofList ∧
      parsed.definitionFingerprint.isSome = true := by
  rw [parse_rendered_unit h] at hparse
  cases hwords : (definition.command.flatMap wideParts).map String.ofList with
  | nil =>
    rw [hwords] at hparse
    cases hparse
  | cons executable arguments =>
    rw [hwords] at hparse
    obtain ⟨made, hmade, hparse⟩ := except_bind_eq_ok hparse
    obtain ⟨rendered, -, hparse⟩ := except_bind_eq_ok hparse
    have hparsed : made = parsed := by
      split at hparse
      · cases hparse
      · split at hparse
        · cases hparse
        · exact Except.ok.inj hparse
    obtain ⟨fields, rfl, -, rfl⟩ := ServiceDefinition.new_eq_ok.mp hmade
    subst hparsed
    exact ⟨rfl, rfl⟩

/-- The command has no whitespace but that of ASCII. -/
def ServiceDefinition.NoWideSpace (definition : ServiceDefinition) : Prop :=
  ∀ word ∈ definition.command, ∀ c ∈ word, isWideSpace c = false

/-- The unit of a definition is read back as an equivalent definition. -/
def UnitRoundTrips (library : DefinitionLibrary) (definition : ServiceDefinition) : Prop :=
  ∃ rendered parsed, renderServiceDefinition library definition = .ok rendered ∧
    parseUnitDefinition library definition.serviceId rendered = .ok parsed ∧
    definition.equivalentTo parsed = true

/-- No word that is read has a wide space. -/
theorem noWideSpace_of_parse (h : definition.ValidFields) {serviceId : String}
    (hparse : parseUnitDefinition library serviceId (renderSystemdUnit definition) = .ok parsed) :
    parsed.NoWideSpace := by
  intro word hword
  have hwords := congrArg (List.map String.toList) (parsed_of_parse h hparse).1
  have hcommand : parsed.command = definition.command.flatMap wideParts := by
    simpa [ServiceDefinition.command, Function.comp_def] using hwords
  rw [hcommand] at hword
  obtain ⟨argument, -, hpart⟩ := List.mem_flatMap.mp hword
  exact not_separates_of_mem_wordsOf hpart

theorem noWideSpace_of_roundTrips (hmanager : definition.manager = .linuxSystemd)
    (h : UnitRoundTrips library definition) :
    definition.NoWideSpace ∧ definition.definitionFingerprint.isSome = true := by
  obtain ⟨rendered, parsed, hrender, hparse, hequivalent⟩ := h
  obtain ⟨_, hvalidate, hrender⟩ := except_bind_eq_ok hrender
  have hvalid := (ServiceDefinition.validate_eq_ok_iff.mp hvalidate).1
  rw [hmanager] at hrender
  obtain rfl : renderSystemdUnit definition = rendered := Except.ok.inj hrender
  have hwide := noWideSpace_of_parse hvalid hparse
  simp only [ServiceDefinition.equivalentTo, Bool.and_eq_true, decide_eq_true_eq] at hequivalent
  obtain ⟨⟨⟨⟨⟨⟨⟨-, -⟩, hexecutable⟩, harguments⟩, -⟩, -⟩, -⟩, hfingerprint⟩ := hequivalent
  refine ⟨List.forall_mem_cons.mpr ⟨fun c hc => ?_, ?_⟩, ?_⟩
  · -- the executables have the same letters, separators and dots apart
    by_contra hspace
    have hne : c ≠ '/' ∧ c ≠ '.' := by
      constructor
      all_goals
        rintro rfl
        exact hspace (by decide)
    obtain ⟨name, hname, hmem⟩ := (mem_iff_pathComponents hne.1 hne.2).mp hc
    rw [hexecutable] at hname
    have hother := (mem_iff_pathComponents hne.1 hne.2).mpr ⟨name, hname, hmem⟩
    exact hspace (hwide parsed.executable.toList List.mem_cons_self c hother)
  · rw [harguments]
    exact fun word hword => hwide word (List.mem_cons_of_mem _ hword)
  · rw [hfingerprint]
    exact (parsed_of_parse hvalid hparse).2

theorem roundTrips_of_noWideSpace (hmanager : definition.manager = .linuxSystemd)
    (hvalidate : definition.validate library = .ok ()) (hwide : definition.NoWideSpace)
    (hfingerprint : definition.definitionFingerprint.isSome = true) :
    UnitRoundTrips library definition := by
  obtain ⟨hvalid, hrecorded⟩ := ServiceDefinition.validate_eq_ok_iff.mp hvalidate
  have hsome : definition.definitionFingerprint = some (definition.digestOf library) := by
    rcases hrecorded with hnone | hsome
    · rw [hnone] at hfingerprint
      cases hfingerprint
    · exact hsome
  obtain ⟨path, harguments, -, hcomponents⟩ := hvalid.arguments
  have hparts : (definition.command.flatMap wideParts).map String.ofList =
      definition.executable :: definition.arguments := by
    have hsingle : ∀ word ∈ definition.command, wideParts word = [word] := by
      intro word hword
      refine wideParts_of_forall ?_ (hwide word hword)
      have hne : path.toList ≠ [] := by
        intro hnil
        have habsolute := (isAbsolutePath_congr hcomponents).trans hvalid.dataDir
        rw [isAbsolutePath, hnil] at habsolute
        cases habsolute
      have hwords : word ∈ [definition.executable.toList, "service".toList, "run".toList,
          "--data-dir".toList, path.toList] := by
        rw [ServiceDefinition.command, harguments] at hword
        exact hword
      simp only [List.mem_cons, List.not_mem_nil, or_false] at hwords
      rcases hwords with rfl | rfl | rfl | rfl | rfl
      · exact hvalid.executable_ne_nil
      all_goals first | exact hne | decide
    rw [List.flatMap_congr hsingle, List.flatMap_singleton', ServiceDefinition.command]
    simp [Function.comp_def]
  have hrender : ∀ other : ServiceDefinition, other.validate library = .ok () →
      other.manager = .linuxSystemd →
      renderServiceDefinition library other = .ok (renderSystemdUnit other) := by
    intro other hother hlinux
    rw [renderServiceDefinition, hother, hlinux]
    rfl
  have hdefinition :
      ({ definition with definitionFingerprint := some (definition.digestOf library) } :
      ServiceDefinition) = definition := by rw [← hsome]
  have hnew : ServiceDefinition.new library .linuxSystemd definition.serviceId
      definition.executable definition.arguments definition.account definition.dataDir =
        .ok definition := by
    refine ServiceDefinition.new_eq_ok.mpr ⟨{ definition with definitionFingerprint := none }, ?_,
      hvalid.withFingerprint none, ?_⟩
    · rw [← hmanager]
    · exact hdefinition.symm
  refine ⟨_, definition, hrender definition hvalidate hmanager, ?_, ?_⟩
  · rw [parse_rendered_unit hvalid, hparts]
    dsimp only
    rw [hnew]
    have hboot : definition.bootPolicy = .automatic := by
      cases definition.bootPolicy
      rfl
    have hbind : ∀ {α β : Type} (a : α) (f : α → Except LifecycleError β), (.ok a >>= f) = f a :=
      fun _ _ => rfl
    rw [hbind, hrender definition hvalidate hmanager, hbind, if_neg (not_not.mpr rfl),
      if_neg (not_not.mpr hboot)]
  · simp [ServiceDefinition.equivalentTo]

/-- **The unit round trip**: the unit of a valid definition is read back exactly where its command
has no wide space and the definition carries its fingerprint. -/
theorem unit_round_trips_iff (hmanager : definition.manager = .linuxSystemd)
    (hvalidate : definition.validate library = .ok ()) :
    UnitRoundTrips library definition ↔
      definition.NoWideSpace ∧ definition.definitionFingerprint.isSome = true :=
  ⟨noWideSpace_of_roundTrips hmanager,
    fun h => roundTrips_of_noWideSpace hmanager hvalidate h.1 h.2⟩

end RoundTrip

/-- A service whose data directory is written as given. -/
def linuxService (library : DefinitionLibrary) (dataDir : String) : ServiceDefinition :=
  let fields : ServiceDefinition := {
    manager := .linuxSystemd
    serviceId := "kakune-core.service"
    executable := "/usr/local/bin/kakune core"
    arguments := ["service", "run", "--data-dir", dataDir]
    account := "root"
    dataDir := dataDir }
  { fields with definitionFingerprint := some (fields.digestOf library) }

/-- A digest that keeps the data directory apart. -/
def pathDigest : DefinitionLibrary where
  digest _ _ _ _ _ dataDir := dataDir

/-- The escapes of a unit: spaces, dollars, percent signs and other scripts. -/
theorem escaped_unit_round_trips :
    UnitRoundTrips pathDigest (linuxService pathDigest "/var/lib/kakune 雪 $state 100%") ↔
      (linuxService pathDigest "/var/lib/kakune 雪 $state 100%").NoWideSpace ∧
        (linuxService pathDigest "/var/lib/kakune 雪 $state 100%").definitionFingerprint.isSome =
          true :=
  unit_round_trips_iff rfl (by decide)

/-- An ideographic space parts the data directory. -/
theorem wide_space_is_lost :
    (linuxService pathDigest "/srv/自動化　データ").validate pathDigest = .ok () ∧
      ¬ UnitRoundTrips pathDigest (linuxService pathDigest "/srv/自動化　データ") := by
  refine ⟨by decide, fun h => ?_⟩
  have hwide := (noWideSpace_of_roundTrips rfl h).1 "/srv/自動化　データ".toList (by decide)
    '　' (by decide)
  revert hwide
  decide

end KakuneCore
