import KakuneCore.Encoding.Json
import KakuneCore.Lifecycle.Service
import KakuneCore.Scheduling.Triggers
import KakuneCore.Workflow.Validate

/-!
# Ownership records

The data directory of a running Core holds an ownership record. Three formats are told apart by
trying readers in order: the current record, JSON with schema version 1; older JSON with a process
identifier; and a bare decimal process identifier.

A bare decimal is itself a JSON text, so the reader meant for it is reached only when white space
that JSON does not know stands around the number.
-/

namespace KakuneCore

/-! ### Records -/

def ownershipSchemaVersion : Nat := 1

def maxOwnershipRecordBytes : Nat := maxControlMessageBytes

def ProcessIdentity.validate (identity : ProcessIdentity) : Except LifecycleError Unit :=
  if identity.pid = 0 ∨ blank identity.startIdentity ∨ ¬ isAbsolutePath identity.executable then
    .error (.unsafeOwnership
      "process identity is missing PID, start evidence, or absolute executable evidence")
  else .ok ()

inductive InstancePhase
  | starting | ready | stopping | failed
  deriving DecidableEq, Repr

structure CoreInstance where
  instanceId : String
  mode : CoreMode
  owner : OwnerIdentity
  processIdentity : ProcessIdentity
  dataDir : String
  listenAddress : Option String
  phase : InstancePhase
  diagnosticLocation : Option String
  controlEndpoint : Option String
  deriving DecidableEq, Repr

structure RuntimeOwnershipRecord where
  schemaVersion : Nat
  inst : CoreInstance
  deriving DecidableEq, Repr

structure LegacyOwnershipRecord where
  pid : Option Nat
  deriving DecidableEq, Repr

inductive OwnershipRead
  | current (record : RuntimeOwnershipRecord)
  | legacy (record : LegacyOwnershipRecord)
  deriving DecidableEq, Repr

/-- What the readers ask of the JSON library and of the file system. -/
structure OwnershipEnv where
  json : Json.Library
  /-- The text of a JSON error. -/
  jsonError : Bytes → String
  /-- `serde_json::from_value` for a record. -/
  recordOfValue : Value → Except String RuntimeOwnershipRecord
  /-- `Path::canonicalize`. -/
  canonicalize : String → Except String String

section Env

variable (env : OwnershipEnv)

/-- `CoreInstance::validate`. -/
def CoreInstance.validate (inst : CoreInstance) : Except LifecycleError Unit := do
  inst.owner.validate
  inst.processIdentity.validate
  if !isAbsolutePath inst.dataDir then
    throw (.unsafeOwnership "Core data directory is not absolute")
  let canonical ← (env.canonicalize inst.dataDir).mapError .io
  if canonical ≠ inst.dataDir then
    throw (.unsafeOwnership "Core data directory is not canonicalized")
  if inst.listenAddress.any fun address =>
      blank address || address.toList.any (· ∈ ['\r', '\n', '@', '?', '#']) then
    throw (.unsafeOwnership "listen address is empty or contains credentials/control suffixes")

/-- `RuntimeOwnershipRecord::validate`. -/
def RuntimeOwnershipRecord.validate (record : RuntimeOwnershipRecord) :
    Except LifecycleError Unit := do
  if record.schemaVersion ≠ ownershipSchemaVersion then
    throw (.unsupportedSchema record.schemaVersion)
  record.inst.validate env

/-! ### Files -/

/-- What is found at the path of a file. -/
inductive FileEntry
  | missing
  | irregular
  | unreadable (detail : String)
  | regular (bytes : Bytes)
  deriving DecidableEq, Repr

/-- `text.trim().parse::<u32>()`. -/
def parsePid (text : List Char) : Option Nat :=
  parseUnsigned (2 ^ 32) (trimText (.ofList text)).toList

/-- The fallback of `read_ownership_record` for content that is no JSON. -/
def readDecimalRecord (bytes : Bytes) : Except LifecycleError (Option OwnershipRead) :=
  match ((Utf8.decode? bytes).bind parsePid).filter (0 < ·) with
  | some pid => .ok (some (.legacy ⟨some pid⟩))
  | none => .error (.serialization (env.jsonError bytes))

/-- What `read_ownership_record` makes of a JSON value. -/
def readJsonRecord (value : Value) : Except LifecycleError (Option OwnershipRead) :=
  match (value.get? "schema_version").bind Value.asU64 with
  | some version =>
    -- a version beyond `u32` is reported as the largest `u32`
    let version := if version < 2 ^ 32 then version else 2 ^ 32 - 1
    if version ≠ ownershipSchemaVersion then .error (.unsupportedSchema version)
    else do
      let record ← (env.recordOfValue value).mapError .serialization
      record.validate env
      .ok (some (.current record))
  | none =>
    let pid := ((value.get? "pid").bind Value.asU64).filter (· < 2 ^ 32)
    .ok (some (.legacy ⟨pid⟩))

def readOwnershipRecord : FileEntry → Except LifecycleError (Option OwnershipRead)
  | .irregular =>
    .error (.unsafeOwnership "ownership metadata is redirected or not a regular file")
  | .missing => .ok none
  | .unreadable detail => .error (.io detail)
  | .regular bytes =>
    if maxOwnershipRecordBytes < bytes.length then
      .error (.messageTooLarge maxOwnershipRecordBytes)
    else
      match env.json.readValue bytes with
      | some value => readJsonRecord env value
      | none => readDecimalRecord env bytes

/-- `read_legacy_pid_file`. -/
def readLegacyPidFile : FileEntry → Except LifecycleError (Option Nat)
  | .irregular => .error (.unsafeOwnership "legacy PID path is redirected or not a regular file")
  | .missing => .ok none
  | .unreadable detail => .error (.io detail)
  | .regular bytes =>
    match Utf8.decode? bytes with
    | none => .error (.io "stream did not contain valid UTF-8")
    | some text =>
      match parsePid text with
      | none => .error (.unsafeOwnership "legacy PID file is malformed")
      | some 0 =>
        .error (.unsafeOwnership "legacy PID file contains an invalid process identifier")
      | some pid => .ok (some pid)

/-- The two files a cleanup looks at. -/
structure OwnershipFiles where
  record : FileEntry
  legacyPid : FileEntry
  deriving DecidableEq, Repr

/-- `cleanup_legacy_if_proven_dead_locked`: `processIsAbsent` is the observer of the caller, and
`removal` the answer of `fs::remove_file`. -/
def cleanupLegacyIfProvenDeadLocked (processIsAbsent : Nat → Except LifecycleError Bool)
    (removal : Except LifecycleError Unit) (files : OwnershipFiles) :
    Except LifecycleError Bool × OwnershipFiles :=
  match readOwnershipRecord env files.record with
  | .error error => (.error error, files)
  | .ok (some (.legacy ⟨some pid⟩)) =>
    match processIsAbsent pid, removal with
    | .error error, _ => (.error error, files)
    | .ok false, _ => (.ok false, files)
    | .ok true, .error error => (.error error, files)
    | .ok true, .ok () => (.ok true, { files with record := .missing })
  | .ok _ =>
    match readLegacyPidFile files.legacyPid with
    | .error error => (.error error, files)
    | .ok none => (.ok false, files)
    | .ok (some pid) =>
      match processIsAbsent pid, removal with
      | .error error, _ => (.error error, files)
      | .ok false, _ => (.ok false, files)
      | .ok true, .error error => (.error error, files)
      | .ok true, .ok () => (.ok true, { files with legacyPid := .missing })

end Env

/-! ### Decimal texts -/

open Json (isBlank isTokenChar)

/-- White space is part of no JSON value. -/
theorem isTokenChar_of_isWhitespace {c : Char} (h : isWhitespace c = true) :
    isTokenChar c = false := by
  rw [Bool.eq_false_iff]
  intro htoken
  simp only [isTokenChar, Bool.or_eq_true, decide_eq_true_eq, List.mem_cons, List.not_mem_nil,
    or_false] at htoken
  rcases htoken with hdigit | hchar
  · simp only [Char.isDigit, Bool.and_eq_true, decide_eq_true_eq, ge_iff_le, UInt32.le_iff_toNat_le]
      at hdigit
    simp only [isWhitespace, Bool.or_eq_true, Bool.and_eq_true, decide_eq_true_eq, Char.toNat] at h
    have hlow : 48 ≤ c.val.toNat := hdigit.1
    have hhigh : c.val.toNat ≤ 57 := hdigit.2
    omega
  · rcases hchar with rfl | rfl | rfl | rfl | rfl | rfl | rfl | rfl | rfl | rfl <;>
      exact absurd h (by decide)

/-- A text between white space, without it. -/
theorem trimText_between {before core after : List Char}
    (hbefore : ∀ c ∈ before, isWhitespace c = true) (hafter : ∀ c ∈ after, isWhitespace c = true)
    (hcore : ∀ c ∈ core, isWhitespace c = false) (hne : core ≠ []) :
    (trimText (.ofList (before ++ (core ++ after)))).toList = core := by
  obtain ⟨first, rest, hfirst⟩ := List.exists_cons_of_ne_nil hne
  have hhead : isWhitespace first = false := hcore first (hfirst ▸ List.mem_cons_self)
  obtain ⟨last, rest', hlast⟩ :=
    List.exists_cons_of_ne_nil (mt List.reverse_eq_nil_iff.mp hne)
  have hend : isWhitespace last = false :=
    hcore last (List.mem_reverse.mp (hlast ▸ List.mem_cons_self))
  have hfront : (before ++ (core ++ after)).dropWhile isWhitespace = core ++ after := by
    rw [List.dropWhile_append_of_pos hbefore, hfirst, List.cons_append,
      List.dropWhile_cons_of_neg (by simp [hhead])]
  have hback : (core ++ after).reverse.dropWhile isWhitespace = core.reverse := by
    rw [List.reverse_append,
      List.dropWhile_append_of_pos (fun c hc => hafter c (List.mem_reverse.mp hc)), hlast,
      List.dropWhile_cons_of_neg (by simp [hend])]
  rw [trimText, String.toList_ofList, String.toList_ofList, hfront, hback, List.reverse_reverse]

/-- The content of a bare decimal record. -/
def decimalRecord (pid : Nat) (before after : List Char) : Bytes :=
  Utf8.encode (before ++ (Nat.toDigits 10 pid ++ after))

theorem isWhitespace_of_isDigit {c : Char} (h : c.isDigit = true) : isWhitespace c = false := by
  rw [Bool.eq_false_iff]
  intro hspace
  have htoken := isTokenChar_of_isWhitespace hspace
  simp [isTokenChar, h] at htoken

theorem parsePid_between {pid : Nat} {before after : List Char} (hpid : pid < 2 ^ 32)
    (hspace : ∀ c ∈ before ++ after, isWhitespace c = true) :
    parsePid (before ++ (Nat.toDigits 10 pid ++ after)) = some pid := by
  have hbefore : ∀ c ∈ before, isWhitespace c = true :=
    fun c hc => hspace c (List.mem_append_left _ hc)
  have hafter : ∀ c ∈ after, isWhitespace c = true :=
    fun c hc => hspace c (List.mem_append_right _ hc)
  rw [parsePid, trimText_between hbefore hafter
    (fun c hc => isWhitespace_of_isDigit (Json.isDigit_of_mem_toDigits c hc)) Nat.toDigits_ne_nil,
    parseUnsigned_toDigits hpid]

section Env

variable {env : OwnershipEnv} {depth : Nat}

/-- **What a bare decimal is read as**: with JSON blanks around it, a value without a process
identifier; with any other white space, the identifier. -/
theorem readOwnershipRecord_decimal (hjson : env.json.Conforms depth) {pid : Nat}
    {before after : List Char} (hpos : 0 < pid) (hpid : pid < 2 ^ 32)
    (hspace : ∀ c ∈ before ++ after, isWhitespace c = true)
    (hsize : (decimalRecord pid before after).length ≤ maxOwnershipRecordBytes) :
    readOwnershipRecord env (.regular (decimalRecord pid before after)) =
      .ok (some (.legacy ⟨if (before ++ after).all isBlank then none else some pid⟩)) := by
  have hread := hjson.digits pid before after (by omega)
    fun c hc => isTokenChar_of_isWhitespace (hspace c hc)
  rw [readOwnershipRecord, if_neg (Nat.not_lt.mpr hsize), decimalRecord, Json.Library.readValue,
    hread]
  split_ifs with hblank
  · rfl
  · simp only [Option.map_none, readDecimalRecord, Utf8.decode?_encode, Option.bind_some,
      parsePid_between hpid hspace, Option.filter_some, hpos, decide_true, if_true]

/-- The white space around a bare decimal goes beyond that of JSON. -/
def ForeignSpace (before after : List Char) : Prop := ∃ c ∈ before ++ after, isBlank c = false

theorem foreignSpace_iff {before after : List Char} :
    ForeignSpace before after ↔ ¬ (before ++ after).all isBlank = true := by
  simp only [ForeignSpace, List.all_eq_true, not_forall, Bool.not_eq_true, exists_prop]

theorem readOwnershipRecord_tooLarge {bytes : Bytes}
    (hsize : maxOwnershipRecordBytes < bytes.length) :
    readOwnershipRecord env (.regular bytes) =
      .error (.messageTooLarge maxOwnershipRecordBytes) := by
  rw [readOwnershipRecord, if_pos hsize]

/-- A bare decimal is classified as a process identifier. -/
theorem readOwnershipRecord_decimal_iff (hjson : env.json.Conforms depth) {pid : Nat}
    {before after : List Char} (hpos : 0 < pid) (hpid : pid < 2 ^ 32)
    (hspace : ∀ c ∈ before ++ after, isWhitespace c = true) :
    readOwnershipRecord env (.regular (decimalRecord pid before after)) =
        .ok (some (.legacy ⟨some pid⟩)) ↔
      (decimalRecord pid before after).length ≤ maxOwnershipRecordBytes ∧
        ForeignSpace before after := by
  rw [foreignSpace_iff]
  rcases Nat.lt_or_ge maxOwnershipRecordBytes (decimalRecord pid before after).length with h | h
  · rw [readOwnershipRecord_tooLarge h]
    constructor
    · intro heq
      cases heq
    · rintro ⟨hle, -⟩
      omega
  · rw [readOwnershipRecord_decimal hjson hpos hpid hspace h]
    split_ifs with hblank
    · simp [hblank]
    · simp [hblank, h]

theorem exists_int_or_asU64_eq_none (value : Value) :
    (∃ z, value = .number (.int z)) ∨ value.asU64 = none := by
  rcases value with _ | _ | (z | _) | _ | _ | _
  case number.int => exact .inl ⟨z, rfl⟩
  all_goals exact .inr rfl

/-- A document with a schema version is rejected when the version is an unsigned integer. -/
theorem readOwnershipRecord_version_iff {bytes : Bytes} {fields : StrMap Value} {version : Value}
    (hread : env.json.readValue bytes = some (.object fields))
    (hversion : fields.get? "schema_version" = some version)
    (hother : version ≠ .number (.int 1)) :
    (∃ error, readOwnershipRecord env (.regular bytes) = .error error) ↔
      maxOwnershipRecordBytes < bytes.length ∨ version.asU64.isSome = true := by
  rcases Nat.lt_or_ge maxOwnershipRecordBytes bytes.length with h | h
  · exact ⟨fun _ => .inl h, fun _ => ⟨_, readOwnershipRecord_tooLarge h⟩⟩
  · have hvalue : readOwnershipRecord env (.regular bytes) =
        readJsonRecord env (.object fields) := by
      simp only [readOwnershipRecord, if_neg (Nat.not_lt.mpr h), hread]
    have hget : (Value.get? (.object fields) "schema_version").bind Value.asU64 =
        version.asU64 := by
      rw [Value.get?, hversion, Option.bind_some]
    rw [hvalue, readJsonRecord, hget]
    rcases hnumber : version.asU64 with - | n
    · simp only [Option.isSome_none, Bool.false_eq_true, or_false]
      constructor
      · rintro ⟨error, herror⟩
        cases herror
      · intro hlt
        omega
    · -- the only version that gets on is 1, and that would be the supported one
      have hne : n ≠ 1 := by
        rintro rfl
        refine hother ?_
        obtain ⟨z, rfl⟩ | hnone := exists_int_or_asU64_eq_none version
        · have hz : (if 0 ≤ z then some z.toNat else none) = some 1 := hnumber
          split_ifs at hz with hle
          have hone : z = 1 := by
            have := Option.some.inj hz
            omega
          rw [hone]
        · rw [hnone] at hnumber
          cases hnumber
      have hunsupported :
          (if n < 2 ^ 32 then n else 2 ^ 32 - 1) ≠ ownershipSchemaVersion := by
        unfold ownershipSchemaVersion
        split_ifs <;> omega
      simp only [if_pos hunsupported, Option.isSome_some, or_true, iff_true]
      exact ⟨_, rfl⟩

/-- What a cleanup does to a record with a process identifier. -/
theorem cleanup_record_of_pid {pid : Nat} {files : OwnershipFiles}
    (hread : readOwnershipRecord env files.record = .ok (some (.legacy ⟨some pid⟩)))
    (hrecord : files.record ≠ .missing) (processIsAbsent : Nat → Except LifecycleError Bool)
    (removal : Except LifecycleError Unit) :
    (cleanupLegacyIfProvenDeadLocked env processIsAbsent removal files).2.record = .missing ↔
      processIsAbsent pid = .ok true ∧ removal = .ok () := by
  simp only [cleanupLegacyIfProvenDeadLocked, hread]
  rcases processIsAbsent pid with error | absent
  · simp [hrecord]
  · rcases absent with - | -
    · simp [hrecord]
    · rcases removal with error | -
      · simp [hrecord]
      · simp

/-- A record without a process identifier stays. -/
theorem cleanup_record_of_none {files : OwnershipFiles}
    (hread : ∀ pid, readOwnershipRecord env files.record ≠ .ok (some (.legacy ⟨some pid⟩)))
    (processIsAbsent : Nat → Except LifecycleError Bool) (removal : Except LifecycleError Unit) :
    (cleanupLegacyIfProvenDeadLocked env processIsAbsent removal files).2.record =
      files.record := by
  unfold cleanupLegacyIfProvenDeadLocked
  split
  · rfl
  · next pid heq => exact absurd heq (hread pid)
  · split
    · rfl
    · rfl
    · split <;> rfl

end Env

/-- **Where the formats are told apart as meant.** A bare decimal is a process identifier exactly
when some white space around it is not that of JSON; a document with another schema version is
rejected exactly when the version is an unsigned integer; and the cleanup treats a bare decimal as
it should when it is read as an identifier, or when there is nothing to remove. -/
theorem ownership_classification_iff (env : OwnershipEnv) (hjson : env.json.Conforms 127) :
    (∀ (pid : Nat) (before after : List Char), 0 < pid → pid < 2 ^ 32 →
      (∀ c ∈ before ++ after, isWhitespace c = true) →
      (readOwnershipRecord env (.regular (decimalRecord pid before after)) =
          .ok (some (.legacy ⟨some pid⟩)) ↔
        (decimalRecord pid before after).length ≤ maxOwnershipRecordBytes ∧
          ForeignSpace before after)) ∧
    (∀ (bytes : Bytes) (fields : StrMap Value) (version : Value),
      env.json.readValue bytes = some (.object fields) →
      fields.get? "schema_version" = some version → version ≠ .number (.int 1) →
      ((∃ error, readOwnershipRecord env (.regular bytes) = .error error) ↔
        maxOwnershipRecordBytes < bytes.length ∨ version.asU64.isSome = true)) ∧
    ∀ (pid : Nat) (before after : List Char), 0 < pid → pid < 2 ^ 32 →
      (∀ c ∈ before ++ after, isWhitespace c = true) →
      ∀ (legacyPid : FileEntry) (processIsAbsent : Nat → Except LifecycleError Bool)
        (removal : Except LifecycleError Unit),
      (((cleanupLegacyIfProvenDeadLocked env processIsAbsent removal
            ⟨.regular (decimalRecord pid before after), legacyPid⟩).2.record = .missing ↔
          processIsAbsent pid = .ok true ∧ removal = .ok ()) ↔
        ((decimalRecord pid before after).length ≤ maxOwnershipRecordBytes ∧
            ForeignSpace before after) ∨
          ¬ (processIsAbsent pid = .ok true ∧ removal = .ok ())) := by
  refine ⟨fun pid before after hpos hpid hspace =>
      readOwnershipRecord_decimal_iff hjson hpos hpid hspace,
    fun bytes fields version hread hversion hother =>
      readOwnershipRecord_version_iff hread hversion hother, ?_⟩
  intro pid before after hpos hpid hspace legacyPid processIsAbsent removal
  have hiff := readOwnershipRecord_decimal_iff hjson hpos hpid hspace
  by_cases hread : readOwnershipRecord env (.regular (decimalRecord pid before after)) =
      .ok (some (.legacy ⟨some pid⟩))
  · have hremoved := @cleanup_record_of_pid env pid
      ⟨.regular (decimalRecord pid before after), legacyPid⟩ hread (by simp) processIsAbsent removal
    rw [hremoved, ← hiff]
    simp [hread]
  · -- the record is read without its identifier, or not at all, so it stays
    have hnever : ∀ other, readOwnershipRecord env (.regular (decimalRecord pid before after)) ≠
        .ok (some (.legacy ⟨some other⟩)) := by
      intro other heq
      rcases Nat.lt_or_ge maxOwnershipRecordBytes (decimalRecord pid before after).length with h | h
      · rw [readOwnershipRecord_tooLarge h] at heq
        cases heq
      · have hdecimal := readOwnershipRecord_decimal hjson hpos hpid hspace h
        rw [hdecimal] at heq hread
        split_ifs at heq hread
        · simp at heq
        · exact hread rfl
    have hstays := @cleanup_record_of_none env
      ⟨.regular (decimalRecord pid before after), legacyPid⟩ hnever processIsAbsent removal
    rw [hstays, ← hiff]
    simp [hread]

/-- An environment whose JSON library is the reference one. -/
def sampleOwnershipEnv : OwnershipEnv where
  json := Json.reference 127
  jsonError _ := "expected value"
  recordOfValue _ := .error "missing field"
  canonicalize path := .ok path

/-- A decimal followed by a form feed. -/
theorem formFeed_record_is_classified :
    readOwnershipRecord sampleOwnershipEnv
        (.regular (decimalRecord 4321 [] [Char.ofNat 12])) =
      .ok (some (.legacy ⟨some 4321⟩)) :=
  ((ownership_classification_iff sampleOwnershipEnv (Json.reference_conforms 127)).1 4321 []
    [Char.ofNat 12] (by decide) (by decide) (List.forall_mem_singleton.mpr (by decide))).mpr
    ⟨by decide +kernel, Char.ofNat 12, by decide, by decide⟩

/-- A decimal followed by a line feed is read without its identifier and stays although its process
is gone, and a version that is a text is no version. -/
theorem decimal_record_is_not_classified :
    readOwnershipRecord sampleOwnershipEnv (.regular (decimalRecord 4321 [] ['\n'])) =
        .ok (some (.legacy ⟨none⟩)) ∧
      (cleanupLegacyIfProvenDeadLocked sampleOwnershipEnv (fun _ => .ok true) (.ok ())
        ⟨.regular (decimalRecord 4321 [] ['\n']), .missing⟩).2.record ≠ .missing ∧
      readOwnershipRecord sampleOwnershipEnv
          (.regular ((Json.reference 127).toVec (.object [("schema_version", .string "1")]))) =
        .ok (some (.legacy ⟨none⟩)) := by
  have hsize : (decimalRecord 4321 [] ['\n']).length ≤ maxOwnershipRecordBytes := by
    decide +kernel
  have hread : readOwnershipRecord sampleOwnershipEnv
      (.regular (decimalRecord 4321 [] ['\n'])) = .ok (some (.legacy ⟨none⟩)) :=
    readOwnershipRecord_decimal (Json.reference_conforms 127) (by decide) (by decide)
      (List.forall_mem_singleton.mpr (by decide)) hsize
  refine ⟨hread, ?_, ?_⟩
  · rw [cleanup_record_of_none]
    · simp
    · intro pid
      rw [hread]
      simp
  · have hversion : (Json.reference 127).readValue ((Json.reference 127).toVec
        (.object [("schema_version", .string "1")])) =
          some (.object [("schema_version", .string "1")]) := by
      rw [Json.Library.readValue, (Json.reference_conforms 127).roundTrip _ (.object (by
        intro field hfield
        obtain rfl := List.mem_singleton.mp hfield
        exact .string "1"))]
      rfl
    have hsmall : ¬ maxOwnershipRecordBytes < ((Json.reference 127).toVec
        (.object [("schema_version", .string "1")])).length := by decide +kernel
    simp only [readOwnershipRecord, sampleOwnershipEnv, if_neg hsmall, hversion]
    rfl

end KakuneCore
