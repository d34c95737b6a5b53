import KakuneCore.Encoding.LineLog
import KakuneCore.Lifecycle.Service
import KakuneCore.Process.Attempt
import KakuneCore.Relational.Runs

/-!
# The attempt journal

The journal of an attempt is a file of records, one JSON object a line. It is published whole, and
then only appended to; an append may be **cut off at any byte**. `readAttemptSnapshot` looks for the
last record that is complete, with or without its line break, and `writeAttemptFile` validates the
next record against it, trims a torn tail and appends.

The invariant is the shape of the file: the lines of all records written so far, and behind them
nothing, a part of one more record, or the whole of it without its line break.
-/

namespace KakuneCore

open Attempt LineLog

def newline : UInt8 := 10

/-- The whitespace of JSON. -/
def jsonWhitespace : Bytes := [32, 9, 10, 13]

/-- The functions of `serde_json` for records. -/
structure JournalLibrary extends DefinitionLibrary where
  toVec : ServiceAttemptJournal → Except String Bytes
  fromSlice : Bytes → Except String ServiceAttemptJournal

/-- What the library documents about the text of a record: it is one line, it begins with a brace,
it is read back with whitespace behind it but with nothing else, and no part of it is JSON. -/
structure JournalLibrary.Documented (library : JournalLibrary) : Prop where
  opens : ∀ {journal : ServiceAttemptJournal} {text : Bytes}, library.toVec journal = .ok text →
    text.head? = some 123
  single_line : ∀ {journal : ServiceAttemptJournal} {text : Bytes},
    library.toVec journal = .ok text → newline ∉ text
  round_trip : ∀ {journal : ServiceAttemptJournal} {text : Bytes} (blanks : Bytes),
    library.toVec journal = .ok text → (∀ c ∈ blanks, c ∈ jsonWhitespace) →
      library.fromSlice (text ++ blanks) = .ok journal
  trailing : ∀ {journal : ServiceAttemptJournal} {text rest : Bytes},
    library.toVec journal = .ok text → (∃ c ∈ rest, c ∉ jsonWhitespace) →
      ∃ error, library.fromSlice (text ++ rest) = .error error
  truncated : ∀ {journal : ServiceAttemptJournal} {text part : Bytes},
    library.toVec journal = .ok text → part <+: text → part ≠ text →
      ∃ error, library.fromSlice part = .error error

/-! ### Reading and writing -/

def maxAttemptBytes : Nat := maxControlMessageBytes

structure AttemptFileSnapshot where
  latest : ServiceAttemptJournal
  validLength : Nat
  hasTornTail : Bool
  needsSeparator : Bool

section Journal

variable (library : JournalLibrary)

/-- The loop over the complete lines. -/
def readLines : Option ServiceAttemptJournal → List Bytes →
    Except LifecycleError (Option ServiceAttemptJournal)
  | latest, [] => .ok latest
  | latest, line :: rest => do
    let journal ← (library.fromSlice line).mapError .serialization
    validateAttemptSnapshot library.toDefinitionLibrary journal latest
    readLines (some journal) rest

/-- `read_attempt_snapshot`, of a file or its absence. -/
def readAttemptSnapshot : Option Bytes → Except LifecycleError (Option AttemptFileSnapshot)
  | none => .ok none
  | some bytes =>
    if maxAttemptBytes < bytes.length then .error (.messageTooLarge maxAttemptBytes)
    else
      match library.fromSlice bytes with
      | .ok journal => do
        -- the representation of earlier versions: one object
        validateAttemptSnapshot library.toDefinitionLibrary journal none
        pure (some ⟨journal, bytes.length, false, bytes.getLast? ≠ some newline⟩)
      | .error error => do
        let latest ← readLines library none (records newline bytes)
        let rest := tail newline bytes
        match (library.fromSlice rest).toOption.filter fun _ => rest ≠ [] with
        | some journal => do
          validateAttemptSnapshot library.toDefinitionLibrary journal latest
          validateAttemptSnapshot library.toDefinitionLibrary journal none
          pure (some ⟨journal, bytes.length, false, true⟩)
        | none =>
          match latest with
          | none => .error (.serialization error)
          | some latest => do
            validateAttemptSnapshot library.toDefinitionLibrary latest none
            pure (some ⟨latest, completeLength newline bytes, rest ≠ [], false⟩)

/-- The bytes that a write is about to put down. -/
inductive AttemptWrite
  /-- A new file, written aside and linked to its name. -/
  | publish (text : Bytes)
  | append (separator text : Bytes)

/-- The part of `write_attempt_file` that finds a file, up to the append: the record is checked
against the latest one, and a torn tail is trimmed. -/
def prepareAppend (journal : ServiceAttemptJournal) (text : Bytes)
    (snapshot : AttemptFileSnapshot) :
    Attempt (Option Bytes) LifecycleError AttemptWrite := do
  query fun _ =>
    validateAttemptSnapshot library.toDefinitionLibrary journal (some snapshot.latest)
  update fun file =>
    if snapshot.hasTornTail then file.map (List.take snapshot.validLength) else file
  let currentLength ← query fun file => .ok (file.getD []).length
  let separator := if snapshot.needsSeparator then [newline] else []
  if maxAttemptBytes < currentLength + separator.length + (text.length + 1) then
    throw (.messageTooLarge maxAttemptBytes)
  else pure (.append separator text)

/-- `write_attempt_file` up to its last writes. -/
def prepareAttemptWrite (journal : ServiceAttemptJournal) :
    Attempt (Option Bytes) LifecycleError AttemptWrite := do
  let text ← query fun _ => (library.toVec journal).mapError .serialization
  if maxAttemptBytes < text.length + 1 then throw (.messageTooLarge maxAttemptBytes)
  else
    match ← query (readAttemptSnapshot library) with
    | none => pure (.publish text)
    | some snapshot => prepareAppend library journal text snapshot

/-- `write_attempt_file`. -/
def writeAttemptFile (journal : ServiceAttemptJournal) :
    Attempt (Option Bytes) LifecycleError Unit := do
  match ← prepareAttemptWrite library journal with
  | .publish text => update fun _ => some (text ++ [newline])
  | .append separator text => update (Option.map (· ++ (separator ++ text ++ [newline])))

/-- A write whose process stops behind some bytes of the append: whether the object was written
whole. A publication that stops leaves no file. -/
def tornWrite (journal : ServiceAttemptJournal) (written : Nat) :
    Attempt (Option Bytes) LifecycleError Bool := do
  match ← prepareAttemptWrite library journal with
  | .publish _ => pure false
  | .append separator text => do
    update (Option.map (· ++ (separator ++ text ++ [newline]).take written))
    pure (separator.length + text.length ≤ written)

end Journal

/-! ### Histories -/

inductive JournalEvent
  | write (journal : ServiceAttemptJournal)
  | torn (journal : ServiceAttemptJournal) (written : Nat)

def JournalEvent.journal : JournalEvent → ServiceAttemptJournal
  | .write journal | .torn journal _ => journal

/-- The file, and the records whose objects have been written whole, in order. -/
structure JournalRun where
  file : Option Bytes := none
  recorded : List ServiceAttemptJournal := []

section Run

variable (library : JournalLibrary)

def JournalRun.step (run : JournalRun) : JournalEvent → JournalRun
  | .write journal =>
    match (writeAttemptFile library journal).exec run.file with
    | (.ok (), file) => { file, recorded := run.recorded ++ [journal] }
    | (.error _, file) => { run with file }
  | .torn journal written =>
    match (tornWrite library journal written).exec run.file with
    | (.ok whole, file) =>
      { file, recorded := if whole then run.recorded ++ [journal] else run.recorded }
    | (.error _, file) => { run with file }

def JournalRun.after (events : List JournalEvent) : JournalRun :=
  Runs.run (fun run event => run.step library event) {} events

/-- Every record that a file holds, in its lines and behind them. -/
def storedRecords : Option Bytes → List ServiceAttemptJournal
  | none => []
  | some bytes =>
    (records newline bytes ++ [tail newline bytes].filter (· ≠ [])).filterMap fun line =>
      (library.fromSlice line).toOption

end Run

/-! ### Valid sequences -/

/-- Every record passes its check against the record before. -/
def ValidHistory (library : DefinitionLibrary) : Option ServiceAttemptJournal →
    List ServiceAttemptJournal → Prop
  | _, [] => True
  | previous, journal :: rest =>
    validateAttemptSnapshot library journal previous = .ok () ∧
      ValidHistory library (some journal) rest

section Validation

variable {library : DefinitionLibrary} {journal last : ServiceAttemptJournal}
  {previous : Option ServiceAttemptJournal} {journals : List ServiceAttemptJournal}

/-- What passes a check passes the checks on the record alone, and follows the record before. -/
theorem validate_eq_ok :
    validateAttemptSnapshot library journal previous = .ok () ↔
      validateAttemptSnapshot library journal none = .ok () ∧
        ∀ before, previous = some before → before.follows journal = true := by
  cases previous with
  | none => simp
  | some before =>
    unfold validateAttemptSnapshot
    by_cases hschema : journal.schemaVersion ≠ serviceStateSchemaVersion
    · rw [if_pos hschema, if_pos hschema]
      simp [throw, throwThe, MonadExceptOf.throw]
    rw [if_neg hschema, if_neg hschema]
    cases validateServiceId journal.manager journal.nativeServiceId with
    | error error => simp [bind, Except.bind]
    | ok _ =>
      cases journal.expectedDefinition.validate library with
      | error error => simp [bind, Except.bind]
      | ok _ =>
        simp only [bind, Except.bind]
        split
        · simp [throw, throwThe, MonadExceptOf.throw]
        · by_cases hfollows : before.follows journal = true
          · simp [hfollows]
          · rw [Bool.not_eq_true] at hfollows
            simp [hfollows, throw, throwThe, MonadExceptOf.throw]

theorem getLast?_cons_or {α : Type} (first : α) (rest : List α) (previous : Option α) :
    (first :: rest).getLast?.or previous = rest.getLast?.or (some first) := by
  rw [List.getLast?_cons]
  cases rest.getLast? <;> rfl

theorem validated_append :
    ValidHistory library previous (journals ++ [journal]) ↔ ValidHistory library previous journals ∧
      validateAttemptSnapshot library journal (journals.getLast?.or previous) = .ok () := by
  induction journals generalizing previous with
  | nil => simp [ValidHistory]
  | cons first journals ih =>
    rw [List.cons_append, ValidHistory, ValidHistory, ih, and_assoc, getLast?_cons_or]

theorem ValidHistory.of_mem (h : ValidHistory library previous journals)
    (hmem : journal ∈ journals) :
    validateAttemptSnapshot library journal none = .ok () := by
  induction journals generalizing previous with
  | nil => cases hmem
  | cons first journals ih =>
    obtain rfl | hmem := List.mem_cons.mp hmem
    · exact (validate_eq_ok.mp h.1).1
    · exact ih h.2 hmem

end Validation

/-! ### The shape of the file -/

/-- A part of a record. -/
def Torn (library : JournalLibrary) (part : Bytes) : Prop :=
  part = [] ∨ ∃ journal text, library.toVec journal = .ok text ∧ part <+: text ∧ part ≠ text

/-- The texts of records. -/
def Written (library : JournalLibrary) : List ServiceAttemptJournal → List Bytes → Prop :=
  List.Forall₂ fun journal text => library.toVec journal = .ok text

/-- A file with the records given. -/
inductive Log (library : JournalLibrary) : List ServiceAttemptJournal → Bytes → Prop
  /-- All lines are ended; behind them may stand a part of a record. -/
  | ended {journals : List ServiceAttemptJournal} {texts : List Bytes} {part : Bytes} :
    Written library journals texts → Torn library part →
      Log library journals (lines newline texts ++ part)
  /-- The last line break is missing. -/
  | unended {journals : List ServiceAttemptJournal} {last : ServiceAttemptJournal}
      {texts : List Bytes} {text : Bytes} :
    Written library journals texts → library.toVec last = .ok text →
      Log library (journals ++ [last]) (lines newline texts ++ text)

section Shape

variable {library : JournalLibrary} {journal last : ServiceAttemptJournal}
  {previous : Option ServiceAttemptJournal} {journals : List ServiceAttemptJournal}
  {texts : List Bytes} {text part rest bytes : Bytes}

theorem JournalLibrary.Documented.head_mem (hdoc : library.Documented)
    (htext : library.toVec journal = .ok text) (hpart : part <+: text) (hne : part ≠ []) :
    123 ∈ part := by
  have hopens := hdoc.opens htext
  obtain ⟨rest, rfl⟩ := hpart
  obtain ⟨first, part, rfl⟩ := List.exists_cons_of_ne_nil hne
  obtain rfl : first = 123 := by simpa using hopens
  exact List.mem_cons_self

theorem JournalLibrary.Documented.ne_nil (hdoc : library.Documented)
    (htext : library.toVec journal = .ok text) : text ≠ [] := by
  rintro rfl
  have hopens := hdoc.opens htext
  cases hopens

/-- One more record behind a record is no JSON. -/
theorem JournalLibrary.Documented.refuses (hdoc : library.Documented)
    (htext : library.toVec journal = .ok text) (hmem : 123 ∈ rest) :
    ∃ error, library.fromSlice (text ++ rest) = .error error :=
  hdoc.trailing htext ⟨123, hmem, by decide⟩

theorem Torn.newline_not_mem (hdoc : library.Documented) (h : Torn library part) :
    newline ∉ part := by
  obtain rfl | ⟨journal, text, htext, hbegins, -⟩ := h
  · exact List.not_mem_nil
  · exact fun hmem => hdoc.single_line htext (hbegins.subset hmem)

theorem Torn.fromSlice (hdoc : library.Documented) (h : Torn library part) (hne : part ≠ []) :
    ∃ error, library.fromSlice part = .error error := by
  obtain rfl | ⟨journal, text, htext, hbegins, hproper⟩ := h
  · exact absurd rfl hne
  · exact hdoc.truncated htext hbegins hproper

theorem Written.spec (hdoc : library.Documented) (h : Written library journals texts) :
    ∀ text ∈ texts, newline ∉ text ∧ text ≠ [] := by
  induction h with
  | nil => simp
  | cons htext _ ih =>
    intro other hother
    obtain rfl | hother := List.mem_cons.mp hother
    · exact ⟨hdoc.single_line htext, hdoc.ne_nil htext⟩
    · exact ih other hother

/-- Lines that are not empty hold a brace. -/
theorem Written.mem_lines (hdoc : library.Documented) (h : Written library journals texts)
    (hne : texts ≠ []) : 123 ∈ lines newline texts := by
  cases h with
  | nil => exact absurd rfl hne
  | cons htext _ =>
    rw [lines_cons]
    exact List.mem_append_left _ (hdoc.head_mem htext List.prefix_rfl (hdoc.ne_nil htext))

/-- The loop reads the records back. -/
theorem readLines_eq (hdoc : library.Documented) (h : Written library journals texts)
    (hvalid : ValidHistory library.toDefinitionLibrary previous journals) :
    readLines library previous texts = .ok (journals.getLast?.or previous) := by
  induction h generalizing previous with
  | nil => rfl
  | @cons journal text journals texts htext _ ih =>
    have hread : library.fromSlice text = .ok journal := by
      simpa using hdoc.round_trip [] htext (by simp)
    rw [readLines, hread]
    change (validateAttemptSnapshot library.toDefinitionLibrary journal previous >>= fun _ =>
      readLines library (some journal) texts) = _
    rw [hvalid.1]
    change readLines library (some journal) texts = _
    rw [ih hvalid.2, getLast?_cons_or]

/-- **Reading a file whose lines are ended.** -/
theorem read_ended (hdoc : library.Documented) (hwritten : Written library journals texts)
    (htorn : Torn library part) (hvalid : ValidHistory library.toDefinitionLibrary none journals)
    (hlast : journals.getLast? = some last)
    (hsize : (lines newline texts ++ part).length ≤ maxAttemptBytes) :
    readAttemptSnapshot library (some (lines newline texts ++ part)) =
      .ok (some ⟨last, (lines newline texts).length, part ≠ [], false⟩) := by
  have hspec := hwritten.spec hdoc
  have hpart := htorn.newline_not_mem hdoc
  have hvalidLast := hvalid.of_mem (List.mem_of_getLast? hlast)
  rw [readAttemptSnapshot, if_neg (not_lt.mpr hsize)]
  cases hslice : library.fromSlice (lines newline texts ++ part) with
  | ok journal =>
    -- only one record with its line break is JSON
    cases hwritten with
    | nil => cases hlast
    | @cons first text journals' texts' htext hrest =>
      rw [lines_cons, List.append_assoc, List.cons_append] at hslice
      by_cases hbrace : 123 ∈ lines newline texts' ++ part
      · obtain ⟨error, herror⟩ := hdoc.refuses htext (List.mem_cons_of_mem newline hbrace)
        rw [herror] at hslice
        cases hslice
      · have htexts : texts' = [] := by
          by_contra hne
          exact hbrace (List.mem_append_left _ (Written.mem_lines hdoc hrest hne))
        have hnone : part = [] := by
          by_contra hne
          obtain rfl | ⟨journal, text, htext, hbegins, -⟩ := htorn
          · exact hne rfl
          · exact hbrace (List.mem_append_right _ (hdoc.head_mem htext hbegins hne))
        subst htexts hnone
        cases hrest
        obtain rfl : first = last := by simpa using hlast
        have hread := hdoc.round_trip [newline] htext (by simp [newline, jsonWhitespace])
        rw [lines_nil, List.nil_append] at hslice
        obtain rfl := Except.ok.inj (hread.symm.trans hslice)
        simp only [hvalidLast, bind, Except.bind]
        simp [pure, Except.pure]
  | error error =>
    have hread : readLines library none (records newline (lines newline texts ++ part)) =
        .ok (some last) := by
      rw [records_lines_append hspec hpart, readLines_eq hdoc hwritten hvalid, hlast,
        Option.or_none]
    have hnone : ((library.fromSlice part).toOption.filter fun _ => part ≠ []) = none := by
      by_cases hne : part = []
      · simp [hne]
      · obtain ⟨error, herror⟩ := htorn.fromSlice hdoc hne
        rw [herror]
        rfl
    simp only [hread, bind, Except.bind, tail_lines_append hpart, hnone, hvalidLast, pure,
      Except.pure, completeLength_lines_append hpart]

/-- **Reading a file without its last line break.** -/
theorem read_unended (hdoc : library.Documented) (hwritten : Written library journals texts)
    (htext : library.toVec last = .ok text)
    (hvalid : ValidHistory library.toDefinitionLibrary none (journals ++ [last]))
    (hsize : (lines newline texts ++ text).length ≤ maxAttemptBytes) :
    readAttemptSnapshot library (some (lines newline texts ++ text)) =
      .ok (some ⟨last, (lines newline texts ++ text).length, false, true⟩) := by
  have hspec := hwritten.spec hdoc
  have hline := hdoc.single_line htext
  have hvalidLast := hvalid.of_mem (List.mem_append_right _ List.mem_cons_self)
  have hvalid' := validated_append.mp hvalid
  have hreadText : library.fromSlice text = .ok last := by
    simpa using hdoc.round_trip [] htext (by simp)
  rw [readAttemptSnapshot, if_neg (not_lt.mpr hsize)]
  cases hslice : library.fromSlice (lines newline texts ++ text) with
  | ok journal =>
    cases hwritten with
    | nil =>
      rw [lines_nil, List.nil_append] at hslice ⊢
      obtain rfl := Except.ok.inj (hreadText.symm.trans hslice)
      have hend : text.getLast? ≠ some newline := fun h => hline (List.mem_of_getLast? h)
      simp only [hvalidLast, bind, Except.bind]
      simp [pure, Except.pure, hend]
    | @cons first firstText journals' texts' hfirst hrest =>
      rw [lines_cons, List.append_assoc, List.cons_append] at hslice
      have hbrace := hdoc.head_mem htext List.prefix_rfl (hdoc.ne_nil htext)
      obtain ⟨error, herror⟩ := hdoc.refuses hfirst
        (List.mem_cons_of_mem newline (List.mem_append_right (lines newline texts') hbrace))
      rw [herror] at hslice
      cases hslice
  | error error =>
    have hread : readLines library none (records newline (lines newline texts ++ text)) =
        .ok journals.getLast? := by
      rw [records_lines_append hspec hline, readLines_eq hdoc hwritten hvalid'.1, Option.or_none]
    have hsome : ((library.fromSlice text).toOption.filter fun _ => text ≠ []) = some last := by
      rw [hreadText]
      simp [Except.toOption, hdoc.ne_nil htext]
    have hcheck := hvalid'.2
    rw [Option.or_none] at hcheck
    simp only [hread, bind, Except.bind, tail_lines_append hline, hsome, hcheck, hvalidLast, pure,
      Except.pure]

/-- **An append that stops at any byte** leaves the shape of a file, with the new record once its
object is whole. -/
theorem log_append_take {kept separator : Bytes} (hwritten : Written library journals texts)
    (hkept : kept ++ separator = lines newline texts)
    (hseparator : separator = [] ∨ separator = [newline] ∧ Log library journals kept)
    (htext : library.toVec journal = .ok text) (written : Nat) :
    Log library
      (if separator.length + text.length ≤ written then journals ++ [journal] else journals)
      (kept ++ (separator ++ text ++ [newline]).take written) := by
  by_cases hshort : written < separator.length
  · -- nothing but the old record, without its line break
    obtain rfl | ⟨rfl, hlog⟩ := hseparator
    · simp at hshort
    · obtain rfl : written = 0 := by simpa using hshort
      have hzero : ¬ [newline].length + text.length ≤ 0 := by simp
      rw [if_neg hzero, List.take_zero, List.append_nil]
      exact hlog
  · obtain ⟨rest, rfl⟩ := Nat.exists_eq_add_of_le (not_lt.mp hshort)
    have htake : kept ++ (separator ++ text ++ [newline]).take (separator.length + rest) =
        lines newline texts ++ (text ++ [newline]).take rest := by
      rw [List.append_assoc separator, List.take_length_add_append, ← List.append_assoc, hkept]
    have hcond : separator.length + text.length ≤ separator.length + rest ↔ text.length ≤ rest := by
      omega
    rw [htake, if_congr hcond rfl rfl]
    obtain hlt | rfl | hgt := lt_trichotomy rest text.length
    · rw [if_neg (not_le.mpr hlt), List.take_append_of_le_length hlt.le]
      refine .ended hwritten
        (.inr ⟨journal, text, htext, List.take_prefix rest text, fun heq => ?_⟩)
      have hlength := congrArg List.length heq
      rw [List.length_take] at hlength
      omega
    · rw [if_pos le_rfl, List.take_append_of_le_length le_rfl, List.take_length]
      exact .unended hwritten htext
    · have hall : (text ++ [newline]).length ≤ rest := by
        rw [List.length_append, List.length_singleton]
        exact hgt
      have hlines :
          lines newline texts ++ (text ++ [newline]) = lines newline (texts ++ [text]) ++ [] := by
        rw [lines_concat, List.append_nil, List.append_assoc]
      rw [if_pos hgt.le, List.take_of_length_le hall, hlines]
      exact .ended (List.rel_append hwritten (.cons htext .nil)) (.inl rfl)

end Shape

/-! ### The invariant -/

/-- The invariant of a run: the records follow one another, and the file holds them. -/
structure JournalRun.Sound (library : JournalLibrary) (run : JournalRun) : Prop where
  validated : ValidHistory library.toDefinitionLibrary none run.recorded
  shape : run.file = none ∧ run.recorded = [] ∨
    ∃ bytes, run.file = some bytes ∧ run.recorded ≠ [] ∧ bytes.length ≤ maxAttemptBytes ∧
      Log library run.recorded bytes

/-- What a write is about to do, in a file with the records given. -/
inductive PreparedAppend (library : JournalLibrary) (journal : ServiceAttemptJournal)
    (journals : List ServiceAttemptJournal) : AttemptWrite → Option Bytes → Prop
  | publish {text : Bytes} : journals = [] → library.toVec journal = .ok text →
      text.length + 1 ≤ maxAttemptBytes →
        PreparedAppend library journal journals (.publish text) none
  | append {texts : List Bytes} {kept separator text : Bytes} : library.toVec journal = .ok text →
      validateAttemptSnapshot library.toDefinitionLibrary journal journals.getLast? = .ok () →
      Written library journals texts → kept ++ separator = lines newline texts →
      (separator = [] ∨ separator = [newline] ∧ Log library journals kept) →
      kept.length + separator.length + (text.length + 1) ≤ maxAttemptBytes → journals ≠ [] →
      PreparedAppend library journal journals (.append separator text) (some kept)

section Invariant

variable {library : JournalLibrary} {journal : ServiceAttemptJournal} {run : JournalRun}

theorem ensures_prepareAppend {text bytes kept : Bytes} {snapshot : AttemptFileSnapshot}
    {good : AttemptWrite → Option Bytes → Prop} {bad : LifecycleError → Option Bytes → Prop}
    (hkept : (if snapshot.hasTornTail then bytes.take snapshot.validLength else bytes) = kept)
    (hbad : ∀ error, bad error (some bytes)) (hbadKept : ∀ error, bad error (some kept))
    (hgood : validateAttemptSnapshot library.toDefinitionLibrary journal (some snapshot.latest) =
      .ok () →
      kept.length + (if snapshot.needsSeparator then [newline] else []).length + (text.length + 1) ≤
        maxAttemptBytes →
      good (.append (if snapshot.needsSeparator then [newline] else []) text) (some kept)) :
    Ensures (prepareAppend library journal text snapshot) good bad (some bytes) := by
  unfold prepareAppend
  refine ensures_bind.mpr (ensures_query.mpr ⟨fun _ hvalid => ?_, fun e _ => hbad e⟩)
  refine ensures_bind.mpr (ensures_update.mpr ?_)
  have hfile : (if snapshot.hasTornTail then (some bytes).map (List.take snapshot.validLength)
      else some bytes) = some kept := by
    rw [← hkept]
    split <;> rfl
  rw [hfile]
  refine ensures_bind.mpr (ensures_query.mpr ⟨fun length hlength => ?_, fun e _ => hbadKept e⟩)
  obtain rfl := Except.ok.inj hlength
  dsimp only [Option.getD_some]
  generalize (if snapshot.needsSeparator then [newline] else []) = separator at hgood ⊢
  by_cases hfits : maxAttemptBytes < kept.length + separator.length + (text.length + 1)
  · rw [if_pos hfits]
    exact hbadKept _
  · rw [if_neg hfits]
    exact hgood hvalid (not_lt.mp hfits)

theorem ensures_prepareAttemptWrite (hdoc : library.Documented) (h : run.Sound library) :
    Ensures (prepareAttemptWrite library journal) (PreparedAppend library journal run.recorded)
      (fun _ file => JournalRun.Sound library { run with file }) run.file := by
  unfold prepareAttemptWrite
  refine ensures_bind.mpr (ensures_query.mpr ⟨fun text htext => ?_, fun _ _ => h⟩)
  have htext : library.toVec journal = .ok text := by
    cases hvec : library.toVec journal with
    | error error =>
      rw [hvec] at htext
      cases htext
    | ok text' =>
      rw [hvec] at htext
      exact congrArg _ (Except.ok.inj htext)
  by_cases hlong : maxAttemptBytes < text.length + 1
  · rw [if_pos hlong]
    exact h
  rw [if_neg hlong]
  refine ensures_bind.mpr (ensures_query.mpr ⟨fun snapshot hread => ?_, fun _ _ => h⟩)
  obtain ⟨hfile, hnone⟩ | ⟨bytes, hfile, hne, hsize, hlog⟩ := h.shape
  · rw [hfile] at hread ⊢
    cases hread
    exact .publish hnone htext (not_lt.mp hlong)
  · rw [hfile] at hread ⊢
    have hstays : ∀ {kept : Bytes}, kept.length ≤ bytes.length → Log library run.recorded kept →
        JournalRun.Sound library { run with file := some kept } := fun hle hkept =>
      ⟨h.validated, .inr ⟨_, rfl, hne, hle.trans hsize, hkept⟩⟩
    have hvalidated := h.validated
    generalize run.recorded = recorded at hlog hvalidated hne hstays
    cases hlog with
    | @ended _ texts part hwritten htorn =>
      obtain ⟨last, hlast⟩ : ∃ last, recorded.getLast? = some last :=
        ⟨_, List.getLast?_eq_some_getLast hne⟩
      have heq := (read_ended hdoc hwritten htorn hvalidated hlast hsize).symm.trans hread
      obtain rfl := Except.ok.inj heq
      have hkept : (if decide (part ≠ []) = true
          then (lines newline texts ++ part).take (lines newline texts).length
          else lines newline texts ++ part) = lines newline texts := by
        by_cases hpart : part = []
        · simp [hpart]
        · simp [hpart]
      have hlines : Log library recorded (lines newline texts) := by
        have hlog : Log library recorded (lines newline texts ++ []) := .ended hwritten (.inl rfl)
        rwa [List.append_nil] at hlog
      refine ensures_prepareAppend hkept (fun _ => hstays le_rfl (.ended hwritten htorn))
        (fun _ => hstays (by simp) hlines) fun hvalid hfits => ?_
      exact .append htext (hlast ▸ hvalid) hwritten (List.append_nil _) (.inl rfl) hfits hne
    | @unended journals last texts lastText hwritten hlastText =>
      have heq := (read_unended hdoc hwritten hlastText hvalidated hsize).symm.trans hread
      obtain rfl := Except.ok.inj heq
      have hlines : lines newline texts ++ lastText ++ [newline] =
          lines newline (texts ++ [lastText]) := lines_concat.symm
      have hlog := Log.unended hwritten hlastText
      refine ensures_prepareAppend rfl (fun _ => hstays le_rfl hlog) (fun _ => hstays le_rfl hlog)
        fun hvalid hfits => ?_
      have hlast : (journals ++ [last]).getLast? = some last := List.getLast?_concat
      exact .append htext (hlast ▸ hvalid) (List.rel_append hwritten (.cons hlastText .nil)) hlines
        (.inr ⟨rfl, hlog⟩) hfits hne

/-- What is appended leaves a file of the new records. -/
theorem PreparedAppend.sound_append {journals : List ServiceAttemptJournal} {separator text : Bytes}
    {file : Option Bytes}
    (h : PreparedAppend library journal journals (.append separator text) file)
    (hvalid : ValidHistory library.toDefinitionLibrary none journals) (written : Nat) :
    JournalRun.Sound library
      { file := file.map (· ++ (separator ++ text ++ [newline]).take written)
        recorded := if separator.length + text.length ≤ written then journals ++ [journal]
          else journals } := by
  cases h with
  | @append texts kept _ _ htext hnext hwritten hkept hseparator hfits hne =>
    refine ⟨?_, .inr ⟨_, rfl, ?_, ?_, log_append_take hwritten hkept hseparator htext written⟩⟩
    · split
      · exact validated_append.mpr ⟨hvalid, by rwa [Option.or_none]⟩
      · exact hvalid
    · split
      · exact List.append_ne_nil_of_right_ne_nil _ (List.cons_ne_nil _ _)
      · exact hne
    · have htake := List.length_take_le written (separator ++ text ++ [newline])
      rw [List.length_append]
      have hall : ((separator ++ text ++ [newline]).take written).length ≤
          separator.length + (text.length + 1) := by
        rw [List.length_take, List.length_append, List.length_append, List.length_singleton]
        omega
      omega

/-- A file that is published is one line. -/
theorem PreparedAppend.sound_publish {journals : List ServiceAttemptJournal} {text : Bytes}
    {file : Option Bytes}
    (h : PreparedAppend library journal journals (.publish text) file)
    (hvalid : validateAttemptSnapshot library.toDefinitionLibrary journal none = .ok ()) :
    JournalRun.Sound library
      { file := some (text ++ [newline]), recorded := journals ++ [journal] } := by
  cases h with
  | publish hnone htext hsize =>
    subst hnone
    have hlog : Log library [journal] (lines newline [text] ++ []) :=
      .ended (.cons htext .nil) (.inl rfl)
    rw [lines_cons, lines_nil, List.append_nil] at hlog
    refine ⟨⟨hvalid, trivial⟩, .inr ⟨_, rfl, List.cons_ne_nil _ _, ?_, hlog⟩⟩
    simpa using hsize

/-- What a publication may rely on. -/
theorem PreparedAppend.first_valid {text : Bytes} {file : Option Bytes} (h : run.Sound library)
    (hprepared : PreparedAppend library journal run.recorded (.publish text) file)
    (hfirst : run.file = none →
      validateAttemptSnapshot library.toDefinitionLibrary journal none = .ok ()) :
    validateAttemptSnapshot library.toDefinitionLibrary journal none = .ok () := by
  obtain ⟨hfile, -⟩ | ⟨_, _, hne, -⟩ := h.shape
  · exact hfirst hfile
  · generalize run.recorded = recorded at hprepared hne
    cases hprepared with
    | publish hnone => exact absurd hnone hne

/-- A write that returns has put the record down; one that fails has kept the others. -/
theorem ensures_writeAttemptFile (hdoc : library.Documented) (h : run.Sound library)
    (hfirst : run.file = none →
      validateAttemptSnapshot library.toDefinitionLibrary journal none = .ok ()) :
    Ensures (writeAttemptFile library journal)
      (fun _ file => JournalRun.Sound library ⟨file, run.recorded ++ [journal]⟩)
      (fun _ file => JournalRun.Sound library ⟨file, run.recorded⟩) run.file := by
  refine (ensures_prepareAttemptWrite hdoc h).bind fun write file hprepared => ?_
  cases write with
  | publish text => exact hprepared.sound_publish (hprepared.first_valid h hfirst)
  | append separator text =>
    have hsound := hprepared.sound_append h.validated (separator ++ text ++ [newline]).length
    have hlength : separator.length + text.length ≤ (separator ++ text ++ [newline]).length := by
      simp only [List.length_append]
      omega
    rw [if_pos hlength, List.take_length] at hsound
    exact hsound

/-- A write that stops half-way has put the record down if its object was whole. -/
theorem ensures_tornWrite (hdoc : library.Documented) (h : run.Sound library) (written : Nat) :
    Ensures (tornWrite library journal written)
      (fun whole file => JournalRun.Sound library
        ⟨file, if whole then run.recorded ++ [journal] else run.recorded⟩)
      (fun _ file => JournalRun.Sound library ⟨file, run.recorded⟩) run.file := by
  refine (ensures_prepareAttemptWrite hdoc h).bind fun write file hprepared => ?_
  cases write with
  | publish text =>
    have hvalid := h.validated
    generalize run.recorded = recorded at hprepared hvalid
    cases hprepared with
    | publish hnone => exact ⟨hvalid, .inl ⟨rfl, hnone⟩⟩
  | append separator text =>
    have hsound := hprepared.sound_append h.validated written
    refine ensures_bind.mpr (ensures_update.mpr ?_)
    rw [ensures_pure]
    simpa only [decide_eq_true_eq] using hsound

/-- **One event keeps the invariant**, if a record that is published is valid. -/
theorem JournalRun.Sound.step (hdoc : library.Documented) (h : run.Sound library)
    {event : JournalEvent} (hfirst : run.file = none →
      validateAttemptSnapshot library.toDefinitionLibrary event.journal none = .ok ()) :
    (run.step library event).Sound library := by
  cases event with
  | write journal =>
    have hwrite : Ensures (writeAttemptFile library journal) _ _ run.file :=
      ensures_writeAttemptFile hdoc h hfirst
    unfold Ensures at hwrite
    rw [JournalRun.step]
    generalize (writeAttemptFile library journal).exec run.file = outcome at hwrite ⊢
    obtain ⟨error | result, file⟩ := outcome <;> exact hwrite
  | torn journal written =>
    have hwrite : Ensures (tornWrite library journal written) _ _ run.file :=
      ensures_tornWrite hdoc h written
    unfold Ensures at hwrite
    rw [JournalRun.step]
    generalize (tornWrite library journal written).exec run.file = outcome at hwrite ⊢
    obtain ⟨error | whole, file⟩ := outcome <;> exact hwrite

theorem Written.filterMap (hdoc : library.Documented) {journals : List ServiceAttemptJournal}
    {texts : List Bytes} (h : Written library journals texts) :
    texts.filterMap (fun line => (library.fromSlice line).toOption) = journals := by
  induction h with
  | nil => rfl
  | @cons journal text journals texts htext _ ih =>
    have hread : library.fromSlice text = .ok journal := by
      simpa using hdoc.round_trip [] htext (by simp)
    rw [List.filterMap_cons_some (b := journal) (by rw [hread]; rfl), ih]

/-- The records that a file was written with are those that it holds. -/
theorem Log.storedRecords_eq (hdoc : library.Documented) {journals : List ServiceAttemptJournal}
    {bytes : Bytes} (h : Log library journals bytes) :
    storedRecords library (some bytes) = journals := by
  cases h with
  | @ended _ texts part hwritten htorn =>
    have hpart := htorn.newline_not_mem hdoc
    have hnone : ([part].filter (· ≠ [])).filterMap
        (fun line => (library.fromSlice line).toOption) = [] := by
      by_cases hne : part = []
      · simp [hne]
      · obtain ⟨error, herror⟩ := htorn.fromSlice hdoc hne
        simp [hne, herror, Except.toOption]
    rw [storedRecords, records_lines_append (hwritten.spec hdoc) hpart, tail_lines_append hpart,
      List.filterMap_append, hwritten.filterMap hdoc, hnone, List.append_nil]
  | @unended journals last texts text hwritten htext =>
    have hline := hdoc.single_line htext
    have hread : library.fromSlice text = .ok last := by
      simpa using hdoc.round_trip [] htext (by simp)
    have hsome : ([text].filter (· ≠ [])).filterMap
        (fun line => (library.fromSlice line).toOption) = [last] := by
      simp [hdoc.ne_nil htext, hread, Except.toOption]
    rw [storedRecords, records_lines_append (hwritten.spec hdoc) hline, tail_lines_append hline,
      List.filterMap_append, hwritten.filterMap hdoc, hsome]

/-- **What the file of a run is read as.** -/
theorem JournalRun.Sound.read (hdoc : library.Documented) (h : run.Sound library) :
    ∃ snapshot, readAttemptSnapshot library run.file = .ok snapshot ∧
      snapshot.map AttemptFileSnapshot.latest = run.recorded.getLast? := by
  obtain ⟨hfile, hnone⟩ | ⟨bytes, hfile, hne, hsize, hlog⟩ := h.shape
  · rw [hfile, hnone]
    exact ⟨none, rfl, rfl⟩
  · have hvalid := h.validated
    rw [hfile]
    generalize run.recorded = recorded at hlog hvalid hne
    cases hlog with
    | ended hwritten htorn =>
      obtain ⟨last, hlast⟩ : ∃ last, recorded.getLast? = some last :=
        ⟨_, List.getLast?_eq_some_getLast hne⟩
      exact ⟨_, read_ended hdoc hwritten htorn hvalid hlast hsize, hlast.symm⟩
    | unended hwritten htext =>
      exact ⟨_, read_unended hdoc hwritten htext hvalid hsize, List.getLast?_concat.symm⟩

theorem JournalRun.Sound.storedRecords_eq (hdoc : library.Documented) (h : run.Sound library) :
    storedRecords library run.file = run.recorded := by
  obtain ⟨hfile, hnone⟩ | ⟨bytes, hfile, -, -, hlog⟩ := h.shape
  · rw [hfile, hnone]
    rfl
  · rw [hfile]
    exact hlog.storedRecords_eq hdoc

/-! ### Identity -/

/-- What identifies an attempt. -/
def ServiceAttemptJournal.identity (journal : ServiceAttemptJournal) :
    String × ServiceManagerKind × String × ServiceDefinition × ServiceAction :=
  (journal.attemptId, journal.manager, journal.nativeServiceId, journal.expectedDefinition,
    journal.action)

theorem identity_eq_of_follows {previous journal : ServiceAttemptJournal}
    (h : previous.follows journal = true) : previous.identity = journal.identity := by
  unfold ServiceAttemptJournal.follows at h
  rw [decide_eq_true_iff] at h
  obtain ⟨hid, hmanager, hservice, haction, -, hdefinition, -⟩ := h
  rw [ServiceAttemptJournal.identity, ServiceAttemptJournal.identity, hid, hmanager, hservice,
    haction, hdefinition]

theorem ValidHistory.isChain {library : DefinitionLibrary} {previous : Option ServiceAttemptJournal}
    {journals : List ServiceAttemptJournal} (h : ValidHistory library previous journals) :
    journals.IsChain fun before journal => before.follows journal = true := by
  induction journals generalizing previous with
  | nil => exact .nil
  | cons first rest ih =>
    cases rest with
    | nil => exact .singleton _
    | cons second rest => exact .cons_cons ((validate_eq_ok.mp h.2.1).2 first rfl) (ih h.2)

/-- One attempt is never taken for another. -/
theorem identity_eq_of_isChain {journals : List ServiceAttemptJournal}
    (h : journals.IsChain fun before journal => before.follows journal = true)
    {journal other : ServiceAttemptJournal} (hmem : journal ∈ journals)
    (hother : other ∈ journals) :
    journal.identity = other.identity := by
  have hchain : journals.IsChain fun before journal => before.identity = journal.identity :=
    h.imp fun _ _ => identity_eq_of_follows
  have : IsTrans ServiceAttemptJournal fun before journal => before.identity = journal.identity :=
    ⟨fun _ _ _ => Eq.trans⟩
  have : Std.Symm fun before journal : ServiceAttemptJournal => before.identity =
    journal.identity :=
    ⟨fun _ _ => Eq.symm⟩
  have hpairs := List.isChain_iff_pairwise.mp hchain
  exact List.Pairwise.forall_of_forall
    (R := fun before journal => before.identity = journal.identity)
    (fun _ _ => rfl) hpairs hmem hother

end Invariant

/-- **The attempt journal survives torn writes**, over any history of writes and of appends that are
cut off, whose first record is valid: a read finds the latest record that is whole, the file holds
all of them, the next write adds its record, and every record follows the one before in the same
attempt. -/
theorem attempt_journal_survives_torn_writes (library : JournalLibrary) (hdoc : library.Documented)
    (events : List JournalEvent)
    (hfirst : Runs.Meets (JournalRun.step library) (fun run event => run.file = none →
      validateAttemptSnapshot library.toDefinitionLibrary event.journal none = .ok ()) {} events) :
    (∃ snapshot, readAttemptSnapshot library (JournalRun.after library events).file = .ok snapshot ∧
      snapshot.map AttemptFileSnapshot.latest =
        (JournalRun.after library events).recorded.getLast?) ∧
    storedRecords library (JournalRun.after library events).file =
      (JournalRun.after library events).recorded ∧
    (∀ journal file, ((JournalRun.after library events).file = none →
        validateAttemptSnapshot library.toDefinitionLibrary journal none = .ok ()) →
      (writeAttemptFile library journal).exec (JournalRun.after library events).file =
        (.ok (), file) →
      storedRecords library file = (JournalRun.after library events).recorded ++ [journal] ∧
        ∃ snapshot, readAttemptSnapshot library file = .ok (some snapshot) ∧
          snapshot.latest = journal) ∧
    ((JournalRun.after library events).recorded.IsChain fun before journal =>
      before.follows journal = true) ∧
    ∀ journal ∈ (JournalRun.after library events).recorded,
      ∀ other ∈ (JournalRun.after library events).recorded, journal.identity = other.identity := by
  have hsound : (JournalRun.after library events).Sound library :=
    hfirst.invariant ⟨trivial, .inl ⟨rfl, rfl⟩⟩ fun run event hrun hvalid => hrun.step hdoc hvalid
  generalize JournalRun.after library events = run at hsound ⊢
  have hchain := hsound.validated.isChain
  refine ⟨hsound.read hdoc, hsound.storedRecords_eq hdoc, fun journal file hvalid hwrite => ?_,
    hchain,
    fun journal hmem other hother => identity_eq_of_isChain hchain hmem hother⟩
  have hafter : Ensures (writeAttemptFile library journal) _ _ run.file :=
    ensures_writeAttemptFile hdoc hsound hvalid
  unfold Ensures at hafter
  rw [hwrite] at hafter
  obtain ⟨snapshot, hread, hlatest⟩ := JournalRun.Sound.read hdoc hafter
  rw [List.getLast?_concat, Option.map_eq_some_iff] at hlatest
  obtain ⟨found, rfl, rfl⟩ := hlatest
  exact ⟨JournalRun.Sound.storedRecords_eq hdoc hafter, found, hread, rfl⟩

/-! ### A sample -/

section Sample

/-- A library that knows the text of one record. -/
def sampleLibrary (journal : ServiceAttemptJournal) (text : Bytes) : JournalLibrary where
  digest _ _ _ _ _ _ := ""
  toVec other :=
    if other = journal then .ok text else .error "path contains invalid UTF-8 characters"
  fromSlice bytes :=
    if text <+: bytes ∧ ∀ c ∈ bytes.drop text.length, c ∈ jsonWhitespace then .ok journal
    else .error "EOF while parsing a value"

theorem documented_sampleLibrary {journal : ServiceAttemptJournal} {text : Bytes}
    (hopens : text.head? = some 123) (hline : newline ∉ text) :
    (sampleLibrary journal text).Documented := by
  have hvec : ∀ {other : ServiceAttemptJournal} {bytes : Bytes},
      (sampleLibrary journal text).toVec other = .ok bytes → other = journal ∧ bytes = text := by
    intro other bytes h
    change (if other = journal then .ok text else .error _) = Except.ok bytes at h
    by_cases heq : other = journal
    · rw [if_pos heq] at h
      exact ⟨heq, (Except.ok.inj h).symm⟩
    · rw [if_neg heq] at h
      cases h
  refine ⟨fun h => ?_, fun h => ?_, fun blanks h hblanks => ?_, fun h hrest => ?_,
    fun h hpart hne => ?_⟩
  · rw [(hvec h).2]
    exact hopens
  · rw [(hvec h).2]
    exact hline
  · obtain ⟨rfl, rfl⟩ := hvec h
    exact if_pos ⟨List.prefix_append _ _, by rwa [List.drop_left]⟩
  · obtain ⟨rfl, rfl⟩ := hvec h
    obtain ⟨c, hc, hnot⟩ := hrest
    refine ⟨_, if_neg fun hread => hnot (hread.2 c ?_)⟩
    rwa [List.drop_left]
  · obtain ⟨rfl, rfl⟩ := hvec h
    exact ⟨_, if_neg fun hread => hne (hpart.eq_of_length_le hread.1.length_le)⟩

theorem toVec_sampleLibrary {journal : ServiceAttemptJournal} {text : Bytes} :
    (sampleLibrary journal text).toVec journal = .ok text := if_pos rfl

/-- The start of a service, in one step. -/
def startAttempt (step : String) : ServiceAttemptJournal where
  schemaVersion := 1
  attemptId := "67e55044-10b1-426f-9247-bb680e5fe0c8"
  manager := .linuxSystemd
  nativeServiceId := "kakune-core.service"
  action := .start
  step := step
  expectedDefinition :=
    { manager := .linuxSystemd
      serviceId := "kakune-core.service"
      executable := "/usr/bin/kakune"
      arguments := ["service", "run", "--data-dir", "/var/lib/kakune"]
      account := "root"
      dataDir := "/var/lib/kakune" }
  priorState := { installed := .installed, managerState := .stopped }

/-- Its text, around the JSON of the step. -/
def startText (step : String) : String :=
  "\x7b\"schema_version\":1,\"attempt_id\":\"67e55044-10b1-426f-9247-bb680e5fe0c8\"," ++
  "\"manager\":\"linux_systemd\",\"native_service_id\":\"kakune-core.service\"," ++
  "\"action\":\"start\",\"step\":" ++ step ++ ",\"expected_definition\":\x7b" ++
  "\"manager\":\"linux_systemd\",\"service_id\":\"kakune-core.service\"," ++
  "\"executable\":\"/usr/bin/kakune\"," ++
  "\"arguments\":[\"service\",\"run\",\"--data-dir\",\"/var/lib/kakune\"]," ++
  "\"account\":\"root\",\"boot_policy\":\"automatic\",\"data_dir\":\"/var/lib/kakune\"," ++
  "\"definition_fingerprint\":null\x7d,\"prior_state\":\x7b\"installed\":\"installed\"," ++
  "\"manager_state\":\"stopped\",\"definition\":null,\"account\":null," ++
  "\"boot_enabled\":false,\"core\":null,\"core_unknown\":null," ++
  "\"diagnostic_location\":null,\"pending_operation\":false\x7d,\"helper_pid\":null," ++
  "\"helper_owner\":null,\"status\":\"prepared\",\"completion_observation\":null," ++
  "\"residual_resources\":[],\"recovery_guidance\":[]\x7d"

def startBytes : Bytes := asciiBytes (startText "\"0:\\\"start\\\"\"")

def startLibrary : JournalLibrary := sampleLibrary (startAttempt "0:\"start\"") startBytes

theorem not_mem_asciiBytes_append {byte : UInt8} {text rest : String}
    (htext : byte ∉ asciiBytes text) (hrest : byte ∉ asciiBytes rest) :
    byte ∉ asciiBytes (text ++ rest) := by
  rw [asciiBytes_append, List.mem_append, not_or]
  exact ⟨htext, hrest⟩

/-- The text is one line if its step is. -/
theorem newline_not_mem_startText {step : String} (hstep : newline ∉ asciiBytes step) :
    newline ∉ asciiBytes (startText step) := by
  unfold startText
  repeat' with_reducible refine not_mem_asciiBytes_append ?_ ?_
  all_goals first
    | with_reducible exact hstep
    | unfold asciiBytes
      rw [String.toList_ofList]
      decide

theorem head?_startText (step : String) : (asciiBytes (startText step)).head? = some 123 := by
  have hfirst : (asciiBytes
      "\x7b\"schema_version\":1,\"attempt_id\":\"67e55044-10b1-426f-9247-bb680e5fe0c8\",").head? =
        some 123 := by
    rw [asciiBytes, String.toList_ofList]
    rfl
  unfold startText
  repeat rw [asciiBytes_append, List.head?_append]
  rw [hfirst]
  simp only [Option.some_or]

theorem documented_startLibrary : startLibrary.Documented := by
  have hstep : newline ∉ asciiBytes "\"0:\\\"start\\\"\"" := by decide
  have hopens : startBytes.head? = some 123 := head?_startText "\"0:\\\"start\\\"\""
  have hline : newline ∉ startBytes := newline_not_mem_startText hstep
  exact documented_sampleLibrary hopens hline

/-- The first record of an attempt is published, and its repetition is cut off. -/
def startEvents : List JournalEvent :=
  [.write (startAttempt "0:\"start\""), .torn (startAttempt "0:\"start\"") 20]

theorem startAttempt_survives_torn_write :
    storedRecords startLibrary (JournalRun.after startLibrary startEvents).file =
      (JournalRun.after startLibrary startEvents).recorded := by
  have hvalid : validateAttemptSnapshot startLibrary.toDefinitionLibrary
      (startAttempt "0:\"start\"") none = .ok () := by decide
  have hfirst : Runs.Meets (JournalRun.step startLibrary) (fun run event => run.file = none →
      validateAttemptSnapshot startLibrary.toDefinitionLibrary event.journal none = .ok ()) {}
      startEvents := by
    refine Runs.meets_of_forall fun _ event hevent _ => ?_
    rw [startEvents, List.mem_cons, List.mem_singleton] at hevent
    obtain rfl | rfl := hevent <;> exact hvalid
  exact (attempt_journal_survives_torn_writes startLibrary documented_startLibrary startEvents
    hfirst).2.1

def blankBytes : Bytes := asciiBytes (startText "\" \"")

def blankLibrary : JournalLibrary := sampleLibrary (startAttempt " ") blankBytes

theorem documented_blankLibrary : blankLibrary.Documented := by
  have hstep : newline ∉ asciiBytes "\" \"" := by decide
  have hopens : blankBytes.head? = some 123 := head?_startText "\" \""
  have hline : newline ∉ blankBytes := newline_not_mem_startText hstep
  exact documented_sampleLibrary hopens hline

section Publication

variable {library : JournalLibrary} {journal : ServiceAttemptJournal} {text : Bytes}

/-- Without a file, any record that is not too long is published. -/
theorem exec_writeAttemptFile_none (htext : library.toVec journal = .ok text)
    (hsize : text.length + 1 ≤ maxAttemptBytes) :
    (writeAttemptFile library journal).exec none = (.ok (), some (text ++ [newline])) := by
  have hprepare :
      (prepareAttemptWrite library journal).exec none = (.ok (.publish text), none) := by
    have hencode : (query fun _ : Option Bytes =>
        (library.toVec journal).mapError LifecycleError.serialization).exec none =
          (.ok text, none) := by
      rw [htext]
      rfl
    rw [prepareAttemptWrite, exec_bind, hencode]
    dsimp only
    rw [if_neg (not_lt.mpr hsize)]
    rfl
  rw [writeAttemptFile, exec_bind, hprepare]
  rfl

/-- A record that is not valid is not read back. -/
theorem read_publication_of_error {error : LifecycleError} (hdoc : library.Documented)
    (htext : library.toVec journal = .ok text) (hsize : text.length + 1 ≤ maxAttemptBytes)
    (hinvalid : validateAttemptSnapshot library.toDefinitionLibrary journal none = .error error) :
    readAttemptSnapshot library (some (text ++ [newline])) = .error error := by
  have hlength : (text ++ [newline]).length ≤ maxAttemptBytes := by simpa using hsize
  have hread := hdoc.round_trip [newline] htext (by simp [newline, jsonWhitespace])
  rw [readAttemptSnapshot, if_neg (not_lt.mpr hlength), hread]
  change (validateAttemptSnapshot library.toDefinitionLibrary journal none >>= _) = _
  rw [hinvalid]
  rfl

end Publication

theorem toVec_blankLibrary : blankLibrary.toVec (startAttempt " ") = .ok blankBytes :=
  toVec_sampleLibrary

theorem length_asciiBytes_append {text rest : String} {n : Nat}
    (htext : (asciiBytes text).length ≤ 100 * n) (hrest : (asciiBytes rest).length ≤ 100) :
    (asciiBytes (text ++ rest)).length ≤ 100 * (n + 1) := by
  rw [asciiBytes_append, List.length_append]
  omega

/-- No piece of the text is longer than 100 bytes. -/
theorem length_blankBytes : blankBytes.length + 1 ≤ maxAttemptBytes := by
  have hlength : blankBytes.length ≤ 100 * 16 := by
    unfold blankBytes startText
    repeat' with_reducible refine length_asciiBytes_append ?_ ?_
    all_goals
      unfold asciiBytes
      rw [String.toList_ofList]
      decide
  have hmax : 100 * 16 + 1 ≤ maxAttemptBytes := by decide
  omega

theorem validate_blankLibrary :
    validateAttemptSnapshot blankLibrary.toDefinitionLibrary (startAttempt " ") none =
      .error (.unsafeOwnership
        "service attempt identity, expected definition, or mutation step is invalid") := by decide

/-- A record with a blank step is published, and is not read back. -/
theorem blank_first_record_unreadable :
    blankLibrary.Documented ∧
      (writeAttemptFile blankLibrary (startAttempt " ")).exec none =
        (.ok (), some (blankBytes ++ [newline])) ∧
      ∃ error, readAttemptSnapshot blankLibrary (some (blankBytes ++ [newline])) =
        .error error := by
  exact ⟨documented_blankLibrary, exec_writeAttemptFile_none toVec_blankLibrary length_blankBytes,
    _,
    read_publication_of_error documented_blankLibrary toVec_blankLibrary length_blankBytes
      validate_blankLibrary⟩

end Sample

end KakuneCore
