import KakuneCore.Api.PageWalks
import KakuneCore.Workflow.Validate

/-!
# The events of an execution, page by page

The first page of a history fixes its high-water mark: the number of the last event then, or the one
that the client asked for. Every later page carries it on in its cursor, so that what is reported
between two pages does not show, and **what a client reads is the history as it was**, less what
retention deleted on the way.
-/

namespace KakuneCore

/-! ### Numbers in cursors -/

theorem parseUnsigned_mono {bound bound' n : Nat} {s : List Char} (hle : bound ≤ bound')
    (h : parseUnsigned bound s = some n) : parseUnsigned bound' s = some n := by
  unfold parseUnsigned at h ⊢
  dsimp only at h ⊢
  generalize (if s.head? = some '+' then s.tail else s) = digits at h ⊢
  split at h
  · next hdigits =>
    rw [if_pos ⟨hdigits.1, hdigits.2.1, hdigits.2.2.trans_le hle⟩]
    exact h
  · cases h

/-- A number that is read back is the one that was written. -/
theorem eq_of_parseUnsigned_toString {bound n m : Nat}
    (h : parseUnsigned bound (toString m).toList = some n) : n = m := by
  rw [Nat.toString_eq_ofList_toDigits, String.toList_ofList] at h
  have hread := parseUnsigned_mono (Nat.le_max_left bound (m + 1)) h
  have hwritten : parseUnsigned (max bound (m + 1)) (Nat.toDigits 10 m) = some m :=
    parseUnsigned_toDigits (Nat.lt_of_lt_of_le (Nat.lt_succ_self m) (Nat.le_max_right _ _))
  exact Option.some.inj (hread.symm.trans hwritten)

/-! ### Histories -/

/-- An event of a later log was there before, or is numbered behind the earlier log. -/
theorem EventLog.mem_or_lt (log : EventLog) (calls : List LogCall) {event : LoggedEvent}
    (h : event ∈ (Runs.run LogCall.apply log calls).events) :
    event ∈ log.events ∨ log.sequence < event.sequence := by
  induction calls generalizing log with
  | nil => exact .inl h
  | cons call calls ih =>
    obtain ⟨events, -, -, heq, hrows⟩ | ⟨-, heq⟩ | ⟨eventBefore, -, -, heq⟩ := call.apply_cases log
    · have hrest := ih _ h
      rw [heq, hrows] at hrest
      obtain hrest | hrest := hrest
      · obtain hold | hnew := List.mem_append.mp hrest
        · exact .inl hold
        · exact .inr (NewEvent.lt_of_mem_rowsFrom hnew).1
      · exact .inr (lt_of_le_of_lt (Nat.le_add_right _ _) hrest)
    · have hrest := ih _ h
      rwa [heq] at hrest
    · have hrest := ih _ h
      rw [heq] at hrest
      exact hrest.imp_left List.mem_of_mem_filter

theorem sequence_pos {history : List LogCall} {event : LoggedEvent}
    (h : event ∈ (logAfter history).events) : 0 < event.sequence := by
  obtain hnone | hpos := EventLog.mem_or_lt {} history h
  · cases hnone
  · exact hpos

theorem mem_ofExecution {log : EventLog} {executionId : String} {event : LoggedEvent} :
    event ∈ log.ofExecution executionId ↔
      event ∈ log.events ∧ event.executionId = some executionId := by
  rw [EventLog.ofExecution, List.mem_filter, decide_eq_true_eq]

/-! ### High-water marks -/

theorem le_foldl_max {numbers : List Nat} {n : Nat} (start : Nat) (h : n ∈ numbers ∨ n ≤ start) :
    n ≤ numbers.foldl max start := by
  induction numbers generalizing start with
  | nil => exact h.resolve_left List.not_mem_nil
  | cons number numbers ih =>
    refine ih _ ?_
    rw [List.mem_cons] at h
    obtain (rfl | h) | h := h
    · exact .inr (Nat.le_max_right _ _)
    · exact .inl h
    · exact .inr (h.trans (Nat.le_max_left _ _))

theorem foldl_max_le {numbers : List Nat} {start bound : Nat} (hstart : start ≤ bound)
    (h : ∀ n ∈ numbers, n ≤ bound) : numbers.foldl max start ≤ bound := by
  induction numbers generalizing start with
  | nil => exact hstart
  | cons number numbers ih =>
    rw [List.forall_mem_cons] at h
    exact ih (Nat.max_le.mpr ⟨hstart, h.1⟩) h.2

section HighWater

variable {log : EventLog} {executionId : String}

theorem EventLog.Ordered.highWater_le (h : log.Ordered) :
    (log.highWater executionId).toNat ≤ log.sequence := by
  rw [EventLog.highWater, UInt64.toNat_ofNat']
  refine (Nat.mod_le _ _).trans (foldl_max_le (Nat.zero_le _) ?_)
  rw [List.forall_mem_map]
  exact fun event hevent => h.bound event (mem_ofExecution.mp hevent).1

/-- The mark is at or above every event, as long as the numbers fit. -/
theorem EventLog.Ordered.le_highWater (h : log.Ordered) (hfits : log.sequence < 2 ^ 64)
    {event : LoggedEvent} (hevent : event ∈ log.ofExecution executionId) :
    event.sequence ≤ (log.highWater executionId).toNat := by
  have hmax : ((log.ofExecution executionId).map fun event => event.sequence).foldl max 0 <
      2 ^ 64 := by
    refine (foldl_max_le (Nat.zero_le _) ?_).trans_lt hfits
    rw [List.forall_mem_map]
    exact fun event hevent => h.bound event (mem_ofExecution.mp hevent).1
  rw [EventLog.highWater, UInt64.toNat_ofNat', Nat.mod_eq_of_lt hmax]
  exact le_foldl_max 0 (.inl (List.mem_map_of_mem hevent))

end HighWater

/-! ### Reading a history -/

/-- What a request for a page of events meets. -/
structure EventRead where
  tables : Tables
  history : List LogCall
  requestedHighWater : Option UInt64 := none

section Events

variable {json : Json.Library} {executionId : String} {limit : Option Nat}

/-- `execution_event_page` as a list. -/
def readEvents (json : Json.Library) (executionId : String) (limit : Option Nat) (read : EventRead)
    (cursor : Option String) : Except ManagementError (ManagementPage LoggedEvent) := do
  let page ← executionEventPage json read.tables (logAfter read.history) executionId limit cursor
    read.requestedHighWater
  pure page.toManagementPage

/-- The events below a high-water mark. -/
def snapshotRows (executionId : String) (highWater : UInt64) (read : EventRead) :
    List LoggedEvent :=
  ((logAfter read.history).ofExecution executionId).filter fun event =>
    event.sequence ≤ highWater.toNat

theorem uniqueKeys_snapshotRows (executionId : String) (highWater : UInt64) (read : EventRead) :
    Keyset.UniqueKeys (fun event => event.sequence)
      (snapshotRows executionId highWater read) := by
  have hincreasing : Pages.Increasing (fun event : LoggedEvent => event.sequence)
      (logAfter read.history).events := (ordered_logAfter read.history).increasing
  refine List.Nodup.sublist ((List.filter_sublist.trans List.filter_sublist).map _)
    (List.pairwise_map.mpr (hincreasing.imp ?_))
  exact fun hlt => hlt.ne

/-- **The query is a keyset reading** of the events below the high-water mark. -/
theorem executionEvents_eq (read : EventRead) (highWater : UInt64) (after count : Nat) :
    (logAfter read.history).executionEvents executionId after highWater.toNat count =
      Keyset.select (fun event => event.sequence) (snapshotRows executionId highWater read)
        (some after) count := by
  have hrows : (((logAfter read.history).ofExecution executionId).filter fun event =>
      after < event.sequence && event.sequence ≤ highWater.toNat) =
        (snapshotRows executionId highWater read).filter
          (Keyset.isBehind (fun event => event.sequence) (some after)) := by
    rw [snapshotRows, List.filter_filter]
    rfl
  rw [EventLog.executionEvents, hrows, Keyset.select, Keyset.sorted]

/-- A page behind a position of a snapshot. -/
theorem readEvents_eq_ok {read : EventRead} {cursor : Option String}
    {page : ManagementPage LoggedEvent}
    (h : readEvents json executionId limit read cursor = .ok page) :
    ∃ highWater after, eventPosition json executionId
        ((logAfter read.history).highWater executionId) cursor read.requestedHighWater =
          .ok (highWater, after) ∧ 0 < limit.getD defaultEventPageSize ∧
      page = pageOf json (eventCursor executionId highWater)
        ((Keyset.page (fun event => event.sequence) (snapshotRows executionId highWater read)
          (some after) (limit.getD defaultEventPageSize)).1.map (LoggedEvent.shown json))
        (Keyset.page (fun event => event.sequence) (snapshotRows executionId highWater read)
          (some after) (limit.getD defaultEventPageSize)).2 := by
  obtain ⟨result, hresult, h⟩ := except_bind_eq_ok h
  cases h
  obtain ⟨count, hcount, hresult⟩ := except_bind_eq_ok hresult
  obtain ⟨rfl, hpos⟩ := pageLimit_eq_ok hcount
  split at hresult
  · cases hresult
  obtain ⟨⟨highWater, after⟩, hposition, hresult⟩ := except_bind_eq_ok hresult
  dsimp only at hresult
  split at hresult
  · cases hresult
  refine ⟨highWater, after, hposition, hpos, ?_⟩
  cases hresult
  rw [executionEvents_eq, ← List.map_take, List.length_map]
  rfl

/-! ### Snapshots -/

theorem eventPosition_none {current highWater : UInt64} {after : Nat} {requested : Option UInt64}
    (h : eventPosition json executionId current none requested = .ok (highWater, after)) :
    highWater = requested.getD current ∧ after = 0 ∧ highWater ≤ current := by
  rw [eventPosition] at h
  split at h
  · cases h
  · next hle =>
    cases h
    exact ⟨rfl, rfl, UInt64.not_lt.mp hle⟩

/-- A cursor of a snapshot keeps to it. -/
theorem eventPosition_nextCursor (hjson : json.Conforms 127) {current highWater highWater' : UInt64}
    {after : Nat} {requested : Option UInt64} {event : LoggedEvent} {text : String}
    (htext : nextCursor json (eventCursor executionId highWater event) = some text)
    (h : eventPosition json executionId current (some text) requested = .ok (highWater', after)) :
    highWater' = highWater ∧ after = event.sequence := by
  rw [eventPosition] at h
  obtain ⟨cursor, hdecode, h⟩ := except_bind_eq_ok h
  obtain ⟨_, -, h⟩ := except_bind_eq_ok h
  obtain rfl := decode_nextCursor hjson htext (orInvalid_eq_ok.mp hdecode)
  dsimp only [eventCursor] at h
  split at h
  · cases h
  split at h
  · next hread =>
    cases h
    exact ⟨rfl, eq_of_parseUnsigned_toString hread⟩
  · cases h

/-- The snapshot that a first page fixes. -/
def EventRead.highWater (executionId : String) (read : EventRead) : UInt64 :=
  read.requestedHighWater.getD ((logAfter read.history).highWater executionId)

theorem reads_later_events (hjson : json.Conforms 127) {highWater : UInt64} {text : String}
    {after : Option Nat} (hnames : CursorNames json (eventCursor executionId highWater)
      (LoggedEvent.shown json) (fun event => event.sequence) (some text) after) (read : EventRead) :
    ReadsPage json (readEvents json executionId limit) (fun event => event.sequence)
      (snapshotRows executionId highWater) (LoggedEvent.shown json)
      (eventCursor executionId highWater) (limit.getD defaultEventPageSize) (some text) after
      read := by
  intro page h
  obtain ⟨⟨⟩, -⟩ | ⟨event, _, ⟨⟩, htext, rfl⟩ := hnames
  obtain ⟨highWater', after, hposition, hpos, hpage⟩ := readEvents_eq_ok h
  obtain ⟨rfl, rfl⟩ := eventPosition_nextCursor hjson htext hposition
  exact ⟨hpos, hpage⟩

theorem reads_first_events (read : EventRead) :
    ReadsPage json (readEvents json executionId limit) (fun event => event.sequence)
      (snapshotRows executionId (read.highWater executionId)) (LoggedEvent.shown json)
      (eventCursor executionId (read.highWater executionId)) (limit.getD defaultEventPageSize) none
      (some 0) read := by
  intro page h
  obtain ⟨highWater, after, hposition, hpos, hpage⟩ := readEvents_eq_ok h
  obtain ⟨rfl, rfl, -⟩ := eventPosition_none hposition
  exact ⟨hpos, hpage⟩

/-- A first page that is given lies within the history. -/
theorem highWater_le_sequence {first : EventRead} {page : ManagementPage LoggedEvent}
    (h : readEvents json executionId limit first none = .ok page) :
    (first.highWater executionId).toNat ≤ (logAfter first.history).sequence := by
  obtain ⟨highWater, after, hposition, -, -⟩ := readEvents_eq_ok h
  obtain ⟨rfl, -, hle⟩ := eventPosition_none hposition
  exact (UInt64.le_iff_toNat_le.mp hle).trans (ordered_logAfter first.history).highWater_le

/-- An event of a snapshot was retained when the snapshot was fixed. -/
theorem mem_first_of_snapshot {first read : EventRead} {highWater : UInt64} {event : LoggedEvent}
    (hhistory : first.history <+: read.history)
    (hle : highWater.toNat ≤ (logAfter first.history).sequence)
    (h : event ∈ snapshotRows executionId highWater read) :
    event ∈ (logAfter first.history).ofExecution executionId ∧
      event.sequence ≤ highWater.toNat := by
  obtain ⟨hmem, hsequence⟩ := List.mem_filter.mp h
  rw [decide_eq_true_eq] at hsequence
  obtain ⟨hevent, hexecution⟩ := mem_ofExecution.mp hmem
  obtain ⟨calls, hcalls⟩ := hhistory
  rw [← hcalls, logAfter, Runs.run_append] at hevent
  obtain hold | hnew := EventLog.mem_or_lt _ calls hevent
  · exact ⟨mem_ofExecution.mpr ⟨hold, hexecution⟩, hsequence⟩
  · exact absurd (hsequence.trans hle) hnew.not_ge

/-- **The pages of a history are a snapshot.** What is shown is in order and has no repeats; each
item is an event of the execution that was retained when the first page was read, below the
high-water mark that this page fixed, whatever is reported later; and every such event that is
still retained at the other reads is shown before the reader is told that there is no more. -/
theorem execution_events_are_a_snapshot (hjson : json.Conforms 127) {first : EventRead}
    {later : List EventRead} {pages : List (List LoggedEvent)} {done : Bool}
    (hhistory : ∀ read ∈ later, first.history <+: read.history)
    (h : PageWalk (readEvents json executionId limit) none (first :: later) pages done) :
    pages.flatten.Pairwise (fun a b => a.sequence < b.sequence) ∧
    (∀ page ∈ pages, page.length ≤ limit.getD defaultEventPageSize) ∧
    (∀ item ∈ pages.flatten, ∃ event ∈ (logAfter first.history).ofExecution executionId,
      event.sequence ≤ (first.highWater executionId).toNat ∧ event.shown json = item) ∧
    (done = true → ∀ event ∈ (logAfter first.history).ofExecution executionId,
      event.sequence ≤ (first.highWater executionId).toNat →
      (∀ read ∈ later, event ∈ (logAfter read.history).events) →
      event.shown json ∈ pages.flatten) ∧
    (first.requestedHighWater = none → (logAfter first.history).sequence < 2 ^ 64 →
      ∀ event ∈ (logAfter first.history).ofExecution executionId,
        event.sequence ≤ (first.highWater executionId).toNat) := by
  have hle : (first.highWater executionId).toNat ≤ (logAfter first.history).sequence := by
    cases h with
    | last hcall _ => exact highWater_le_sequence hcall
    | more hcall _ _ => exact highWater_le_sequence hcall
  obtain ⟨shown, rfl, hreading⟩ : ∃ shown, pages = shown.map (List.map (LoggedEvent.shown json)) ∧
      Reading (fun event => event.sequence) (snapshotRows executionId
        (first.highWater executionId)) (limit.getD defaultEventPageSize) (some 0) (first :: later)
        shown done :=
    h.reading (fun text after read hnames => reads_later_events hjson hnames read)
      (by
        rintro _ ⟨⟩
        exact reads_first_events first)
      fun read _ => uniqueKeys_snapshotRows _ _ read
  have hhistories : ∀ read ∈ first :: later, first.history <+: read.history :=
    List.forall_mem_cons.mpr ⟨List.prefix_refl _, hhistory⟩
  have hfirst : ∀ event ∈ shown.flatten, event ∈ (logAfter first.history).ofExecution executionId ∧
      event.sequence ≤ (first.highWater executionId).toNat := by
    intro event hevent
    obtain ⟨read, hread, hrow⟩ := hreading.exists_state hevent
    exact mem_first_of_snapshot (hhistories read hread) hle hrow
  rw [← List.map_flatten]
  refine ⟨?_, ?_, ?_, ?_, ?_⟩
  · rw [List.pairwise_map]
    exact hreading.increasing
  · rw [List.forall_mem_map]
    intro items hitems
    rw [List.length_map]
    exact hreading.limited items hitems
  · rw [List.forall_mem_map]
    intro event hevent
    exact ⟨event, (hfirst event hevent).1, (hfirst event hevent).2, rfl⟩
  · intro hdone event hevent hsequence hstays
    obtain ⟨hmem, hexecution⟩ := mem_ofExecution.mp hevent
    obtain ⟨row, hrow, hkey⟩ := hreading.complete hdone event.sequence
      (by
        rintro _ ⟨⟩
        exact sequence_pos hmem)
      (by
        intro read hread
        have hretained : event ∈ (logAfter read.history).events := by
          obtain rfl | hread := List.mem_cons.mp hread
          · exact hmem
          · exact hstays read hread
        exact ⟨event, List.mem_filter.mpr ⟨mem_ofExecution.mpr ⟨hretained, hexecution⟩,
          decide_eq_true hsequence⟩, rfl⟩)
    -- no other event has its number
    have hnumbers : ((logAfter first.history).events.map fun event => event.sequence).Nodup :=
      List.pairwise_map.mpr ((ordered_logAfter first.history).increasing.imp fun hlt => hlt.ne)
    obtain rfl : row = event :=
      List.inj_on_of_nodup_map hnumbers (mem_ofExecution.mp (hfirst row hrow).1).1 hmem hkey
    exact List.mem_map_of_mem hrow
  · intro hrequested hfits event hevent
    rw [EventRead.highWater, hrequested]
    exact (ordered_logAfter first.history).le_highWater hfits hevent

/-- A report about an execution. -/
def sampleReport (id : String) (h : id ≠ "" := by decide) : NewEvent :=
  { sampleEvent id "2026-01-01T00:00:00Z" h with executionId := some "e1" }

/-- A third event is reported between the two pages. -/
def sampleReads : List EventRead :=
  [⟨runCalls [.create (sampleAdmission "e1" "w" none)],
      [.commit [sampleReport "v1", sampleReport "v2"]], none⟩,
    ⟨runCalls [.create (sampleAdmission "e1" "w" none)],
      [.commit [sampleReport "v1", sampleReport "v2"], .commit [sampleReport "v3"]], none⟩]

theorem execution_events_are_a_snapshot_sampleReads :
    ∃ pages, PageWalk (readEvents (Json.reference 127) "e1" (some 1)) none sampleReads pages true ∧
      ∀ item ∈ pages.flatten, item.sequence ≤ 2 := by
  have hdone : (walkPages (readEvents (Json.reference 127) "e1" (some 1)) none sampleReads).map
      Prod.snd = some true := by
    decide +kernel
  obtain ⟨⟨pages, _⟩, hwalk, rfl⟩ := Option.map_eq_some_iff.mp hdone
  have hwalk := pageWalk_of_walkPages hwalk
  refine ⟨pages, hwalk, fun item hitem => ?_⟩
  obtain ⟨event, -, hle, rfl⟩ := (execution_events_are_a_snapshot (Json.reference_conforms 127)
    (by
      rw [List.forall_mem_singleton]
      exact List.prefix_append _ _) hwalk).2.2.1 item hitem
  have htwo : (EventRead.highWater "e1" ⟨runCalls [.create (sampleAdmission "e1" "w" none)],
      [.commit [sampleReport "v1", sampleReport "v2"]], none⟩).toNat = 2 := by
    decide +kernel
  rw [htwo] at hle
  exact hle

end Events

end KakuneCore
