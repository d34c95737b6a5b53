import KakuneCore.Relational.Pages
import KakuneCore.Relational.Runs
import KakuneCore.Store.Plugins

/-!
# The event log

`append_event` draws the next number from `core_state` and inserts a row, inside the transaction of
the operation that reports; retention deletes old rows and leaves the counter alone. Subscribers
read the log in pages and name their place by the id of the last event they saw.

A client sees event ids, which `EventRow` leaves out; `LoggedEvent` adds them.
-/

namespace KakuneCore

/-! ### Rows -/

/-- The text of a fresh UUID. -/
structure EventId where
  text : String
  nonempty : text ≠ ""
  deriving DecidableEq

/-- What an operation reports. -/
structure EventData where
  eventType : String
  resourceId : String
  executionId : Option String := none
  payload : Value
  timestamp : String

/-- A report with the event id drawn for it. -/
structure NewEvent extends EventData where
  eventId : EventId

/-- A row of `events`, with its id. -/
structure LoggedEvent extends EventRow where
  eventId : EventId
  deriving DecidableEq

def EventData.row (data : EventData) (sequence : Nat) : EventRow where
  sequence
  timestamp := data.timestamp
  eventType := data.eventType
  resourceId := data.resourceId
  executionId := data.executionId
  payload := Tables.sanitizeEventPayload data.payload

def NewEvent.row (event : NewEvent) (sequence : Nat) : LoggedEvent :=
  { event.toEventData.row sequence with eventId := event.eventId }

/-- The rows of a list of reports, numbered from the one after `sequence`. -/
def EventData.rowsFrom (sequence : Nat) : List EventData → List EventRow
  | [] => []
  | data :: rest => data.row (sequence + 1) :: rowsFrom (sequence + 1) rest

def NewEvent.rowsFrom (sequence : Nat) : List NewEvent → List LoggedEvent
  | [] => []
  | event :: rest => event.row (sequence + 1) :: rowsFrom (sequence + 1) rest

theorem EventData.rowsFrom_append (sequence : Nat) (first second : List EventData) :
    rowsFrom sequence (first ++ second) =
      rowsFrom sequence first ++ rowsFrom (sequence + first.length) second := by
  induction first generalizing sequence with
  | nil => rfl
  | cons data first ih =>
    rw [List.cons_append, rowsFrom, rowsFrom, ih, List.cons_append, List.length_cons,
      Nat.add_right_comm, Nat.add_assoc]

theorem NewEvent.map_rowsFrom (sequence : Nat) (events : List NewEvent) :
    (rowsFrom sequence events).map LoggedEvent.toEventRow =
      EventData.rowsFrom sequence (events.map NewEvent.toEventData) := by
  induction events generalizing sequence with
  | nil => rfl
  | cons event events ih =>
    rw [rowsFrom, List.map_cons, ih, List.map_cons, EventData.rowsFrom]
    rfl

/-- The numbers of new rows lie above the counter they start from. -/
theorem NewEvent.lt_of_mem_rowsFrom {sequence : Nat} {events : List NewEvent} {row : LoggedEvent}
    (h : row ∈ rowsFrom sequence events) :
    sequence < row.sequence ∧ row.sequence ≤ sequence + events.length := by
  induction events generalizing sequence with
  | nil => cases h
  | cons event events ih =>
    rw [List.length_cons]
    rcases List.mem_cons.mp h with rfl | h
    · have hrow : (event.row (sequence + 1)).sequence = sequence + 1 := rfl
      omega
    · have := ih h
      omega

theorem NewEvent.increasing_rowsFrom (sequence : Nat) (events : List NewEvent) :
    Pages.Increasing (fun row : LoggedEvent => row.sequence) (rowsFrom sequence events) := by
  induction events generalizing sequence with
  | nil => exact List.Pairwise.nil
  | cons event events ih =>
    refine List.pairwise_cons.mpr ⟨fun row hrow => ?_, ih (sequence + 1)⟩
    have hlt := (lt_of_mem_rowsFrom hrow).1
    exact hlt

/-! ### Operations -/

/-- `events` and the counter in `core_state`. -/
structure EventLog where
  sequence : Nat := 0
  events : List LoggedEvent := []

namespace EventLog

/-- The log with one more row. -/
def add (log : EventLog) (event : NewEvent) : EventLog where
  sequence := log.sequence + 1
  events := log.events ++ [event.row (log.sequence + 1)]

/-- `append_event`. Event ids and sequence numbers are unique. -/
def appendEvent (log : EventLog) (event : NewEvent) : Except String EventLog :=
  if log.events.any fun other => other.eventId = event.eventId then
    .error "UNIQUE constraint failed: events.event_id"
  else if log.events.any fun other => other.sequence = log.sequence + 1 then
    .error "UNIQUE constraint failed: events.sequence"
  else .ok (log.add event)

/-- The events of one transaction, one after the other. -/
def appendEvents : List NewEvent → EventLog → Except String EventLog
  | [], log => .ok log
  | event :: events, log => do
    let log ← log.appendEvent event
    appendEvents events log

/-- `DELETE FROM events WHERE timestamp < ?1`, the part of `apply_retention` about the log. -/
def applyRetention (log : EventLog) (eventBefore : String) : EventLog :=
  { log with events := log.events.filter fun event => !(event.timestamp < eventBefore) }

/-- The position a cursor names: the start for no cursor and for the empty one. -/
def cursorSequence (log : EventLog) (cursor : Option String) : Except String Nat :=
  match cursor.filter (· ≠ "") with
  | none => .ok 0
  | some cursor =>
    match log.events.find? fun event => event.eventId.text = cursor with
    | some event => .ok event.sequence
    | none => .error s!"event cursor {cursor} is not retained"

/-- `list_events_after_limited`. -/
def listEventsAfterLimited (log : EventLog) (cursor : Option String) (limit : Nat) :
    Except String (List LoggedEvent) := do
  if limit = 0 || 10000 < limit then
    throw "event page limit must be between 1 and 10000"
  let sequence ← log.cursorSequence cursor
  pure (Pages.page (fun event : LoggedEvent => event.sequence) log.events sequence limit)

/-! ### The log in every history -/

/-- The rows are in order, their numbers are taken from the counter, and the ids have no
repeats. -/
structure Ordered (log : EventLog) : Prop where
  increasing : Pages.Increasing (fun event : LoggedEvent => event.sequence) log.events
  bound : ∀ event ∈ log.events, event.sequence ≤ log.sequence
  ids : (log.events.map LoggedEvent.eventId).Nodup

theorem ordered_empty : Ordered {} :=
  ⟨List.Pairwise.nil, nofun, List.nodup_nil⟩

variable {log log' : EventLog}

/-- What an append that succeeds does. -/
theorem appendEvent_eq_ok {event : NewEvent} (h : log.appendEvent event = .ok log') :
    event.eventId ∉ log.events.map LoggedEvent.eventId ∧ log' = log.add event := by
  unfold appendEvent at h
  split at h
  · cases h
  · next hfresh =>
    split at h
    · cases h
    · cases h
      refine ⟨fun hmem => hfresh ?_, rfl⟩
      obtain ⟨other, hother, heq⟩ := List.mem_map.mp hmem
      exact List.any_eq_true.mpr ⟨other, hother, decide_eq_true heq⟩

/-- The numbering never runs into a stored row. -/
theorem Ordered.appendEvent_of_fresh (h : log.Ordered) {event : NewEvent}
    (hfresh : event.eventId ∉ log.events.map LoggedEvent.eventId) :
    log.appendEvent event = .ok (log.add event) := by
  have hid : ¬(log.events.any fun other => decide (other.eventId = event.eventId)) = true := by
    intro hany
    obtain ⟨other, hother, heq⟩ := List.any_eq_true.mp hany
    exact hfresh (List.mem_map.mpr ⟨other, hother, of_decide_eq_true heq⟩)
  have hseq : ¬(log.events.any fun other =>
      decide (other.sequence = log.sequence + 1)) = true := by
    intro hany
    obtain ⟨other, hother, heq⟩ := List.any_eq_true.mp hany
    have hle := h.bound other hother
    have heq := of_decide_eq_true heq
    omega
  rw [appendEvent, if_neg hid, if_neg hseq]

theorem Ordered.appendEvent (h : log.Ordered) {event : NewEvent}
    (hok : log.appendEvent event = .ok log') : log'.Ordered := by
  obtain ⟨hfresh, rfl⟩ := appendEvent_eq_ok hok
  refine ⟨h.increasing.append (List.pairwise_singleton _ _) ?_, ?_, ?_⟩
  · intro row hrow row' hrow'
    obtain rfl := List.mem_singleton.mp hrow'
    exact Nat.lt_succ_of_le (h.bound row hrow)
  · intro row hrow
    rcases List.mem_append.mp hrow with hrow | hrow
    · exact Nat.le_succ_of_le (h.bound row hrow)
    · obtain rfl := List.mem_singleton.mp hrow
      exact le_rfl
  · rw [add, List.map_append, List.nodup_append]
    refine ⟨h.ids, List.nodup_singleton _, fun id hid id' hid' heq => hfresh ?_⟩
    have hevent : id = event.eventId := heq.trans (List.mem_singleton.mp hid')
    rw [← hevent]
    exact hid

/-- A transaction appends its events, numbered on from the counter. -/
theorem appendEvents_eq_ok {events : List NewEvent} (hok : appendEvents events log = .ok log') :
    log' = { sequence := log.sequence + events.length,
             events := log.events ++ NewEvent.rowsFrom log.sequence events } := by
  induction events generalizing log with
  | nil =>
    cases hok
    simp [NewEvent.rowsFrom]
  | cons event events ih =>
    obtain ⟨next, hnext, hrest⟩ := except_bind_eq_ok hok
    obtain ⟨-, rfl⟩ := appendEvent_eq_ok hnext
    rw [ih hrest, add, NewEvent.rowsFrom, List.length_cons, List.append_assoc,
      List.singleton_append, Nat.add_right_comm, Nat.add_assoc]

theorem Ordered.appendEvents (h : log.Ordered) {events : List NewEvent}
    (hok : appendEvents events log = .ok log') : log'.Ordered := by
  induction events generalizing log with
  | nil =>
    cases hok
    exact h
  | cons event events ih =>
    obtain ⟨next, hnext, hrest⟩ := except_bind_eq_ok hok
    exact ih (h.appendEvent hnext) hrest

theorem Ordered.applyRetention (h : log.Ordered) (eventBefore : String) :
    (log.applyRetention eventBefore).Ordered :=
  ⟨h.increasing.sublist List.filter_sublist,
    fun event hevent => h.bound event (List.mem_of_mem_filter hevent),
    h.ids.sublist (List.filter_sublist.map _)⟩

end EventLog

/-- What a store operation does to the log: it appends its events when its transaction commits, or
it is the retention. An operation that reports nothing commits no events. -/
inductive LogCall
  | commit (events : List NewEvent)
  | applyRetention (eventBefore : String)

/-- The log after an operation. -/
def LogCall.apply (log : EventLog) : LogCall → EventLog
  | commit events =>
    Runs.settle log ((EventLog.appendEvents events log).map fun log' => ((), log'))
  | applyRetention eventBefore => log.applyRetention eventBefore

/-- The rows an operation adds. -/
def LogCall.added (log : EventLog) : LogCall → List LoggedEvent
  | commit events =>
    if (EventLog.appendEvents events log).toBool then NewEvent.rowsFrom log.sequence events else []
  | applyRetention _ => []

/-- Every row that was ever added, in the order of the additions, whether it is retained or
not. -/
def everAdded : EventLog → List LogCall → List LoggedEvent
  | _, [] => []
  | log, call :: calls => call.added log ++ everAdded (call.apply log) calls

/-- The log after a history. -/
abbrev logAfter (history : List LogCall) : EventLog := Runs.run LogCall.apply {} history

/-- **What an operation can do to the log.** -/
theorem LogCall.apply_cases (log : EventLog) (call : LogCall) :
    (∃ events, call = .commit events ∧ EventLog.appendEvents events log = .ok (call.apply log) ∧
        call.apply log = { sequence := log.sequence + events.length,
                           events := log.events ++ call.added log } ∧
        call.added log = NewEvent.rowsFrom log.sequence events) ∨
      (call.added log = [] ∧ call.apply log = log) ∨
      ∃ eventBefore, call = .applyRetention eventBefore ∧ call.added log = [] ∧
        call.apply log = log.applyRetention eventBefore := by
  cases call with
  | applyRetention eventBefore => exact .inr (.inr ⟨eventBefore, rfl, rfl, rfl⟩)
  | commit events =>
    cases h : EventLog.appendEvents events log with
    | error e => exact .inr (.inl ⟨by rw [added, h]; rfl, by rw [apply, h]; rfl⟩)
    | ok log' =>
      have hadded : LogCall.added log (.commit events) = NewEvent.rowsFrom log.sequence events := by
        rw [added, h]
        rfl
      have happly : LogCall.apply log (.commit events) = log' := by
        rw [apply, h]
        rfl
      refine .inl ⟨events, rfl, by rw [happly, h], ?_, hadded⟩
      rw [happly, hadded, EventLog.appendEvents_eq_ok h]

theorem LogCall.ordered_apply {log : EventLog} (h : log.Ordered) (call : LogCall) :
    (call.apply log).Ordered := by
  obtain ⟨events, -, hok, -, -⟩ | ⟨-, heq⟩ | ⟨eventBefore, -, -, heq⟩ := call.apply_cases log
  · exact h.appendEvents hok
  · rw [heq]
    exact h
  · rw [heq]
    exact h.applyRetention eventBefore

theorem ordered_logAfter (history : List LogCall) : (logAfter history).Ordered :=
  Runs.invariant history EventLog.ordered_empty fun _ call h => LogCall.ordered_apply h call

/-! ### Sequence numbers -/

theorem everAdded_append (log : EventLog) (first second : List LogCall) :
    everAdded log (first ++ second) =
      everAdded log first ++ everAdded (Runs.run LogCall.apply log first) second := by
  induction first generalizing log with
  | nil => rfl
  | cons call first ih =>
    rw [List.cons_append, everAdded, everAdded, ih, Runs.run_cons, List.append_assoc]

/-- What is retained was added at some time, and in the same order; the counter is at least the
number of every row that was ever added. -/
theorem retained_of_everAdded (history : List LogCall) :
    (logAfter history).events.Sublist (everAdded {} history) ∧
      ∀ row ∈ everAdded {} history, row.sequence ≤ (logAfter history).sequence := by
  induction history using List.reverseRecOn with
  | nil => exact ⟨.slnil, nofun⟩
  | append_singleton history call ih =>
    obtain ⟨hsub, hbound⟩ := ih
    have hadded : everAdded {} (history ++ [call]) =
        everAdded {} history ++ call.added (logAfter history) := by
      rw [everAdded_append, everAdded, everAdded, List.append_nil]
    rw [logAfter, Runs.run_concat, hadded]
    obtain ⟨events, -, -, heq, hrows⟩ | ⟨hnone, heq⟩ | ⟨eventBefore, -, hnone, heq⟩ :=
      call.apply_cases (logAfter history)
    · rw [heq]
      refine ⟨hsub.append (List.Sublist.refl _), fun row hrow => ?_⟩
      rcases List.mem_append.mp hrow with hrow | hrow
      · exact Nat.le_add_right_of_le (hbound row hrow)
      · rw [hrows] at hrow
        exact (NewEvent.lt_of_mem_rowsFrom hrow).2
    · rw [hnone, heq, List.append_nil]
      exact ⟨hsub, hbound⟩
    · rw [hnone, heq, List.append_nil]
      exact ⟨List.filter_sublist.trans hsub, hbound⟩

/-- The numbers of all rows that were ever added increase. -/
theorem increasing_everAdded (history : List LogCall) :
    Pages.Increasing (fun event : LoggedEvent => event.sequence) (everAdded {} history) := by
  induction history using List.reverseRecOn with
  | nil => exact List.Pairwise.nil
  | append_singleton history call ih =>
    rw [everAdded_append, everAdded, everAdded, List.append_nil]
    obtain ⟨events, -, -, -, hrows⟩ | ⟨hnone, -⟩ | ⟨eventBefore, -, hnone, -⟩ :=
      call.apply_cases (logAfter history)
    · rw [hrows]
      refine ih.append (NewEvent.increasing_rowsFrom _ _) fun row hrow row' hrow' => ?_
      have hle := (retained_of_everAdded history).2 row hrow
      have hlt := (NewEvent.lt_of_mem_rowsFrom hrow').1
      exact lt_of_le_of_lt hle hlt
    · rw [hnone, List.append_nil]
      exact ih
    · rw [hnone, List.append_nil]
      exact ih

/-! ### Subscribers -/

/-- The rows behind a row, in the order of their numbers. -/
def EventLog.eventsAfter (log : EventLog) (event : LoggedEvent) : List LoggedEvent :=
  Pages.after (fun event : LoggedEvent => event.sequence) log.events event.sequence

/-- A client of the event stream: where it stands, and what it has received. -/
structure Subscriber where
  cursor : Option String
  received : List LoggedEvent := []

/-- One turn of the loop in `events`: the next page behind the cursor is sent, and the cursor moves
to the last event that was sent. A failed read is repeated later. -/
def Subscriber.poll (subscriber : Subscriber) (log : EventLog) (limit : Nat) : Subscriber :=
  match log.listEventsAfterLimited subscriber.cursor limit with
  | .error _ => subscriber
  | .ok page =>
    { cursor := (page.getLast?.map fun event => event.eventId.text).or subscriber.cursor
      received := subscriber.received ++ page }

/-- The limits `list_events_after_limited` accepts. -/
def IsPageLimit (limit : Nat) : Prop := 1 ≤ limit ∧ limit ≤ 10000

instance : DecidablePred IsPageLimit := fun _ => inferInstanceAs (Decidable (_ ∧ _))

/-- A step of the subscriber or of a writer. -/
inductive StreamStep
  | commit (events : List NewEvent)
  | poll (limit : Nat)

structure Stream where
  log : EventLog
  subscriber : Subscriber

def StreamStep.apply (stream : Stream) : StreamStep → Stream
  | commit events => { stream with log := (LogCall.commit events).apply stream.log }
  | poll limit => { stream with subscriber := stream.subscriber.poll stream.log limit }

/-- The number of reads with an accepted limit. -/
def countPolls : List StreamStep → Nat
  | [] => 0
  | .commit _ :: steps => countPolls steps
  | .poll limit :: steps => (if IsPageLimit limit then 1 else 0) + countPolls steps

/-- A cursor that names a stored row finds it. -/
theorem EventLog.Ordered.cursorSequence_of_mem {log : EventLog} (h : log.Ordered)
    {event : LoggedEvent} (hmem : event ∈ log.events) :
    log.cursorSequence (some event.eventId.text) = .ok event.sequence := by
  have hcursor : (some event.eventId.text).filter (· ≠ "") = some event.eventId.text := by
    simp [event.eventId.nonempty]
  have hfind : (log.events.find? fun other => other.eventId.text = event.eventId.text) =
      some event := by
    have hlookup : Table.lookup LoggedEvent.eventId log.events event.eventId = some event :=
      Table.lookup_of_mem h.ids hmem
    rw [Table.lookup] at hlookup
    have htext : ∀ a b : EventId, (a.text = b.text) = (a = b) := by
      intro a b
      cases a
      cases b
      simp
    simpa only [htext] using hlookup
  rw [EventLog.cursorSequence, hcursor]
  simp only [hfind]

/-- The state of a subscriber that started behind `start`. -/
structure Subscribed (start : LoggedEvent) (stream : Stream) : Prop where
  ordered : stream.log.Ordered
  reads : Pages.Reads (fun event : LoggedEvent => event.sequence) start
    stream.subscriber.received stream.log.events
  cursor : stream.subscriber.cursor =
    some (Pages.position start stream.subscriber.received).eventId.text

namespace Subscribed

variable {start : LoggedEvent} {stream : Stream}

/-- A read with an accepted limit returns the next page. -/
theorem list_eq (h : Subscribed start stream) {limit : Nat} (hlimit : IsPageLimit limit) :
    stream.log.listEventsAfterLimited stream.subscriber.cursor limit =
      .ok (Pages.page (fun event : LoggedEvent => event.sequence) stream.log.events
        (Pages.position start stream.subscriber.received).sequence limit) := by
  have hvalid : ¬(decide (limit = 0) || decide (10000 < limit)) = true := by
    have h₁ := hlimit.1
    have h₂ := hlimit.2
    simp
    omega
  rw [EventLog.listEventsAfterLimited, if_neg hvalid, h.cursor,
    h.ordered.cursorSequence_of_mem h.reads.mem_position]
  rfl

/-- A read with another limit fails, whatever the cursor. -/
theorem poll_of_not_isPageLimit {limit : Nat} (hlimit : ¬IsPageLimit limit) (log : EventLog)
    (subscriber : Subscriber) : subscriber.poll log limit = subscriber := by
  have hinvalid : (decide (limit = 0) || decide (10000 < limit)) = true := by
    rw [IsPageLimit] at hlimit
    simp
    omega
  rw [Subscriber.poll, EventLog.listEventsAfterLimited, if_pos hinvalid]
  rfl

/-- A read brings the subscriber on by a page. -/
theorem poll (h : Subscribed start stream) {limit : Nat} (hlimit : IsPageLimit limit) :
    Subscribed start { stream with subscriber := stream.subscriber.poll stream.log limit } ∧
      (stream.subscriber.poll stream.log limit).received.length =
        stream.subscriber.received.length +
          min limit
            ((stream.log.eventsAfter start).length - stream.subscriber.received.length) := by
  have hlength := h.reads.length_page limit
  have hreads := h.reads.page limit
  have hlist := h.list_eq hlimit
  generalize hpage : Pages.page (fun event : LoggedEvent => event.sequence) stream.log.events
    (Pages.position start stream.subscriber.received).sequence limit = page at hlist hlength hreads
  have hpoll : stream.subscriber.poll stream.log limit =
      { cursor := (page.getLast?.map fun event => event.eventId.text).or
          stream.subscriber.cursor
        received := stream.subscriber.received ++ page } := by
    rw [Subscriber.poll, hlist]
  rw [hpoll]
  refine ⟨⟨h.ordered, hreads, ?_⟩, ?_⟩
  · change (page.getLast?.map fun event => event.eventId.text).or stream.subscriber.cursor = _
    rw [h.cursor, Pages.position, Pages.position, List.getLast?_append]
    cases page.getLast? with
    | none => rfl
    | some last => rfl
  · rw [List.length_append, hlength]
    rfl

theorem commit (h : Subscribed start stream) (events : List NewEvent) :
    Subscribed start { stream with log := (LogCall.commit events).apply stream.log } ∧
      (stream.log.eventsAfter start) <+:
        ((LogCall.commit events).apply stream.log).eventsAfter start := by
  have hordered := LogCall.ordered_apply h.ordered (.commit events)
  obtain ⟨events', -, -, heq, -⟩ | ⟨-, heq⟩ | ⟨eventBefore, hcall, -⟩ :=
    (LogCall.commit events).apply_cases stream.log
  · have hrows := congrArg EventLog.events heq
    have hincreasing := hordered.increasing
    refine ⟨⟨hordered, ?_, h.cursor⟩, ?_⟩
    · rw [hrows] at hincreasing ⊢
      exact h.reads.append hincreasing
    · rw [EventLog.eventsAfter, EventLog.eventsAfter, hrows, Pages.after_append]
      exact List.prefix_append _ _
  · rw [heq]
    exact ⟨h, List.prefix_rfl⟩
  · cases hcall

/-- Every step keeps the subscription going, and no read is in vain while rows are left. -/
theorem run (h : Subscribed start stream) (steps : List StreamStep) :
    Subscribed start (Runs.run StreamStep.apply stream steps) ∧
      stream.log.eventsAfter start <+:
        (Runs.run StreamStep.apply stream steps).log.eventsAfter start ∧
      min (stream.log.eventsAfter start).length
          (stream.subscriber.received.length + countPolls steps) ≤
        (Runs.run StreamStep.apply stream steps).subscriber.received.length := by
  induction steps generalizing stream with
  | nil => exact ⟨h, List.prefix_rfl, Nat.min_le_right _ _⟩
  | cons step steps ih =>
    rw [Runs.run_cons]
    cases step with
    | commit events =>
      obtain ⟨hnext, hpre⟩ := h.commit events
      obtain ⟨hend, hpre', hcount⟩ := ih hnext
      refine ⟨hend, hpre.trans hpre', le_trans ?_ hcount⟩
      have hlength := hpre.length_le
      rw [countPolls]
      exact min_le_min_right _ hlength
    | poll limit =>
      by_cases hlimit : IsPageLimit limit
      · obtain ⟨hnext, hreceived⟩ := h.poll hlimit
        obtain ⟨hend, hpre, hcount⟩ := ih hnext
        refine ⟨hend, hpre, le_trans ?_ hcount⟩
        have hone := hlimit.1
        rw [countPolls, if_pos hlimit, hreceived]
        change min (stream.log.eventsAfter start).length _ ≤
          min (stream.log.eventsAfter start).length _
        omega
      · have hsame : StreamStep.apply stream (.poll limit) = stream := by
          rw [StreamStep.apply, poll_of_not_isPageLimit hlimit]
        rw [hsame, countPolls, if_neg hlimit, Nat.zero_add]
        exact ih h

end Subscribed

/-- The subscriber that has just seen an event. -/
def Subscriber.resume (event : LoggedEvent) : Subscriber where
  cursor := some event.eventId.text

theorem subscribed_resume {log : EventLog} (h : log.Ordered) {start : LoggedEvent}
    (hstart : start ∈ log.events) : Subscribed start ⟨log, .resume start⟩ :=
  ⟨h, .of_mem h.increasing hstart, rfl⟩

/-- **Event replay.** In every history the sequence numbers of the events increase and none is
used twice, whatever retention deletes; and a subscriber that resumes behind a retained event has
received at every moment an initial part of the retained events behind it, and everything that was
retained at some moment once it has read that many pages more, whatever is appended in between. -/
theorem subscribers_receive_every_event_once (history : List LogCall) :
    Pages.Increasing (fun event : LoggedEvent => event.sequence) (everAdded {} history) ∧
      (logAfter history).events.Sublist (everAdded {} history) ∧
      ∀ start ∈ (logAfter history).events, ∀ steps more : List StreamStep,
        ∀ now later : Stream,
          now = Runs.run StreamStep.apply ⟨logAfter history, .resume start⟩ steps →
          later = Runs.run StreamStep.apply now more →
          now.subscriber.received <+: now.log.eventsAfter start ∧
          ((now.log.eventsAfter start).length ≤ now.subscriber.received.length + countPolls more →
            now.log.eventsAfter start <+: later.subscriber.received) := by
  refine ⟨increasing_everAdded history, (retained_of_everAdded history).1, ?_⟩
  rintro start hstart steps more now later rfl rfl
  have hnow := ((subscribed_resume (ordered_logAfter history) hstart).run steps).1
  obtain ⟨hlater, hpre, hcount⟩ := hnow.run more
  refine ⟨hnow.reads.prefix_after, fun henough => ?_⟩
  refine List.prefix_of_prefix_length_le hpre hlater.reads.prefix_after ?_
  rwa [Nat.min_eq_left henough] at hcount

/-- A report about a workflow, for concrete histories. -/
def sampleEvent (id timestamp : String) (h : id ≠ "" := by decide) : NewEvent where
  eventId := ⟨id, h⟩
  eventType := "workflow.updated"
  resourceId := "w"
  payload := .object []
  timestamp

/-- Retention deletes the first of two events. -/
def agedHistory : List LogCall :=
  [.commit [sampleEvent "e1" "2026-01-01T00:00:00Z"],
    .commit [sampleEvent "e2" "2026-01-02T00:00:00Z"], .applyRetention "2026-01-02T00:00:00Z",
    .commit [sampleEvent "e3" "2026-01-03T00:00:00Z"]]

example : (logAfter agedHistory).events.map (fun event => event.sequence) = [2, 3] := by
  decide

/-- One event arrives between two reads of one event each. -/
theorem agedHistory_is_replayed :
    let start := (sampleEvent "e2" "2026-01-02T00:00:00Z").row 2
    let steps : List StreamStep :=
      [.poll 1, .commit [sampleEvent "e4" "2026-01-04T00:00:00Z"], .poll 1]
    (logAfter agedHistory).eventsAfter start <+:
      (Runs.run StreamStep.apply ⟨logAfter agedHistory, .resume start⟩ steps).subscriber.received :=
  ((subscribers_receive_every_event_once agedHistory).2.2 _ (by decide) [] _ _ _ rfl rfl).2
    (by decide)

/-! ### The log of the store -/

/-- The log is the one the tables hold; the tables leave the event ids out. -/
structure EventLog.Shows (log : EventLog) (tables : Tables) : Prop where
  sequence : log.sequence = tables.eventSequence
  events : log.events.map LoggedEvent.toEventRow = tables.events

/-- Some reports were appended to the log of the tables. -/
def Tables.Reported (tables tables' : Tables) : Prop :=
  ∃ reports : List EventData,
    tables'.eventSequence = tables.eventSequence + reports.length ∧
      tables'.events = tables.events ++ EventData.rowsFrom tables.eventSequence reports

namespace Tables.Reported

variable {tables tables' tables'' : Tables}

theorem of_eq (hsequence : tables'.eventSequence = tables.eventSequence)
    (hevents : tables'.events = tables.events) : Reported tables tables' :=
  ⟨[], by simpa using hsequence, by simpa [EventData.rowsFrom] using hevents⟩

theorem trans (h : Reported tables tables') (h' : Reported tables' tables'') :
    Reported tables tables'' := by
  obtain ⟨reports, hsequence, hevents⟩ := h
  obtain ⟨reports', hsequence', hevents'⟩ := h'
  refine ⟨reports ++ reports', ?_, ?_⟩
  · rw [hsequence', hsequence, List.length_append, Nat.add_assoc]
  · rw [hevents', hevents, hsequence, EventData.rowsFrom_append, List.append_assoc]

/-- An event that follows a change of other tables. -/
theorem of_appendEvent (hsequence : tables'.eventSequence = tables.eventSequence)
    (hevents : tables'.events = tables.events) (eventType resourceId : String)
    (executionId : Option String) (payload : Value) (timestamp : String) :
    Reported tables (tables'.appendEvent eventType resourceId executionId payload timestamp) := by
  refine ⟨[{ eventType, resourceId, executionId, payload, timestamp }], ?_, ?_⟩
  · rw [appendEvent_eventSequence, hsequence]
    rfl
  · change tables'.events ++ _ = _
    rw [hevents, hsequence]
    rfl

theorem recoverAll (now : String) (todo : List ExecutionRow) (tables : Tables) :
    Reported tables (todo.foldl (recoverExecution now) tables) := by
  induction todo generalizing tables with
  | nil => exact .of_eq rfl rfl
  | cons row todo ih => exact (of_appendEvent rfl rfl _ _ _ _ _).trans (ih _)

end Tables.Reported

/-- A store call reports, or it is the retention. -/
theorem StoreCall.reported (tables : Tables) (call : StoreCall) :
    tables.Reported (call.apply tables) ∨ ∃ executionBefore eventBefore,
      call = .applyRetention executionBefore eventBefore := by
  cases call with
  | create admission =>
    obtain heq | ⟨record, tables', hadmit, -, heq⟩ := tables.createExecution_cases admission
    · rw [heq]
      exact .inl (.of_eq rfl rfl)
    · rw [heq]
      obtain ⟨-, -, -, -, -, -, -, -, -, -, -, eventType, payload, hsequence, hevents⟩ :=
        Tables.admitExecution_eq_ok hadmit
      have hreported : tables.Reported (tables.appendEvent eventType admission.workflowName
          (some admission.executionId) payload admission.createdAt) :=
        .of_appendEvent rfl rfl _ _ _ _ _
      obtain ⟨reports, hsequence', hevents'⟩ := hreported
      exact .inl ⟨reports, hsequence.trans hsequence', hevents.trans hevents'⟩
  | claim id maxRuns now =>
    simp only [apply, Tables.claimExecutionSlot]
    split
    · exact .inl (.of_eq rfl rfl)
    · split
      · exact .inl (.of_eq rfl rfl)
      · split
        · exact .inl (.of_appendEvent rfl rfl _ _ _ _ _)
        · exact .inl (.of_eq rfl rfl)
  | requestCancel id => exact .inl (.of_eq rfl rfl)
  | requestCancelOutcome id now =>
    simp only [apply, Tables.requestExecutionCancelOutcome]
    split
    · exact .inl (.of_eq rfl rfl)
    · split
      · exact .inl (.of_appendEvent rfl rfl _ _ _ _ _)
      · exact .inl (.of_appendEvent rfl rfl _ _ _ _ _)
      · exact .inl (.of_eq rfl rfl)
      · exact .inl (.of_eq rfl rfl)
  | cancelQueued id now => exact .inl (.of_eq rfl rfl)
  | finish id status error now =>
    simp only [apply, Tables.finishExecution]
    split
    · exact .inl (.of_eq rfl rfl)
    · split
      · exact .inl (.of_eq rfl rfl)
      · exact .inl (.of_appendEvent rfl rfl _ _ _ _ _)
  | recover now => exact .inl (Tables.Reported.recoverAll now _ tables)
  | checkpoint execution write =>
    simp only [apply]
    split <;> exact .inl (.of_eq rfl rfl)
  | catalog workflows plugins removalWorkflows => exact .inl (.of_eq rfl rfl)
  | setPinned id pinned => exact .inl (.of_eq rfl rfl)
  | applyRetention executionBefore eventBefore => exact .inr ⟨executionBefore, eventBefore, rfl⟩

/-- Reports with event ids drawn one after the other. -/
def EventData.withIds (ids : Nat → EventId) : Nat → List EventData → List NewEvent
  | _, [] => []
  | n, data :: reports => { data with eventId := ids n } :: withIds ids (n + 1) reports

theorem EventData.map_withIds (ids : Nat → EventId) (n : Nat) (reports : List EventData) :
    (withIds ids n reports).map NewEvent.toEventData = reports := by
  induction reports generalizing n with
  | nil => rfl
  | cons data reports ih => rw [withIds, List.map_cons, ih]

/-- Reports with fresh ids are appended. -/
theorem EventLog.Ordered.appendEvents_withIds {log : EventLog} (h : log.Ordered)
    {ids : Nat → EventId} (hinj : Function.Injective ids) (reports : List EventData) (n : Nat)
    (hfresh : ∀ m, n ≤ m → ids m ∉ log.events.map LoggedEvent.eventId) :
    ∃ log', EventLog.appendEvents (EventData.withIds ids n reports) log = .ok log' := by
  induction reports generalizing log n with
  | nil => exact ⟨log, rfl⟩
  | cons data reports ih =>
    let event : NewEvent := { data with eventId := ids n }
    have hok : log.appendEvent event = .ok (log.add event) :=
      h.appendEvent_of_fresh (hfresh n le_rfl)
    obtain ⟨log', hrest⟩ := ih (h.appendEvent hok) (n + 1) fun m hm hmem => by
      rw [add, List.map_append, List.mem_append] at hmem
      obtain hmem | hmem := hmem
      · exact hfresh m (by omega) hmem
      · have heq : m = n := hinj (List.mem_singleton.mp hmem)
        omega
    refine ⟨log', ?_⟩
    rw [EventData.withIds, EventLog.appendEvents, hok]
    exact hrest

/-- **The log of the store is such a log.** Every store call does to the events of the tables what a
log operation does, with any supply of fresh event ids. -/
theorem StoreCall.log_simulates {log : EventLog} {tables : Tables} (hordered : log.Ordered)
    (hshows : log.Shows tables) (call : StoreCall) {ids : Nat → EventId}
    (hinj : Function.Injective ids) (hfresh : ∀ n, ids n ∉ log.events.map LoggedEvent.eventId) :
    ∃ logCall : LogCall, (logCall.apply log).Shows (call.apply tables) := by
  obtain ⟨reports, hsequence, hevents⟩ | ⟨executionBefore, eventBefore, rfl⟩ := call.reported tables
  · let news := EventData.withIds ids 0 reports
    have hnews : news.map NewEvent.toEventData = reports := EventData.map_withIds ids 0 reports
    have hlength : news.length = reports.length := by rw [← hnews, List.length_map]
    obtain ⟨log', hok⟩ := hordered.appendEvents_withIds hinj reports 0 fun m _ => hfresh m
    refine ⟨.commit news, ?_⟩
    have happly : LogCall.apply log (.commit news) = log' := by
      rw [LogCall.apply, hok]
      rfl
    rw [happly, EventLog.appendEvents_eq_ok hok]
    constructor
    · rw [hsequence, ← hshows.sequence, ← hlength]
    · rw [hevents, List.map_append, hshows.events, NewEvent.map_rowsFrom, hnews, hshows.sequence]
  · refine ⟨.applyRetention eventBefore, hshows.sequence, ?_⟩
    change (log.events.filter _).map _ = tables.events.filter _
    rw [← hshows.events, List.filter_map]
    rfl

end KakuneCore
