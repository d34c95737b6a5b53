import KakuneCore.Api.Cursor
import KakuneCore.Relational.Keyset
import KakuneCore.Store.EventLog
import KakuneCore.Store.Executions

/-!
# Management pages

Two lists of the management API: executions, and the events of an execution. A page ends in a cursor
where there is more, and the cursor is bound to the filters and the order of its list; that of
events carries a high-water mark besides, so that a reader stays within the history as it was when
its first page was read.

Texts are compared as SQLite and Rust compare them, by their bytes. A read that fails for reasons of
the database is left out. Messages are given as they are before `sanitize_message`.
-/

namespace KakuneCore

inductive ManagementErrorCode
  | invalidRequest | unauthenticated | forbidden | notFound | conflict | preconditionFailed
  | payloadTooLarge | invalidOperation | unsupported | upstreamFailure | deadlineExceeded | internal
  deriving DecidableEq, Repr

structure ManagementError where
  code : ManagementErrorCode
  message : String
  deriving DecidableEq, Repr

def invalidRequest (message : String) : ManagementError := ⟨.invalidRequest, message⟩

structure ManagementPage (α : Type) where
  items : List α
  nextCursor : Option String
  deriving DecidableEq

def defaultPageSize : Nat := 100

def defaultEventPageSize : Nat := 200

def maxPageSize : Nat := 1000

/-! ### Limits and cursors -/

/-- The limit of a list whose error names it. -/
def pageLimit (list : String) (default : Nat) (limit : Option Nat) : Except ManagementError Nat :=
  if 1 ≤ limit.getD default ∧ limit.getD default ≤ maxPageSize then .ok (limit.getD default)
  else .error (invalidRequest (list ++ " limit must be from 1 to " ++ toString maxPageSize))

/-- `map_err` with a message of a list. -/
def orInvalid {ε α : Type} (message : String) (result : Except ε α) : Except ManagementError α :=
  result.mapError fun _ => invalidRequest message

theorem ordered_noFilters : StrMap.Ordered ([] : StrMap String) := List.Pairwise.nil

def noFilters : Filters := ⟨[], ordered_noFilters⟩

def Filters.add (filters : Filters) (key value : String) : Filters :=
  ⟨filters.val.insert key value, filters.property.insert key value⟩

section Lists

variable (json : Json.Library)

/-- The position that a cursor of a list names. -/
def cursorPosition (list mismatch : String) (filters : Filters) (order : CursorOrder)
    (cursor : String) : Except ManagementError (List String) := do
  let cursor ← orInvalid (list ++ " cursor is invalid") (ManagementCursor.decode json cursor)
  orInvalid mismatch (cursor.validateBinding filters order none)
  pure cursor.position

/-- The cursor behind a page. -/
def nextCursor (cursor : ManagementCursor) : Option String := (cursor.encode json).toOption

/-- A page, with the cursor of its last item where there is more. -/
def pageOf {α : Type} (cursorOf : α → ManagementCursor) (items : List α) (hasMore : Bool) :
    ManagementPage α where
  items
  nextCursor := if hasMore then items.getLast?.bind fun item => nextCursor json (cursorOf item)
    else none

/-! ### Executions -/

structure ExecutionSummary where
  id : String
  workflowId : String
  workflowName : String
  status : String
  createdAt : String
  completedAt : Option String
  deriving DecidableEq, Repr

/-- `execution_summary`. -/
def ExecutionRow.summary (row : ExecutionRow) : ExecutionSummary where
  id := row.id
  workflowId := row.workflowName
  workflowName := row.workflowName
  status := row.status.text
  createdAt := row.createdAt
  completedAt := row.completedAt

/-- The filters of an execution list. -/
def ExecutionRow.meets (workflowId status : Option String) (row : ExecutionRow) : Bool :=
  workflowId.all (row.workflowName = ·) && status.all (row.status.text = ·)

/-- `created_at < ?3 OR (created_at = ?3 AND id > ?4)`, or no position. -/
def ExecutionRow.isAfter (before : Option (String × String)) (row : ExecutionRow) : Bool :=
  before.all fun (createdAt, id) =>
    row.createdAt < createdAt || (row.createdAt = createdAt && id < row.id)

/-- `ORDER BY created_at DESC, id ASC`. -/
def ExecutionRow.Precedes (a b : ExecutionRow) : Prop :=
  b.createdAt < a.createdAt ∨ a.createdAt = b.createdAt ∧ a.id ≤ b.id

instance : DecidableRel ExecutionRow.Precedes := fun a b =>
  inferInstanceAs (Decidable (b.createdAt < a.createdAt ∨ a.createdAt = b.createdAt ∧ a.id ≤ b.id))

/-- `list_execution_page` of the store, for a limit that was checked. -/
def Tables.listExecutionPage (tables : Tables) (workflowId status : Option String)
    (before : Option (String × String)) (limit : Nat) : List ExecutionRow × Bool :=
  let records := (((tables.executions.filter fun row =>
    row.meets workflowId status && row.isAfter before).insertionSort ExecutionRow.Precedes).take
      (limit + 1))
  (records.take limit, limit < records.length)

/-- `execution_filters`. -/
def executionFilters (workflowId status : Option String) : Filters :=
  let filters := workflowId.elim noFilters (noFilters.add "workflowId")
  status.elim filters (filters.add "status")

def executionStatuses : List String :=
  ["queued", "running", "cancelling", "succeeded", "failed", "cancelled", "timed_out",
    "interrupted"]

def executionCursor (filters : Filters) (record : ExecutionSummary) : ManagementCursor where
  filters
  order := .executionCreatedDescending
  highWater := none
  position := [record.createdAt, record.id]

/-- The creation time and the id in a position. -/
def executionPosition : List String → Except ManagementError (String × String)
  | [createdAt, id] => .ok (createdAt, id)
  | _ => .error (invalidRequest "execution cursor position is invalid")

/-- `list_execution_page`. -/
def listExecutionPage (tables : Tables) (workflowId status : Option String) (limit : Option Nat)
    (cursor : Option String) : Except ManagementError (ManagementPage ExecutionSummary) := do
  let limit ← pageLimit "execution page" defaultPageSize limit
  if status.any (· ∉ executionStatuses) then
    throw (invalidRequest "execution status filter is invalid")
  else
    let filters := executionFilters workflowId status
    let before ← cursor.mapM fun cursor => do
      let position ← cursorPosition json "execution" "execution cursor does not match these filters"
        filters .executionCreatedDescending cursor
      executionPosition position
    let (records, hasMore) := tables.listExecutionPage workflowId status before limit
    pure (pageOf json (executionCursor filters) (records.map ExecutionRow.summary) hasMore)

/-! ### Events of an execution -/

/-- The events of an execution that are retained. -/
def EventLog.ofExecution (log : EventLog) (executionId : String) : List LoggedEvent :=
  log.events.filter fun event => event.executionId = some executionId

/-- The high-water mark of `execution_event_bounds`. -/
def EventLog.highWater (log : EventLog) (executionId : String) : UInt64 :=
  .ofNat (((log.ofExecution executionId).map fun event => event.sequence).foldl max 0)

/-- `execution_event_page` of the store, before the payloads are read. -/
def EventLog.executionEvents (log : EventLog) (executionId : String) (after highWater : Nat)
    (limit : Nat) : List LoggedEvent :=
  (((log.ofExecution executionId).filter fun event =>
    after < event.sequence && event.sequence ≤ highWater).insertionSort
      fun a b => a.sequence ≤ b.sequence).take limit

/-- The characters of a stored payload. -/
def payloadLength (payload : Value) : Nat := ((Utf8.decode? (json.toVec payload)).getD []).length

/-- `safe_event_from_row`: long payloads are left out. -/
def safePayload (payload : Value) : Value :=
  if payloadLength json payload ≤ 2048 then Tables.sanitizeEventPayload payload
  else .object [("availability", .string "truncated"),
    ("guidance", .string "The stored event payload exceeded its safe page limit and was omitted.")]

def LoggedEvent.shown (event : LoggedEvent) : LoggedEvent :=
  { event with payload := safePayload json event.payload }

/-- The payload was left out. -/
def LoggedEvent.isTruncated (event : LoggedEvent) : Bool :=
  (event.payload.get? "availability").bind Value.asStr = some "truncated"

structure ExecutionEventPage extends ManagementPage LoggedEvent where
  executionId : String
  highWater : UInt64
  truncated : Bool
  deriving DecidableEq

def eventFilters (executionId : String) : Filters :=
  (noFilters.add "executionId" executionId).add "section" "events"

def eventCursor (executionId : String) (highWater : UInt64) (event : LoggedEvent) :
    ManagementCursor where
  filters := eventFilters executionId
  order := .eventSequenceAscending
  highWater := some highWater
  position := [toString event.sequence]

/-- The snapshot of a request, and the number behind which it starts. -/
def eventPosition (executionId : String) (current : UInt64) (cursor : Option String)
    (requestedHighWater : Option UInt64) : Except ManagementError (UInt64 × Nat) :=
  match cursor with
  | some text => do
    let cursor ← orInvalid "execution event cursor is invalid" (ManagementCursor.decode json text)
    orInvalid "execution event cursor does not match this snapshot"
      (cursor.validateBinding (eventFilters executionId) .eventSequenceAscending cursor.highWater)
    match cursor.highWater, cursor.position with
    | none, _ => throw (invalidRequest "execution event cursor has no high-water mark")
    | some highWater, [position] =>
      if requestedHighWater.any (· ≠ highWater) ∨ current < highWater then
        throw (invalidRequest
          "execution event cursor does not match the requested high-water snapshot")
      else
        match parseUnsigned (2 ^ 64) position.toList with
        | some after => pure (highWater, after)
        | none => throw (invalidRequest "execution event cursor is invalid")
    | some _, _ => throw (invalidRequest
        "execution event cursor does not match the requested high-water snapshot")
  | none =>
    if current < requestedHighWater.getD current then
      throw (invalidRequest "execution event high-water exceeds the current history")
    else pure (requestedHighWater.getD current, 0)

/-- `execution_event_page`. -/
def executionEventPage (tables : Tables) (log : EventLog) (executionId : String)
    (limit : Option Nat) (cursor : Option String) (requestedHighWater : Option UInt64) :
    Except ManagementError ExecutionEventPage := do
  let limit ← pageLimit "execution event" defaultEventPageSize limit
  if (tables.execution executionId).isNone then
    throw ⟨.notFound, "execution " ++ executionId ++ " was not found"⟩
  else
    let (highWater, after) ← eventPosition json executionId (log.highWater executionId) cursor
      requestedHighWater
    -- a number that is no `i64`
    if 2 ^ 63 ≤ after then throw ⟨.internal, "cannot read execution history"⟩
    else
      let events := (log.executionEvents executionId after highWater.toNat (limit + 1)).map
        (LoggedEvent.shown json)
      let items := events.take limit
      pure {
        pageOf json (eventCursor executionId highWater) items (limit < events.length) with
        executionId
        highWater
        truncated := items.any LoggedEvent.isTruncated }

end Lists

end KakuneCore
