import KakuneCore.Runtime.Operations

/-!
# Node checkpoints

The rows of `node_checkpoints` that belong to one execution, keyed by the scoped node id, with the
calls the runtime makes on them. A result is stored as its JSON value; the text it is encoded in is
not modelled.
-/

namespace KakuneCore

/-- A row of `node_checkpoints`. -/
structure CheckpointRow where
  status : CheckpointStatus
  result : Option Value := none
  deadlineMs : Option Int := none
  deriving DecidableEq, Repr

/-- The checkpoints of one execution. -/
abbrev CheckpointTable : Type := StrMap CheckpointRow

namespace CheckpointTable

/-- `checkpoint_result`: the saved result, of a completed row only. -/
def checkpointResult (table : CheckpointTable) (node : String) : Option Value :=
  match StrMap.get? table node with
  | some row => if row.status = .completed then row.result else none
  | none => none

/-- `begin_checkpoint`: insert the row, or set the status of the row that is there. -/
def beginCheckpoint (table : CheckpointTable) (node : String) (status : CheckpointStatus) :
    CheckpointTable :=
  match StrMap.get? table node with
  | some row => StrMap.insert table node { row with status }
  | none => StrMap.insert table node { status }

/-- `complete_checkpoint`: a result that is withheld leaves the row unrecoverable. -/
def completeCheckpoint (table : CheckpointTable) (node : String) (result : Option Value) :
    CheckpointTable :=
  match StrMap.get? table node with
  | some row =>
    let status : CheckpointStatus := if result.isSome then .completed else .unrecoverable
    StrMap.insert table node { row with status, result }
  | none => table

/-- The largest `i64`. -/
def maxI64 : Int := 2 ^ 63 - 1

/-- `durable_delay_remaining` at a time in milliseconds: the first deadline is kept. -/
def durableDelayRemaining (table : CheckpointTable) (node : String) (duration : Nat) (now : Int) :
    Except String (Nat × CheckpointTable) :=
  if maxI64 < now + duration then .error "delay deadline overflow"
  else
    match StrMap.get? table node with
    | some row =>
      let deadline := row.deadlineMs.getD (now + duration)
      .ok ((deadline - now).toNat,
        StrMap.insert table node { row with status := .waiting, deadlineMs := some deadline })
    | none => .error "Query returned no rows"

/-- Some row stands for an effect with an uncertain outcome. -/
def isUncertain (table : CheckpointTable) : Bool :=
  StrMap.values table |>.any fun row => row.status = .running || row.status = .unrecoverable

end CheckpointTable

end KakuneCore
