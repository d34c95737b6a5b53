import KakuneCore.Store.Artifacts
import KakuneCore.Store.Tables

/-!
# Node outcomes and the artifacts they name

`record_node_outcome`: the run of a node, the links to the artifacts its result refers to, and an
event, in one transaction. References are recognised by their shape in whatever JSON the node
produced, and the links are inserted with `INSERT OR IGNORE`, which **does not ignore a foreign
key**.

The main result, `node_outcomes_are_recorded_iff`: over every run, outcomes of executions that exist
are recorded with exactly the links they should have when, and only when, everything shaped like a
reference names an artifact.
-/

namespace KakuneCore

/-! ### References in a value -/

mutual

/-- `visit`: the ids of the objects shaped like a reference. -/
def visitReferences : Value → List String
  | .array items => visitItems items
  | .object fields =>
    let own :=
      if StrMap.contains fields "sha256" && StrMap.contains fields "sizeBytes" then
        ((StrMap.get? fields "id").bind Value.asStr).toList
      else []
    own ++ visitFields fields
  | .null | .bool _ | .number _ | .string _ => []

def visitItems : List Value → List String
  | [] => []
  | value :: items => visitReferences value ++ visitItems items

def visitFields : List (String × Value) → List String
  | [] => []
  | field :: fields => visitReferences field.2 ++ visitFields fields

end

/-- `artifact_ids_in_value`: sorted, each once. -/
def artifactIdsInValue (value : Value) : List String :=
  ((visitReferences value).insertionSort (· ≤ ·)).dedup

/-! ### The tables -/

/-- A row of `node_runs`. -/
structure NodeRunRow where
  executionId : String
  nodeId : String
  status : String
  message : Option String := none
  result : Option Value := none
  error : Option String := none
  deriving DecidableEq, Repr

/-- A row of `execution_artifacts`. -/
structure ArtifactLink where
  executionId : String
  nodeId : String
  artifactId : String
  deriving DecidableEq, Repr

structure OutcomeTables extends Tables where
  nodeRuns : List NodeRunRow := []
  artifacts : List ArtifactRow := []
  executionArtifacts : List ArtifactLink := []

namespace NodeRunRow

/-- The ids its result refers to. -/
def artifactIds (row : NodeRunRow) : List String :=
  (row.result.map artifactIdsInValue).getD []

/-- The row a retry finds: the message does not count. -/
def isRecordedAs (row other : NodeRunRow) : Bool :=
  other.executionId = row.executionId && other.nodeId = row.nodeId && other.status = row.status &&
    other.result = row.result && other.error = row.error

/-- The payload of the event. -/
def payload (row : NodeRunRow) : Value :=
  let text : Option String → Value := fun value => (value.map Value.string).getD .null
  .object [("error", text row.error), ("message", text row.message),
    ("nodeId", .string row.nodeId), ("result", row.result.getD .null),
    ("status", .string row.status)]

end NodeRunRow

namespace OutcomeTables

def hasArtifact (tables : OutcomeTables) (id : String) : Bool :=
  tables.artifacts.any fun row => row.id = id

def hasExecution (tables : OutcomeTables) (id : String) : Bool :=
  tables.executions.any fun row => row.id = id

def foreignKeyError : String := "Kakune database error: FOREIGN KEY constraint failed"

/-- The loop over `artifact_ids`: `INSERT OR IGNORE INTO execution_artifacts …`. -/
def linkArtifacts (executionId nodeId : String) :
    List String → List ArtifactRow → List ArtifactLink → Except String (List ArtifactLink)
  | [], _, links => .ok links
  | id :: ids, artifacts, links =>
    if ⟨executionId, nodeId, id⟩ ∈ links then linkArtifacts executionId nodeId ids artifacts links
    else if artifacts.any fun row => row.id = id then
      linkArtifacts executionId nodeId ids artifacts (links ++ [⟨executionId, nodeId, id⟩])
    else .error foreignKeyError

/-- The rows a new outcome leaves: the run, its links, and an event. -/
def commitOutcome (tables : OutcomeTables) (row : NodeRunRow) (timestamp : String)
    (links : List ArtifactLink) : OutcomeTables where
  toTables := tables.toTables.appendEvent "execution.node.outcome" row.nodeId
    (some row.executionId) row.payload timestamp
  nodeRuns := tables.nodeRuns ++ [row]
  artifacts := tables.artifacts
  executionArtifacts := links

/-- `record_node_outcome`. -/
def recordNodeOutcome (tables : OutcomeTables) (row : NodeRunRow) (timestamp : String) :
    Except String OutcomeTables :=
  if tables.nodeRuns.any row.isRecordedAs then .ok tables
  else if !tables.hasExecution row.executionId then .error foreignKeyError
  else
    (linkArtifacts row.executionId row.nodeId row.artifactIds tables.artifacts
      tables.executionArtifacts).map (tables.commitOutcome row timestamp)

end OutcomeTables

/-- A call that writes to these tables. -/
inductive OutcomeCall
  | recordNodeOutcome (row : NodeRunRow) (timestamp : String)
  | putArtifact (row : ArtifactRow)
  /-- `DELETE FROM artifacts WHERE id = ?1`. -/
  | deleteArtifact (id : String)
  /-- `DELETE FROM executions …`, with what is left of the other tables. -/
  | deleteExecutions (ids : List String) (tables : Tables)
  /-- A call that writes to the other tables only. -/
  | other (tables : Tables)

namespace OutcomeCall

def answer (tables : OutcomeTables) : OutcomeCall → Except String OutcomeTables
  | recordNodeOutcome row timestamp => tables.recordNodeOutcome row timestamp
  | putArtifact row => .ok { tables with artifacts := insertArtifact tables.artifacts row }
  | deleteArtifact id =>
    if tables.executionArtifacts.any fun link => link.artifactId = id then
      .error OutcomeTables.foreignKeyError
    else .ok { tables with artifacts := tables.artifacts.filter fun row => row.id ≠ id }
  | deleteExecutions ids rest =>
    .ok {
      toTables := rest
      nodeRuns := tables.nodeRuns.filter fun row => row.executionId ∉ ids
      artifacts := tables.artifacts
      executionArtifacts := tables.executionArtifacts.filter fun link => link.executionId ∉ ids }
  | other rest => .ok { tables with toTables := rest }

end OutcomeCall

namespace OutcomeTables

/-- The tables after a call: one transaction, rolled back when it fails. -/
def step (tables : OutcomeTables) (call : OutcomeCall) : OutcomeTables :=
  match call.answer tables with
  | .ok tables => tables
  | .error _ => tables

/-! ### The links -/

section Links

variable {executionId nodeId : String} {ids : List String} {artifacts : List ArtifactRow}
  {links links' : List ArtifactLink}

/-- Every id was linked already or names an artifact. -/
theorem found_of_linkArtifacts
    (h : linkArtifacts executionId nodeId ids artifacts links = .ok links') :
    ∀ id ∈ ids, ⟨executionId, nodeId, id⟩ ∈ links ∨ ∃ row ∈ artifacts, row.id = id := by
  induction ids generalizing links with
  | nil => simp
  | cons id ids ih =>
    rw [linkArtifacts] at h
    intro id' hid'
    split at h
    · next hlinked =>
      obtain rfl | hid' := List.mem_cons.mp hid'
      · exact .inl hlinked
      · exact ih h id' hid'
    · split at h
      · next hlinked hany =>
        obtain ⟨row, hrow, hid⟩ := List.any_eq_true.mp hany
        rw [decide_eq_true_eq] at hid
        obtain rfl | hid' := List.mem_cons.mp hid'
        · exact .inr ⟨row, hrow, hid⟩
        · obtain hlink | hfound := ih h id' hid'
          · obtain hlink | hlink := List.mem_append.mp hlink
            · exact .inl hlink
            · -- the link that has just been inserted
              obtain ⟨-, -, rfl⟩ := ArtifactLink.mk.inj (List.mem_singleton.mp hlink)
              exact .inr ⟨row, hrow, hid⟩
          · exact .inr hfound
      · cases h

/-- **The links afterwards**: those that were there and one for each id. -/
theorem mem_of_linkArtifacts (h : linkArtifacts executionId nodeId ids artifacts links = .ok links')
    (link : ArtifactLink) :
    link ∈ links' ↔ link ∈ links ∨ ∃ id ∈ ids, link = ⟨executionId, nodeId, id⟩ := by
  induction ids generalizing links with
  | nil =>
    obtain rfl := Except.ok.inj h
    simp
  | cons id ids ih =>
    rw [linkArtifacts] at h
    simp only [List.mem_cons, exists_eq_or_imp]
    split at h
    · next hlinked =>
      rw [ih h, or_left_comm]
      refine (or_iff_right_of_imp ?_).symm
      rintro rfl
      exact .inl hlinked
    · split at h
      · rw [ih h, List.mem_append, List.mem_singleton, or_assoc]
      · cases h

/-- When every id names an artifact, the links are inserted. -/
theorem exists_linkArtifacts (h : ∀ id ∈ ids, ∃ row ∈ artifacts, row.id = id) :
    ∃ links', linkArtifacts executionId nodeId ids artifacts links = .ok links' := by
  induction ids generalizing links with
  | nil => exact ⟨links, rfl⟩
  | cons id ids ih =>
    rw [linkArtifacts]
    have hrest : ∀ id' ∈ ids, ∃ row ∈ artifacts, row.id = id' :=
      fun id' hid' => h id' (List.mem_cons_of_mem _ hid')
    split
    · exact ih hrest
    · obtain ⟨row, hrow, hid⟩ := h id List.mem_cons_self
      rw [if_pos (List.any_eq_true.mpr ⟨row, hrow, decide_eq_true hid⟩)]
      exact ih hrest

end Links

/-! ### Sound tables -/

/-- The foreign key of the links, and the links of every run that was recorded. -/
structure Sound (tables : OutcomeTables) : Prop where
  links : ∀ link ∈ tables.executionArtifacts, ∃ row ∈ tables.artifacts, row.id = link.artifactId
  runs : ∀ run ∈ tables.nodeRuns, ∀ id ∈ run.artifactIds,
    ⟨run.executionId, run.nodeId, id⟩ ∈ tables.executionArtifacts

section Calls

variable {tables tables' : OutcomeTables} {row : NodeRunRow} {timestamp : String}

theorem sound_empty : Sound {} where
  links _ h := nomatch h
  runs _ h := nomatch h

theorem isRecordedAs_iff {row other : NodeRunRow} :
    row.isRecordedAs other = true ↔
      other.executionId = row.executionId ∧ other.nodeId = row.nodeId ∧ other.status = row.status ∧
        other.result = row.result ∧ other.error = row.error := by
  simp [NodeRunRow.isRecordedAs, and_assoc]

/-- A run that is recorded has its links. -/
theorem Sound.links_of_isRecordedAs (h : Sound tables)
    (hrecorded : tables.nodeRuns.any row.isRecordedAs = true) :
    ∀ id ∈ row.artifactIds, ⟨row.executionId, row.nodeId, id⟩ ∈ tables.executionArtifacts := by
  intro id hid
  obtain ⟨other, hother, heq⟩ := List.any_eq_true.mp hrecorded
  obtain ⟨hexecution, hnode, -, hresult, -⟩ := isRecordedAs_iff.mp heq
  have hids : other.artifactIds = row.artifactIds := by
    rw [NodeRunRow.artifactIds, NodeRunRow.artifactIds, hresult]
  have hlink := h.runs other hother id (hids ▸ hid)
  rwa [hexecution, hnode] at hlink

/-- **What a successful call found and left.** -/
theorem recordNodeOutcome_eq_ok (h : tables.recordNodeOutcome row timestamp = .ok tables') :
    (tables.nodeRuns.any row.isRecordedAs = true ∧ tables' = tables) ∨
      ∃ links, linkArtifacts row.executionId row.nodeId row.artifactIds tables.artifacts
          tables.executionArtifacts = .ok links ∧
        tables' = tables.commitOutcome row timestamp links := by
  rw [recordNodeOutcome] at h
  split at h
  · next hrecorded => exact .inl ⟨hrecorded, (Except.ok.inj h).symm⟩
  · split at h
    · cases h
    · cases hlinks : linkArtifacts row.executionId row.nodeId row.artifactIds tables.artifacts
          tables.executionArtifacts with
      | error text => rw [hlinks] at h; cases h
      | ok links =>
        rw [hlinks] at h
        exact .inr ⟨links, rfl, (Except.ok.inj h).symm⟩

/-- **Every call keeps the tables sound.** -/
theorem Sound.step (h : Sound tables) (call : OutcomeCall) : Sound (tables.step call) := by
  rw [OutcomeTables.step]
  split
  · next tables' hanswer =>
    cases call with
    | recordNodeOutcome row timestamp =>
      obtain ⟨-, rfl⟩ | ⟨links, hlinks, rfl⟩ := recordNodeOutcome_eq_ok hanswer
      · exact h
      · have hmem := mem_of_linkArtifacts hlinks
        constructor
        · intro link hlink
          obtain hlink | ⟨id, hid, rfl⟩ := (hmem link).mp hlink
          · exact h.links link hlink
          · obtain hlink | hrow := found_of_linkArtifacts hlinks id hid
            · exact h.links _ hlink
            · exact hrow
        · intro run hrun id hid
          refine (hmem _).mpr ?_
          obtain hrun | hrun := List.mem_append.mp hrun
          · exact .inl (h.runs run hrun id hid)
          · obtain rfl := List.mem_singleton.mp hrun
            exact .inr ⟨id, hid, rfl⟩
    | putArtifact row =>
      obtain rfl := Except.ok.inj hanswer
      refine ⟨fun link hlink => ?_, h.runs⟩
      obtain ⟨artifact, hartifact, hid⟩ := h.links link hlink
      refine ⟨artifact, ?_, hid⟩
      show artifact ∈ insertArtifact tables.artifacts row
      rw [insertArtifact]
      split
      · exact hartifact
      · exact List.mem_append_left _ hartifact
    | deleteArtifact id =>
      rw [OutcomeCall.answer] at hanswer
      split at hanswer
      · cases hanswer
      · next hlinked =>
        obtain rfl := Except.ok.inj hanswer
        refine ⟨fun link hlink => ?_, h.runs⟩
        obtain ⟨artifact, hartifact, hid⟩ := h.links link hlink
        refine ⟨artifact, List.mem_filter.mpr ⟨hartifact, decide_eq_true fun heq => ?_⟩, hid⟩
        exact hlinked (List.any_eq_true.mpr ⟨link, hlink, decide_eq_true (hid.symm.trans heq)⟩)
    | deleteExecutions ids rest =>
      obtain rfl := Except.ok.inj hanswer
      constructor
      · intro link hlink
        exact h.links link (List.mem_filter.mp hlink).1
      · intro run hrun id hid
        obtain ⟨hrun, hkept⟩ := List.mem_filter.mp hrun
        exact List.mem_filter.mpr ⟨h.runs run hrun id hid, hkept⟩
    | other rest =>
      obtain rfl := Except.ok.inj hanswer
      exact ⟨h.links, h.runs⟩
  · exact h

end Calls

/-! ### Recording -/

/-- The tables after an outcome as its result asks: the run is there with exactly the links to the
artifacts among the ids it names, and run, links and event came together. -/
structure IsRecorded (tables : OutcomeTables) (row : NodeRunRow) (timestamp : String)
    (tables' : OutcomeTables) : Prop where
  run : tables'.nodeRuns.any row.isRecordedAs = true
  links : ∀ link, link ∈ tables'.executionArtifacts ↔ link ∈ tables.executionArtifacts ∨
    (link.executionId = row.executionId ∧ link.nodeId = row.nodeId ∧
      link.artifactId ∈ row.artifactIds ∧ tables.hasArtifact link.artifactId = true)
  together : tables' = tables ∨ ∃ links, tables' = tables.commitOutcome row timestamp links

/-- The outcome of an execution that exists is recorded. -/
def OutcomeRecorded (tables : OutcomeTables) : OutcomeCall → Prop
  | .recordNodeOutcome row timestamp => tables.hasExecution row.executionId = true →
    ∃ tables', tables.recordNodeOutcome row timestamp = .ok tables' ∧
      IsRecorded tables row timestamp tables'
  | _ => True

/-- Everything in the result that is shaped like a reference names an artifact. -/
def ReferencesResolve (tables : OutcomeTables) : OutcomeCall → Prop
  | .recordNodeOutcome row _ => tables.hasExecution row.executionId = true →
    ∀ id ∈ row.artifactIds, tables.hasArtifact id = true
  | _ => True

instance (tables : OutcomeTables) : DecidablePred (ReferencesResolve tables)
  | .recordNodeOutcome _ _ => inferInstanceAs (Decidable (_ → _))
  | .putArtifact _ | .deleteArtifact _ | .deleteExecutions _ _ | .other _ => .isTrue trivial

theorem hasArtifact_iff {tables : OutcomeTables} {id : String} :
    tables.hasArtifact id = true ↔ ∃ row ∈ tables.artifacts, row.id = id := by
  simp [hasArtifact]

/-- **One outcome**: it is recorded exactly when its references resolve. -/
theorem Sound.outcomeRecorded_iff {tables : OutcomeTables} (h : Sound tables)
    (call : OutcomeCall) : OutcomeRecorded tables call ↔ ReferencesResolve tables call := by
  cases call with
  | recordNodeOutcome row timestamp =>
    refine forall_congr' fun hexecution => ?_
    constructor
    · rintro ⟨tables', hanswer, -⟩ id hid
      rw [hasArtifact_iff]
      obtain ⟨hrecorded, -⟩ | ⟨links, hlinks, -⟩ := recordNodeOutcome_eq_ok hanswer
      · exact h.links _ (h.links_of_isRecordedAs hrecorded id hid)
      · obtain hlink | hrow := found_of_linkArtifacts hlinks id hid
        · exact h.links _ hlink
        · exact hrow
    · intro hresolve
      by_cases hrecorded : tables.nodeRuns.any row.isRecordedAs = true
      · refine ⟨tables, by rw [recordNodeOutcome, if_pos hrecorded], hrecorded, ?_, .inl rfl⟩
        intro link
        constructor
        · intro hlink
          exact .inl hlink
        · rintro (hlink | ⟨hid, hnode, hmem, -⟩)
          · exact hlink
          · have hlink := h.links_of_isRecordedAs hrecorded _ hmem
            rwa [← hid, ← hnode] at hlink
      · obtain ⟨links, hlinks⟩ := @exists_linkArtifacts row.executionId row.nodeId _ _
          tables.executionArtifacts fun id hid => hasArtifact_iff.mp (hresolve id hid)
        refine ⟨tables.commitOutcome row timestamp links, ?_, ?_, ?_, .inr ⟨links, rfl⟩⟩
        · rw [recordNodeOutcome, if_neg hrecorded, hexecution, hlinks]
          rfl
        · rw [commitOutcome, List.any_append]
          simp [isRecordedAs_iff.mpr]
        · intro link
          refine (mem_of_linkArtifacts hlinks link).trans (or_congr_right ?_)
          constructor
          · rintro ⟨id, hid, rfl⟩
            exact ⟨rfl, rfl, hid, hresolve id hid⟩
          · rintro ⟨hid, hnode, hmem, -⟩
            exact ⟨link.artifactId, hmem, by rw [← hid, ← hnode]⟩
  | putArtifact _ | deleteArtifact _ | deleteExecutions _ _ | other _ => exact Iff.rfl

/-- **Outcomes can be recorded**: over every run of store calls, each outcome of an execution that
exists is recorded with the links it should have exactly when all that its result shapes like a
reference names an artifact. -/
theorem node_outcomes_are_recorded_iff {tables : OutcomeTables} (h : Sound tables)
    (calls : List OutcomeCall) :
    Runs.Meets step OutcomeRecorded tables calls ↔
      Runs.Meets step ReferencesResolve tables calls :=
  Runs.meets_congr h (fun _ call _ hsound => hsound.outcomeRecorded_iff call)
    fun _ call _ hsound _ => hsound.step call

/-! ### Two results -/

/-- An execution without outcomes, and one artifact. -/
def runningTables : OutcomeTables where
  executions := [{
    id := "run"
    workflowName := "greet"
    status := .running
    createdAt := "2026-01-01T00:00:00Z" }]
  artifacts := [⟨"ba78", "ba78", 3, "text/plain", none⟩]

theorem sound_runningTables : Sound runningTables where
  links _ h := nomatch h
  runs _ h := nomatch h

/-- A JSON object with the keys of a reference. -/
def referenceValue (id : String) : Value :=
  .object [("id", .string id), ("sha256", .string id), ("sizeBytes", .number (.int 3))]

def outcomeCall (nodeId : String) (result : Value) : OutcomeCall :=
  .recordNodeOutcome
    { executionId := "run", nodeId, status := "succeeded", result := some result }
    "2026-01-01T00:00:01Z"

/-- A result that names the artifact, a retry of its record, and a result without references. -/
def resolvedCalls : List OutcomeCall :=
  [outcomeCall "read" (.array [referenceValue "ba78"]),
    outcomeCall "read" (.array [referenceValue "ba78"]),
    outcomeCall "answer" (.object [("id", .string "x"), ("size", .null)])]

theorem resolvedCalls_are_recorded :
    Runs.Meets step OutcomeRecorded runningTables resolvedCalls :=
  (node_outcomes_are_recorded_iff sound_runningTables resolvedCalls).mpr (by decide)

/-- **A response that looks like a reference cannot be recorded**: the foreign key fails, and the
run of the node is rolled back. -/
theorem unresolved_reference_is_not_recorded :
    (outcomeCall "fetch" (referenceValue "x")).answer runningTables = .error foreignKeyError ∧
    ¬ Runs.Meets step OutcomeRecorded runningTables [outcomeCall "fetch" (referenceValue "x")] := by
  have hanswer : (outcomeCall "fetch" (referenceValue "x")).answer runningTables =
      .error foreignKeyError := rfl
  refine ⟨hanswer, fun h => ?_⟩
  obtain ⟨tables', hok, -⟩ := h.1 (by decide)
  cases hanswer.symm.trans hok

end OutcomeTables

end KakuneCore
