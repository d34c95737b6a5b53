import KakuneCore.Encoding.Utf8
import KakuneCore.Store.Artifacts
import KakuneCore.Store.Secrets
import Mathlib.Data.Finset.Insert

/-!
# Core services of a plugin operation

While a plugin operation runs, the plugin may ask Core for secrets, artifacts and trace spans. What
it may touch is held in two sets: the spans that the operation opened and the artifacts that it
wrote.

A request that closes a span takes it out of its set before the rest of the request is checked. The
main result, `keepsCapabilities_iff`: over a whole run, no request reaches beyond the operation, and
bad parameters change nothing exactly when every request to close an owned span goes through.
-/

namespace KakuneCore

/-! ### The store -/

/-- The text of a `Uuid`. -/
structure SpanUuid where
  text : String
  nonempty : text ≠ ""

/-- A row of `execution_trace_spans`, without its times. -/
structure TraceSpanRow where
  id : String
  executionId : String
  parentSpanId : Option String
  kind : String
  nodeId : Option String
  name : String
  attempt : Option Nat := none
  status : String := "running"
  error : Option String := none
  attributes : Value
  deriving DecidableEq

/-- The tables that the services read and write. -/
structure ServiceStore where
  secrets : SecretStore
  artifacts : ArtifactStore
  traceSpans : List TraceSpanRow

/-- What the outside answers during a request. A fault is the text of a database error. -/
structure ServiceAnswers where
  cancelRequested : Except String Bool := .ok false
  resolve : ResolveAnswers := {}
  putFault : Option PutFault := none
  spanId : SpanUuid
  spanFault : Option String := none

namespace ServiceStore

/-- `start_trace_span`: the identifier is the primary key. -/
def startTraceSpan (store : ServiceStore) (answers : ServiceAnswers) (row : TraceSpanRow) :
    Except String String × ServiceStore :=
  match answers.spanFault with
  | some text => (.error s!"Kakune database error: {text}", store)
  | none =>
    if store.traceSpans.any (·.id = answers.spanId.text) then
      (.error "Kakune database error: UNIQUE constraint failed: execution_trace_spans.id", store)
    else
      (.ok answers.spanId.text,
        { store with traceSpans := store.traceSpans ++ [{ row with id := answers.spanId.text }] })

/-- `finish_trace_span`. -/
def finishTraceSpan (store : ServiceStore) (answers : ServiceAnswers) (id status : String)
    (error : Option String) : Except String Unit × ServiceStore :=
  match answers.spanFault with
  | some text => (.error s!"Kakune database error: {text}", store)
  | none =>
    (.ok (), { store with traceSpans := store.traceSpans.map fun row =>
      if row.id = id then { row with status, error } else row })

end ServiceStore

/-! ### The handler -/

/-- What the handler of an operation is created with. -/
structure PluginOperation where
  execution : String
  node : String
  /-- The secrets of `PluginPermissions`, where there are permissions. -/
  secrets : Option (List String)

/-- The libraries under the store. -/
structure ServiceLibrary where
  vault : Vault
  artifactId : Bytes → String

/-- The sets of the handler, and the store. -/
structure ServiceContext where
  spans : Finset String := ∅
  artifacts : Finset String := ∅
  store : ServiceStore

/-- A call of the store, with its answer. -/
inductive ServiceCall
  | resolveSecret (name : String) (answer : Except String String)
  | putArtifact (put : ArtifactPut) (answer : Except String ArtifactRef)
  | readArtifact (id : String) (answer : Except String (Option (ArtifactRef × Bytes)))
  | startTraceSpan (parent : Option String) (answer : Except String String)
  | finishTraceSpan (id : String) (answer : Except String Unit)

/-- The answer to a request, what it leaves, and the call of the store it was served with. -/
structure ServiceReply where
  result : Except String Value
  context : ServiceContext
  call : Option ServiceCall := none

/-- A request, and what the outside answers while it is handled. -/
structure ServiceRequest where
  method : String
  params : Value
  answers : ServiceAnswers

/-- `required`. -/
def Value.required (value : Value) (name : String) : Except String String :=
  match ((value.get? name).bind Value.asStr).filter (· ≠ "") with
  | some text => .ok text
  | none => .error s!"service parameter {name} is required"

theorem Value.required_of_get? {value : Value} {name text : String}
    (h : value.get? name = some (.string text)) (hne : text ≠ "") :
    value.required name = .ok text := by
  simp [required, h, Value.asStr, Option.filter, hne]

/-- `params[name].as_str()`. -/
def Value.optionalText (params : Value) (name : String) : Option String :=
  (params.get? name).bind Value.asStr

/-- `serde_json::to_value` of an artifact. -/
def ArtifactRef.toValue (artifact : ArtifactRef) : Value :=
  .object ([("id", .string artifact.id), ("mediaType", .string artifact.mediaType)] ++
    (artifact.name.map fun name => ("name", Value.string name)).toList ++
    [("sha256", .string artifact.sha256), ("sizeBytes", .number (.int artifact.sizeBytes))])

/-- The limit of an inline text. -/
def inlineTextLimit : Nat := 512 * 1024

/-- The statuses a span can be closed with. -/
def terminalSpanStatuses : List String := ["succeeded", "failed", "cancelled"]

section Handler

variable (library : ServiceLibrary) (operation : PluginOperation) (answers : ServiceAnswers)
  (context : ServiceContext) (params : Value)

/-- An error before any call of the store. -/
def ServiceContext.refuse (context : ServiceContext) (message : String) : ServiceReply :=
  { result := .error message, context }

/-- `secret/resolve`. -/
def resolveService : ServiceReply :=
  match params.required "name" with
  | .error message => context.refuse message
  | .ok name =>
    if operation.secrets.any (name ∈ ·) then
      let answer := context.store.secrets.resolveSecret library.vault answers.resolve name
      { result := answer.map fun value => .object [("value", .string value)]
        context
        call := some (.resolveSecret name answer) }
    else context.refuse "secret access was not granted to this plugin"

/-- `artifact/write`. -/
def writeService : ServiceReply :=
  match params.required "text" with
  | .error message => context.refuse message
  | .ok data =>
    if inlineTextLimit < data.utf8ByteSize then
      context.refuse "artifact text exceeds the inline service limit"
    else
      let put : ArtifactPut :=
        { bytes := Utf8.encode data.toList
          mediaType := (params.optionalText "mediaType").getD "text/plain; charset=utf-8"
          name := params.optionalText "name"
          fault := answers.putFault }
      let (answer, artifacts) := context.store.artifacts.putArtifact library.artifactId put
      let context := { context with store := { context.store with artifacts } }
      match answer with
      | .error message =>
        { result := .error message, context, call := some (.putArtifact put answer) }
      | .ok record =>
        { result := .ok record.toValue
          context := { context with artifacts := insert record.id context.artifacts }
          call := some (.putArtifact put answer) }

/-- `artifact/read`. -/
def readService : ServiceReply :=
  match params.required "id" with
  | .error message => context.refuse message
  | .ok id =>
    if id ∉ context.artifacts then context.refuse "artifact is outside this plugin operation"
    else
      let answer := context.store.artifacts.readArtifact library.artifactId id
      let result := match answer with
        | .error message => .error message
        | .ok none => .error "artifact not found"
        | .ok (some (record, bytes)) =>
          if inlineTextLimit < bytes.length then
            .error "artifact exceeds the inline service limit"
          else match Utf8.decode? bytes with
            | none => .error "artifact is not UTF-8 text"
            | some text =>
              .ok (.object [("artifact", record.toValue), ("text", .string (.ofList text))])
      { result, context, call := some (.readArtifact id answer) }

/-- `trace/startSpan`. -/
def startService : ServiceReply :=
  let parent := params.optionalText "parentSpanId"
  if parent.any (· ∉ context.spans) then
    context.refuse "parent span is outside this plugin operation"
  else
    match params.required "name" with
    | .error message => context.refuse message
    | .ok name =>
      let (answer, store) := context.store.startTraceSpan answers
        { id := "", executionId := operation.execution, parentSpanId := parent, kind := "tool",
          nodeId := some operation.node, name,
          attributes := (params.get? "attributes").getD (.object []) }
      let context := { context with store }
      match answer with
      | .error message =>
        { result := .error message, context, call := some (.startTraceSpan parent answer) }
      | .ok id =>
        { result := .ok (.object [("spanId", .string id)])
          context := { context with spans := insert id context.spans }
          call := some (.startTraceSpan parent answer) }

/-- `trace/endSpan`. -/
def endService : ServiceReply :=
  match params.required "spanId" with
  | .error message => context.refuse message
  | .ok id =>
    if id ∉ context.spans then
      context.refuse "span is outside this plugin operation or already closed"
    else
      -- the span leaves the set here, before the status is looked at
      let context := { context with spans := context.spans.erase id }
      match params.required "status" with
      | .error message => context.refuse message
      | .ok status =>
        if status ∉ terminalSpanStatuses then context.refuse "invalid terminal span status"
        else
          let (answer, store) :=
            context.store.finishTraceSpan answers id status (params.optionalText "error")
          { result := answer.map fun _ => .object []
            context := { context with store }
            call := some (.finishTraceSpan id answer) }

/-- `handler`. -/
def serveRequest (request : ServiceRequest) : ServiceReply :=
  let answers := request.answers
  let params := request.params
  match answers.cancelRequested with
  | .error message => context.refuse message
  | .ok true => context.refuse "execution cancellation requested"
  | .ok false =>
    match request.method with
    | "secret/resolve" => resolveService library operation answers context params
    | "artifact/write" => writeService library answers context params
    | "artifact/read" => readService library context params
    | "trace/startSpan" => startService operation answers context params
    | "trace/endSpan" => endService answers context params
    | method => context.refuse s!"unsupported Core service: {method}"

end Handler

/-! ### What a request does -/

/-- A media type that `put_artifact` refuses. -/
def ArtifactPut.MediaTypeRefused (put : ArtifactPut) : Prop :=
  (blank put.mediaType || 200 < put.mediaType.utf8ByteSize) = true

/-- A request that is handled as one to close a span. -/
structure ServiceRequest.Ends (request : ServiceRequest) (id : String) : Prop where
  method : request.method = "trace/endSpan"
  running : request.answers.cancelRequested = .ok false
  spanId : request.params.required "spanId" = .ok id

/-- Its status is one that a span can be closed with. -/
def ServiceRequest.HasStatus (request : ServiceRequest) : Prop :=
  ∃ status ∈ terminalSpanStatuses, request.params.required "status" = .ok status

/-- The replies to a request, by the call of the store it is served with. -/
inductive ServesRequest (operation : PluginOperation) (request : ServiceRequest)
    (context : ServiceContext) : ServiceReply → Prop
  | refused (message : String) : ServesRequest operation request context (context.refuse message)
  | resolved {name : String} {answer : Except String String} {result : Except String Value}
      (hgranted : ∃ granted, operation.secrets = some granted ∧ name ∈ granted) :
      ServesRequest operation request context
        { result, context, call := some (.resolveSecret name answer) }
  | unwritten {put : ArtifactPut} {message : String} {store : ServiceStore}
      (hrefused : put.MediaTypeRefused → store = context.store) :
      ServesRequest operation request context
        { result := .error message, context := { context with store }
          call := some (.putArtifact put (.error message)) }
  | written {put : ArtifactPut} {record : ArtifactRef} {store : ServiceStore} :
      ServesRequest operation request context
        { result := .ok record.toValue
          context := { context with store, artifacts := insert record.id context.artifacts }
          call := some (.putArtifact put (.ok record)) }
  | read {id : String} {answer : Except String (Option (ArtifactRef × Bytes))}
      {result : Except String Value} (hid : id ∈ context.artifacts) :
      ServesRequest operation request context
        { result, context, call := some (.readArtifact id answer) }
  | unstarted {parent : Option String} {message : String}
      (hparent : ∀ id ∈ parent, id ∈ context.spans) :
      ServesRequest operation request context
        { result := .error message, context,
          call := some (.startTraceSpan parent (.error message)) }
  | started {parent : Option String} {id : String} {store : ServiceStore}
      (hparent : ∀ id ∈ parent, id ∈ context.spans) (hid : id ≠ "") :
      ServesRequest operation request context
        { result := .ok (.object [("spanId", .string id)])
          context := { context with store, spans := insert id context.spans }
          call := some (.startTraceSpan parent (.ok id)) }
  | dropped {id message : String} (hends : request.Ends id) (hid : id ∈ context.spans)
      (hstatus : ¬ request.HasStatus) :
      ServesRequest operation request context
        (ServiceContext.refuse { context with spans := context.spans.erase id } message)
  | finished {id : String} {answer : Except String Unit} {store : ServiceStore}
      (hends : request.Ends id) (hid : id ∈ context.spans) (hstatus : request.HasStatus)
      (hanswer : answer = .ok () ↔ request.answers.spanFault = none) :
      ServesRequest operation request context
        { result := answer.map fun _ => .object []
          context := { context with store, spans := context.spans.erase id }
          call := some (.finishTraceSpan id answer) }

section Cases

variable {library : ServiceLibrary} {operation : PluginOperation} {request : ServiceRequest}
  {context : ServiceContext}

theorem serves_resolveService : ServesRequest operation request context
    (resolveService library operation request.answers context request.params) := by
  rw [resolveService]
  split
  · exact .refused _
  · split_ifs with hgranted
    · obtain ⟨granted, hsecrets, hname⟩ := (Option.any_eq_true _ _).mp hgranted
      exact .resolved ⟨granted, hsecrets, of_decide_eq_true hname⟩
    · exact .refused _

theorem putArtifact_refused (artifactId : Bytes → String) (store : ArtifactStore)
    {put : ArtifactPut} (h : put.MediaTypeRefused) :
    (store.putArtifact artifactId put).2 = store := by
  have hblank : (blank put.mediaType || 200 < put.mediaType.utf8ByteSize) = true := h
  rw [ArtifactStore.putArtifact, if_pos hblank]

theorem serves_writeService : ServesRequest operation request context
    (writeService library request.answers context request.params) := by
  rw [writeService]
  split
  · exact .refused _
  · next data _ =>
    split_ifs
    · exact .refused _
    · dsimp only
      generalize ({ bytes := Utf8.encode data.toList
                    mediaType := (request.params.optionalText "mediaType").getD
                      "text/plain; charset=utf-8"
                    name := request.params.optionalText "name"
                    fault := request.answers.putFault } : ArtifactPut) = put
      rcases hanswer : context.store.artifacts.putArtifact library.artifactId put with
        ⟨message | record, artifacts⟩
      · refine .unwritten fun hrefused => ?_
        have hsame := putArtifact_refused library.artifactId context.store.artifacts hrefused
        rw [hanswer] at hsame
        rw [show artifacts = context.store.artifacts from hsame]
      · exact .written

theorem serves_readService :
    ServesRequest operation request context (readService library context request.params) := by
  rw [readService]
  split
  · exact .refused _
  · split_ifs with hid
    · exact .read hid
    · exact .refused _

theorem serves_startService : ServesRequest operation request context
    (startService operation request.answers context request.params) := by
  rw [startService]
  dsimp only
  split_ifs with houtside
  · exact .refused _
  · have hparent : ∀ id ∈ request.params.optionalText "parentSpanId", id ∈ context.spans := by
      intro id hid
      by_contra hnot
      exact houtside ((Option.any_eq_true _ _).mpr ⟨id, hid, decide_eq_true hnot⟩)
    split
    · exact .refused _
    · rw [ServiceStore.startTraceSpan]
      cases request.answers.spanFault with
      | some text => exact .unstarted hparent
      | none =>
        dsimp only
        split_ifs
        · exact .unstarted hparent
        · exact .started hparent request.answers.spanId.nonempty

theorem serves_endService (hmethod : request.method = "trace/endSpan")
    (hrunning : request.answers.cancelRequested = .ok false) :
    ServesRequest operation request context
      (endService request.answers context request.params) := by
  rw [endService]
  split
  · exact .refused _
  · next id hspan =>
    have hends : request.Ends id := ⟨hmethod, hrunning, hspan⟩
    split_ifs with hid
    · dsimp only
      split
      · next message hstatus =>
        refine .dropped hends hid ?_
        rintro ⟨status, -, heq⟩
        rw [hstatus] at heq
        cases heq
      · next status hstatus =>
        split_ifs with hterminal
        · have hhas : request.HasStatus := ⟨status, hterminal, hstatus⟩
          rw [ServiceStore.finishTraceSpan]
          cases hfault : request.answers.spanFault with
          | some text => exact .finished hends hid hhas (by simp [hfault])
          | none => exact .finished hends hid hhas (by simp [hfault])
        · refine .dropped hends hid ?_
          rintro ⟨other, hother, heq⟩
          rw [hstatus] at heq
          cases heq
          exact hterminal hother
    · exact .refused _

/-- **What a request does.** -/
theorem serves_serveRequest (request : ServiceRequest) :
    ServesRequest operation request context (serveRequest library operation context request) := by
  rw [serveRequest]
  split
  · exact .refused _
  · exact .refused _
  · next hrunning =>
    split
    · exact serves_resolveService
    · exact serves_writeService
    · exact serves_readService
    · exact serves_startService
    · next hmethod => exact serves_endService hmethod hrunning
    · exact .refused _

end Cases

/-! ### Runs -/

/-- A request that was served, with the sets and the store it met. -/
structure ServiceStep where
  context : ServiceContext
  request : ServiceRequest
  reply : ServiceReply

/-- The steps of a run, in their order. -/
def serve (library : ServiceLibrary) (operation : PluginOperation) :
    ServiceContext → List ServiceRequest → List ServiceStep
  | _, [] => []
  | context, request :: requests =>
    let reply := serveRequest library operation context request
    { context, request, reply } :: serve library operation reply.context requests

namespace ServiceStep

def Opens (step : ServiceStep) (id : String) : Prop :=
  ∃ parent, step.reply.call = some (.startTraceSpan parent (.ok id))

def Closes (step : ServiceStep) (id : String) : Prop :=
  step.reply.call = some (.finishTraceSpan id (.ok ()))

def Writes (step : ServiceStep) (id : String) : Prop :=
  ∃ put record, step.reply.call = some (.putArtifact put (.ok record)) ∧ record.id = id

/-- An error before any call of the store, or a media type that the store refuses. -/
def IsParameterError (step : ServiceStep) : Prop :=
  (∃ message, step.reply.result = .error message) ∧
    (step.reply.call = none ∨
      ∃ put answer, step.reply.call = some (.putArtifact put answer) ∧ put.MediaTypeRefused)

/-- A request to close a span of the operation has a status that a span can be closed with, and the
database takes it. -/
def EndsWell (step : ServiceStep) : Prop :=
  ∀ id ∈ step.context.spans, step.request.Ends id →
    step.request.HasStatus ∧ step.request.answers.spanFault = none

end ServiceStep

/-- The operation has opened the span and not closed it since. -/
def IsOpen (history : List ServiceStep) (id : String) : Prop :=
  history.foldl (fun isOpen step => step.Opens id ∨ isOpen ∧ ¬ step.Closes id) False

/-- The operation has written the artifact. -/
def IsWritten (history : List ServiceStep) (id : String) : Prop :=
  ∃ step ∈ history, step.Writes id

/-- A step reaches nothing beyond the operation. -/
structure ServiceStep.Allowed (operation : PluginOperation) (history : List ServiceStep)
    (step : ServiceStep) : Prop where
  secrets : ∀ name answer, step.reply.call = some (.resolveSecret name answer) →
    ∃ granted, operation.secrets = some granted ∧ name ∈ granted
  artifacts : ∀ id answer, step.reply.call = some (.readArtifact id answer) → IsWritten history id
  parents : ∀ parent answer, step.reply.call = some (.startTraceSpan (some parent) answer) →
    IsOpen history parent
  closings : ∀ id answer, step.reply.call = some (.finishTraceSpan id answer) → IsOpen history id

/-- A well-formed request to close a span. -/
structure ServiceRequest.Closes (request : ServiceRequest) (id : String) : Prop extends
    request.Ends id where
  status : request.HasStatus
  noFault : request.answers.spanFault = none

/-- Some well-formed request closes the span. -/
def Closable (library : ServiceLibrary) (operation : PluginOperation) (context : ServiceContext)
    (id : String) : Prop :=
  ∃ request : ServiceRequest, request.Closes id ∧
    (serveRequest library operation context request).result = .ok (.object [])

/-- The capabilities of an operation over a run. -/
def KeepsCapabilities (library : ServiceLibrary) (operation : PluginOperation)
    (run : List ServiceStep) : Prop :=
  ∀ before step after, run = before ++ step :: after →
    step.Allowed operation before ∧
      (step.IsParameterError → step.reply.context = step.context) ∧
      ∀ id, IsOpen (before ++ [step]) id → Closable library operation step.reply.context id

section Runs

variable {library : ServiceLibrary} {operation : PluginOperation} {context : ServiceContext}
  {history : List ServiceStep} {step : ServiceStep} {id : String}

theorem isOpen_concat : IsOpen (history ++ [step]) id ↔
    step.Opens id ∨ IsOpen history id ∧ ¬ step.Closes id := by
  rw [IsOpen, List.foldl_concat, ← IsOpen]

theorem isWritten_concat :
    IsWritten (history ++ [step]) id ↔ IsWritten history id ∨ step.Writes id := by
  simp only [IsWritten, List.mem_append, List.mem_singleton, or_and_right, exists_or,
    exists_eq_left]

/-- **Closing a span takes it to be in the set**, and nothing more. -/
theorem ends_span_iff (hid : id ≠ "") :
    Closable library operation context id ↔ id ∈ context.spans := by
  constructor
  · rintro ⟨request, h, hresult⟩
    by_contra hnot
    rw [serveRequest] at hresult
    simp only [h.running, h.method, endService, h.spanId, if_pos hnot, ServiceContext.refuse]
      at hresult
    cases hresult
  · intro hmem
    let request : ServiceRequest :=
      { method := "trace/endSpan"
        params := .object [("spanId", .string id), ("status", .string "succeeded")]
        answers := { spanId := ⟨id, hid⟩ } }
    have hspan : request.params.required "spanId" = .ok id := Value.required_of_get? (by rfl) hid
    have hstatus : request.params.required "status" = .ok "succeeded" :=
      Value.required_of_get? (by rfl) (by decide)
    refine ⟨request, ⟨⟨rfl, rfl, hspan⟩, ⟨_, by decide, hstatus⟩, rfl⟩, ?_⟩
    have hserve : serveRequest library operation context request =
        endService request.answers context request.params := rfl
    rw [hserve, endService, hspan]
    simp only [hmem, not_true, if_false, hstatus]
    rfl

/-- What the sets of the handler say about the run so far. -/
structure TracksSpans (history : List ServiceStep) (context : ServiceContext) : Prop where
  spans : ∀ id ∈ context.spans, IsOpen history id
  artifacts : ∀ id ∈ context.artifacts, IsWritten history id
  named : ∀ id, IsOpen history id → id ≠ ""

/-- A step of a run: its reply is the handler's. -/
def ServiceStep.Served (library : ServiceLibrary) (operation : PluginOperation)
    (step : ServiceStep) : Prop :=
  step.reply = serveRequest library operation step.context step.request

theorem ServiceStep.Served.serves (h : step.Served library operation) :
    ServesRequest operation step.request step.context step.reply := by
  rw [h]
  exact serves_serveRequest step.request

theorem TracksSpans.allowed (h : TracksSpans history step.context)
    (hserved : step.Served library operation) :
    step.Allowed operation history := by
  obtain ⟨context, request, reply⟩ := step
  have hserves : ServesRequest operation request context reply := hserved.serves
  cases hserves with
  | refused message => exact ⟨nofun, nofun, nofun, nofun⟩
  | resolved hgranted =>
    refine ⟨fun name answer hcall => ?_, nofun, nofun, nofun⟩
    cases hcall
    exact hgranted
  | unwritten hrefused => exact ⟨nofun, nofun, nofun, nofun⟩
  | written => exact ⟨nofun, nofun, nofun, nofun⟩
  | read hid =>
    refine ⟨nofun, fun id answer hcall => ?_, nofun, nofun⟩
    cases hcall
    exact h.artifacts _ hid
  | unstarted hparent =>
    refine ⟨nofun, nofun, fun parent answer hcall => ?_, nofun⟩
    cases hcall
    exact h.spans _ (hparent _ rfl)
  | started hparent _ =>
    refine ⟨nofun, nofun, fun parent answer hcall => ?_, nofun⟩
    cases hcall
    exact h.spans _ (hparent _ rfl)
  | dropped _ hid _ => exact ⟨nofun, nofun, nofun, nofun⟩
  | finished _ hid _ _ =>
    refine ⟨nofun, nofun, nofun, fun id answer hcall => ?_⟩
    cases hcall
    exact h.spans _ hid

/-- What holds of the sets holds of them after a step. -/
theorem TracksSpans.next (h : TracksSpans history step.context)
    (hserved : step.Served library operation) :
    TracksSpans (history ++ [step]) step.reply.context := by
  obtain ⟨context, request, reply⟩ := step
  have hserves : ServesRequest operation request context reply := hserved.serves
  have hspans : ∀ {id}, id ∈ context.spans →
      ¬ (ServiceStep.mk context request reply).Closes id →
      IsOpen (history ++ [⟨context, request, reply⟩]) id :=
    fun hid hcloses => isOpen_concat.mpr (.inr ⟨h.spans _ hid, hcloses⟩)
  have hartifacts : ∀ {id}, id ∈ context.artifacts →
      IsWritten (history ++ [⟨context, request, reply⟩]) id :=
    fun hid => isWritten_concat.mpr (.inl (h.artifacts _ hid))
  have hnamed : (∀ id, (ServiceStep.mk context request reply).Opens id → id ≠ "") →
      ∀ id, IsOpen (history ++ [⟨context, request, reply⟩]) id → id ≠ "" := by
    intro hopens id hopen
    rcases isOpen_concat.mp hopen with hopen | ⟨hopen, -⟩
    · exact hopens id hopen
    · exact h.named id hopen
  cases hserves with
  | refused message =>
    exact ⟨fun _ hid => hspans hid nofun, fun _ => hartifacts, hnamed fun _ => nofun⟩
  | resolved hgranted =>
    exact ⟨fun _ hid => hspans hid nofun, fun _ => hartifacts, hnamed fun _ => nofun⟩
  | unwritten hrefused =>
    exact ⟨fun _ hid => hspans hid nofun, fun _ => hartifacts, hnamed fun _ => nofun⟩
  | written =>
    refine ⟨fun _ hid => hspans hid nofun, fun id hid => ?_, hnamed fun _ => nofun⟩
    rcases Finset.mem_insert.mp hid with rfl | hid
    · exact isWritten_concat.mpr (.inr ⟨_, _, rfl, rfl⟩)
    · exact hartifacts hid
  | read hid =>
    exact ⟨fun _ hid => hspans hid nofun, fun _ => hartifacts, hnamed fun _ => nofun⟩
  | unstarted hparent =>
    exact ⟨fun _ hid => hspans hid nofun, fun _ => hartifacts, hnamed fun _ => nofun⟩
  | started hparent hne =>
    refine ⟨fun id hid => ?_, fun _ => hartifacts, hnamed fun id hopens => ?_⟩
    · rcases Finset.mem_insert.mp hid with rfl | hid
      · exact isOpen_concat.mpr (.inl ⟨_, rfl⟩)
      · exact hspans hid nofun
    · obtain ⟨parent, hcall⟩ := hopens
      cases hcall
      exact hne
  | dropped _ hid _ =>
    exact ⟨fun _ hid => hspans (Finset.mem_of_mem_erase hid) nofun, fun _ => hartifacts,
      hnamed fun _ => nofun⟩
  | finished _ hid _ _ =>
    refine ⟨fun id hid => hspans (Finset.mem_of_mem_erase hid) fun hcloses => ?_,
      fun _ => hartifacts,
      hnamed fun _ => nofun⟩
    cases hcloses
    exact Finset.notMem_erase _ _ hid

/-- **What leaves the set of spans**: all of it was closed exactly when the step ends well. -/
theorem ServiceStep.Served.endsWell_iff (h : step.Served library operation) :
    step.EndsWell ↔ ∀ id ∈ step.context.spans, id ∈ step.reply.context.spans ∨ step.Closes id := by
  obtain ⟨context, request, reply⟩ := step
  have hreply : reply = serveRequest library operation context request := h
  constructor
  · intro hwell other hother
    have hserves : ServesRequest operation request context reply := h.serves
    cases hserves with
    | dropped hends hid hstatus => exact absurd (hwell _ hid hends).1 hstatus
    | @finished id answer store hends hid hstatus hanswer =>
      by_cases heq : other = id
      · obtain rfl : answer = .ok () := hanswer.mpr (hwell _ hid hends).2
        subst heq
        exact .inr rfl
      · exact .inl (Finset.mem_erase.mpr ⟨heq, hother⟩)
    | started _ _ => exact .inl (Finset.mem_insert_of_mem hother)
    | _ => exact .inl hother
  · intro hkept id (hid : id ∈ context.spans) (hends : request.Ends id)
    have hserve : reply = endService request.answers context request.params := by
      rw [hreply, serveRequest]
      simp only [hends.running, hends.method]
    have hmem : ¬ id ∉ context.spans := not_not.mpr hid
    rw [endService, hends.spanId] at hserve
    simp only [if_neg hmem] at hserve
    have hgone : id ∉ context.spans.erase id := Finset.notMem_erase _ _
    rcases hkept id hid with hstays | hcloses
    · have herased : reply.context.spans = context.spans.erase id := by
        rw [hserve]
        split
        · rfl
        · split_ifs <;> rfl
      exact absurd (herased ▸ hstays) hgone
    · have hcall : reply.call = some (.finishTraceSpan id (.ok ())) := hcloses
      rw [hserve] at hcall
      split at hcall
      · cases hcall
      · next status hstatus =>
        split_ifs at hcall with hterminal
        · refine ⟨⟨status, hterminal, hstatus⟩, ?_⟩
          rw [ServiceStore.finishTraceSpan] at hcall
          cases hfault : request.answers.spanFault with
          | none => rfl
          | some text =>
            rw [hfault] at hcall
            cases hcall
        · cases hcall

/-- A step that ends well and answers with a parameter error changes nothing. -/
theorem ServiceStep.Served.unchanged (h : step.Served library operation) (hwell : step.EndsWell)
    (herror : step.IsParameterError) : step.reply.context = step.context := by
  obtain ⟨context, request, reply⟩ := step
  have hserves : ServesRequest operation request context reply := h.serves
  obtain ⟨⟨message, hmessage⟩, hcall⟩ := herror
  cases hserves with
  | refused message => rfl
  | resolved hgranted => rfl
  | read hid => rfl
  | unstarted hparent => rfl
  | unwritten hrefused =>
    rcases hcall with hcall | ⟨put, answer, hcall, hmedia⟩
    · cases hcall
    · cases hcall
      rw [hrefused hmedia]
  | written => cases hmessage
  | started hparent hne => cases hmessage
  | dropped hends hid hstatus => exact absurd (hwell _ hid hends).1 hstatus
  | finished hends hid hstatus hanswer =>
    rcases hcall with hcall | ⟨put, answer, hcall, -⟩
    · cases hcall
    · cases hcall

/-- The steps of a run are served, and the sets say of every one what the run was before it. -/
theorem serve_tracks {requests : List ServiceRequest} (h : TracksSpans history context)
    {before after : List ServiceStep}
    (hrun : serve library operation context requests = before ++ step :: after) :
    step.Served library operation ∧ TracksSpans (history ++ before) step.context := by
  induction requests generalizing context history before with
  | nil => exact absurd hrun (by simp [serve])
  | cons request requests ih =>
    rw [serve] at hrun
    cases before with
    | nil =>
      obtain ⟨rfl, -⟩ := List.cons.inj hrun
      rw [List.append_nil]
      exact ⟨rfl, h⟩
    | cons first before =>
      obtain ⟨rfl, hrest⟩ := List.cons.inj hrun
      have hserved : ServiceStep.Served library operation
        ⟨context, request, serveRequest library operation context request⟩ := rfl
      have hnext := ih (TracksSpans.next h hserved) hrest
      rw [List.append_assoc] at hnext
      exact hnext

/-- In a run whose steps end well, every open span is in the set. -/
theorem serve_open {requests : List ServiceRequest}
    (hopen : ∀ id, IsOpen history id → id ∈ context.spans)
    (hwell : ∀ step ∈ serve library operation context requests, step.EndsWell)
    {before after : List ServiceStep}
    (hrun : serve library operation context requests = before ++ step :: after) :
    ∀ id, IsOpen (history ++ before ++ [step]) id → id ∈ step.reply.context.spans := by
  induction requests generalizing context history before with
  | nil => exact absurd hrun (by simp [serve])
  | cons request requests ih =>
    rw [serve] at hrun hwell
    rw [List.forall_mem_cons] at hwell
    have hnext : ∀ id, IsOpen (history ++ [⟨context, request, serveRequest library operation context
        request⟩]) id → id ∈ (serveRequest library operation context request).context.spans := by
      intro id hid
      have hserved : ServiceStep.Served library operation
        ⟨context, request, serveRequest library operation context request⟩ := rfl
      rcases isOpen_concat.mp hid with ⟨parent, hopens⟩ | ⟨hid, hnot⟩
      · have hserves := hserved.serves
        dsimp only at hserves hopens
        generalize serveRequest library operation context request = reply at hserves hopens ⊢
        cases hserves <;> cases hopens
        exact Finset.mem_insert_self _ _
      · exact ((hserved.endsWell_iff.mp hwell.1) id (hopen id hid)).resolve_right hnot
    cases before with
    | nil =>
      obtain ⟨rfl, -⟩ := List.cons.inj hrun
      rw [List.append_nil]
      exact hnext
    | cons first before =>
      obtain ⟨rfl, hrest⟩ := List.cons.inj hrun
      have hrec := ih hnext hwell.2 hrest
      rw [List.append_assoc history, List.singleton_append] at hrec
      exact hrec

theorem tracks_start (store : ServiceStore) : TracksSpans [] { store } :=
  ⟨by simp, by simp, fun _ => False.elim⟩

/-- A run that keeps the capabilities loses no owned span. -/
theorem KeepsCapabilities.endsWell {store : ServiceStore} {requests : List ServiceRequest}
    (h : KeepsCapabilities library operation (serve library operation { store } requests)) :
    ∀ step ∈ serve library operation { store } requests, step.EndsWell := by
  intro step hstep
  obtain ⟨before, after, hrun⟩ := List.append_of_mem hstep
  obtain ⟨hserved, htracks⟩ := serve_tracks (tracks_start store) hrun
  obtain ⟨-, -, hclosable⟩ := h before step after hrun
  refine hserved.endsWell_iff.mpr fun id hid => or_iff_not_imp_right.mpr fun hnot => ?_
  have hopen : IsOpen (before ++ [step]) id :=
    isOpen_concat.mpr (.inr ⟨htracks.spans id hid, hnot⟩)
  exact (ends_span_iff (htracks.named id (htracks.spans id hid))).mp (hclosable id hopen)

end Runs

/-- **The capabilities of an operation** over any run of requests: its spans can all be closed, and
bad parameters change nothing, exactly when every request to close an owned span goes through. -/
theorem keepsCapabilities_iff (library : ServiceLibrary) (operation : PluginOperation)
    (store : ServiceStore) (requests : List ServiceRequest) :
    KeepsCapabilities library operation (serve library operation { store } requests) ↔
      ∀ step ∈ serve library operation { store } requests, step.EndsWell := by
  refine ⟨KeepsCapabilities.endsWell, fun hwell before step after hrun => ?_⟩
  obtain ⟨hserved, htracks⟩ := serve_tracks (tracks_start store) hrun
  have hstep : step ∈ serve library operation { store } requests := by
    rw [hrun]
    simp
  refine ⟨htracks.allowed hserved, hserved.unchanged (hwell step hstep), fun id hopen => ?_⟩
  refine (ends_span_iff ((htracks.next hserved).named id hopen)).mpr ?_
  have hempty : ∀ id, IsOpen [] id → id ∈ ({ store } : ServiceContext).spans := fun _ => False.elim
  exact serve_open hempty hwell hrun id hopen

/-- A span is opened, and a request to close it has no status. -/
def requestsWithoutStatus : List ServiceRequest :=
  [{ method := "trace/startSpan", params := .object [("name", .string "step")]
     answers := { spanId := ⟨"span", by decide⟩ } },
    { method := "trace/endSpan", params := .object [("spanId", .string "span")]
      answers := { spanId := ⟨"other", by decide⟩ } }]

/-- A vault that holds nothing, and a digest that is constant. -/
def emptyServiceLibrary : ServiceLibrary where
  vault := { sealing := fun _ _ => none, unsealing := fun _ _ => none }
  artifactId := fun _ => "digest"

/-- **A status is forgotten**: the request is refused, and the span is lost. -/
theorem span_is_lost_without_status : ¬ KeepsCapabilities emptyServiceLibrary
    { execution := "execution", node := "node", secrets := none }
    (serve emptyServiceLibrary { execution := "execution", node := "node", secrets := none }
      { store := { secrets := {}, artifacts := {}, traceSpans := [] } } requestsWithoutStatus) := by
  intro hkeeps
  have hwell := hkeeps.endsWell _ (List.mem_cons_of_mem _ List.mem_cons_self)
  obtain ⟨⟨status, -, hstatus⟩, -⟩ := hwell "span" (by decide) ⟨rfl, rfl, by rfl⟩
  cases hstatus

end KakuneCore
