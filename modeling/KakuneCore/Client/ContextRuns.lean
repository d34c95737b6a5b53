import KakuneCore.Client.Contexts

/-!
# Writers of the context collection

Several processes share one collection file. The operations of `ContextRepository` take the lock of
the collection, read the file, compare it with what they have read and publish the next revision.
`ensure_local_context` reads the file and publishes it with one more context, without the lock and
without a new revision. In every run in which it does not come to publish, the file is what the
published updates make of it, one after the other.
-/

namespace KakuneCore

/-! ### The file -/

/-- The texts of the file and what is read from them. -/
structure ContextEnv (Contents : Type) where
  path : String
  parseUrl : String → Option Url
  size : Contents → Nat
  /-- `serde_json::from_slice` for a collection. -/
  parseContexts : Contents → Except String ContextFile
  /-- `serde_json::from_str` for any document. -/
  parseDocument : Contents → Except String Value
  /-- `serde_json::from_value`. -/
  fromDocument : Value → Except String ContextFile
  /-- `serde_json::to_vec_pretty` for a collection. -/
  render : ContextFile → Contents
  /-- `serde_json::to_vec_pretty` for a document. -/
  renderDocument : Value → Contents

/-- A collection that is written is read back. -/
def ContextEnv.Faithful {Contents : Type} (env : ContextEnv Contents) : Prop :=
  ∀ file, env.parseContexts (env.render file) = .ok file

def textOrNull : Option String → Value
  | some text => .string text
  | none => .null

/-- `serde_json::to_value` of a context. -/
def ConnectionContext.toValue (context : ConnectionContext) : Value :=
  .object [("color", textOrNull context.color),
    ("credentialRef", textOrNull context.credentialRef), ("endpoint", .string context.endpoint),
    ("expectedCoreId", textOrNull context.expectedCoreId), ("id", .string context.id),
    ("name", .string context.name)]

/-- `serde_json::to_value` of a collection. -/
def ContextFile.toValue (file : ContextFile) : Value :=
  .object [("activeContextId", textOrNull file.activeContextId),
    ("contexts", .array (file.contexts.map ConnectionContext.toValue)),
    ("exportedAt", .string file.exportedAt), ("format", .string file.format),
    ("revision", .number (.int file.revision.toNat))]

section Contents

variable {Contents : Type} (env : ContextEnv Contents)

/-- `timestamp().unwrap_or_default()` in the default collection. -/
def defaultContexts (clock : Except String String) : ContextFile :=
  emptyContexts (clock.toOption.getD "")

/-- `read_optional_context_file`; the answer is that of the file system. -/
def readOptionalContextFile (file : Option Contents) : Except String Unit →
    Except String (Option Contents)
  | .error error => .error error
  | .ok () =>
    match file with
    | none => .ok none
    | some contents =>
      if maxContextFileBytes < env.size contents then
        .error "context files are limited to 1 MiB"
      else .ok (some contents)

/-- The collection that `transact` starts from. -/
def collectionOf (before : Option Contents) (fallback : Except String String) :
    Except String ContextFile :=
  match before with
  | some contents =>
    (env.parseContexts contents).mapError ("cannot parse " ++ env.path ++ ": " ++ ·)
  | none => .ok (defaultContexts fallback)

/-- What `transact` does between its two reads: the next collection and its text. -/
def nextContexts (update : ContextUpdate) (before : Option Contents)
    (fallback clock : Except String String) : Except String (ContextFile × Contents) := do
  let collection ← collectionOf env before fallback
  collection.validate env.parseUrl
  let updated ← update.apply collection
  if 2 ^ 64 ≤ updated.revision.toNat + 1 then
    .error "context collection revision is exhausted"
  else
    let exportedAt ← clock
    let next := { updated with revision := updated.revision + 1, exportedAt := exportedAt }
    next.validate env.parseUrl
    if maxContextFileBytes < env.size (env.render next) then
      .error "context files are limited to 1 MiB"
    else .ok (next, env.render next)

/-- What `ensure_local_context` is given. -/
structure LocalRequest where
  coreId : String
  endpoint : String
  credentialRef : String

def LocalRequest.context (request : LocalRequest) : ConnectionContext where
  id := "local"
  name := "Local Kakune Core"
  endpoint := request.endpoint
  expectedCoreId := some request.coreId
  color := none
  credentialRef := some request.credentialRef

/-- The changes that `ensure_local_context` makes to the document it has read. -/
def insertLocal (localContext : ConnectionContext) (exportedAt : String) (selectLocal : Bool) :
    Value → Except String Value
  | .object fields =>
    match StrMap.get? fields "contexts" with
    | some (.array contexts) =>
      let fields := StrMap.insert fields "contexts" (.array (contexts ++ [localContext.toValue]))
      let fields := StrMap.insert fields "exportedAt" (.string exportedAt)
      .ok (.object (if selectLocal then StrMap.insert fields "activeContextId" (.string "local")
        else fields))
    | _ => .error "contexts field must be a JSON array"
  | _ => .error "contexts document must be a JSON object"

/-- `ensure_local_context` between its read and its publication: the text that it publishes, if
there is no local context yet. -/
def localContents (request : LocalRequest) (source : Option Contents)
    (fallback clock : Except String String) : Except String (Option Contents) := do
  let (contexts, document) ← match source with
    | some contents => do
      let document ←
        (env.parseDocument contents).mapError ("cannot parse " ++ env.path ++ ": " ++ ·)
      let contexts ←
        (env.fromDocument document).mapError ("cannot parse " ++ env.path ++ ": " ++ ·)
      contexts.validate env.parseUrl
      .ok (contexts, document)
    | none => .ok (defaultContexts fallback, (defaultContexts fallback).toValue)
  match contexts.contexts.find? fun context => context.id = "local" with
  | some existing =>
    if existing.expectedCoreId.any fun expected => expected ≠ request.coreId then
      .error "local context is bound to a different installation"
    else .ok none
  | none =>
    let selectLocal := contexts.activeContextId.isNone
    let next := { contexts with
      contexts := contexts.contexts ++ [request.context]
      activeContextId := if selectLocal then some "local" else contexts.activeContextId }
    next.validate env.parseUrl
    let exportedAt ← clock
    let document ← insertLocal request.context exportedAt selectLocal document
    .ok (some (env.renderDocument document))

/-! ### Calls -/

/-- A call, with what it is given. An import reads its source before it takes the lock. -/
inductive ContextRequest (Contents : Type)
  | add (context : ConnectionContext)
  | importFile (path : String) (source : Except String Contents)
  | useContext (id : String)
  | remove (id : String)
  | ensureLocal (request : LocalRequest)

/-- An update that is about to be published: what the call has read, and what it publishes. -/
structure PendingUpdate (Contents : Type) where
  update : ContextUpdate
  before : Option Contents
  collection : ContextFile
  contents : Contents

/-- Where a call is. -/
inductive ContextPhase (Contents : Type)
  | absent
  | waiting (update : ContextUpdate)
  | locked (update : ContextUpdate)
  | pending (update : PendingUpdate Contents)
  | compared (update : PendingUpdate Contents)
  | prepared (update : PendingUpdate Contents)
  | published (update : ContextUpdate)
  | returned (update : ContextUpdate)
  | looking (request : LocalRequest)
  | reading (request : LocalRequest) (existed : Bool)
  | ready (existed : Bool) (contents : Contents)
  | ensured (created : Bool)
  | failed (error : String)
  | stopped

namespace ContextPhase

/-- The phases between taking the lock and giving it up. -/
def holdsLock : ContextPhase Contents → Bool
  | locked _ | pending _ | compared _ | prepared _ | published _ => true
  | _ => false

def pending? : ContextPhase Contents → Option (PendingUpdate Contents)
  | pending update | compared update | prepared update => some update
  | _ => none

def hasEnded : ContextPhase Contents → Bool
  | returned _ | ensured _ | failed _ | stopped => true
  | _ => false

/-- Whether the file existed for a call of `ensure_local_context` that is about to publish. -/
def ready? : ContextPhase Contents → Option Bool
  | ready existed _ => some existed
  | _ => none

/-- The update that a call has published. -/
def published? : ContextPhase Contents → Option ContextUpdate
  | published update | returned update => some update
  | _ => none

end ContextPhase

/-- The file, who holds its lock, the calls, and the updates that were published. -/
structure ContextState (Contents : Type) where
  file : Option Contents
  lock : Option Nat
  calls : Nat → ContextPhase Contents
  log : List ContextCommit

inductive ContextEvent (Contents : Type)
  /-- A call begins; the answer is about the directory of the collection. -/
  | begin (call : Nat) (request : ContextRequest Contents) (parent : Except String Unit)
  /-- The lock is tried. -/
  | acquire (call : Nat) (answer : Except String Unit)
  /-- The wait for the lock is over. -/
  | giveUp (call : Nat)
  /-- The file is read and the next text computed. The two answers are those of the clock. -/
  | read (call : Nat) (answer : Except String Unit) (fallback clock : Except String String)
  /-- The file is read again. -/
  | compare (call : Nat) (answer : Except String Unit)
  /-- The temporary file is written. -/
  | prepare (call : Nat) (answer : Except String Unit)
  /-- The temporary file is renamed or linked. -/
  | publish (call : Nat) (answer : Except String Unit)
  /-- The call returns. -/
  | finish (call : Nat)
  /-- `path.exists()`. -/
  | inspect (call : Nat) (answered : Bool)
  /-- The process of the call stops. -/
  | stop (call : Nat)

/-- The part of a call before it takes the lock. -/
def beginPhase (request : ContextRequest Contents) (parent : Except String Unit) :
    Except String (ContextPhase Contents) :=
  match request with
  | .add context => do
    validateContext env.parseUrl context
    parent.mapError ("cannot create contexts directory: " ++ ·)
    .ok (.waiting (.add context))
  | .importFile path source => do
    let bytes ← source
    if maxContextFileBytes < env.size bytes then .error "context files are limited to 1 MiB"
    else
      let imported ← (env.parseContexts bytes).mapError ("cannot parse " ++ path ++ ": " ++ ·)
      imported.validate env.parseUrl
      parent.mapError ("cannot create contexts directory: " ++ ·)
      .ok (.waiting (.importContexts imported.contexts))
  | .useContext id => do
    parent.mapError fun _ => "context collection " ++ env.path ++ " is unavailable"
    .ok (.waiting (.useContext id))
  | .remove id => do
    parent.mapError fun _ => "context collection " ++ env.path ++ " is unavailable"
    .ok (.waiting (.remove id))
  | .ensureLocal request => .ok (.looking request)

namespace ContextState

/-- The collection file as it is found, before any call. -/
def fresh (file : Option Contents) : ContextState Contents := ⟨file, none, fun _ => .absent, []⟩

def setPhase (state : ContextState Contents) (call : Nat) (phase : ContextPhase Contents) :
    ContextState Contents :=
  { state with calls := Function.update state.calls call phase }

/-- A call comes to its end, and gives up the lock if it has it. -/
def endCall (state : ContextState Contents) (call : Nat) (phase : ContextPhase Contents) :
    ContextState Contents :=
  { state with
    lock := if state.lock = some call then none else state.lock
    calls := Function.update state.calls call phase }

/-- The rename or link that publishes a text: a link needs that there is no file. -/
def canPublish (state : ContextState Contents) (existed : Bool) : Bool :=
  existed || state.file.isNone

/-- **One step of one call.** -/
def step [DecidableEq Contents] (state : ContextState Contents) : ContextEvent Contents →
    ContextState Contents
  | .begin call request parent =>
    match state.calls call with
    | .absent =>
      match beginPhase env request parent with
      | .ok phase => state.setPhase call phase
      | .error error => state.setPhase call (.failed error)
    | _ => state
  | .acquire call answer =>
    match state.calls call with
    | .waiting update =>
      match answer with
      | .ok () =>
        if state.lock = none then { state with lock := some call }.setPhase call (.locked update)
        else state
      | .error error =>
        state.setPhase call (.failed ("cannot lock contexts collection: " ++ error))
    | _ => state
  | .giveUp call =>
    match state.calls call with
    | .waiting _ => state.setPhase call
        (.failed "context collection is busy; retry after the current update finishes")
    | _ => state
  | .read call answer fallback clock =>
    match state.calls call with
    | .locked update =>
      match readOptionalContextFile env state.file answer with
      | .error error => state.endCall call (.failed error)
      | .ok before =>
        match nextContexts env update before fallback clock with
        | .error error => state.endCall call (.failed error)
        | .ok next => state.setPhase call (.pending ⟨update, before, next.1, next.2⟩)
    | .reading request existed =>
      match (if existed then state.file.map some else some none) with
      | none => state.setPhase call
          (.failed ("cannot read " ++ env.path ++ ": No such file or directory (os error 2)"))
      | some source =>
        match answer with
        | .error error => state.setPhase call
            (.failed ("cannot read " ++ env.path ++ ": " ++ error))
        | .ok () =>
          match localContents env request source fallback clock with
          | .error error => state.setPhase call (.failed error)
          | .ok none => state.setPhase call (.ensured false)
          | .ok (some contents) => state.setPhase call (.ready existed contents)
    | _ => state
  | .compare call answer =>
    match state.calls call with
    | .pending update =>
      match readOptionalContextFile env state.file answer with
      | .error error => state.endCall call (.failed error)
      | .ok now =>
        if now ≠ update.before then state.endCall call
          (.failed "context collection changed concurrently; refresh and retry")
        else state.setPhase call (.compared update)
    | _ => state
  | .prepare call answer =>
    match state.calls call with
    | .compared update =>
      if !state.canPublish update.before.isSome then state.endCall call (.failed
        ("destination " ++ env.path ++ " already exists; pass --replace to replace it"))
      else match answer with
        | .ok () => state.setPhase call (.prepared update)
        | .error error => state.endCall call
            (.failed ("cannot prepare atomic context publication: " ++ error))
    | _ => state
  | .publish call answer =>
    match state.calls call with
    | .prepared update =>
      match answer, state.canPublish update.before.isSome with
      | .ok (), true =>
        { state with
          file := some update.contents
          log := ⟨call, update.update, update.collection⟩ :: state.log }.setPhase call
            (.published update.update)
      | .ok (), false => state.endCall call
          (.failed ("cannot atomically publish " ++ env.path ++ ": File exists (os error 17)"))
      | .error error, _ => state.endCall call
          (.failed ("cannot atomically publish " ++ env.path ++ ": " ++ error))
    | .ready existed contents =>
      match answer, state.canPublish existed with
      | .ok (), true => { state with file := some contents }.setPhase call (.ensured true)
      | .ok (), false => state.setPhase call
          (.failed "cannot publish local context: File exists (os error 17)")
      | .error error, _ =>
        state.setPhase call (.failed ("cannot publish local context: " ++ error))
    | _ => state
  | .finish call =>
    match state.calls call with
    | .published update => state.endCall call (.returned update)
    | _ => state
  | .inspect call answered =>
    match state.calls call with
    | .looking request => state.setPhase call (.reading request (state.file.isSome && answered))
    | _ => state
  | .stop call =>
    if (state.calls call).hasEnded then state else state.endCall call .stopped

/-- `ensure_local_context` does not come to publish. -/
def PublishesNoLocal (state : ContextState Contents) : ContextEvent Contents → Prop
  | .publish call (.ok ()) => (state.calls call).ready?.any state.canPublish = false
  | _ => True

instance (state : ContextState Contents) :
    (event : ContextEvent Contents) → Decidable (PublishesNoLocal state event)
  | .publish _ (.ok ()) => inferInstanceAs (Decidable (_ = _))
  | .publish _ (.error _) | .begin .. | .acquire .. | .giveUp _ | .read .. | .compare ..
  | .prepare .. | .finish _ | .inspect .. | .stop _ => .isTrue trivial

/-! ### The invariant -/

variable {env}

/-- The collection in the file. -/
def Decodes (env : ContextEnv Contents) (collection : ContextFile) : Option Contents → Prop
  | none => ∃ exportedAt, collection = emptyContexts exportedAt
  | some contents =>
    env.parseContexts contents = .ok collection ∧ collection.validate env.parseUrl = .ok ()

/-- The phases between the lock and the return belong to the holder of the lock; the file is what
the published updates make of it; an update that is pending was made to what is in the file. -/
structure Guarded (env : ContextEnv Contents) (start : ContextFile)
    (state : ContextState Contents) : Prop where
  holder : ∀ call, (state.calls call).holdsLock = true → state.lock = some call
  decodes : Decodes env (latestContexts start state.log) state.file
  commits : Commits start state.log
  pending : ∀ call update, (state.calls call).pending? = some update →
    state.file = update.before ∧ Decodes env update.collection (some update.contents) ∧
      Committed (latestContexts start state.log) ⟨call, update.update, update.collection⟩
  published : ∀ call update, (state.calls call).published? = some update →
    ∃ collection, ⟨call, update, collection⟩ ∈ state.log

section Phases

variable {phase : ContextPhase Contents}

theorem holdsLock_of_pending {update : PendingUpdate Contents} (h : phase.pending? = some update) :
    phase.holdsLock = true := by
  cases phase with
  | pending | compared | prepared => rfl
  | _ => cases h

end Phases

variable {start : ContextFile} {state : ContextState Contents}

theorem setPhase_calls (call other : Nat) (phase : ContextPhase Contents) :
    (state.setPhase call phase).calls other = if other = call then phase else state.calls other :=
  Function.update_apply _ _ _ _

theorem endCall_calls (call other : Nat) (phase : ContextPhase Contents) :
    (state.endCall call phase).calls other = if other = call then phase else state.calls other :=
  Function.update_apply _ _ _ _

theorem guarded_fresh {file : Option Contents} (h : Decodes env start file) :
    (fresh file).Guarded env start where
  holder _ hcall := by cases hcall
  decodes := h
  commits := trivial
  pending _ _ hcall := by cases hcall
  published _ _ hcall := by cases hcall

/-- A call goes on to a phase that says no more than the one it was in. -/
theorem Guarded.setPhase (h : state.Guarded env start) {call : Nat} {phase : ContextPhase Contents}
    (hholds : phase.holdsLock = true → state.lock = some call)
    (hpending : ∀ update, phase.pending? = some update →
      state.file = update.before ∧ Decodes env update.collection (some update.contents) ∧
        Committed (latestContexts start state.log) ⟨call, update.update, update.collection⟩)
    (hpublished : ∀ update, phase.published? = some update →
      ∃ collection, ⟨call, update, collection⟩ ∈ state.log) :
    (state.setPhase call phase).Guarded env start := by
  refine ⟨fun other hother => ?_, h.decodes, h.commits, fun other update hother => ?_,
    fun other update hother => ?_⟩
  all_goals
    rw [setPhase_calls] at hother
    split at hother
  · next heq => exact heq ▸ hholds hother
  · exact h.holder other hother
  · next heq => exact heq ▸ hpending update hother
  · exact h.pending other update hother
  · next heq => exact heq ▸ hpublished update hother
  · exact h.published other update hother

/-- A call ends. -/
theorem Guarded.endCall (h : state.Guarded env start) {call : Nat} {phase : ContextPhase Contents}
    (hholds : phase.holdsLock = false)
    (hpublished : ∀ update, phase.published? = some update →
      ∃ collection, ⟨call, update, collection⟩ ∈ state.log) :
    (state.endCall call phase).Guarded env start := by
  refine ⟨fun other hother => ?_, h.decodes, h.commits, fun other update hother => ?_,
    fun other update hother => ?_⟩
  all_goals
    rw [endCall_calls] at hother
    split at hother
  · rw [hholds] at hother
    cases hother
  · next hne =>
    have hlock := h.holder other hother
    have hkept : state.lock ≠ some call := fun heq => hne (Option.some.inj (hlock.symm.trans heq))
    exact (if_neg hkept).trans hlock
  · rw [holdsLock_of_pending hother] at hholds
    cases hholds
  · exact h.pending other update hother
  · next heq => exact heq ▸ hpublished update hother
  · exact h.published other update hother

/-- The lock is taken. -/
theorem Guarded.acquire (h : state.Guarded env start) (hfree : state.lock = none) {call : Nat}
    {update : ContextUpdate} :
    ({ state with lock := some call }.setPhase call (.locked update)).Guarded env start := by
  have hnone : ∀ other, (state.calls other).holdsLock = false := by
    intro other
    rw [Bool.eq_false_iff]
    intro hother
    rw [h.holder other hother] at hfree
    cases hfree
  have hlocked : ({ state with lock := some call } : ContextState Contents).Guarded env start := by
    refine ⟨fun other hother => ?_, h.decodes, h.commits, h.pending, h.published⟩
    rw [hnone other] at hother
    cases hother
  exact hlocked.setPhase (fun _ => rfl) (fun _ hpending => by cases hpending)
    fun _ hpublished => by cases hpublished

/-- A pending update is published. -/
theorem Guarded.publish (h : state.Guarded env start) {call : Nat} {update : PendingUpdate Contents}
    (hcall : (state.calls call).pending? = some update) :
    ({ state with
      file := some update.contents
      log := ⟨call, update.update, update.collection⟩ :: state.log }.setPhase call
        (.published update.update)).Guarded env start := by
  obtain ⟨-, hdecodes, hcommitted⟩ := h.pending call update hcall
  have hlock := h.holder call (holdsLock_of_pending hcall)
  refine ⟨fun other hother => ?_, hdecodes, ⟨hcommitted, h.commits⟩,
    fun other pending hother => ?_, fun other published hother => ?_⟩
  all_goals
    rw [setPhase_calls] at hother
    split at hother
  · next heq => exact heq ▸ hlock
  · exact h.holder other hother
  · cases hother
  · next hne =>
    -- only the holder of the lock has an update pending
    have hother := h.holder other (holdsLock_of_pending hother)
    exact absurd (Option.some.inj (hother.symm.trans hlock)) hne
  · next heq =>
    cases hother
    exact ⟨update.collection, heq ▸ List.mem_cons_self⟩
  · obtain ⟨collection, hmem⟩ := h.published other published hother
    exact ⟨collection, List.mem_cons_of_mem _ hmem⟩

/-- **What `transact` computes** is the update of what is in the file. -/
theorem nextContexts_eq_ok (hfaithful : env.Faithful) {current : ContextFile}
    {before : Option Contents} {update : ContextUpdate} {fallback clock : Except String String}
    {next : ContextFile × Contents} (hdecodes : Decodes env current before)
    (h : nextContexts env update before fallback clock = .ok next) :
    Decodes env next.1 (some next.2) ∧ ∀ call, Committed current ⟨call, update, next.1⟩ := by
  obtain ⟨collection, hread, h⟩ := except_bind_eq_ok h
  obtain ⟨_, -, h⟩ := except_bind_eq_ok h
  obtain ⟨updated, happly, h⟩ := except_bind_eq_ok h
  split at h
  · cases h
  next hroom =>
  obtain ⟨exportedAt, -, h⟩ := except_bind_eq_ok h
  obtain ⟨_, hvalid, h⟩ := except_bind_eq_ok h
  split at h
  · cases h
  cases h
  have hrevision := ContextUpdate.revision_eq happly
  -- the collection that was read is the current one, but for the time of an absent file
  have hcurrent : current.revision = collection.revision ∧ ∃ time,
      update.apply current = .ok { updated with exportedAt := time } := by
    cases before with
    | none =>
      obtain ⟨time, rfl⟩ := hdecodes
      cases hread
      exact ⟨rfl, time, ContextUpdate.apply_exportedAt happly time⟩
    | some contents =>
      rw [collectionOf, hdecodes.1] at hread
      cases hread
      exact ⟨rfl, updated.exportedAt, happly⟩
  obtain ⟨hsame, time, happly⟩ := hcurrent
  refine ⟨⟨hfaithful _, hvalid⟩, fun call => ⟨⟨_, happly, rfl⟩, ?_⟩⟩
  rw [hsame, ← hrevision, UInt64.lt_iff_toNat_lt, UInt64.toNat_add]
  simp only [UInt64.toNat_one] at hroom ⊢
  omega

theorem readOptionalContextFile_eq_ok {file before : Option Contents} {answer : Except String Unit}
    (h : readOptionalContextFile env file answer = .ok before) : before = file := by
  cases answer with
  | error => cases h
  | ok =>
    cases file with
    | none => cases h; rfl
    | some contents =>
      rw [readOptionalContextFile] at h
      split at h
      · cases h
      · cases h
        rfl

/-- A phase that says nothing. -/
theorem Guarded.setQuiet (h : state.Guarded env start) {call : Nat} {phase : ContextPhase Contents}
    (hholds : phase.holdsLock = false) (hpublished : phase.published? = none) :
    (state.setPhase call phase).Guarded env start := by
  refine h.setPhase (fun hlock => ?_) (fun update hpending => ?_) fun update hphase => ?_
  · rw [hholds] at hlock
    cases hlock
  · rw [holdsLock_of_pending hpending] at hholds
    cases hholds
  · rw [hpublished] at hphase
    cases hphase

theorem Guarded.fail (h : state.Guarded env start) {call : Nat} {error : String} :
    (state.endCall call (.failed error)).Guarded env start :=
  h.endCall rfl fun _ hpublished => by cases hpublished

/-- A call goes on with its pending update. -/
theorem Guarded.setPending (h : state.Guarded env start) {call : Nat}
    {phase : ContextPhase Contents} {update : PendingUpdate Contents}
    (hcall : (state.calls call).pending? = some update) (hphase : phase.pending? = some update)
    (hpublished : phase.published? = none) : (state.setPhase call phase).Guarded env start := by
  refine h.setPhase (fun _ => h.holder call (holdsLock_of_pending hcall))
    (fun update' hupdate => ?_)
    fun update' hupdate => ?_
  · rw [hphase] at hupdate
    cases hupdate
    exact h.pending call update hcall
  · rw [hpublished] at hupdate
    cases hupdate

theorem beginPhase_quiet {request : ContextRequest Contents} {parent : Except String Unit}
    {phase : ContextPhase Contents} (h : beginPhase env request parent = .ok phase) :
    phase.holdsLock = false ∧ phase.published? = none := by
  cases request with
  | add context =>
    obtain ⟨_, -, h⟩ := except_bind_eq_ok h
    obtain ⟨_, -, h⟩ := except_bind_eq_ok h
    cases h
    exact ⟨rfl, rfl⟩
  | importFile path source =>
    obtain ⟨bytes, -, h⟩ := except_bind_eq_ok h
    split at h
    · cases h
    obtain ⟨imported, -, h⟩ := except_bind_eq_ok h
    obtain ⟨_, -, h⟩ := except_bind_eq_ok h
    obtain ⟨_, -, h⟩ := except_bind_eq_ok h
    cases h
    exact ⟨rfl, rfl⟩
  | useContext id =>
    obtain ⟨_, -, h⟩ := except_bind_eq_ok h
    cases h
    exact ⟨rfl, rfl⟩
  | remove id =>
    obtain ⟨_, -, h⟩ := except_bind_eq_ok h
    cases h
    exact ⟨rfl, rfl⟩
  | ensureLocal request =>
    cases h
    exact ⟨rfl, rfl⟩

/-- A call that has read the file holds what it will publish. -/
theorem Guarded.read [DecidableEq Contents] (hfaithful : env.Faithful) (h : state.Guarded env start)
    {call : Nat} (answer : Except String Unit) (fallback clock : Except String String) :
    (state.step env (.read call answer fallback clock)).Guarded env start := by
  rw [ContextState.step]
  split
  · next update hcall =>
    split
    · exact h.fail
    · next before hbefore =>
      obtain rfl := readOptionalContextFile_eq_ok hbefore
      split
      · exact h.fail
      · next next hnext =>
        obtain ⟨hdecodes, hcommitted⟩ := nextContexts_eq_ok hfaithful h.decodes hnext
        refine h.setPhase (fun _ => h.holder call (by rw [hcall]; rfl))
          (fun pending hpending => ?_)
          fun _ hpublished => by cases hpublished
        cases hpending
        exact ⟨rfl, hdecodes, hcommitted call⟩
  · split
    · exact h.setQuiet rfl rfl
    · split
      · exact h.setQuiet rfl rfl
      · split
        · exact h.setQuiet rfl rfl
        · exact h.setQuiet rfl rfl
        · exact h.setQuiet rfl rfl
  · exact h

/-- A call publishes what it has prepared, and no local context over a file. -/
theorem Guarded.publishes [DecidableEq Contents] (h : state.Guarded env start) {call : Nat}
    (answer : Except String Unit) (hevent : state.PublishesNoLocal (.publish call answer)) :
    (state.step env (.publish call answer)).Guarded env start := by
  rw [ContextState.step]
  split
  · next update hcall =>
    split
    · exact h.publish (by rw [hcall]; rfl)
    · exact h.fail
    · exact h.fail
  · next existed contents hcall =>
    split
    · next hpublish =>
      have hfalse : state.canPublish existed = false := by
        simpa [PublishesNoLocal, hcall, ContextPhase.ready?] using hevent
      rw [hfalse] at hpublish
      cases hpublish
    · exact h.setQuiet rfl rfl
    · exact h.setQuiet rfl rfl
  · exact h

/-- **What a step preserves.** -/
theorem Guarded.step [DecidableEq Contents] (hfaithful : env.Faithful) (h : state.Guarded env start)
    (event : ContextEvent Contents) (hevent : state.PublishesNoLocal event) :
    (state.step env event).Guarded env start := by
  cases event with
  | begin call request parent =>
    rw [ContextState.step]
    split
    · split
      · next phase hphase =>
        obtain ⟨hholds, hpublished⟩ := beginPhase_quiet hphase
        exact h.setQuiet hholds hpublished
      · exact h.setQuiet rfl rfl
    · exact h
  | acquire call answer =>
    rw [ContextState.step]
    split
    · split
      · split
        · next hfree => exact h.acquire hfree
        · exact h
      · exact h.setQuiet rfl rfl
    · exact h
  | giveUp call =>
    rw [ContextState.step]
    split
    · exact h.setQuiet rfl rfl
    · exact h
  | read call answer fallback clock => exact h.read hfaithful answer fallback clock
  | compare call answer =>
    rw [ContextState.step]
    split
    · next update hcall =>
      split
      · exact h.fail
      · split
        · exact h.fail
        · exact h.setPending (by rw [hcall]; rfl) rfl rfl
    · exact h
  | prepare call answer =>
    rw [ContextState.step]
    split
    · next update hcall =>
      split
      · exact h.fail
      · split
        · exact h.setPending (by rw [hcall]; rfl) rfl rfl
        · exact h.fail
    · exact h
  | publish call answer => exact h.publishes answer hevent
  | finish call =>
    rw [ContextState.step]
    split
    · next update hcall =>
      refine h.endCall rfl fun update' hupdate => ?_
      cases hupdate
      exact h.published call update (by rw [hcall]; rfl)
    · exact h
  | inspect call answered =>
    rw [ContextState.step]
    split
    · exact h.setQuiet rfl rfl
    · exact h
  | stop call =>
    rw [ContextState.step]
    split
    · exact h
    · exact h.endCall rfl fun _ hpublished => by cases hpublished

theorem Decodes.wellFormed {collection : ContextFile} {file : Option Contents}
    (h : Decodes env collection file) : collection.WellFormed := by
  cases file with
  | none =>
    obtain ⟨exportedAt, rfl⟩ := h
    exact ⟨List.nodup_nil, fun id hid => by cases hid⟩
  | some contents => exact ContextFile.wellFormed_of_validate h.2

/-- An update that a call has returned was published: it increased the revision, and what it made
true holds in the collection until a later update overwrites it. -/
def Reflects (start collection : ContextFile) (log : List ContextCommit) (call : Nat)
    (update : ContextUpdate) : Prop :=
  ∃ later commit earlier, log = later ++ commit :: earlier ∧ commit.call = call ∧
    commit.update = update ∧
    (latestContexts start earlier).revision < commit.collection.revision ∧
    ∀ fact ∈ update.facts, (∀ last ∈ later, ¬ last.update.Overwrites fact) → fact.Holds collection

theorem Guarded.reflects (h : state.Guarded env start) {call : Nat} {update : ContextUpdate}
    (hcall : state.calls call = .returned update) :
    Reflects start (latestContexts start state.log) state.log call update := by
  obtain ⟨collection, hmem⟩ := h.published call update (by rw [hcall]; rfl)
  obtain ⟨later, earlier, hlog⟩ := List.append_of_mem hmem
  have hcommits := h.commits
  rw [hlog] at hcommits
  refine ⟨later, _, earlier, hlog, rfl, rfl, hcommits.committed.increased,
    fun fact hfact hkept => ?_⟩
  rw [hlog]
  exact hcommits.holds hfact hkept

end ContextState

open ContextState

/-- **Context collections lose no update** in any run in which `ensure_local_context` does not come
to publish: the file holds the collection that the published updates have led to, one after the
other under increasing revisions; it is well formed; and every update that was returned is
reflected in it. -/
theorem context_updates_are_kept [DecidableEq Contents] {env : ContextEnv Contents}
    (hfaithful : env.Faithful) {start : ContextFile} {file : Option Contents}
    (hstart : Decodes env start file) {events : List (ContextEvent Contents)}
    (h : Runs.Meets (step env) PublishesNoLocal (fresh file) events) :
    let state := Runs.run (step env) (fresh file) events
    ∃ collection, Decodes env collection state.file ∧ collection.WellFormed ∧
      Commits start state.log ∧ collection = latestContexts start state.log ∧
      ∀ call update, state.calls call = .returned update →
        Reflects start collection state.log call update := by
  have hguarded : (Runs.run (step env) (fresh file) events).Guarded env start :=
    h.invariant
      (guarded_fresh hstart) fun _ event hstate hevent => hstate.step hfaithful event hevent
  exact ⟨_, hguarded.decodes, hguarded.decodes.wellFormed, hguarded.commits, rfl,
    fun _ _ hcall => hguarded.reflects hcall⟩

end Contents

open ContextState

/-! ### A collection as a document -/

/-- An optional text field. -/
def textOfField : Option Value → Option (Option String)
  | none | some .null => some none
  | some value => value.asStr.map some

def contextOfValue (value : Value) : Option ConnectionContext := do
  let id ← (value.get? "id").bind Value.asStr
  let name ← (value.get? "name").bind Value.asStr
  let endpoint ← (value.get? "endpoint").bind Value.asStr
  let expectedCoreId ← textOfField (value.get? "expectedCoreId")
  let color ← textOfField (value.get? "color")
  let credentialRef ← textOfField (value.get? "credentialRef")
  some ⟨id, name, endpoint, expectedCoreId, color, credentialRef⟩

def contextsOfValue (value : Value) : Option ContextFile := do
  let format ← (value.get? "format").bind Value.asStr
  let exportedAt ← (value.get? "exportedAt").bind Value.asStr
  let activeContextId ← textOfField (value.get? "activeContextId")
  let revision ← match value.get? "revision" with
    | none => some 0
    | some revision => revision.asU64
  let contexts ← ((value.get? "contexts").bind Value.asArray).bind (·.mapM contextOfValue)
  some ⟨format, exportedAt, activeContextId, .ofNat revision, contexts⟩

@[simp]
theorem textOfField_textOrNull (text : Option String) :
    textOfField (some (textOrNull text)) = some text := by
  cases text <;> rfl

theorem contextOfValue_toValue (context : ConnectionContext) :
    contextOfValue context.toValue = some context := by
  simp [contextOfValue, ConnectionContext.toValue, Value.get?, Value.asStr]

theorem contextsOfValue_toValue (file : ContextFile) :
    contextsOfValue file.toValue = some file := by
  have hcontexts : (file.contexts.map ConnectionContext.toValue).mapM contextOfValue =
      some file.contexts := by
    induction file.contexts with
    | nil => rfl
    | cons context contexts ih =>
      rw [List.map_cons, List.mapM_cons, contextOfValue_toValue, ih]
      rfl
  have hrevision : (Value.number (.int file.revision.toNat)).asU64 = some file.revision.toNat := by
    simp [Value.asU64, Number.asU64]
  have hformat : file.toValue.get? "format" = some (.string file.format) := by
    simp [ContextFile.toValue, Value.get?]
  have hexported : file.toValue.get? "exportedAt" = some (.string file.exportedAt) := by
    simp [ContextFile.toValue, Value.get?]
  have hactive : file.toValue.get? "activeContextId" = some (textOrNull file.activeContextId) := by
    simp [ContextFile.toValue, Value.get?]
  have hrevisions : file.toValue.get? "revision" =
      some (.number (.int file.revision.toNat)) := by
    simp [ContextFile.toValue, Value.get?]
  have harray : file.toValue.get? "contexts" =
      some (.array (file.contexts.map ConnectionContext.toValue)) := by
    simp [ContextFile.toValue, Value.get?]
  rw [contextsOfValue, hformat, hexported, hactive, hrevisions, harray]
  simp [Value.asStr, Value.asArray, hcontexts, hrevision]

/-- The collection file of a client for which every address is one of a host. -/
def documentEnv : ContextEnv Value where
  path := "contexts.json"
  parseUrl _ := some ⟨"http", some "127.0.0.1", "", none, none, none, []⟩
  size _ := 0
  parseContexts value :=
    match contextsOfValue value with
    | some file => .ok file
    | none => .error "missing field"
  parseDocument := .ok
  fromDocument value :=
    match contextsOfValue value with
    | some file => .ok file
    | none => .error "missing field"
  render := ContextFile.toValue
  renderDocument := id

theorem documentEnv_faithful : documentEnv.Faithful := by
  intro file
  show (match contextsOfValue file.toValue with
    | some file => Except.ok file
    | none => Except.error "missing field") = .ok file
  rw [contextsOfValue_toValue]

def laptopContext : ConnectionContext :=
  ⟨"laptop", "Laptop", "http://laptop:8787", none, none, none⟩

/-- The steps of an operation on a collection that nobody else uses. -/
def transactSteps (call : Nat) (clock : Except String String) : List (ContextEvent Value) :=
  [.acquire call (.ok ()), .read call (.ok ()) clock clock, .compare call (.ok ()),
    .prepare call (.ok ()), .publish call (.ok ()), .finish call]

/-- A context is added to an absent collection. -/
def addingCalls : List (ContextEvent Value) :=
  .begin 0 (.add laptopContext) (.ok ()) :: transactSteps 0 (.ok "T")

theorem added_context_is_kept :
    let state := Runs.run (step documentEnv) (fresh none) addingCalls
    ∃ collection, Decodes documentEnv collection state.file ∧ collection.WellFormed ∧
      Commits (emptyContexts "") state.log ∧
      collection = latestContexts (emptyContexts "") state.log ∧
      ∀ call update, state.calls call = .returned update →
        Reflects (emptyContexts "") collection state.log call update := by
  have hstart : Decodes documentEnv (emptyContexts "") none := ⟨"", rfl⟩
  exact context_updates_are_kept documentEnv_faithful hstart (by decide)

def localRequest : LocalRequest := ⟨"core", "http://127.0.0.1:8787", "keychain:kakune"⟩

/-- `ensure_local_context` has read the collection before a context is added, and publishes it
afterwards. -/
def racingLocal : List (ContextEvent Value) :=
  [.begin 0 (.ensureLocal localRequest) (.ok ()), .inspect 0 true,
    .read 0 (.ok ()) (.ok "T") (.ok "T"), .begin 1 (.add laptopContext) (.ok ())] ++
      transactSteps 1 (.ok "T") ++ [.publish 0 (.ok ())]

/-- **An update is lost**: both calls have returned, the added context is gone, and the revision is
the one before both. -/
theorem local_context_loses_an_update : documentEnv.Faithful ∧
    let state := Runs.run (step documentEnv) (fresh (some (emptyContexts "").toValue)) racingLocal
    state.calls 1 = .returned (.add laptopContext) ∧ state.calls 0 = .ensured true ∧
      ∃ collection, Decodes documentEnv collection state.file ∧
        laptopContext ∉ collection.contexts ∧ collection.revision = 0 := by
  have hfile : (Runs.run (step documentEnv) (fresh (some (emptyContexts "").toValue))
      racingLocal).file = some (ContextFile.toValue ⟨"kakune-contexts/v1", "T", some "local", 0,
        [localRequest.context]⟩) := by decide
  refine ⟨documentEnv_faithful, rfl, rfl, ⟨"kakune-contexts/v1", "T", some "local", 0,
    [localRequest.context]⟩, ?_, by decide, rfl⟩
  rw [hfile]
  exact ⟨documentEnv_faithful _, by decide⟩

end KakuneCore
