import KakuneCore.Lifecycle.Control
import KakuneCore.Relational.Runs

/-!
# Authorised control

The control protocol against attackers. They may send, replay, drop and mix any messages; only a
code under the capability they cannot make. Hence a code that a party accepts was made by a party
that holds the capability, and **the code tells what it was made for**.
-/

namespace KakuneCore

open Frames

/-- What a code of the protocol stands for. -/
inductive ControlProof
  | server (challenge : ControlChallenge)
  | request (challenge : ControlChallenge) (operation : ControlOperation) (arguments : Bytes)
  | response (challenge : ControlChallenge) (operation : ControlOperation)
      (arguments result : Bytes)
  deriving DecidableEq

namespace ControlProof

variable {δ : Type} (library : ControlLibrary δ) (capability : Capability)

def challenge : ControlProof → ControlChallenge
  | .server challenge => challenge
  | .request challenge _ _ => challenge
  | .response challenge _ _ _ => challenge

def role : ControlProof → String
  | .server _ => "server-proof"
  | .request _ _ _ => "client-request"
  | .response _ _ _ _ => "server-response"

/-- The fields behind the role. -/
def payload : ControlProof → List Bytes
  | .server _ => []
  | .request _ operation arguments => [asciiBytes operation.asStr, arguments]
  | .response _ operation arguments result => [asciiBytes operation.asStr, arguments, result]

def fields (proof : ControlProof) : List Bytes :=
  baseFields library proof.challenge proof.role ++ proof.payload

/-- The text under the code. -/
def text (proof : ControlProof) : Bytes := frames u32Lengths (proof.fields library)

/-- The code, as each party calculates it. -/
def tag : ControlProof → Except LifecycleError δ
  | .server challenge => serverProof library capability challenge
  | .request challenge operation arguments =>
    clientRequestProof library capability challenge operation arguments
  | .response challenge operation arguments result =>
    serverResponseProof library capability challenge operation arguments result

variable {library capability} {proof proof' : ControlProof} {code : δ}

theorem calculateProof_eq_ok {fields : List Bytes}
    (h : calculateProof library capability fields = .ok code) :
    (∀ field ∈ fields, field.length < 2 ^ 32) ∧
      code = library.hmac capability (frames u32Lengths fields) := by
  unfold calculateProof at h
  by_cases hlong : (fields.any fun field => decide (2 ^ 32 ≤ field.length)) = true
  · rw [if_pos hlong] at h
    cases h
  · rw [if_neg hlong] at h
    refine ⟨fun field hfield => ?_, (Except.ok.inj h).symm⟩
    have hnot : ¬ 2 ^ 32 ≤ field.length := by
      intro hle
      exact hlong (List.any_eq_true.mpr ⟨field, hfield, decide_eq_true hle⟩)
    omega

theorem protocolVersion_of_validate {challenge : ControlChallenge} {valid : Unit}
    (h : challenge.validate = .ok valid) : challenge.protocolVersion = controlProtocolVersion := by
  by_contra hne
  unfold ControlChallenge.validate at h
  rw [if_pos hne] at h
  cases h

/-- Every code is one over the text, for a valid challenge. -/
theorem tag_eq_ok (h : proof.tag library capability = .ok code) :
    (∀ field ∈ proof.fields library, field.length < 2 ^ 32) ∧
      code = library.hmac capability (proof.text library) ∧
      proof.challenge.protocolVersion = controlProtocolVersion := by
  cases proof with
  | server challenge =>
    obtain ⟨_, hvalid, h⟩ := except_bind_eq_ok h
    obtain ⟨hshort, hcode⟩ := calculateProof_eq_ok h
    have hfields :
        (server challenge).fields library = baseFields library challenge "server-proof" :=
      List.append_nil _
    rw [text, hfields]
    exact ⟨hshort, hcode, protocolVersion_of_validate hvalid⟩
  | request challenge operation arguments =>
    obtain ⟨-, -, h⟩ := except_bind_eq_ok h
    obtain ⟨_, hvalid, h⟩ := except_bind_eq_ok h
    obtain ⟨hshort, hcode⟩ := calculateProof_eq_ok h
    exact ⟨hshort, hcode, protocolVersion_of_validate hvalid⟩
  | response challenge operation arguments result =>
    obtain ⟨-, -, h⟩ := except_bind_eq_ok h
    obtain ⟨-, -, h⟩ := except_bind_eq_ok h
    obtain ⟨_, hvalid, h⟩ := except_bind_eq_ok h
    obtain ⟨hshort, hcode⟩ := calculateProof_eq_ok h
    exact ⟨hshort, hcode, protocolVersion_of_validate hvalid⟩

theorem asStr_injective {operation operation' : ControlOperation}
    (h : asciiBytes operation.asStr = asciiBytes operation'.asStr) : operation = operation' := by
  revert h
  cases operation <;> cases operation' <;> decide

/-- The fields of a proof tell the proof, but for the version, which is the same for all. -/
theorem fields_injective (h : proof.fields library = proof'.fields library)
    (hversion : proof.challenge.protocolVersion = proof'.challenge.protocolVersion) :
    proof = proof' := by
  simp only [fields, baseFields, List.cons_append, List.nil_append, List.cons.injEq, true_and] at h
  obtain ⟨hclient, hserver, hinstance, howner, hrole, hpayload⟩ := h
  obtain ⟨howner, hmode⟩ := library.ownerTranscript_injective howner
  have hchallenge : proof.challenge = proof'.challenge := by
    generalize proof.challenge = c at *
    generalize proof'.challenge = c' at *
    obtain ⟨version, ⟨instanceId, owner, mode⟩, clientNonce, serverNonce⟩ := c
    obtain ⟨version', ⟨instanceId', owner', mode'⟩, clientNonce', serverNonce'⟩ := c'
    obtain rfl : version = version' := hversion
    obtain rfl : owner = owner' := howner
    obtain rfl : mode = mode' := hmode
    obtain rfl : instanceId = instanceId' := Vector.toList_inj.mp hinstance
    obtain rfl : clientNonce = clientNonce' := Vector.toList_inj.mp hclient
    obtain rfl : serverNonce = serverNonce' := Vector.toList_inj.mp hserver
    rfl
  have hasked : asciiBytes "server-proof" ≠ asciiBytes "client-request" := by decide
  have hanswered : asciiBytes "server-proof" ≠ asciiBytes "server-response" := by decide
  have hdirection : asciiBytes "client-request" ≠ asciiBytes "server-response" := by decide
  -- the role tells the kind of the proof, and the payload its arguments
  cases proof with
  | server challenge =>
    cases proof' with
    | server challenge' => exact congrArg server hchallenge
    | request challenge' operation' arguments' => exact absurd hrole hasked
    | response challenge' operation' arguments' result' => exact absurd hrole hanswered
  | request challenge operation arguments =>
    cases proof' with
    | server challenge' => exact absurd hrole.symm hasked
    | request challenge' operation' arguments' =>
      simp only [payload, List.cons.injEq, and_true] at hpayload
      obtain rfl := asStr_injective hpayload.1
      obtain rfl := hpayload.2
      exact congrArg (request · operation arguments) hchallenge
    | response challenge' operation' arguments' result' => exact absurd hrole hdirection
  | response challenge operation arguments result =>
    cases proof' with
    | server challenge' => exact absurd hrole.symm hanswered
    | request challenge' operation' arguments' => exact absurd hrole.symm hdirection
    | response challenge' operation' arguments' result' =>
      simp only [payload, List.cons.injEq, and_true] at hpayload
      obtain rfl := asStr_injective hpayload.1
      obtain ⟨rfl, rfl⟩ := hpayload.2
      exact congrArg (response · operation arguments result) hchallenge

/-- **No text stands under the codes of two proofs**: neither of two roles, nor of two requests, nor
of two challenges. -/
theorem text_injective (h : proof.tag library capability = .ok code) {code' : δ}
    (h' : proof'.tag library capability = .ok code')
    (htext : proof.text library = proof'.text library) : proof = proof' := by
  obtain ⟨hshort, -, hversion⟩ := tag_eq_ok h
  obtain ⟨hshort', -, hversion'⟩ := tag_eq_ok h'
  exact fields_injective (frames_injective (Nat.zero_lt_succ 3) hshort hshort' htext)
    (hversion.trans hversion'.symm)

end ControlProof

/-! ### The parties -/

/-- Where `serve_control` stands. -/
inductive ServeStage
  | listening
  | accepted
  | challenged (session : SingleRequestSession)
  | returned

/-- A running `serve_control`. -/
structure ControlServer where
  context : ControlContext
  stage : ServeStage := .listening
  used : List Nonce := []
  /-- The sender of the stop signal has not been taken. -/
  stopSender : Bool := true

inductive CallStage
  | awaitingChallenge
  | awaitingResponse (challenge : ControlChallenge)
  | returned (outcome : Except LifecycleError Bytes)

/-- A running `request_control`. -/
structure ControlCall where
  request : ControlRequest
  clientNonce : Nonce
  stage : CallStage

structure AuthorisedRequest where
  challenge : ControlChallenge
  operation : ControlOperation
  arguments : Bytes

/-- A Core, the calls of clients that hold its capability, and what they have done. -/
structure ControlWorld where
  server : ControlServer
  calls : Nat → Option ControlCall := fun _ => none
  /-- The proofs made to be sent: by the Core (`none`) or in a call. -/
  made : List (Option Nat × ControlProof) := []
  /-- The requests that `verify_request` let pass. -/
  authorised : List AuthorisedRequest := []
  /-- The requests on which the stop was signalled. -/
  stops : List AuthorisedRequest := []

/-- A step of a party. What it receives, and whether it can send, is up to the network. -/
inductive ControlEvent (δ : Type)
  | accept (loopback : Except LifecycleError Bool)
  | hello (received : Received δ) (random : Except LifecycleError Nonce)
      (sent : Except LifecycleError Unit) (expired : Bool)
  | request (received : Received δ) (phase : LifecyclePhase) (expired responseExpired : Bool)
      (sent : Except LifecycleError Unit)
  | shutdown
  | connect (call : Nat) (request : ControlRequest) (expired : Bool)
      (connected : Except LifecycleError Unit) (random : Except LifecycleError Nonce)
      (sent : Except LifecycleError Unit)
  | challenge (call : Nat) (received : Received δ) (sent : Except LifecycleError Unit)
  | response (call : Nat) (received : Received δ)

namespace ControlWorld

variable {δ : Type} [DecidableEq δ] (library : ControlLibrary δ) (capability : Capability)
  (world : ControlWorld)

def start (context : ControlContext) : ControlWorld := { server := { context } }

def setStage (stage : ServeStage) : ControlWorld :=
  { world with server := { world.server with stage } }

def setCall (call : Nat) (value : ControlCall) : ControlWorld :=
  { world with calls := Function.update world.calls call (some value) }

/-- The loop of `serve_control` takes a connection. -/
def accept (loopback : Except LifecycleError Bool) : ControlWorld :=
  match world.server.stage, loopback with
  | .listening, .error _ => world.setStage .returned
  | .listening, .ok true => world.setStage .accepted
  | _, _ => world

/-- `handle_control_connection` up to the session. -/
def hello (received : Received δ) (random : Except LifecycleError Nonce)
    (sent : Except LifecycleError Unit) (expired : Bool) : ControlWorld :=
  match world.server.stage with
  | .accepted =>
    match answerHello library capability world.server.context received random with
    | .error _ => world.setStage .listening
    | .ok (challenge, _) =>
      let world := { world with made := world.made ++ [(none, ControlProof.server challenge)] }
      match sent.bind fun _ => openSession world.server.used challenge expired with
      | .error _ => world.setStage .listening
      | .ok (session, used) =>
        { world with server := { world.server with stage := .challenged session, used } }
  | _ => world

/-- The rest of `handle_control_connection`, and the signal of `serve_control`. -/
def request (received : Received δ) (phase : LifecyclePhase) (expired responseExpired : Bool)
    (sent : Except LifecycleError Unit) : ControlWorld :=
  match world.server.stage with
  | .challenged session =>
    let world := world.setStage .listening
    match readRequest received with
    | .error _ => world
    | .ok (operation, arguments, proof) =>
      let (verdict, session) :=
        session.verifyRequest library capability operation arguments proof expired
      match verdict with
      | .error _ => world
      | .ok () =>
        let entry : AuthorisedRequest := { challenge := session.challenge, operation, arguments }
        let world := { world with authorised := world.authorised ++ [entry] }
        let (result, shouldStop) := answerRequest phase operation arguments
        match session.responseProof library capability operation arguments result
            responseExpired with
        | .error _ => world
        | .ok _ =>
          let response := ControlProof.response session.challenge operation arguments result
          let world := { world with made := world.made ++ [(none, response)] }
          match sent with
          | .error _ => world
          | .ok () =>
            if shouldStop && world.server.stopSender then
              { world with
                server := { world.server with stopSender := false }
                stops := world.stops ++ [entry] }
            else world
  | _ => world

/-- `request_control` up to the hello. -/
def connect (call : Nat) (request : ControlRequest) (expired : Bool)
    (connected : Except LifecycleError Unit) (random : Except LifecycleError Nonce)
    (sent : Except LifecycleError Unit) : ControlWorld :=
  match world.calls call with
  | some _ => world
  | none =>
    match request.start expired connected random with
    | .error _ => world
    | .ok clientNonce =>
      world.setCall call
        { request, clientNonce
          stage := sent.casesOn
            (fun error => .returned (.error error)) fun _ => .awaitingChallenge }

/-- `request_control` up to the request. -/
def challenge (call : Nat) (received : Received δ) (sent : Except LifecycleError Unit) :
    ControlWorld :=
  match world.calls call with
  | some { request, clientNonce, stage := .awaitingChallenge } =>
    match request.answerChallenge library capability clientNonce received with
    | .error error => world.setCall call { request, clientNonce, stage := .returned (.error error) }
    | .ok (challenge, _) =>
      let proof := ControlProof.request challenge request.operation request.arguments
      { world with made := world.made ++ [(some call, proof)] }.setCall call
        { request, clientNonce
          stage := sent.casesOn (fun error => .returned (.error error))
            fun _ => .awaitingResponse challenge }
  | _ => world

/-- The rest of `request_control`. -/
def response (call : Nat) (received : Received δ) : ControlWorld :=
  match world.calls call with
  | some { request, clientNonce, stage := .awaitingResponse challenge } =>
    world.setCall call
      { request, clientNonce
        stage := .returned (request.readResponse library capability challenge received) }
  | _ => world

def step (world : ControlWorld) : ControlEvent δ → ControlWorld
  | .accept loopback => world.accept loopback
  | .hello received random sent expired =>
    world.hello library capability received random sent expired
  | .request received phase expired responseExpired sent =>
    world.request library capability received phase expired responseExpired sent
  | .shutdown => world.setStage .returned
  | .connect call request expired connected random sent =>
    world.connect call request expired connected random sent
  | .challenge call received sent => world.challenge library capability call received sent
  | .response call received => world.response library capability call received

end ControlWorld

/-! ### The attackers -/

section Attackers

variable {δ : Type}

def ControlMessage.code : ControlMessage δ → Option δ
  | .clientHello _ _ _ => none
  | .serverChallenge _ _ _ _ _ proof => some proof
  | .clientRequest _ _ proof => some proof
  | .serverResponse _ _ proof => some proof

def ControlEvent.received : ControlEvent δ → Option (ControlMessage δ)
  | .hello received _ _ _ | .request received _ _ _ _ | .challenge _ received _
  | .response _ received => received.toOption
  | .accept _ | .shutdown | .connect _ _ _ _ _ _ => none

/-- **What attackers can do.** A code that a party receives is one that a party made, or no code
under the capability at all. -/
def ControlWorld.Feasible (library : ControlLibrary δ) (capability : Capability)
    (world : ControlWorld) (event : ControlEvent δ) : Prop :=
  ∀ message code, event.received = some message → message.code = some code →
    ∀ text, library.hmac capability text = code → ∃ entry ∈ world.made, entry.2.text library = text

end Attackers

/-! ### What the parties check -/

section Checks

variable {δ : Type} {library : ControlLibrary δ} {capability : Capability}
  {challenge : ControlChallenge} {operation : ControlOperation} {arguments result : Bytes}
  {proof : δ} {expired : Bool}

theorem openSession_eq_ok {used used' : List Nonce} {session : SingleRequestSession}
    (h : openSession used challenge expired = .ok (session, used')) :
    challenge.serverNonce ∉ used ∧ session = { challenge } ∧
      used' = challenge.serverNonce :: used := by
  obtain ⟨_, -, h⟩ := except_bind_eq_ok h
  cases expired with
  | true => cases h
  | false =>
    by_cases hused : challenge.serverNonce ∈ used
    · simp only [Bool.false_eq_true, if_false, if_pos hused] at h
      cases h
    · by_cases hfull : maxUsedControlChallenges ≤ used.length
      · simp only [Bool.false_eq_true, if_false, if_neg hused, if_pos hfull] at h
        cases h
      · simp only [Bool.false_eq_true, if_false, if_neg hused, if_neg hfull] at h
        cases h
        exact ⟨hused, rfl, rfl⟩

theorem answerClientHello_eq_ok {context : ControlContext} {clientNonce : Nonce}
    {random : Except LifecycleError Nonce}
    (h : ControlChallenge.answerClientHello context clientNonce random = .ok challenge) :
    challenge.context = context := by
  unfold ControlChallenge.answerClientHello at h
  by_cases hzero : isZero clientNonce = true
  · rw [if_pos hzero] at h
    cases h
  · rw [if_neg hzero] at h
    obtain ⟨serverNonce, -, h⟩ := except_bind_eq_ok h
    obtain ⟨_, -, h⟩ := except_bind_eq_ok h
    cases h
    rfl

/-- The Core challenges for its own context. -/
theorem answerHello_eq_ok {context : ControlContext} {received : Received δ}
    {random : Except LifecycleError Nonce}
    (h : answerHello library capability context received random = .ok (challenge, proof)) :
    challenge.context = context ∧
      (ControlProof.server challenge).tag library capability = .ok proof := by
  obtain ⟨message, -, h⟩ := except_bind_eq_ok h
  cases message with
  | clientHello protocolVersion instanceId clientNonce =>
    dsimp only at h
    by_cases hother : protocolVersion ≠ controlProtocolVersion ∨ instanceId ≠ context.instanceId
    · rw [if_pos hother] at h
      cases h
    · rw [if_neg hother] at h
      obtain ⟨challenge', hchallenge, h⟩ := except_bind_eq_ok h
      obtain ⟨proof', hproof, h⟩ := except_bind_eq_ok h
      cases h
      exact ⟨answerClientHello_eq_ok hchallenge, hproof⟩
  | serverChallenge | clientRequest | serverResponse => cases h

theorem readRequest_eq_ok {received : Received δ}
    (h : readRequest received = .ok (operation, arguments, proof)) :
    ∃ name, received = .ok (.clientRequest name arguments proof) := by
  obtain ⟨message, hmessage, h⟩ := except_bind_eq_ok h
  cases message with
  | clientRequest name arguments' proof' =>
    obtain ⟨operation', -, h⟩ := except_bind_eq_ok h
    cases h
    exact ⟨name, hmessage⟩
  | clientHello | serverChallenge | serverResponse => cases h

theorem responseProof_eq_ok {session : SingleRequestSession}
    (h : session.responseProof library capability operation arguments result expired =
      .ok proof) :
    (ControlProof.response session.challenge operation arguments result).tag library capability =
      .ok proof := by
  cases expired with
  | true => cases h
  | false => exact h

variable [DecidableEq δ]

theorem verifyProof_eq_ok {expected supplied : δ} {valid : Unit}
    (h : verifyProof expected supplied = .ok valid) : expected = supplied := by
  by_contra hne
  unfold verifyProof at h
  rw [if_neg hne] at h
  cases h

/-- A request that passes has the code of this very challenge. -/
theorem verifyRequest_eq_ok {session : SingleRequestSession} {valid : Unit}
    (h : (session.verifyRequest library capability operation arguments proof expired).1 =
      .ok valid) :
    session.challenge.context.mode.allows operation = true ∧
      (ControlProof.request session.challenge operation arguments).tag library capability =
        .ok proof := by
  unfold SingleRequestSession.verifyRequest at h
  dsimp only at h
  by_cases hconsumed : session.consumed = true
  · rw [if_pos hconsumed] at h
    cases h
  · rw [if_neg hconsumed] at h
    cases expired with
    | true => cases h
    | false =>
      rw [if_neg Bool.false_ne_true] at h
      by_cases hallows : session.challenge.context.mode.allows operation = false
      · rw [if_pos hallows] at h
        cases h
      · rw [if_neg hallows] at h
        obtain ⟨expected, hexpected, h⟩ := except_bind_eq_ok h
        obtain rfl := verifyProof_eq_ok h
        exact ⟨Bool.not_eq_false _ ▸ hallows, hexpected⟩

/-- A client asks in its own context, and for its own nonce. -/
theorem answerChallenge_eq_ok {request : ControlRequest} {clientNonce : Nonce}
    {received : Received δ}
    (h : request.answerChallenge library capability clientNonce received =
      .ok (challenge, proof)) :
    challenge.context = request.context ∧ challenge.clientNonce = clientNonce ∧
      (ControlProof.request challenge request.operation request.arguments).tag library capability =
        .ok proof := by
  obtain ⟨message, -, h⟩ := except_bind_eq_ok h
  cases message with
  | serverChallenge protocolVersion instanceId owner mode serverNonce answer =>
    dsimp only at h
    by_cases hother : protocolVersion ≠ controlProtocolVersion ∨
        instanceId ≠ request.context.instanceId ∨ owner ≠ request.context.owner ∨
        mode ≠ request.context.mode
    · rw [if_pos hother] at h
      cases h
    · rw [if_neg hother] at h
      obtain ⟨_, -, h⟩ := except_bind_eq_ok h
      obtain ⟨_, -, h⟩ := except_bind_eq_ok h
      obtain ⟨_, -, h⟩ := except_bind_eq_ok h
      obtain ⟨proof', hproof, h⟩ := except_bind_eq_ok h
      cases h
      exact ⟨rfl, rfl, hproof⟩
  | clientHello | clientRequest | serverResponse => cases h

/-- The result a client accepts has the code of its own challenge and request. -/
theorem readResponse_eq_ok {request : ControlRequest} {received : Received δ}
    (h : request.readResponse library capability challenge received = .ok result) :
    ∃ name code, received = .ok (.serverResponse name result code) ∧
      (ControlProof.response challenge request.operation request.arguments result).tag library
        capability = .ok code := by
  obtain ⟨message, hmessage, h⟩ := except_bind_eq_ok h
  cases message with
  | serverResponse name result' code =>
    dsimp only at h
    by_cases hother : name ≠ request.operation.asStr
    · rw [if_pos hother] at h
      cases h
    · rw [if_neg hother] at h
      obtain ⟨expected, hexpected, h⟩ := except_bind_eq_ok h
      obtain ⟨_, hverify, h⟩ := except_bind_eq_ok h
      obtain rfl := Except.ok.inj h
      exact ⟨name, code, hmessage, verifyProof_eq_ok hverify ▸ hexpected⟩
  | clientHello | serverChallenge | clientRequest => cases h

end Checks

end KakuneCore
