import KakuneCore.Encoding.Frames
import KakuneCore.Lifecycle.Admission

/-!
# Control of a running Core

The local control protocol. A client and a Core share a capability, the key of a message
authentication code. The Core answers the nonce of a client with a nonce of its own and proves that
it holds the capability; the client proves it **for one request**, and the Core for its result.
Every proof is a code over all that has been agreed on, and over its role.
-/

namespace KakuneCore

open Frames

abbrev Nonce : Type := Vector UInt8 32

abbrev Capability : Type := Vector UInt8 32

abbrev Uuid : Type := Vector UInt8 16

def controlProtocolVersion : Nat := 1

structure ControlContext where
  instanceId : Uuid
  owner : OwnerIdentity
  mode : CoreMode
  deriving DecidableEq

structure ControlChallenge where
  protocolVersion : Nat
  context : ControlContext
  clientNonce : Nonce
  serverNonce : Nonce
  deriving DecidableEq

/-- A nonce of zeros is refused. -/
def isZero (nonce : Nonce) : Bool := nonce.toList.all (· = 0)

namespace ControlChallenge

def validate (challenge : ControlChallenge) : Except LifecycleError Unit := do
  if challenge.protocolVersion ≠ controlProtocolVersion then throw .authenticationFailed
  else
    challenge.context.owner.validate
    if isZero challenge.clientNonce || isZero challenge.serverNonce then throw .authenticationFailed
    else pure ()

def answerClientHello (context : ControlContext) (clientNonce : Nonce)
    (random : Except LifecycleError Nonce) : Except LifecycleError ControlChallenge := do
  if isZero clientNonce then throw .authenticationFailed
  else
    let serverNonce ← random
    let challenge : ControlChallenge :=
      { protocolVersion := controlProtocolVersion, context, clientNonce, serverNonce }
    challenge.validate
    pure challenge

end ControlChallenge

inductive ControlOperation
  | readiness
  | gracefulStop
  | serviceShutdown
  deriving DecidableEq, Repr

def ControlOperation.asStr : ControlOperation → String
  | .readiness => "readiness"
  | .gracefulStop => "graceful-stop"
  | .serviceShutdown => "service-shutdown"

def parseOperation (value : String) : Except LifecycleError ControlOperation :=
  if value = "readiness" then .ok .readiness
  else if value = "graceful-stop" then .ok .gracefulStop
  else if value = "service-shutdown" then .ok .serviceShutdown
  else .error .authenticationFailed

def validateSize (size : Nat) : Except LifecycleError Unit :=
  if maxControlMessageBytes < size then .error (.messageTooLarge maxControlMessageBytes) else .ok ()

def validateControlPayload (operation : String) (arguments : Bytes) : Except LifecycleError Unit :=
  if operation = "" ∨ 256 < operation.utf8ByteSize then
    .error (.unsafeOwnership "control operation name has an invalid length")
  else validateSize arguments.length

/-! ### Proofs -/

/-- The libraries for codes and JSON. The code is taken as an injective function of the text, for
each capability. -/
structure ControlLibrary (δ : Type) where
  hmac : Capability → Bytes → δ
  hmac_injective : ∀ capability, Function.Injective (hmac capability)
  /-- The JSON of an `OwnerTranscript`, from which the owner and the mode can be read. -/
  ownerTranscript : OwnerIdentity → CoreMode → Bytes
  ownerTranscript_injective : ∀ {owner owner' : OwnerIdentity} {mode mode' : CoreMode},
    ownerTranscript owner mode = ownerTranscript owner' mode' → owner = owner' ∧ mode = mode'

/-- `u32::to_be_bytes`. -/
def bigEndian (n : Nat) : Bytes :=
  [.ofNat (n / 2 ^ 24), .ofNat (n / 2 ^ 16), .ofNat (n / 2 ^ 8), .ofNat n]

theorem ofNat_eq_ofNat {m n : Nat} (h : UInt8.ofNat m = UInt8.ofNat n) : m % 256 = n % 256 := by
  have hnat := congrArg UInt8.toNat h
  rwa [UInt8.toNat_ofNat', UInt8.toNat_ofNat'] at hnat

/-- The lengths before the fields of a transcript. -/
def u32Lengths : LengthCode UInt8 where
  bound := 2 ^ 32
  width := 4
  code := bigEndian
  length_code _ := rfl
  code_injective := by
    intro m n hm hn h
    simp only [bigEndian, List.cons.injEq, and_true] at h
    obtain ⟨h₁, h₂, h₃, h₄⟩ := h
    have := ofNat_eq_ofNat h₁
    have := ofNat_eq_ofNat h₂
    have := ofNat_eq_ofNat h₃
    have := ofNat_eq_ofNat h₄
    omega

section Proofs

variable {δ : Type} (library : ControlLibrary δ) (capability : Capability)

def baseFields (challenge : ControlChallenge) (role : String) : List Bytes :=
  [[.ofNat controlProtocolVersion], challenge.clientNonce.toList, challenge.serverNonce.toList,
    challenge.context.instanceId.toList,
    library.ownerTranscript challenge.context.owner challenge.context.mode, asciiBytes role]

def calculateProof (fields : List Bytes) : Except LifecycleError δ :=
  if fields.any fun field => 2 ^ 32 ≤ field.length then
    .error (.messageTooLarge maxControlMessageBytes)
  else .ok (library.hmac capability (frames u32Lengths fields))

def serverProof (challenge : ControlChallenge) : Except LifecycleError δ := do
  challenge.validate
  calculateProof library capability (baseFields library challenge "server-proof")

def clientRequestProof (challenge : ControlChallenge) (operation : ControlOperation)
    (arguments : Bytes) : Except LifecycleError δ := do
  validateControlPayload operation.asStr arguments
  challenge.validate
  calculateProof library capability
    (baseFields library challenge "client-request" ++ [asciiBytes operation.asStr, arguments])

def serverResponseProof (challenge : ControlChallenge) (operation : ControlOperation)
    (arguments result : Bytes) : Except LifecycleError δ := do
  validateControlPayload operation.asStr arguments
  validateSize result.length
  challenge.validate
  calculateProof library capability
    (baseFields library challenge "server-response" ++
      [asciiBytes operation.asStr, arguments, result])

def verifyProof [DecidableEq δ] (expected supplied : δ) : Except LifecycleError Unit :=
  if expected = supplied then .ok () else .error .authenticationFailed

end Proofs

/-! ### The server -/

def maxUsedControlChallenges : Nat := 65536

structure SingleRequestSession where
  challenge : ControlChallenge
  consumed : Bool := false

/-- `ChallengeRegistry::open_session`, with the nonces in use. -/
def openSession (used : List Nonce) (challenge : ControlChallenge) (expired : Bool) :
    Except LifecycleError (SingleRequestSession × List Nonce) := do
  challenge.validate
  if expired then throw (.deadlineExpired "control challenge")
  else if challenge.serverNonce ∈ used then throw .authenticationFailed
  else if maxUsedControlChallenges ≤ used.length then
    throw (.unsafeOwnership "control replay guard reached its bounded capacity")
  else pure ({ challenge }, challenge.serverNonce :: used)

/-- The modes in which an operation is allowed. -/
def CoreMode.allows (mode : CoreMode) : ControlOperation → Bool
  | .readiness => true
  | .gracefulStop => mode = .userDaemon
  | .serviceShutdown => mode = .systemService

namespace SingleRequestSession

variable {δ : Type} [DecidableEq δ] (library : ControlLibrary δ) (capability : Capability)
  (session : SingleRequestSession)

/-- `verify_request`, which consumes the session in any case. -/
def verifyRequest (operation : ControlOperation) (arguments : Bytes) (proof : δ) (expired : Bool) :
    Except LifecycleError Unit × SingleRequestSession :=
  let verdict : Except LifecycleError Unit := do
    if session.consumed then throw .challengeConsumed
    else if expired then throw (.deadlineExpired "control challenge")
    else if session.challenge.context.mode.allows operation = false then
      throw (.modeNotControllable session.challenge.context.mode.text)
    else
      let expected ← clientRequestProof library capability session.challenge operation arguments
      verifyProof expected proof
  (verdict, { session with consumed := true })

def responseProof (operation : ControlOperation) (arguments result : Bytes) (expired : Bool) :
    Except LifecycleError δ :=
  if expired then .error (.deadlineExpired "control response")
  else serverResponseProof library capability session.challenge operation arguments result

end SingleRequestSession

inductive ControlMessage (δ : Type)
  | clientHello (protocolVersion : Nat) (instanceId : Uuid) (clientNonce : Nonce)
  | serverChallenge (protocolVersion : Nat) (instanceId : Uuid) (owner : OwnerIdentity)
      (mode : CoreMode) (serverNonce : Nonce) (proof : δ)
  | clientRequest (operation : String) (arguments : Bytes) (proof : δ)
  | serverResponse (operation : String) (result : Bytes) (proof : δ)

/-- What `read_control_message` returns. -/
abbrev Received (δ : Type) : Type := Except LifecycleError (ControlMessage δ)

section Handlers

variable {δ : Type} [DecidableEq δ] (library : ControlLibrary δ) (capability : Capability)

/-- `handle_control_connection` up to the challenge. -/
def answerHello (context : ControlContext) (received : Received δ)
    (random : Except LifecycleError Nonce) : Except LifecycleError (ControlChallenge × δ) := do
  match ← received with
  | .clientHello protocolVersion instanceId clientNonce =>
    if protocolVersion ≠ controlProtocolVersion ∨ instanceId ≠ context.instanceId then
      throw .authenticationFailed
    else
      let challenge ← ControlChallenge.answerClientHello context clientNonce random
      let proof ← serverProof library capability challenge
      pure (challenge, proof)
  | _ => throw .authenticationFailed

/-- The request that a connection brings. -/
def readRequest (received : Received δ) : Except LifecycleError (ControlOperation × Bytes × δ) := do
  match ← received with
  | .clientRequest operation arguments proof =>
    let operation ← parseOperation operation
    pure (operation, arguments, proof)
  | _ => throw .authenticationFailed

/-- The result of an operation, and whether the Core is to stop. -/
def answerRequest (phase : LifecyclePhase) (operation : ControlOperation) (arguments : Bytes) :
    Bytes × Bool :=
  match operation with
  | .readiness =>
    if arguments = asciiBytes "prepared" ∧ phase = .starting then (asciiBytes "prepared", false)
    else if arguments = asciiBytes "ready" ∧ phase = .ready then (asciiBytes "ready", false)
    else (asciiBytes "not-ready", false)
  | .gracefulStop | .serviceShutdown => (asciiBytes "accepted", true)

/-! ### The client -/

def verifyClientOwner (clientOwner liveInstanceOwner : OwnerIdentity) :
    Except LifecycleError Unit := do
  clientOwner.validate
  liveInstanceOwner.validate
  if clientOwner = liveInstanceOwner then pure () else throw .wrongOwner

/-- A call of `request_control`. -/
structure ControlRequest where
  context : ControlContext
  clientOwner : OwnerIdentity
  operation : ControlOperation
  arguments : Bytes

namespace ControlRequest

variable (request : ControlRequest)

/-- `request_control` up to the hello: the nonce of the client. -/
def start (expired : Bool) (connected : Except LifecycleError Unit)
    (random : Except LifecycleError Nonce) : Except LifecycleError Nonce := do
  if request.context.mode ≠ .systemService ∨ request.operation ≠ .readiness then
    verifyClientOwner request.clientOwner request.context.owner
  validateControlPayload request.operation.asStr request.arguments
  if expired then throw (.deadlineExpired "control connection")
  else
    connected
    let clientNonce ← random
    if isZero clientNonce then throw .randomnessFailed else pure clientNonce

/-- What the client makes of the answer of the Core: the challenge, and the proof of its request. -/
def answerChallenge (clientNonce : Nonce) (received : Received δ) :
    Except LifecycleError (ControlChallenge × δ) := do
  match ← received with
  | .serverChallenge protocolVersion instanceId owner mode serverNonce proof =>
    if protocolVersion ≠ controlProtocolVersion ∨ instanceId ≠ request.context.instanceId ∨
        owner ≠ request.context.owner ∨ mode ≠ request.context.mode then
      throw .authenticationFailed
    else
      let challenge : ControlChallenge :=
        { protocolVersion, context := request.context, clientNonce, serverNonce }
      challenge.validate
      let expected ← serverProof library capability challenge
      verifyProof expected proof
      let requestProof ←
        clientRequestProof library capability challenge request.operation request.arguments
      pure (challenge, requestProof)
  | _ => throw .authenticationFailed

/-- What the client makes of the response. -/
def readResponse (challenge : ControlChallenge) (received : Received δ) :
    Except LifecycleError Bytes := do
  match ← received with
  | .serverResponse operation result proof =>
    if operation ≠ request.operation.asStr then throw .authenticationFailed
    else
      let expected ← serverResponseProof library capability challenge request.operation
        request.arguments result
      verifyProof expected proof
      pure result
  | _ => throw .authenticationFailed

end ControlRequest

end Handlers

end KakuneCore
