import KakuneCore.Lifecycle.Authorisation

/-!
# Runs of the control protocol

The invariant of a Core and its clients among attackers: every proof that was made stands for what
its party did, and a server nonce is spent by the request it authorises.
-/

namespace KakuneCore

variable {δ : Type}

/-- The request is that of a call, under a challenge in answer to the nonce of this call. -/
structure ControlCall.Asks (call : ControlCall) (challenge : ControlChallenge)
    (operation : ControlOperation) (arguments : Bytes) : Prop where
  operation : call.request.operation = operation
  arguments : call.request.arguments = arguments
  context : challenge.context = call.request.context
  clientNonce : challenge.clientNonce = call.clientNonce

namespace ControlWorld

/-- The party of a proof had reason to make it. -/
def Backed (world : ControlWorld) : Option Nat × ControlProof → Prop
  | (none, .server _) => True
  | (none, .response challenge operation arguments result) =>
    { challenge, operation, arguments } ∈ world.authorised ∧
      ∃ phase, (answerRequest phase operation arguments).1 = result
  | (some n, .request challenge operation arguments) =>
    ∃ call, world.calls n = some call ∧ call.Asks challenge operation arguments
  | _ => False

/-- An authorised request was asked for under a challenge of the Core. -/
structure Authorised (world : ControlWorld) (entry : AuthorisedRequest) : Prop where
  context : entry.challenge.context = world.server.context
  allows : entry.challenge.context.mode.allows entry.operation = true
  asked : ∃ n, (some n, ControlProof.request entry.challenge entry.operation entry.arguments) ∈
    world.made
  used : entry.challenge.serverNonce ∈ world.server.used

/-- What a call knows at its stage. -/
def Knows (world : ControlWorld) (call : ControlCall) : Prop :=
  match call.stage with
  | .awaitingChallenge | .returned (.error _) => True
  | .awaitingResponse challenge => call.Asks challenge call.request.operation call.request.arguments
  | .returned (.ok result) => ∃ challenge,
    call.Asks challenge call.request.operation call.request.arguments ∧
      (none, ControlProof.response challenge call.request.operation call.request.arguments result) ∈
        world.made

/-- The nonces that have authorised a request. -/
def spent (world : ControlWorld) : List Nonce :=
  world.authorised.map fun entry => entry.challenge.serverNonce

/-- The invariant. -/
structure Sound (library : ControlLibrary δ) (capability : Capability) (context : ControlContext)
    (world : ControlWorld) : Prop where
  context : world.server.context = context
  made : ∀ entry ∈ world.made,
    world.Backed entry ∧ ∃ code, entry.2.tag library capability = .ok code
  authorised : ∀ entry ∈ world.authorised, world.Authorised entry
  once : world.spent.Nodup
  session : ∀ session, world.server.stage = .challenged session →
    session.challenge.context = world.server.context ∧
      session.challenge.serverNonce ∈ world.server.used ∧
      session.challenge.serverNonce ∉ world.spent
  stops : ∀ entry ∈ world.stops, entry ∈ world.authorised ∧ entry.operation ≠ .readiness
  signal : world.stops.length + world.server.stopSender.toNat ≤ 1
  calls : ∀ n call, world.calls n = some call → world.Knows call

/-- What no step undoes. -/
structure Grows (world world' : ControlWorld) : Prop where
  context : world'.server.context = world.server.context
  used : world.server.used ⊆ world'.server.used
  made : world.made ⊆ world'.made
  authorised : world.authorised ⊆ world'.authorised
  calls : ∀ n call, world.calls n = some call → ∃ call', world'.calls n = some call' ∧
    call'.request = call.request ∧ call'.clientNonce = call.clientNonce

variable {library : ControlLibrary δ} {capability : Capability} {context : ControlContext}
  {world world' : ControlWorld}

theorem Grows.backed (h : Grows world world') {entry : Option Nat × ControlProof}
    (hentry : world.Backed entry) : world'.Backed entry := by
  obtain ⟨party, proof⟩ := entry
  cases party with
  | none =>
    cases proof with
    | server challenge => trivial
    | request challenge operation arguments => exact hentry.elim
    | response challenge operation arguments result => exact ⟨h.authorised hentry.1, hentry.2⟩
  | some n =>
    cases proof with
    | server challenge => exact hentry.elim
    | request challenge operation arguments =>
      obtain ⟨call, hcall, hasks⟩ := hentry
      obtain ⟨call', hcall', hrequest, hnonce⟩ := h.calls n call hcall
      refine ⟨call', hcall', ⟨?_, ?_, ?_, ?_⟩⟩
      · rw [hrequest, hasks.operation]
      · rw [hrequest, hasks.arguments]
      · rw [hrequest, hasks.context]
      · rw [hnonce, hasks.clientNonce]
    | response challenge operation arguments result => exact hentry.elim

theorem Grows.authorises (h : Grows world world') {entry : AuthorisedRequest}
    (hentry : world.Authorised entry) : world'.Authorised entry :=
  ⟨hentry.context.trans h.context.symm, hentry.allows,
    hentry.asked.imp fun _ hasked => h.made hasked, h.used hentry.used⟩

theorem Grows.knows (h : Grows world world') {call : ControlCall} (hcall : world.Knows call) :
    world'.Knows call := by
  unfold Knows at hcall ⊢
  cases hstage : call.stage with
  | awaitingChallenge => trivial
  | awaitingResponse challenge =>
    rw [hstage] at hcall
    exact hcall
  | returned outcome =>
    rw [hstage] at hcall
    cases outcome with
    | error error => trivial
    | ok result =>
      obtain ⟨challenge, hasks, hmade⟩ := hcall
      exact ⟨challenge, hasks, h.made hmade⟩

/-! ### What a party may do -/

namespace Sound

/-- The proofs of a world stay backed as it grows. -/
theorem made_of_grows (h : world.Sound library capability context) (hgrows : Grows world world')
    {entry : Option Nat × ControlProof} (hentry : entry ∈ world.made) :
    world'.Backed entry ∧ ∃ code, entry.2.tag library capability = .ok code := by
  obtain ⟨hbacked, htag⟩ := h.made entry hentry
  exact ⟨hgrows.backed hbacked, htag⟩

/-- The Core goes on without a session. -/
theorem setStage (h : world.Sound library capability context) (stage : ServeStage)
    (hstage : ∀ session, stage ≠ .challenged session) :
    (world.setStage stage).Sound library capability context := by
  have hgrows : Grows world (world.setStage stage) :=
    ⟨rfl, fun _ => id, fun _ => id, fun _ => id, fun n call hcall => ⟨call, hcall, rfl, rfl⟩⟩
  exact ⟨h.context, fun _ => h.made_of_grows hgrows,
    fun entry hentry => hgrows.authorises (h.authorised entry hentry), h.once,
    fun session hsession => absurd hsession (hstage session), h.stops, h.signal,
    fun n call hcall => hgrows.knows (h.calls n call hcall)⟩

/-- A proof is made. -/
theorem make (h : world.Sound library capability context) {entry : Option Nat × ControlProof}
    {code : δ}
    (hbacked : world.Backed entry) (htag : entry.2.tag library capability = .ok code) :
    ({ world with made := world.made ++
      [entry] } : ControlWorld).Sound library capability context := by
  have hgrows : Grows world { world with made := world.made ++ [entry] } :=
    ⟨rfl, fun _ => id, List.subset_append_left _ _, fun _ => id,
      fun n call hcall => ⟨call, hcall, rfl, rfl⟩⟩
  refine ⟨h.context, fun other hother => ?_,
    fun entry hentry => hgrows.authorises (h.authorised entry hentry),
    h.once, h.session, h.stops, h.signal, fun n call hcall => hgrows.knows (h.calls n call hcall)⟩
  rw [List.mem_append, List.mem_singleton] at hother
  obtain hother | rfl := hother
  · exact h.made_of_grows hgrows hother
  · exact ⟨hgrows.backed hbacked, code, htag⟩

/-- A session is opened under a nonce that was not in use. -/
theorem openSession (h : world.Sound library capability context) {challenge : ControlChallenge}
    (hcontext : challenge.context = world.server.context)
    (hfresh : challenge.serverNonce ∉ world.server.used) :
    ({ world with
        server := { world.server with
          stage := .challenged { challenge }
          used := challenge.serverNonce :: world.server.used } } : ControlWorld).Sound
      library capability context := by
  have hgrows : Grows world
      { world with
        server := { world.server with
          stage := .challenged { challenge }
          used := challenge.serverNonce :: world.server.used } } :=
    ⟨rfl, List.subset_cons_self _ _, fun _ => id, fun _ => id,
      fun n call hcall => ⟨call, hcall, rfl, rfl⟩⟩
  refine ⟨h.context, fun _ => h.made_of_grows hgrows,
    fun entry hentry => hgrows.authorises (h.authorised entry hentry), h.once,
    fun session hsession => ?_, h.stops, h.signal,
    fun n call hcall => hgrows.knows (h.calls n call hcall)⟩
  cases hsession
  refine ⟨hcontext, List.mem_cons_self, fun hspent => ?_⟩
  -- a nonce that authorised a request is in use
  obtain ⟨entry, hentry, hnonce⟩ := List.mem_map.mp hspent
  exact hfresh (hnonce ▸ (h.authorised entry hentry).used)

/-- A request is authorised, and its challenge spent. -/
theorem authorise (h : world.Sound library capability context) {entry : AuthorisedRequest}
    (hentry : world.Authorised entry) (hfresh : entry.challenge.serverNonce ∉ world.spent)
    (hstage : ∀ session, world.server.stage ≠ .challenged session) :
    ({ world with authorised := world.authorised ++ [entry] } : ControlWorld).Sound
      library capability context := by
  have hgrows : Grows world { world with authorised := world.authorised ++ [entry] } :=
    ⟨rfl, fun _ => id, fun _ => id, List.subset_append_left _ _,
      fun n call hcall => ⟨call, hcall, rfl, rfl⟩⟩
  refine ⟨h.context, fun _ => h.made_of_grows hgrows, fun other hother => ?_, ?_,
    fun session hsession => absurd hsession (hstage session), fun other hother => ?_, h.signal,
    fun n call hcall => hgrows.knows (h.calls n call hcall)⟩
  · rw [List.mem_append, List.mem_singleton] at hother
    obtain hother | rfl := hother
    · exact hgrows.authorises (h.authorised other hother)
    · exact hgrows.authorises hentry
  · rw [spent, List.map_append, List.map_singleton, ← List.concat_eq_append, List.nodup_concat]
    exact ⟨hfresh, h.once⟩
  · exact ⟨hgrows.authorised (h.stops other hother).1, (h.stops other hother).2⟩

/-- The stop is signalled, by a sender that is there once. -/
theorem stop (h : world.Sound library capability context) {entry : AuthorisedRequest}
    (hentry : entry ∈ world.authorised) (hoperation : entry.operation ≠ .readiness)
    (hsender : world.server.stopSender = true) :
    ({ world with
        server := { world.server with stopSender := false }
        stops := world.stops ++ [entry] } : ControlWorld).Sound library capability context := by
  have hgrows : Grows world
      { world with
        server := { world.server with stopSender := false }
        stops := world.stops ++ [entry] } :=
    ⟨rfl, fun _ => id, fun _ => id, fun _ => id, fun n call hcall => ⟨call, hcall, rfl, rfl⟩⟩
  refine ⟨h.context, fun _ => h.made_of_grows hgrows,
    fun other hother => hgrows.authorises (h.authorised other hother), h.once, h.session,
    fun other hother => ?_, ?_, fun n call hcall => hgrows.knows (h.calls n call hcall)⟩
  · rw [List.mem_append, List.mem_singleton] at hother
    obtain hother | rfl := hother
    · exact h.stops other hother
    · exact ⟨hentry, hoperation⟩
  · have hsignal := h.signal
    rw [hsender, Bool.toNat_true] at hsignal
    rw [List.length_append, List.length_singleton, Bool.toNat_false]
    omega

/-- A call begins, or goes on under its request and nonce. -/
theorem setCall (h : world.Sound library capability context) (n : Nat) {call : ControlCall}
    (hsame : ∀ old, world.calls n = some old →
      call.request = old.request ∧ call.clientNonce = old.clientNonce)
    (hknows : world.Knows call) : (world.setCall n call).Sound library capability context := by
  have hgrows : Grows world (world.setCall n call) := by
    refine ⟨rfl, fun _ => id, fun _ => id, fun _ => id, fun m old hold => ?_⟩
    by_cases hm : m = n
    · subst hm
      exact ⟨call, Function.update_self .., hsame old hold⟩
    · exact ⟨old, (Function.update_of_ne hm ..).trans hold, rfl, rfl⟩
  refine ⟨h.context, fun _ => h.made_of_grows hgrows,
    fun entry hentry => hgrows.authorises (h.authorised entry hentry), h.once, h.session, h.stops,
    h.signal, fun m other hother => ?_⟩
  by_cases hm : m = n
  · subst hm
    obtain rfl : call = other := by
      simpa only [ControlWorld.setCall, Function.update_self, Option.some.injEq] using hother
    exact hgrows.knows hknows
  · refine hgrows.knows (h.calls m other ?_)
    simpa only [ControlWorld.setCall, Function.update_of_ne hm] using hother

/-- **A code that a party accepts was made for what it stands for.** -/
theorem exists_made (h : world.Sound library capability context) {event : ControlEvent δ}
    (hfeasible : world.Feasible library capability event) {message : ControlMessage δ} {code : δ}
    (hreceived : event.received = some message) (hcode : message.code = some code)
    {proof : ControlProof} (htag : proof.tag library capability = .ok code) :
    ∃ party, (party, proof) ∈ world.made := by
  obtain ⟨-, hhmac, -⟩ := ControlProof.tag_eq_ok htag
  obtain ⟨⟨party, made⟩, hmade, htext⟩ := hfeasible message code hreceived hcode _ hhmac.symm
  obtain ⟨-, code', htag'⟩ := h.made _ hmade
  obtain rfl := ControlProof.text_injective htag' htag htext
  exact ⟨party, hmade⟩

/-- A request proof that was made was made in a call. -/
theorem exists_call (h : world.Sound library capability context) {party : Option Nat}
    {challenge : ControlChallenge} {operation : ControlOperation} {arguments : Bytes}
    (hmade : (party, ControlProof.request challenge operation arguments) ∈ world.made) :
    ∃ n, party = some n := by
  cases party with
  | none => exact (h.made _ hmade).1.elim
  | some n => exact ⟨n, rfl⟩

/-- A response proof that was made was made by the Core. -/
theorem party_eq_none (h : world.Sound library capability context) {party : Option Nat}
    {challenge : ControlChallenge} {operation : ControlOperation} {arguments result : Bytes}
    (hmade : (party, ControlProof.response challenge operation arguments result) ∈ world.made) :
    party = none := by
  cases party with
  | none => rfl
  | some n => exact (h.made _ hmade).1.elim

/-! ### The steps -/

theorem accept (h : world.Sound library capability context)
    (loopback : Except LifecycleError Bool) :
    (world.accept loopback).Sound library capability context := by
  unfold ControlWorld.accept
  split
  · exact h.setStage .returned fun _ => ServeStage.noConfusion
  · exact h.setStage .accepted fun _ => ServeStage.noConfusion
  · exact h

theorem hello (h : world.Sound library capability context) (received : Received δ)
    (random : Except LifecycleError Nonce) (sent : Except LifecycleError Unit) (expired : Bool) :
    (world.hello library capability received random sent expired).Sound library capability
      context := by
  unfold ControlWorld.hello
  split
  · cases hanswer : answerHello library capability world.server.context received random with
    | error error => exact h.setStage .listening fun _ => ServeStage.noConfusion
    | ok answer =>
      obtain ⟨challenge, proof⟩ := answer
      obtain ⟨hcontext, htag⟩ := answerHello_eq_ok hanswer
      have hbacked : world.Backed (none, .server challenge) := trivial
      have hmade := h.make hbacked htag
      dsimp only
      cases hopen : sent.bind fun _ =>
          KakuneCore.openSession world.server.used challenge expired with
      | error error => exact hmade.setStage .listening fun _ => ServeStage.noConfusion
      | ok opened =>
        obtain ⟨session, used⟩ := opened
        obtain ⟨_, -, hopen⟩ := except_bind_eq_ok hopen
        obtain ⟨hfresh, rfl, rfl⟩ := openSession_eq_ok hopen
        exact hmade.openSession hcontext hfresh
  · exact h

theorem connect (h : world.Sound library capability context) (call : Nat) (request : ControlRequest)
    (expired : Bool) (connected : Except LifecycleError Unit)
    (random : Except LifecycleError Nonce) (sent : Except LifecycleError Unit) :
    (world.connect call request expired connected random sent).Sound library capability
      context := by
  unfold ControlWorld.connect
  split
  · exact h
  · next hnone =>
    split
    · exact h
    · refine h.setCall call (fun old hold => ?_) ?_
      · rw [hnone] at hold
        cases hold
      · cases sent <;> trivial

theorem start (context : ControlContext) :
    (ControlWorld.start context).Sound library capability context where
  context := rfl
  made _ hentry := (List.not_mem_nil hentry).elim
  authorised _ hentry := (List.not_mem_nil hentry).elim
  once := List.nodup_nil
  session _ hsession := ServeStage.noConfusion hsession
  stops _ hentry := (List.not_mem_nil hentry).elim
  signal := le_rfl
  calls _ _ hcall := (Option.some_ne_none _ hcall.symm).elim

variable [DecidableEq δ]

theorem request (h : world.Sound library capability context) {received : Received δ}
    {phase : LifecyclePhase} {expired responseExpired : Bool} {sent : Except LifecycleError Unit}
    (hfeasible : world.Feasible library capability
      (.request received phase expired responseExpired sent)) :
    (world.request library capability received phase expired responseExpired sent).Sound library
      capability context := by
  unfold ControlWorld.request
  split
  · next session hstage =>
    obtain ⟨hcontext, hused, hfresh⟩ := h.session session hstage
    have hlistening := h.setStage .listening fun _ => ServeStage.noConfusion
    dsimp only
    cases hread : readRequest received with
    | error error => exact hlistening
    | ok request =>
      obtain ⟨operation, arguments, proof⟩ := request
      obtain ⟨name, rfl⟩ := readRequest_eq_ok hread
      dsimp only
      cases hverify : (session.verifyRequest library capability operation arguments proof
          expired).1 with
      | error error => exact hlistening
      | ok valid =>
        obtain ⟨hallows, htag⟩ := verifyRequest_eq_ok hverify
        obtain ⟨party, hmade⟩ := h.exists_made hfeasible rfl rfl htag
        obtain ⟨n, rfl⟩ := h.exists_call hmade
        have hentry : (world.setStage .listening).Authorised
            { challenge := session.challenge, operation, arguments } :=
          ⟨hcontext, hallows, ⟨n, hmade⟩, hused⟩
        have hauthorised := hlistening.authorise hentry hfresh fun _ => ServeStage.noConfusion
        dsimp only
        cases hresponse : SingleRequestSession.responseProof library capability
            (session.verifyRequest library capability operation arguments proof expired).2
            operation arguments (answerRequest phase operation arguments).1 responseExpired with
        | error error => exact hauthorised
        | ok response =>
          have htag := responseProof_eq_ok hresponse
          have hbacked : Backed
              { world.setStage .listening with
                authorised := world.authorised ++
                  [{ challenge := session.challenge, operation, arguments }] }
              (none, .response session.challenge operation arguments
                (answerRequest phase operation arguments).1) :=
            ⟨List.mem_append_right _ (List.mem_singleton.mpr rfl), phase, rfl⟩
          have hresponded := hauthorised.make hbacked htag
          dsimp only
          cases sent with
          | error error => exact hresponded
          | ok sent =>
            dsimp only
            split
            · next hstop =>
              obtain ⟨hstop, hsender⟩ := Bool.and_eq_true_iff.mp hstop
              refine hresponded.stop (List.mem_append_right _ (List.mem_singleton.mpr rfl)) ?_
                hsender
              rintro (rfl : operation = .readiness)
              -- readiness asks for no stop
              unfold answerRequest at hstop
              dsimp only at hstop
              split_ifs at hstop
            · exact hresponded
  · exact h

theorem challenge (h : world.Sound library capability context) {call : Nat} {received : Received δ}
    {sent : Except LifecycleError Unit} :
    (world.challenge library capability call received sent).Sound library capability context := by
  unfold ControlWorld.challenge
  split
  · next request clientNonce hcall =>
    have hsame : ∀ {stage : CallStage} old, world.calls call = some old →
        (ControlCall.mk request clientNonce stage).request = old.request ∧
          (ControlCall.mk request clientNonce stage).clientNonce = old.clientNonce := by
      intro stage old hold
      obtain rfl := Option.some.inj (hcall.symm.trans hold)
      exact ⟨rfl, rfl⟩
    cases hanswer : request.answerChallenge library capability clientNonce received with
    | error error => exact h.setCall call hsame trivial
    | ok answer =>
      obtain ⟨challenge, proof⟩ := answer
      obtain ⟨hcontext, hnonce, htag⟩ := answerChallenge_eq_ok hanswer
      have hbacked : world.Backed
          (some call, .request challenge request.operation request.arguments) :=
        ⟨_, hcall, rfl, rfl, hcontext, hnonce⟩
      refine (h.make hbacked htag).setCall call hsame ?_
      cases sent with
      | error error => trivial
      | ok sent => exact ⟨rfl, rfl, hcontext, hnonce⟩
  · exact h

theorem response (h : world.Sound library capability context) {call : Nat} {received : Received δ}
    (hfeasible : world.Feasible library capability (.response call received)) :
    (world.response library capability call received).Sound library capability context := by
  unfold ControlWorld.response
  split
  · next request clientNonce challenge hcall =>
    refine h.setCall call (fun old hold => ?_) ?_
    · obtain rfl := Option.some.inj (hcall.symm.trans hold)
      exact ⟨rfl, rfl⟩
    · cases hread : request.readResponse library capability challenge received with
      | error error => trivial
      | ok result =>
        obtain ⟨name, code, rfl, htag⟩ := readResponse_eq_ok hread
        obtain ⟨party, hmade⟩ := h.exists_made hfeasible rfl rfl htag
        obtain rfl := h.party_eq_none hmade
        have hasks : ControlCall.Asks ⟨request, clientNonce, .awaitingResponse challenge⟩ challenge
            request.operation request.arguments := h.calls call _ hcall
        exact ⟨challenge, ⟨rfl, rfl, hasks.context, hasks.clientNonce⟩, hmade⟩
  · exact h

/-- **A step of the protocol.** -/
theorem step (h : world.Sound library capability context) {event : ControlEvent δ}
    (hfeasible : world.Feasible library capability event) :
    (world.step library capability event).Sound library capability context := by
  cases event with
  | accept loopback => exact h.accept loopback
  | hello received random sent expired => exact h.hello received random sent expired
  | request received phase expired responseExpired sent => exact h.request hfeasible
  | shutdown => exact h.setStage .returned fun _ => ServeStage.noConfusion
  | connect call request expired connected random sent =>
    exact h.connect call request expired connected random sent
  | challenge call received sent => exact h.challenge
  | response call received => exact h.response hfeasible

end Sound

end ControlWorld

/-! ### Authorisation -/

/-- What the control protocol promises. -/
structure ControlWorld.Authentic (context : ControlContext) (world : ControlWorld) : Prop where
  /-- A stop answers a request made in a call for this operation, these arguments and this challenge
  of the Core, in a mode that allows it. -/
  stops : ∀ stop ∈ world.stops, stop.challenge.context = context ∧ stop.operation ≠ .readiness ∧
    context.mode.allows stop.operation = true ∧ ∃ n call, world.calls n = some call ∧
      call.Asks stop.challenge stop.operation stop.arguments ∧
      (some n, ControlProof.request stop.challenge stop.operation stop.arguments) ∈ world.made
  signal : world.stops.length ≤ 1
  /-- A challenge authorises one request. -/
  once : (world.authorised.map fun entry => entry.challenge.serverNonce).Nodup
  /-- A result that a client returns is what the Core computed for its request, under a challenge in
  answer to its nonce. -/
  results : ∀ n call result, world.calls n = some call → call.stage = .returned (.ok result) →
    ∃ challenge, challenge.context = context ∧
      call.Asks challenge call.request.operation call.request.arguments ∧
      { challenge, operation := call.request.operation, arguments := call.request.arguments } ∈
        world.authorised ∧
      (none, ControlProof.response challenge call.request.operation call.request.arguments
        result) ∈ world.made ∧
      ∃ phase, (answerRequest phase call.request.operation call.request.arguments).1 = result

theorem ControlWorld.Sound.authentic {library : ControlLibrary δ} {capability : Capability}
    {context : ControlContext} {world : ControlWorld}
    (h : world.Sound library capability context) : world.Authentic context where
  stops stop hstop := by
    obtain ⟨hentry, hoperation⟩ := h.stops stop hstop
    have hauthorised := h.authorised stop hentry
    have hcontext := hauthorised.context.trans h.context
    obtain ⟨n, hmade⟩ := hauthorised.asked
    obtain ⟨call, hcall, hasks⟩ := (h.made _ hmade).1
    exact ⟨hcontext, hoperation, hcontext ▸ hauthorised.allows, n, call, hcall, hasks, hmade⟩
  signal := by
    have hsignal := h.signal
    omega
  once := h.once
  results n call result hcall hstage := by
    have hknows := h.calls n call hcall
    unfold ControlWorld.Knows at hknows
    rw [hstage] at hknows
    obtain ⟨challenge, hasks, hmade⟩ := hknows
    obtain ⟨hentry, hphase⟩ := (h.made _ hmade).1
    have hcontext := (h.authorised _ hentry).context.trans h.context
    exact ⟨challenge, hcontext, hasks, hentry, hmade, hphase⟩

/-- **Control is authorised**, whatever attackers send, replay, drop and mix. -/
theorem control_authorised [DecidableEq δ] (library : ControlLibrary δ) (capability : Capability)
    (context : ControlContext) (events : List (ControlEvent δ))
    (hfeasible : Runs.Meets (ControlWorld.step library capability)
      (ControlWorld.Feasible library capability) (ControlWorld.start context) events) :
    (Runs.run (ControlWorld.step library capability) (ControlWorld.start context)
      events).Authentic context :=
  have hsound := hfeasible.invariant (ControlWorld.Sound.start context)
    fun _ _ hsound => hsound.step
  hsound.authentic

/-! ### A stop -/

/-- A code that a party has made may be sent to any other. -/
theorem ControlWorld.feasible_of_made {library : ControlLibrary δ} {capability : Capability}
    {world : ControlWorld} {event : ControlEvent δ} {message : ControlMessage δ} {code : δ}
    {entry : Option Nat × ControlProof} (hreceived : event.received = some message)
    (hcode : message.code = some code) (hmade : entry ∈ world.made)
    (htag : library.hmac capability (entry.2.text library) = code) :
    world.Feasible library capability event := by
  intro message' code' hreceived' hcode' text htext
  obtain rfl := Option.some.inj (hreceived.symm.trans hreceived')
  obtain rfl := Option.some.inj (hcode.symm.trans hcode')
  exact ⟨entry, hmade, library.hmac_injective capability (htag.trans htext.symm)⟩

def sampleOwnerChars : OwnerIdentity → List Char
  | .windowsSid sid => "windows_sid\",\"value\":\"".toList ++ (sid.toList ++ "\"".toList)
  | .unixUid uid => "unix_uid\",\"value\":".toList ++ uid.repr.toList
  | .other identity => "other\",\"value\":\"".toList ++ (identity.toList ++ "\"".toList)

def sampleModeChars (mode : CoreMode) : List Char :=
  ("\x7d,\"mode\":\"" ++ mode.text ++ "\"\x7d").toList

/-- The JSON of a transcript whose owner needs no escapes. -/
def sampleTranscript (owner : OwnerIdentity) (mode : CoreMode) : Bytes :=
  (String.ofList ("\x7b\"owner\":\x7b\"kind\":\"".toList ++
    (sampleOwnerChars owner ++ sampleModeChars mode))).toByteArray.data.toList

theorem sampleOwnerChars_injective {owner owner' : OwnerIdentity}
    (h : sampleOwnerChars owner = sampleOwnerChars owner') : owner = owner' := by
  have hwu : some 'w' ≠ some 'u' := by decide
  have hwo : some 'w' ≠ some 'o' := by decide
  have huo : some 'u' ≠ some 'o' := by decide
  cases owner with
  | windowsSid sid =>
    cases owner' with
    | windowsSid sid' =>
      have hsid := List.append_cancel_right (List.append_cancel_left h)
      rw [String.toList_inj.mp hsid]
    | unixUid uid' => exact absurd (congrArg List.head? h) hwu
    | other identity' => exact absurd (congrArg List.head? h) hwo
  | unixUid uid =>
    cases owner' with
    | windowsSid sid' => exact absurd (congrArg List.head? h).symm hwu
    | unixUid uid' =>
      have huid := List.append_cancel_left h
      rw [Nat.repr_inj.mp (String.toList_inj.mp huid)]
    | other identity' => exact absurd (congrArg List.head? h) huo
  | other identity =>
    cases owner' with
    | windowsSid sid' => exact absurd (congrArg List.head? h).symm hwo
    | unixUid uid' => exact absurd (congrArg List.head? h).symm huo
    | other identity' =>
      have hidentity := List.append_cancel_right (List.append_cancel_left h)
      rw [String.toList_inj.mp hidentity]

theorem sampleTranscript_injective {owner owner' : OwnerIdentity} {mode mode' : CoreMode}
    (h : sampleTranscript owner mode = sampleTranscript owner' mode') :
    owner = owner' ∧ mode = mode' := by
  have hbytes := String.toByteArray_inj.mp (ByteArray.ext (Array.toList_inj.mp h))
  have hchars := List.append_cancel_left (String.ofList_inj.mp hbytes)
  -- the last letter of the mode tells the mode
  have htake : ∀ mode (rest : List Char), ((sampleModeChars mode).reverse ++ rest).take 3 =
      (sampleModeChars mode).reverse.take 3 := fun mode rest =>
    List.take_append_of_le_length (by cases mode <;> decide)
  have hlast := congrArg (fun chars => chars.reverse.take 3) hchars
  rw [List.reverse_append, List.reverse_append, htake, htake] at hlast
  have hmode : mode = mode' := by
    revert hlast
    cases mode <;> cases mode' <;> decide
  subst hmode
  exact ⟨sampleOwnerChars_injective (List.append_cancel_right hchars), rfl⟩

/-- The codes of an ideal function: each stands for its key and its text. -/
def sampleControl : ControlLibrary (Capability × Bytes) where
  hmac capability text := (capability, text)
  hmac_injective _ _ _ h := (Prod.mk.inj h).2
  ownerTranscript := sampleTranscript
  ownerTranscript_injective := sampleTranscript_injective

def sampleCapability : Capability := Vector.replicate 32 7

def sampleContext : ControlContext where
  instanceId := Vector.replicate 16 5
  owner := .unixUid 1000
  mode := .userDaemon

def sampleChallenge : ControlChallenge where
  protocolVersion := 1
  context := sampleContext
  clientNonce := Vector.replicate 32 1
  serverNonce := Vector.replicate 32 2

def sampleCode (proof : ControlProof) : Capability × Bytes :=
  sampleControl.hmac sampleCapability (proof.text sampleControl)

def sampleRequest : ControlRequest where
  context := sampleContext
  clientOwner := .unixUid 1000
  operation := .gracefulStop
  arguments := []

/-- A client stops the Core. -/
def sampleStop : List (ControlEvent (Capability × Bytes)) :=
  let request := ControlProof.request sampleChallenge .gracefulStop []
  let response := ControlProof.response sampleChallenge .gracefulStop [] (asciiBytes "accepted")
  [.accept (.ok true),
    .connect 0 sampleRequest false (.ok ()) (.ok sampleChallenge.clientNonce) (.ok ()),
    .hello (.ok (.clientHello 1 sampleContext.instanceId sampleChallenge.clientNonce))
      (.ok sampleChallenge.serverNonce) (.ok ()) false,
    .challenge 0 (.ok (.serverChallenge 1 sampleContext.instanceId (.unixUid 1000) .userDaemon
      sampleChallenge.serverNonce (sampleCode (.server sampleChallenge)))) (.ok ()),
    .request (.ok (.clientRequest "graceful-stop" [] (sampleCode request))) .ready false false
      (.ok ()),
    .response 0 (.ok (.serverResponse "graceful-stop" (asciiBytes "accepted")
      (sampleCode response)))]

def sampleStopped : ControlWorld :=
  Runs.run (ControlWorld.step sampleControl sampleCapability) (ControlWorld.start sampleContext)
    sampleStop

theorem sampleStop_feasible : Runs.Meets (ControlWorld.step sampleControl sampleCapability)
    (ControlWorld.Feasible sampleControl sampleCapability) (ControlWorld.start sampleContext)
    sampleStop := by
  have hno : ∀ {world : ControlWorld} {event : ControlEvent (Capability × Bytes)},
      event.received.bind ControlMessage.code = none →
      world.Feasible sampleControl sampleCapability event := by
    intro world event hnone message code hmessage hcode
    rw [hmessage, Option.bind_some, hcode] at hnone
    cases hnone
  refine ⟨hno rfl, hno rfl, hno rfl, ?_, ?_, ?_, trivial⟩
  · refine ControlWorld.feasible_of_made rfl rfl
      (?_ : (none, ControlProof.server sampleChallenge) ∈ ControlWorld.made _) rfl
    decide +kernel
  · refine ControlWorld.feasible_of_made rfl rfl
      (?_ : (some 0, ControlProof.request sampleChallenge .gracefulStop []) ∈
        ControlWorld.made _) rfl
    decide +kernel
  · refine ControlWorld.feasible_of_made rfl rfl
      (?_ : (none, ControlProof.response sampleChallenge .gracefulStop [] (asciiBytes "accepted")) ∈
        ControlWorld.made _) rfl
    decide +kernel

theorem graceful_stop_authentic :
    sampleStopped.stops.length = 1 ∧ sampleStopped.Authentic sampleContext :=
  ⟨by decide +kernel,
    control_authorised sampleControl sampleCapability sampleContext sampleStop sampleStop_feasible⟩

/-! ### Transcripts -/

section Transcripts

variable {ownerTranscript : OwnerIdentity → CoreMode → Bytes}
  (hinjective : ∀ {owner owner' : OwnerIdentity} {mode mode' : CoreMode},
    ownerTranscript owner mode = ownerTranscript owner' mode' → owner = owner' ∧ mode = mode')

/-- The codes are the texts themselves: a call returns the byte string it authenticates. -/
def transcriptLibrary : ControlLibrary Bytes where
  hmac _ text := text
  hmac_injective _ _ _ h := h
  ownerTranscript := ownerTranscript
  ownerTranscript_injective := hinjective

end Transcripts

section Codes

variable {δ : Type} (library : ControlLibrary δ) (capability : Capability)

end Codes

/-- **Transcripts are injective**: the byte string that a call authenticates tells the role, the
challenge with its nonces, instance, owner and mode, the operation, the arguments and the result,
whatever the capabilities are. -/
theorem transcripts_are_injective {ownerTranscript : OwnerIdentity → CoreMode → Bytes}
    (hinjective : ∀ {owner owner' : OwnerIdentity} {mode mode' : CoreMode},
      ownerTranscript owner mode = ownerTranscript owner' mode' → owner = owner' ∧ mode = mode')
    {capability capability' : Capability} {proof proof' : ControlProof} {text : Bytes}
    (h : proof.tag (transcriptLibrary hinjective) capability = .ok text)
    (h' : proof'.tag (transcriptLibrary hinjective) capability' = .ok text) : proof = proof' := by
  obtain ⟨-, htext, -⟩ := ControlProof.tag_eq_ok h
  obtain ⟨-, htext', -⟩ := ControlProof.tag_eq_ok h'
  -- the capability is no part of the text
  have hcapability : proof'.tag (transcriptLibrary hinjective) capability = .ok text := by
    rw [← h']
    cases proof' <;> rfl
  exact ControlProof.text_injective h hcapability (htext.symm.trans htext')

/-- Two capabilities, one text. -/
theorem sample_transcripts_agree :
    let library := transcriptLibrary sampleTranscript_injective
    let request := ControlProof.request sampleChallenge .gracefulStop (asciiBytes "close")
    let request' := ControlProof.request
      ⟨1, ⟨Vector.replicate 16 5, .unixUid 1000, .userDaemon⟩, Vector.replicate 32 1,
        Vector.replicate 32 2⟩ .gracefulStop [99, 108, 111, 115, 101]
    request.tag library sampleCapability = request'.tag library (Vector.replicate 32 9) ∧
      request = request' := by
  intro library request request'
  have htag : request.tag library sampleCapability = .ok (request.text library) := by
    decide +kernel
  have htag' : request'.tag library (Vector.replicate 32 9) = .ok (request.text library) := by
    decide +kernel
  exact ⟨htag.trans htag'.symm, transcripts_are_injective sampleTranscript_injective htag htag'⟩

end KakuneCore
