import KakuneCore.Store.Pairing

/-!
# Authorization

Tokens are created, expire and are revoked; the store keeps their hashes. Behind `require_auth` a
request reaches its handler only with a token whose scopes hold the one that its method and path
call for, or `admin`.

`Granted` says from the history of calls alone which tokens are good. The hash is any injective
function, and the clock anything: revocation does not depend on it.
-/

namespace KakuneCore

/-! ### Tokens -/

/-- A row of `auth_tokens`, with its revocation. -/
structure RevocableToken extends AuthTokenRow where
  revokedAt : Option Int := none
  deriving DecidableEq

abbrev AuthTokens : Type := List RevocableToken

namespace AuthTokens

variable (hash : String → String)

def insert (tokens : AuthTokens) (row : AuthTokenRow) : Except String AuthTokens :=
  if tokens.any fun other => other.id = row.id then
    .error "UNIQUE constraint failed: auth_tokens.id"
  else if tokens.any fun other => other.tokenHash = row.tokenHash then
    .error "UNIQUE constraint failed: auth_tokens.token_hash"
  else .ok (tokens ++ [⟨row, none⟩])

/-- `normalize_expiration`; a timestamp may be missing, or fail to parse. -/
def expiration (expiresAt : Option (Option Int)) (now : Int) : Except String (Option Int) :=
  match expiresAt with
  | none => .ok none
  | some parsed => (normalizeExpiration parsed now).map some

def createAuthToken (tokens : AuthTokens) (name : String) (scopes : List AuthScope)
    (expiresAt : Option (Option Int)) (draw : TokenDraw) (clock : ClockReads) :
    Except String (Option CreatedAuthToken × AuthTokens) :=
  let name := trimText name
  if name = "" then .error "token name must not be empty"
  else if name.utf8ByteSize > 120 then .error "token name must be at most 120 characters"
  else do
    let scopes ← uniqueScopes scopes
    let expiresAt ← expiration expiresAt clock.first
    let row : AuthTokenRow :=
      { id := draw.id, tokenHash := hash draw.token, name, scopes, createdAt := clock.second,
        expiresAt }
    let tokens ← tokens.insert row
    pure (some ⟨draw.token, row⟩, tokens)

/-- Only where no token is left that was not revoked. -/
def ensureBootstrapToken (tokens : AuthTokens) (draw : TokenDraw) (now : Int) :
    Except String (Option CreatedAuthToken × AuthTokens) :=
  if tokens.any fun row => row.revokedAt.isNone then .ok (none, tokens)
  else do
    let row : AuthTokenRow :=
      { id := draw.id, tokenHash := hash draw.token, name := "Bootstrap token", scopes := [.admin],
        createdAt := now, expiresAt := none }
    let tokens ← tokens.insert row
    pure (some ⟨draw.token, row⟩, tokens)

/-- The `UPDATE` of both revocations. -/
def revokeWhere (tokens : AuthTokens) (selected : String → Bool) (now : Int) : AuthTokens :=
  Table.updateWhere tokens (fun row => selected row.id && row.revokedAt.isNone) fun row =>
    { row with revokedAt := some now }

def authorizeScope (tokens : AuthTokens) (token : String) (required : AuthScope) (now : Int) :
    Except String Bool :=
  match tokens.find? fun row => row.revokedAt.isNone && row.tokenHash = hash token with
  | none => .ok false
  | some row =>
    if row.expiresAt.any (· ≤ now) then .ok false
    else do
      let scopes ← uniqueScopes row.scopes
      pure (.admin ∈ scopes || required ∈ scopes)

end AuthTokens

inductive TokenCall
  | createAuthToken (name : String) (scopes : List AuthScope) (expiresAt : Option (Option Int))
      (draw : TokenDraw) (clock : ClockReads)
  | ensureBootstrapToken (draw : TokenDraw) (now : Int)
  | revokeAuthToken (id : String) (now : Int)
  | revokeOtherAuthTokens (keepId : String) (now : Int)

namespace TokenCall

/-- The tokens that a call revokes, if they are there. -/
def revokes : TokenCall → String → Bool
  | revokeAuthToken id _ => (· = id)
  | revokeOtherAuthTokens keepId _ => (· ≠ keepId)
  | _ => fun _ => false

variable (hash : String → String)

/-- What a call hands out, and the table behind it. -/
def outcome (tokens : AuthTokens) :
    TokenCall → Except String (Option CreatedAuthToken × AuthTokens)
  | createAuthToken name scopes expiresAt draw clock =>
    tokens.createAuthToken hash name scopes expiresAt draw clock
  | ensureBootstrapToken draw now => tokens.ensureBootstrapToken hash draw now
  | revokeAuthToken id now => .ok (none, tokens.revokeWhere (· = id) now)
  | revokeOtherAuthTokens keepId now => .ok (none, tokens.revokeWhere (· ≠ keepId) now)

def apply (tokens : AuthTokens) (call : TokenCall) : AuthTokens :=
  Runs.settle tokens (call.outcome hash tokens)

/-- The token that a call hands out. -/
def issued (tokens : AuthTokens) (call : TokenCall) : Option CreatedAuthToken :=
  (call.outcome hash tokens).toOption.bind Prod.fst

end TokenCall

abbrev tokensAfter (hash : String → String) (calls : List TokenCall) : AuthTokens :=
  Runs.run (TokenCall.apply hash) [] calls

/-- A token was handed out, and no call has revoked it since. -/
def Granted (hash : String → String) (calls : List TokenCall) (created : CreatedAuthToken) : Prop :=
  ∃ before call after, calls = before ++ call :: after ∧
    call.issued hash (tokensAfter hash before) = some created ∧
      ∀ later ∈ after, later.revokes created.row.id = false

section Grants

variable {hash : String → String} {tokens tokens' : AuthTokens} {calls : List TokenCall}
  {call : TokenCall} {created : CreatedAuthToken}

theorem AuthTokens.insert_eq_ok {row : AuthTokenRow} (h : tokens.insert row = .ok tokens') :
    (∀ other ∈ tokens, other.id ≠ row.id ∧ other.tokenHash ≠ row.tokenHash) ∧
      tokens' = tokens ++ [⟨row, none⟩] := by
  unfold insert at h
  split at h
  · cases h
  split at h
  · cases h
  next hid hhash =>
  rw [Bool.not_eq_true, List.any_eq_false] at hid hhash
  cases h
  exact ⟨fun other hother => ⟨by simpa using hid other hother, by simpa using hhash other hother⟩,
    rfl⟩

/-- What a call that hands out a token has done. -/
structure Issues (hash : String → String) (tokens tokens' : AuthTokens)
    (created : CreatedAuthToken) : Prop where
  fresh : ∀ other ∈ tokens, other.id ≠ created.row.id ∧ other.tokenHash ≠ created.row.tokenHash
  tokens : tokens' = tokens ++ [⟨created.row, none⟩]
  tokenHash : created.row.tokenHash = hash created.token
  scopes : uniqueScopes created.row.scopes = .ok created.row.scopes

/-- **What a call can do to the tokens.** -/
theorem TokenCall.apply_cases (hash : String → String) (tokens : AuthTokens) (call : TokenCall) :
    (∃ created, call.issued hash tokens = some created ∧ (∀ id, call.revokes id = false) ∧
        Issues hash tokens (call.apply hash tokens) created) ∨
      call.issued hash tokens = none ∧ ∃ now,
        call.apply hash tokens = tokens.revokeWhere call.revokes now := by
  have hnone : ∀ now, tokens = tokens.revokeWhere (fun _ => false) now := fun now => by
    simp [AuthTokens.revokeWhere, Table.updateWhere]
  cases call with
  | revokeAuthToken id now => exact .inr ⟨rfl, now, rfl⟩
  | revokeOtherAuthTokens keepId now => exact .inr ⟨rfl, now, rfl⟩
  | createAuthToken name scopes expiresAt draw clock =>
    cases h : tokens.createAuthToken hash name scopes expiresAt draw clock with
    | error e =>
      refine .inr ⟨?_, 0, ?_⟩
      · rw [issued, outcome, h]
        rfl
      · rw [apply, outcome, h]
        exact hnone 0
    | ok result =>
      rw [issued, apply, outcome, h]
      unfold AuthTokens.createAuthToken at h
      dsimp only at h
      split at h
      · cases h
      split at h
      · cases h
      obtain ⟨unique, hunique, h⟩ := except_bind_eq_ok h
      obtain ⟨expiry, -, h⟩ := except_bind_eq_ok h
      obtain ⟨tokens', hinsert, h⟩ := except_bind_eq_ok h
      cases h
      obtain ⟨hfresh, rfl⟩ := AuthTokens.insert_eq_ok hinsert
      exact .inl ⟨_, rfl, fun _ => rfl, hfresh, rfl, rfl, uniqueScopes_idem hunique⟩
  | ensureBootstrapToken draw now =>
    cases h : tokens.ensureBootstrapToken hash draw now with
    | error e =>
      refine .inr ⟨?_, 0, ?_⟩
      · rw [issued, outcome, h]
        rfl
      · rw [apply, outcome, h]
        exact hnone 0
    | ok result =>
      rw [issued, apply, outcome, h]
      unfold AuthTokens.ensureBootstrapToken at h
      split at h
      · cases h
        exact .inr ⟨rfl, 0, hnone 0⟩
      obtain ⟨tokens', hinsert, h⟩ := except_bind_eq_ok h
      cases h
      obtain ⟨hfresh, rfl⟩ := AuthTokens.insert_eq_ok hinsert
      exact .inl ⟨_, rfl, fun _ => rfl, hfresh, rfl, rfl, rfl⟩

/-- One more call grants what it hands out, and takes back what it revokes. -/
theorem granted_concat : Granted hash (calls ++ [call]) created ↔
    (Granted hash calls created ∧ call.revokes created.row.id = false) ∨
      call.issued hash (tokensAfter hash calls) = some created := by
  constructor
  · rintro ⟨before, issuer, after, heq, hissued, hafter⟩
    induction after using List.reverseRecOn with
    | nil =>
      obtain ⟨rfl, hcall⟩ := List.append_inj' heq rfl
      cases hcall
      exact .inr hissued
    | append_singleton after last _ =>
      rw [← List.cons_append, ← List.append_assoc] at heq
      obtain ⟨rfl, hcall⟩ := List.append_inj' heq rfl
      cases hcall
      rw [List.forall_mem_append, List.forall_mem_singleton] at hafter
      exact .inl ⟨⟨before, issuer, after, rfl, hissued, hafter.1⟩, hafter.2⟩
  · rintro (⟨⟨before, issuer, after, rfl, hissued, hafter⟩, hkept⟩ | hissued)
    · refine ⟨before, issuer, after ++ [call], by simp, hissued, ?_⟩
      rw [List.forall_mem_append, List.forall_mem_singleton]
      exact ⟨hafter, hkept⟩
    · exact ⟨calls, call, [], rfl, hissued, by simp⟩

/-- What holds of the tokens behind a history. -/
structure Keeps (hash : String → String) (calls : List TokenCall) (tokens : AuthTokens) : Prop where
  hashes : (tokens.map fun row => row.tokenHash).Nodup
  active : ∀ row : AuthTokenRow,
    ⟨row, none⟩ ∈ tokens ↔ ∃ created, Granted hash calls created ∧ created.row = row
  issued : ∀ created, Granted hash calls created → created.row.tokenHash = hash created.token ∧
    uniqueScopes created.row.scopes = .ok created.row.scopes

theorem keeps_tokensAfter (hash : String → String) (calls : List TokenCall) :
    Keeps hash calls (tokensAfter hash calls) := by
  induction calls using List.reverseRecOn with
  | nil =>
    have hnone : ∀ created, ¬ Granted hash [] created := by
      rintro created ⟨before, call, after, heq, -⟩
      simp at heq
    refine ⟨List.nodup_nil, fun row => ⟨fun h => (by cases h), ?_⟩, fun created h => ?_⟩
    · rintro ⟨created, h, -⟩
      exact absurd h (hnone created)
    · exact absurd h (hnone created)
  | append_singleton calls call ih =>
    rw [tokensAfter, Runs.run_concat]
    obtain ⟨created, hissued, hrevokes, hissues⟩ | ⟨hissued, now, heq⟩ :=
      call.apply_cases hash (tokensAfter hash calls)
    · have hgranted : ∀ other, Granted hash (calls ++ [call]) other ↔
          Granted hash calls other ∨ created = other := by
        intro other
        rw [granted_concat, hissued, hrevokes, Option.some.injEq]
        simp only [and_true]
      rw [hissues.tokens]
      refine ⟨?_, fun row => ?_, fun other hother => ?_⟩
      · rw [List.map_append, List.nodup_append]
        refine ⟨ih.hashes, List.nodup_singleton _, ?_⟩
        rintro _ hold _ hnew rfl
        obtain ⟨other, hother, heq⟩ := List.mem_map.mp hold
        exact (hissues.fresh other hother).2 (heq.trans (List.mem_singleton.mp hnew))
      · rw [List.mem_append, ih.active row, List.mem_singleton]
        constructor
        · rintro (⟨other, hother, rfl⟩ | heq)
          · exact ⟨other, (hgranted other).mpr (.inl hother), rfl⟩
          · cases heq
            exact ⟨created, (hgranted created).mpr (.inr rfl), rfl⟩
        · rintro ⟨other, hother, rfl⟩
          obtain hother | rfl := (hgranted other).mp hother
          · exact .inl ⟨other, hother, rfl⟩
          · exact .inr rfl
      · obtain hother | rfl := (hgranted other).mp hother
        · exact ih.issued other hother
        · exact ⟨hissues.tokenHash, hissues.scopes⟩
    · have hgranted : ∀ other, Granted hash (calls ++ [call]) other ↔
          Granted hash calls other ∧ call.revokes other.row.id = false := by
        intro other
        rw [granted_concat, hissued]
        simp only [reduceCtorEq, or_false]
      rw [heq]
      refine ⟨?_, fun row => ?_, fun other hother => ih.issued other ((hgranted other).mp hother).1⟩
      · have hkeys : ((tokensAfter hash calls).revokeWhere call.revokes now).map
            (fun row => row.tokenHash) = (tokensAfter hash calls).map fun row => row.tokenHash :=
          Table.map_updateWhere (fun row : RevocableToken => row.tokenHash) fun _ => rfl
        rw [hkeys]
        exact ih.hashes
      · have hrow : (⟨row, none⟩ : RevocableToken) ∈
            (tokensAfter hash calls).revokeWhere call.revokes now ↔
              ⟨row, none⟩ ∈ tokensAfter hash calls ∧ call.revokes row.id = false := by
          rw [AuthTokens.revokeWhere, Table.mem_updateWhere]
          constructor
          · rintro (⟨hmem, hkept⟩ | ⟨other, -, -, heq⟩)
            · exact ⟨hmem, by simpa using hkept⟩
            · cases heq
          · exact fun h => .inl ⟨h.1, by simp [h.2]⟩
        rw [hrow, ih.active row]
        constructor
        · rintro ⟨⟨other, hother, rfl⟩, hkept⟩
          exact ⟨other, (hgranted other).mpr ⟨hother, hkept⟩, rfl⟩
        · rintro ⟨other, hother, rfl⟩
          exact ⟨⟨other, ((hgranted other).mp hother).1, rfl⟩, ((hgranted other).mp hother).2⟩

end Grants

/-! ### Requests -/

structure ApiRequest where
  method : String
  path : String
  /-- The `Authorization` header, if it is a text. -/
  authorization : Option String

def requiredScope (method path : String) : AuthScope :=
  if path.startsWith "/api/v1/auth/" then .admin
  else if (path.startsWith "/api/v1/plugins" || path.startsWith "/api/v1/plugin-installations") &&
      method != "GET" then .admin
  else if path.startsWith "/api/v1/secrets" then .manage
  else if path == "/api/v1/providers/minimax/quota" ||
      path.startsWith "/api/v1/providers/minimax/quota/" then .manage
  else if method == "POST" && path == "/api/v1/executions" then .run
  else if method == "GET" then .read
  else .manage

/-- `strip_prefix`. -/
def withoutFront (front text : String) : Option String :=
  if front.toList.isPrefixOf text.toList then
    some (String.ofList (text.toList.drop front.toList.length))
  else none

def requiredManagementScope (method path : String) : AuthScope :=
  let route := (withoutFront "/api/v1/manage" path).getD path
  if route == "/plugins" || route.startsWith "/plugins/" then
    if method == "GET" then .read else .admin
  else if route == "/secrets" || route.startsWith "/secrets/" then .manage
  else if method == "POST" && (route == "/workflows/resolve" || route.endsWith "/validate" ||
      route.endsWith "/plan") then .read
  else if method == "POST" && (route == "/workflows/import" || route.endsWith "/eligibility" ||
      route.startsWith "/providers" || route.startsWith "/mcp") then .manage
  else if method == "POST" && (route.startsWith "/workflows/" && route.endsWith "/executions" ||
      route.startsWith "/executions/" && route.endsWith "/cancel") then .run
  else if method == "GET" then .read
  else .manage

namespace ApiRequest

def isManagement (request : ApiRequest) : Bool :=
  request.path == "/api/v1/manage" || request.path.startsWith "/api/v1/manage/"

def scope (request : ApiRequest) : AuthScope :=
  if request.isManagement then requiredManagementScope request.method request.path
  else requiredScope request.method request.path

end ApiRequest

inductive AuthAnswer
  | handled
  | forbidden (message : String)
  | unauthenticated (message : String)
  | internal (message : String)
  deriving DecidableEq

/-- `require_auth`. -/
def requireAuth (hash : String → String) (tokens : AuthTokens) (request : ApiRequest) (now : Int) :
    AuthAnswer :=
  match (request.authorization.bind (withoutFront "Bearer ")).map fun token =>
      tokens.authorizeScope hash token request.scope now with
  | some (.ok true) => .handled
  | some (.ok false) =>
    if request.isManagement then
      .forbidden "the credential does not include the required management scope"
    else .unauthenticated "a valid Bearer token is required"
  | none =>
    if request.isManagement then .unauthenticated "a valid Core credential is required"
    else .unauthenticated "a valid Bearer token is required"
  | some (.error error) =>
    if request.isManagement then .internal "Core could not verify the management credential"
    else .internal error

/-! ### Requests that are handled -/

theorem withoutFront_eq_some {front text rest : String} :
    withoutFront front text = some rest ↔ text = front ++ rest := by
  rw [withoutFront]
  constructor
  · intro h
    split at h
    · next hfront =>
      cases h
      obtain ⟨tail, htail⟩ := List.isPrefixOf_iff_prefix.mp hfront
      rw [← String.toList_inj, String.toList_append, String.toList_ofList, ← htail,
        List.drop_left]
    · cases h
  · rintro rfl
    rw [String.toList_append, if_pos (List.isPrefixOf_iff_prefix.mpr (List.prefix_append _ _)),
      List.drop_left, String.ofList_toList]

/-- **A token is good** exactly where the history grants it, it has not expired, and its scopes
suffice. -/
theorem authorizeScope_tokensAfter {hash : String → String} (hhash : hash.Injective)
    (calls : List TokenCall) (token : String) (required : AuthScope) (now : Int) :
    (tokensAfter hash calls).authorizeScope hash token required now = .ok true ↔
      ∃ created, Granted hash calls created ∧ created.token = token ∧
        (∀ expiry ∈ created.row.expiresAt, now < expiry) ∧
          (.admin ∈ created.row.scopes ∨ required ∈ created.row.scopes) := by
  have hkeeps := keeps_tokensAfter hash calls
  rw [AuthTokens.authorizeScope]
  split
  · next hnone =>
    refine iff_of_false (by rintro ⟨⟩) ?_
    rintro ⟨created, hgranted, rfl, -⟩
    have hmem := (hkeeps.active created.row).mpr ⟨created, hgranted, rfl⟩
    have hmiss := List.find?_eq_none.mp hnone _ hmem
    rw [(hkeeps.issued created hgranted).1] at hmiss
    simp at hmiss
  · next row hrow =>
    have hmem := List.mem_of_find?_eq_some hrow
    have hfound := List.find?_some hrow
    rw [Bool.and_eq_true, decide_eq_true_eq, Option.isNone_iff_eq_none] at hfound
    obtain ⟨row, revokedAt⟩ := row
    obtain ⟨rfl, htoken⟩ := hfound
    obtain ⟨created, hgranted, rfl⟩ := (hkeeps.active row).mp hmem
    obtain ⟨hcreated, hscopes⟩ := hkeeps.issued created hgranted
    have htoken : created.token = token := hhash (hcreated.symm.trans htoken)
    have hone : ∀ other, Granted hash calls other → other.token = token → other = created := by
      intro other hother hsame
      obtain ⟨hhashed, -⟩ := hkeeps.issued other hother
      have hrow : (⟨other.row, none⟩ : RevocableToken) = ⟨created.row, none⟩ :=
        List.inj_on_of_nodup_map hkeeps.hashes ((hkeeps.active _).mpr ⟨other, hother, rfl⟩) hmem
          (by rw [hhashed, hcreated, hsame, htoken])
      obtain ⟨_, _⟩ := other
      obtain ⟨_, _⟩ := created
      cases hrow
      cases htoken
      cases hsame
      rfl
    have hgood : (∃ created, Granted hash calls created ∧ created.token = token ∧
        (∀ expiry ∈ created.row.expiresAt, now < expiry) ∧
          (.admin ∈ created.row.scopes ∨ required ∈ created.row.scopes)) ↔
        (∀ expiry ∈ created.row.expiresAt, now < expiry) ∧
          (.admin ∈ created.row.scopes ∨ required ∈ created.row.scopes) := by
      constructor
      · rintro ⟨other, hother, hsame, h⟩
        rwa [hone other hother hsame] at h
      · exact fun h => ⟨created, hgranted, htoken, h⟩
    rw [hgood]
    dsimp only
    split
    · next hexpired =>
      obtain ⟨expiry, hexpiry, hle⟩ := (Option.any_eq_true _ _).mp hexpired
      refine iff_of_false (by rintro ⟨⟩) fun h => ?_
      exact absurd (h.1 expiry hexpiry) (not_lt.mpr (of_decide_eq_true hle))
    · next hfresh =>
      have hlater : ∀ expiry ∈ created.row.expiresAt, now < expiry := by
        intro expiry hexpiry
        rw [Option.mem_def] at hexpiry
        rw [hexpiry] at hfresh
        simpa using hfresh
      rw [hscopes]
      constructor
      · intro h
        have hallowed := Except.ok.inj h
        rw [Bool.or_eq_true, decide_eq_true_eq, decide_eq_true_eq] at hallowed
        exact ⟨hlater, hallowed⟩
      · rintro ⟨-, hallowed⟩
        refine congrArg Except.ok ?_
        rwa [Bool.or_eq_true, decide_eq_true_eq, decide_eq_true_eq]

/-- **A request is handled** exactly where it brings a token that was handed out, has been neither
revoked since nor expired, and has the scope that the method and the path call for, or `admin`. -/
theorem handled_requests_are_authorized (hash : String → String) (hhash : hash.Injective)
    (calls : List TokenCall) (request : ApiRequest) (now : Int) :
    requireAuth hash (tokensAfter hash calls) request now = .handled ↔
      ∃ created, Granted hash calls created ∧
        request.authorization = some ("Bearer " ++ created.token) ∧
        (∀ expiry ∈ created.row.expiresAt, now < expiry) ∧
          (.admin ∈ created.row.scopes ∨ request.scope ∈ created.row.scopes) := by
  have hhandled : requireAuth hash (tokensAfter hash calls) request now = .handled ↔
      ∃ token, request.authorization = some ("Bearer " ++ token) ∧
        (tokensAfter hash calls).authorizeScope hash token request.scope now = .ok true := by
    have hmap : (∃ token, request.authorization = some ("Bearer " ++ token) ∧
        (tokensAfter hash calls).authorizeScope hash token request.scope now = .ok true) ↔
        ((request.authorization.bind (withoutFront "Bearer ")).map fun token =>
          (tokensAfter hash calls).authorizeScope hash token request.scope now) =
            some (.ok true) := by
      simp only [Option.map_eq_some_iff, Option.bind_eq_some_iff, withoutFront_eq_some]
      constructor
      · rintro ⟨token, htoken, h⟩
        exact ⟨token, ⟨_, htoken, rfl⟩, h⟩
      · rintro ⟨token, ⟨_, htoken, rfl⟩, h⟩
        exact ⟨token, htoken, h⟩
    rw [hmap, requireAuth]
    split
    · next h => exact iff_of_true rfl h
    · next h =>
      rw [h]
      split <;> simp
    · next h =>
      rw [h]
      split <;> simp
    · next h =>
      rw [h]
      split <;> simp
  rw [hhandled]
  simp only [authorizeScope_tokensAfter hhash]
  constructor
  · rintro ⟨_, hheader, created, hgranted, rfl, h⟩
    exact ⟨created, hgranted, hheader, h⟩
  · rintro ⟨created, hgranted, hheader, h⟩
    exact ⟨_, hheader, created, hgranted, rfl, h⟩

/-- A token that may read, one that may do everything, and the revocation of all others. -/
def sampleTokenCalls : List TokenCall :=
  [.createAuthToken "phone" [.read] none ⟨"i1", "t1"⟩ ⟨0, 0, 0⟩,
    .createAuthToken "desk" [.admin] none ⟨"i2", "t2"⟩ ⟨1, 1, 1⟩, .revokeOtherAuthTokens "i2" 2]

theorem handled_requests_are_authorized_sampleTokenCalls :
    ∃ created, Granted id sampleTokenCalls created ∧ created.token = "t2" := by
  have hhandled : requireAuth id (tokensAfter id sampleTokenCalls)
      ⟨"POST", "/api/v1/executions", some "Bearer t2"⟩ 3 = .handled := by
    decide +kernel
  obtain ⟨created, hgranted, hheader, -⟩ := (handled_requests_are_authorized id
    Function.injective_id sampleTokenCalls _ 3).mp hhandled
  refine ⟨created, hgranted, ?_⟩
  have htoken := congrArg (Option.bind · (withoutFront "Bearer ")) hheader
  rw [Option.bind_some, Option.bind_some, withoutFront_eq_some.mpr rfl] at htoken
  have ht2 : withoutFront "Bearer " "Bearer t2" = some "t2" := by decide +kernel
  exact (Option.some.inj (ht2.symm.trans htoken)).symm

end KakuneCore
