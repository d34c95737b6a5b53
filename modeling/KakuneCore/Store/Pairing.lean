import KakuneCore.Relational.Runs
import KakuneCore.Relational.Table
import KakuneCore.Scheduling.Triggers

/-!
# Device pairing

The host creates an invitation, a device claims it with a secret of its own, the host decides, and
the device exchanges code and secret for a token. The four calls come from parties that do not trust
each other, in any order and any number; each is one transaction on the row of the invitation.

A call reads the clock several times. `ClockReads` has its readings in the order in which they are
made; nothing is assumed about how they relate, so the results hold for every clock.
-/

namespace KakuneCore

inductive AuthScope
  | read
  | run
  | manage
  | admin
  deriving DecidableEq, Repr

inductive PairingDecision
  | approved
  | rejected
  deriving DecidableEq, Repr

inductive AuthPairingState
  | awaitingClaim
  | awaitingApproval
  | approved
  | rejected
  | consumed
  | expired
  deriving DecidableEq, Repr

/-- A row of `auth_pairing_codes`; times are nanoseconds. -/
structure PairingRow where
  id : String
  codeHash : String
  scopes : List AuthScope
  createdAt : Int
  expiresAt : Int
  claimSecretHash : Option String := none
  requestedDevice : Option String := none
  claimedAt : Option Int := none
  decision : Option PairingDecision := none
  consumedAt : Option Int := none
  deriving DecidableEq

/-- A row of `auth_tokens`. -/
structure AuthTokenRow where
  id : String
  tokenHash : String
  name : String
  scopes : List AuthScope
  createdAt : Int
  expiresAt : Option Int
  deriving DecidableEq

structure PairingTables where
  codes : List PairingRow := []
  tokens : List AuthTokenRow := []
  deriving DecidableEq

/-- The successive clock readings of one call. -/
structure ClockReads where
  first : Int
  second : Int
  third : Int
  deriving DecidableEq

structure AuthPairingStatus where
  id : String
  expiresAt : Int
  requestedDevice : Option String
  state : AuthPairingState
  deriving DecidableEq

structure CreatedAuthPairingCode where
  id : String
  expiresAt : Int

/-- The token itself and its row. -/
structure CreatedAuthToken where
  token : String
  row : AuthTokenRow

/-- The values that an exchange draws. -/
structure TokenDraw where
  id : String
  token : String
  deriving DecidableEq

def pairingCodeRejected : String := "pairing QR code is invalid, expired, or already used"

/-- The length that codes and claim secrets must have. -/
def hasPairingLength (text : String) : Bool := 32 ≤ text.utf8ByteSize && text.utf8ByteSize ≤ 256

/-- The loop of `unique_scopes`. -/
def addScopes (unique : List AuthScope) : List AuthScope → List AuthScope
  | [] => unique
  | scope :: scopes => addScopes (if scope ∈ unique then unique else unique ++ [scope]) scopes

def uniqueScopes (scopes : List AuthScope) : Except String (List AuthScope) :=
  if scopes = [] then .error "at least one token scope is required" else .ok (addScopes [] scopes)

/-- `normalize_expiration`; the argument is the parsed timestamp. -/
def normalizeExpiration (expiresAt : Option Int) (now : Int) : Except String Int :=
  match expiresAt with
  | none => .error "expiresAt must be an RFC 3339 timestamp"
  | some expiresAt =>
    if expiresAt ≤ now then .error "expiresAt must be in the future" else .ok expiresAt

/-- The database compares days with the precision of a millisecond. -/
def julianMillis (time : Int) : Int := (time + 500000) / 1000000

def isControl (c : Char) : Bool := c.toNat < 0x20 || (0x7f ≤ c.toNat && c.toNat ≤ 0x9f)

namespace PairingRow

/-- `auth_pairing_status_from_row`. -/
def state (row : PairingRow) (now : Int) : AuthPairingState :=
  if row.consumedAt.isSome then .consumed
  else if row.expiresAt ≤ now then .expired
  else if row.claimSecretHash.isNone then .awaitingClaim
  else match row.decision with
    | some .approved => .approved
    | some .rejected => .rejected
    | none => .awaitingApproval

def status (row : PairingRow) (now : Int) : AuthPairingStatus where
  id := row.id
  expiresAt := row.expiresAt
  requestedDevice := row.requestedDevice
  state := row.state now

/-- Expired for a day. -/
def aged (row : PairingRow) (now : Int) : Bool :=
  julianMillis row.expiresAt ≤ julianMillis now - 86400000

end PairingRow

namespace PairingTables

variable (hash : String → String)

def pairingByCode (tables : PairingTables) (codeHash : String) : Option PairingRow :=
  Table.lookup PairingRow.codeHash tables.codes codeHash

def pairingById (tables : PairingTables) (id : String) : Option PairingRow :=
  Table.lookup PairingRow.id tables.codes id

def createAuthPairingCode (tables : PairingTables) (code : String) (scopes : List AuthScope)
    (expiresAt : Option Int) (id : String) (clock : ClockReads) :
    Except String (CreatedAuthPairingCode × PairingTables) :=
  if ¬hasPairingLength code then .error "pairing code must be 32-256 characters" else do
    let scopes ← uniqueScopes scopes
    let expiresAt ← normalizeExpiration expiresAt clock.first
    let codes := tables.codes.filter fun row => !row.aged clock.second
    if codes.any fun row => row.id = id then
      .error "UNIQUE constraint failed: auth_pairing_codes.id"
    else if codes.any fun row => row.codeHash = hash code then
      .error "UNIQUE constraint failed: auth_pairing_codes.code_hash"
    else
      .ok (⟨id, expiresAt⟩, { tables with codes := codes ++
        [{ id, codeHash := hash code, scopes, createdAt := clock.second, expiresAt }] })

def claimAuthPairingCode (tables : PairingTables) (code claimSecret deviceName : String)
    (clock : ClockReads) : Except String (AuthPairingStatus × PairingTables) :=
  if ¬(hasPairingLength code && hasPairingLength claimSecret) then .error pairingCodeRejected
  else
    let deviceName := trimText deviceName
    if deviceName = "" || deviceName.utf8ByteSize > 120 || deviceName.toList.any isControl then
      .error "deviceName must be 1-120 characters"
    else
      match tables.pairingByCode (hash code) with
      | none => .error pairingCodeRejected
      | some row =>
        if row.state clock.first = .expired ∨ row.state clock.first = .consumed then
          .error pairingCodeRejected
        else
          match row.claimSecretHash with
          | some stored =>
            if stored ≠ hash claimSecret then .error "pairing invitation already has a claim"
            else .ok (row.status clock.third, tables)
          | none =>
            let claim (row : PairingRow) : PairingRow :=
              { row with
                claimSecretHash := some (hash claimSecret)
                requestedDevice := some deviceName
                claimedAt := some clock.second }
            .ok ((claim row).status clock.third, { tables with
              codes := Table.updateWhere tables.codes
                (fun other => other.id = row.id && other.claimSecretHash.isNone) claim })

def decideAuthPairing (tables : PairingTables) (id : String) (approved : Bool)
    (clock : ClockReads) :
    Except String (Bool × PairingTables) :=
  match tables.pairingById id with
  | none => .error pairingCodeRejected
  | some row =>
    if row.state clock.first ≠ .awaitingApproval then .ok (false, tables)
    else
      let selected (other : PairingRow) : Bool :=
        other.id = id && other.decision.isNone && other.consumedAt.isNone
      .ok (tables.codes.countP selected = 1, { tables with
        codes := Table.updateWhere tables.codes selected fun other =>
          { other with decision := some (if approved then .approved else .rejected) } })

/-- `create_auth_token` for a token that does not expire. -/
def createAuthToken (tables : PairingTables) (name : String) (scopes : List AuthScope)
    (draw : TokenDraw) (createdAt : Int) : Except String (CreatedAuthToken × PairingTables) :=
  let name := trimText name
  if name = "" then .error "token name must not be empty"
  else if name.utf8ByteSize > 120 then .error "token name must be at most 120 characters"
  else do
    let scopes ← uniqueScopes scopes
    let row : AuthTokenRow :=
      { id := draw.id, tokenHash := hash draw.token, name, scopes, createdAt, expiresAt := none }
    if tables.tokens.any fun other => other.id = row.id then
      .error "UNIQUE constraint failed: auth_tokens.id"
    else if tables.tokens.any fun other => other.tokenHash = row.tokenHash then
      .error "UNIQUE constraint failed: auth_tokens.token_hash"
    else
      .ok (⟨draw.token, row⟩, { tables with tokens := tables.tokens ++ [row] })

def exchangeAuthPairingCode (tables : PairingTables) (code claimSecret : String) (draw : TokenDraw)
    (clock : ClockReads) : Except String (CreatedAuthToken × PairingTables) :=
  if ¬(hasPairingLength code && hasPairingLength claimSecret) then .error pairingCodeRejected
  else
    match tables.pairingByCode (hash code) with
    | none => .error pairingCodeRejected
    | some row =>
      if row.claimSecretHash ≠ some (hash claimSecret) ∨ row.consumedAt.isSome ∨
          row.expiresAt ≤ clock.first then
        .error pairingCodeRejected
      else
        match row.decision with
        | some .rejected => .error "pairing request was rejected by the Core user"
        | none => .error "pairing request is awaiting Core user approval"
        | some .approved =>
          match row.requestedDevice with
          | none => .error "approved pairing request has no device name"
          | some deviceName =>
            let selected (other : PairingRow) : Bool :=
              other.id = row.id && other.consumedAt.isNone && other.decision = some .approved
            if tables.codes.countP selected ≠ 1 then .error pairingCodeRejected
            else do
              -- the scopes are decoded from the row, which removes repeats once more
              let scopes ← uniqueScopes row.scopes
              createAuthToken hash { tables with
                codes := Table.updateWhere tables.codes selected fun other =>
                  { other with consumedAt := some clock.second } }
                deviceName scopes draw clock.third

end PairingTables

/-- A call of one of the parties. -/
inductive PairingCall
  | create (code : String) (scopes : List AuthScope) (expiresAt : Option Int) (id : String)
      (clock : ClockReads)
  | claim (code claimSecret deviceName : String) (clock : ClockReads)
  | decide (id : String) (approved : Bool) (clock : ClockReads)
  | exchange (code claimSecret : String) (draw : TokenDraw) (clock : ClockReads)
  deriving DecidableEq

namespace PairingCall

/-- The id that a call draws for a new invitation. -/
def invitation? : PairingCall → Option String
  | create _ _ _ id _ => some id
  | _ => none

def apply (hash : String → String) (tables : PairingTables) : PairingCall → PairingTables
  | create code scopes expiresAt id clock =>
    Runs.settle tables (tables.createAuthPairingCode hash code scopes expiresAt id clock)
  | claim code claimSecret deviceName clock =>
    Runs.settle tables (tables.claimAuthPairingCode hash code claimSecret deviceName clock)
  | decide id approved clock => Runs.settle tables (tables.decideAuthPairing id approved clock)
  | exchange code claimSecret draw clock =>
    Runs.settle tables (tables.exchangeAuthPairingCode hash code claimSecret draw clock)

end PairingCall

/-- The tables after the calls. -/
def pairingTables (hash : String → String) (calls : List PairingCall) : PairingTables :=
  Runs.run (PairingCall.apply hash) {} calls

/-! ### Scopes -/

theorem addScopes_eq {unique scopes : List AuthScope} (h : (unique ++ scopes).Nodup) :
    addScopes unique scopes = unique ++ scopes := by
  induction scopes generalizing unique with
  | nil => rw [addScopes, List.append_nil]
  | cons scope scopes ih =>
    have hscope : scope ∉ unique := by
      intro hmem
      exact (List.nodup_append.mp h).2.2 scope hmem scope List.mem_cons_self rfl
    rw [addScopes, if_neg hscope, ih (by simpa using h), List.append_assoc, List.singleton_append]

theorem nodup_addScopes {unique : List AuthScope} (h : unique.Nodup) (scopes : List AuthScope) :
    (addScopes unique scopes).Nodup := by
  induction scopes generalizing unique with
  | nil => exact h
  | cons scope scopes ih =>
    rw [addScopes]
    split
    · exact ih h
    · next hscope =>
      refine ih (List.nodup_append.mpr ⟨h, List.nodup_singleton _, ?_⟩)
      rintro a ha b hb rfl
      exact hscope (List.mem_singleton.mp hb ▸ ha)

theorem subset_addScopes (unique scopes : List AuthScope) : unique ⊆ addScopes unique scopes := by
  induction scopes generalizing unique with
  | nil => exact List.Subset.refl _
  | cons scope scopes ih =>
    rw [addScopes]
    split
    · exact ih unique
    · exact List.Subset.trans (List.subset_append_left _ _) (ih _)

/-- The scopes of an invitation are taken over as they are. -/
theorem uniqueScopes_idem {scopes unique : List AuthScope} (h : uniqueScopes scopes = .ok unique) :
    uniqueScopes unique = .ok unique := by
  rw [uniqueScopes] at h
  split at h
  · cases h
  · next hne =>
    obtain rfl := Except.ok.inj h
    have hnodup : (addScopes [] scopes).Nodup := nodup_addScopes List.nodup_nil scopes
    have hnonempty : addScopes [] scopes ≠ [] := by
      obtain ⟨scope, rest, rfl⟩ := List.exists_cons_of_ne_nil hne
      have hmem : scope ∈ addScopes [scope] rest := subset_addScopes [scope] rest List.mem_cons_self
      exact List.ne_nil_of_mem hmem
    rw [uniqueScopes, if_neg hnonempty, addScopes_eq (by simpa using hnodup), List.nil_append]

/-! ### One call -/

/-- The claim is pending: nobody has decided, and the invitation is neither used nor expired. -/
theorem PairingRow.state_eq_awaitingApproval {row : PairingRow} {now : Int} :
    row.state now = .awaitingApproval ↔ row.consumedAt = none ∧ now < row.expiresAt ∧
      row.claimSecretHash.isSome ∧ row.decision = none := by
  rw [state]
  split
  · next h => simp [Option.isSome_iff_ne_none.mp h]
  · next h =>
    rw [Option.not_isSome_iff_eq_none] at h
    split
    · next hexpired => simp [not_lt.mpr hexpired]
    · next hlive =>
      split
      · next hclaim => simp [Option.isNone_iff_eq_none.mp hclaim]
      · next hclaim =>
        rw [Option.isNone_iff_eq_none] at hclaim
        have hsome : row.claimSecretHash.isSome = true := Option.isSome_iff_ne_none.mpr hclaim
        rw [not_le] at hlive
        split <;> simp_all

/-- How a call may change the row of an invitation. -/
inductive PairingRow.Moves (hash : String → String) (call : PairingCall) :
    PairingRow → PairingRow → Prop
  | same (row : PairingRow) : Moves hash call row row
  | claimed {row : PairingRow} {code claimSecret deviceName : String} {clock : ClockReads}
      (hcall : call = .claim code claimSecret deviceName clock) (hcode : row.codeHash = hash code)
      (hclaim : row.claimSecretHash = none) :
      Moves hash call row { row with
        claimSecretHash := some (hash claimSecret)
        requestedDevice := some (trimText deviceName)
        claimedAt := some clock.second }
  | decided {row : PairingRow} {approved : Bool} {clock : ClockReads}
      (hcall : call = .decide row.id approved clock)
      (hpending : row.state clock.first = .awaitingApproval) :
      Moves hash call row { row with
        decision := some (if approved then .approved else .rejected) }
  | consumed {row : PairingRow} (at_ : Int) :
      Moves hash call row { row with consumedAt := some at_ }

theorem PairingRow.Moves.id_eq {hash : String → String} {call : PairingCall} {row row' : PairingRow}
    (h : row.Moves hash call row') : row'.id = row.id := by
  cases h <;> rfl

theorem PairingRow.Moves.codeHash_eq {hash : String → String} {call : PairingCall}
    {row row' : PairingRow} (h : row.Moves hash call row') : row'.codeHash = row.codeHash := by
  cases h <;> rfl

/-- The two key columns of `auth_pairing_codes`. -/
structure PairingTables.Keyed (tables : PairingTables) : Prop where
  ids : (tables.codes.map PairingRow.id).Nodup
  hashes : (tables.codes.map PairingRow.codeHash).Nodup

/-- The row that a creating call inserts. -/
structure PairingRow.Creates (hash : String → String) (row : PairingRow) (call : PairingCall) :
    Prop where
  call_eq : ∃ code scopes clock, call = .create code scopes (some row.expiresAt) row.id clock ∧
    row.codeHash = hash code ∧ uniqueScopes scopes = .ok row.scopes
  unclaimed : row.claimSecretHash = none
  undecided : row.decision = none
  unused : row.consumedAt = none

theorem normalizeExpiration_eq_ok {expiresAt : Option Int} {now expires : Int}
    (h : normalizeExpiration expiresAt now = .ok expires) : expiresAt = some expires := by
  cases expiresAt with
  | none => cases h
  | some given =>
    rw [normalizeExpiration] at h
    split at h
    · cases h
    · rw [Except.ok.inj h]

/-- The codes after a call: some rows of old invitations are gone, the others have moved, and a new
one may have been added. -/
inductive PairingTables.Changes (hash : String → String) (call : PairingCall)
    (tables tables' : PairingTables) : Prop
  | moved (h : List.Forall₂ (fun row row' => row.Moves hash call row') tables.codes tables'.codes)
  | created (rows : List PairingRow) (row : PairingRow) (hrows : rows.Sublist tables.codes)
      (hcodes : tables'.codes = rows ++ [row]) (hrow : row.Creates hash call)
      (hid : ∀ other ∈ rows, other.id ≠ row.id)
      (hhash : ∀ other ∈ rows, other.codeHash ≠ row.codeHash)

namespace PairingTables

variable {hash : String → String} {tables tables' : PairingTables}

theorem Changes.refl (call : PairingCall) : Changes hash call tables tables :=
  .moved (List.forall₂_same.mpr fun row _ => .same row)

theorem changes_create (code : String) (scopes : List AuthScope) (expiresAt : Option Int)
    (id : String) (clock : ClockReads) :
    Changes hash (.create code scopes expiresAt id clock) tables
      (PairingCall.apply hash tables (.create code scopes expiresAt id clock)) := by
  rw [PairingCall.apply]
  cases h : tables.createAuthPairingCode hash code scopes expiresAt id clock with
  | error => exact .refl _
  | ok result =>
    rw [Runs.settle_ok]
    rw [createAuthPairingCode] at h
    split at h
    · cases h
    cases hscopes : uniqueScopes scopes with
    | error => rw [hscopes] at h; cases h
    | ok unique =>
      cases hexpires : normalizeExpiration expiresAt clock.first with
      | error => rw [hscopes, hexpires] at h; cases h
      | ok expires =>
        rw [hscopes, hexpires] at h
        dsimp only [bind, Except.bind] at h
        split at h
        · cases h
        · next hid =>
          split at h
          · cases h
          · next hhash =>
            obtain rfl := Except.ok.inj h
            have hgiven : expiresAt = some expires := normalizeExpiration_eq_ok hexpires
            refine .created _ _ List.filter_sublist rfl
              ⟨⟨code, scopes, clock, ?_, rfl, hscopes⟩, rfl,
              rfl, rfl⟩ (fun other hother heq => ?_) fun other hother heq => ?_
            · rw [hgiven]
            · exact hid (List.any_eq_true.mpr ⟨other, hother, decide_eq_true heq⟩)
            · exact hhash (List.any_eq_true.mpr ⟨other, hother, decide_eq_true heq⟩)

/-- A row with the id of a looked-up row is that row. -/
theorem Keyed.eq_of_id (h : tables.Keyed) {row other : PairingRow} (hrow : row ∈ tables.codes)
    (hother : other ∈ tables.codes) (hid : other.id = row.id) : other = row := by
  have hlookup : Table.lookup PairingRow.id tables.codes row.id = some row :=
    Table.lookup_of_mem h.ids hrow
  rw [← hid, Table.lookup_of_mem h.ids hother] at hlookup
  exact Option.some_injective _ hlookup

theorem changes_claim (hkeyed : tables.Keyed) (code claimSecret deviceName : String)
    (clock : ClockReads) :
    Changes hash (.claim code claimSecret deviceName clock) tables
      (PairingCall.apply hash tables (.claim code claimSecret deviceName clock)) := by
  rw [PairingCall.apply, claimAuthPairingCode]
  split
  · exact .refl _
  dsimp only
  split
  · exact .refl _
  split
  · exact .refl _
  · next row hrow =>
    obtain ⟨hmem, hcode⟩ := Table.mem_of_lookup hrow
    split
    · exact .refl _
    split
    · split <;> exact .refl _
    · refine .moved
        (Table.forall₂_updateWhere (fun other hother hselected => ?_) fun _ _ _ => .same _)
      rw [Bool.and_eq_true, Option.isNone_iff_eq_none] at hselected
      obtain rfl := hkeyed.eq_of_id hmem hother (of_decide_eq_true hselected.1)
      exact .claimed rfl hcode hselected.2

theorem changes_decide (hkeyed : tables.Keyed) (id : String) (approved : Bool)
    (clock : ClockReads) :
    Changes hash (.decide id approved clock) tables
      (PairingCall.apply hash tables (.decide id approved clock)) := by
  rw [PairingCall.apply, decideAuthPairing]
  split
  · exact .refl _
  · next row hrow =>
    obtain ⟨hmem, rfl⟩ := Table.mem_of_lookup hrow
    split
    · exact .refl _
    · next hstate =>
      refine .moved
        (Table.forall₂_updateWhere (fun other hother hselected => ?_) fun _ _ _ => .same _)
      rw [Bool.and_eq_true, Bool.and_eq_true] at hselected
      obtain rfl := hkeyed.eq_of_id hmem hother (of_decide_eq_true hselected.1.1)
      exact .decided rfl (not_not.mp hstate)

theorem createAuthToken_eq_ok {name : String} {scopes : List AuthScope} {draw : TokenDraw}
    {createdAt : Int} {created : CreatedAuthToken}
    (h : tables.createAuthToken hash name scopes draw createdAt = .ok (created, tables')) :
    tables'.codes = tables.codes ∧ uniqueScopes scopes = .ok created.row.scopes := by
  rw [createAuthToken] at h
  dsimp only at h
  split at h
  · cases h
  split at h
  · cases h
  cases hscopes : uniqueScopes scopes with
  | error => rw [hscopes] at h; cases h
  | ok unique =>
    rw [hscopes] at h
    dsimp only [bind, Except.bind] at h
    split at h
    · cases h
    split at h
    · cases h
    cases h
    exact ⟨rfl, rfl⟩

/-- What an exchange that mints a token found, and what it leaves. -/
structure Mints (hash : String → String) (tables : PairingTables) (code claimSecret : String)
    (clock : ClockReads) (row : PairingRow) (scopes : List AuthScope) (tables' : PairingTables) :
    Prop where
  found : tables.pairingByCode (hash code) = some row
  claim : row.claimSecretHash = some (hash claimSecret)
  unused : row.consumedAt = none
  live : clock.first < row.expiresAt
  decision : row.decision = some .approved
  scopes_eq : ∃ unique, uniqueScopes row.scopes = .ok unique ∧ uniqueScopes unique = .ok scopes
  codes : tables'.codes = Table.updateWhere tables.codes
    (fun other => other.id = row.id && other.consumedAt.isNone && other.decision = some .approved)
    fun other => { other with consumedAt := some clock.second }

theorem exchangeAuthPairingCode_eq_ok {code claimSecret : String} {draw : TokenDraw}
    {clock : ClockReads} {created : CreatedAuthToken}
    (h : tables.exchangeAuthPairingCode hash code claimSecret draw clock = .ok (created, tables')) :
    ∃ row, Mints hash tables code claimSecret clock row created.row.scopes tables' := by
  rw [exchangeAuthPairingCode] at h
  split at h
  · cases h
  split at h
  · cases h
  · next row hrow =>
    split at h
    · cases h
    · next hchecks =>
      push Not at hchecks
      split at h
      · cases h
      · cases h
      · next hdecision =>
        split at h
        · cases h
        · dsimp only at h
          split at h
          · cases h
          · obtain ⟨unique, hscopes, h⟩ := except_bind_eq_ok h
            obtain ⟨hcodes, htoken⟩ := createAuthToken_eq_ok h
            exact ⟨row, hrow, hchecks.1, by simpa using hchecks.2.1, hchecks.2.2, hdecision,
              ⟨unique, hscopes, htoken⟩, hcodes⟩

theorem changes_exchange (code claimSecret : String) (draw : TokenDraw) (clock : ClockReads) :
    Changes hash (.exchange code claimSecret draw clock) tables
      (PairingCall.apply hash tables (.exchange code claimSecret draw clock)) := by
  rw [PairingCall.apply]
  cases h : tables.exchangeAuthPairingCode hash code claimSecret draw clock with
  | error => exact .refl _
  | ok result =>
    obtain ⟨row, hmints⟩ := exchangeAuthPairingCode_eq_ok h
    rw [Runs.settle_ok]
    refine .moved ?_
    rw [hmints.codes]
    exact Table.forall₂_updateWhere (fun other _ _ => .consumed _) fun _ _ _ => .same _

end PairingTables

theorem PairingCall.changes_apply {hash : String → String} {tables : PairingTables}
    (hkeyed : tables.Keyed) (call : PairingCall) :
    PairingTables.Changes hash call tables (call.apply hash tables) := by
  cases call with
  | create code scopes expiresAt id clock =>
    exact PairingTables.changes_create code scopes expiresAt id clock
  | claim code claimSecret deviceName clock =>
    exact PairingTables.changes_claim hkeyed code claimSecret deviceName clock
  | decide id approved clock => exact PairingTables.changes_decide hkeyed id approved clock
  | exchange code claimSecret draw clock =>
    exact PairingTables.changes_exchange code claimSecret draw clock

namespace PairingTables

variable {hash : String → String} {tables tables' : PairingTables} {call : PairingCall}

theorem Changes.keyed (h : Changes hash call tables tables') (hkeyed : tables.Keyed) :
    tables'.Keyed := by
  cases h with
  | moved h =>
    constructor
    · rw [Table.map_eq_of_forall₂ PairingRow.id (fun _ _ hmoves => hmoves.id_eq) h]
      exact hkeyed.ids
    · rw [Table.map_eq_of_forall₂ PairingRow.codeHash (fun _ _ hmoves => hmoves.codeHash_eq) h]
      exact hkeyed.hashes
  | created rows row hrows hcodes hrow hid hhash =>
    constructor
    · rw [hcodes]
      exact Table.nodup_map_concat hkeyed.ids hrows hid
    · rw [hcodes]
      exact Table.nodup_map_concat hkeyed.hashes hrows hhash

/-- Where a row comes from. -/
theorem Changes.row_cases (h : Changes hash call tables tables') {row' : PairingRow}
    (hrow' : row' ∈ tables'.codes) :
    row'.Creates hash call ∨ ∃ row ∈ tables.codes, row.Moves hash call row' := by
  cases h with
  | moved h => exact .inr (Table.exists_of_mem_forall₂ h hrow')
  | created rows row hrows hcodes hrow _ _ =>
    rw [hcodes, List.mem_append, List.mem_singleton] at hrow'
    rcases hrow' with hold | rfl
    · exact .inr ⟨row', hrows.subset hold, .same row'⟩
    · exact .inl hrow

end PairingTables

/-! ### Whole histories -/

section History

variable {hash : String → String} {calls : List PairingCall}

theorem keyed_pairingTables (calls : List PairingCall) : (pairingTables hash calls).Keyed :=
  Runs.invariant calls ⟨List.nodup_nil, List.nodup_nil⟩
    fun _ call h => (call.changes_apply h).keyed h

/-- The tables before call `n`. -/
def pairingTablesAt (hash : String → String) (calls : List PairingCall) (n : Nat) : PairingTables :=
  pairingTables hash (calls.take n)

theorem changes_at {n : Nat} {call : PairingCall} (hcall : calls[n]? = some call) :
    PairingTables.Changes hash call (pairingTablesAt hash calls n)
      (pairingTablesAt hash calls (n + 1)) := by
  have hstep :
      pairingTablesAt hash calls (n + 1) = call.apply hash (pairingTablesAt hash calls n) :=
    Runs.exists_step_of_getElem? hcall
  rw [hstep]
  exact call.changes_apply (keyed_pairingTables _)

theorem pairingTablesAt_of_none {n : Nat} (hcall : calls[n]? = none) :
    pairingTablesAt hash calls (n + 1) = pairingTablesAt hash calls n := by
  have hlength : calls.length ≤ n := List.getElem?_eq_none_iff.mp hcall
  rw [pairingTablesAt, pairingTablesAt, List.take_of_length_le hlength,
    List.take_of_length_le (by omega)]

/-- The calls that made a row what it is before call `n`: the call that created the invitation, the
first claim, and the decision on that claim. -/
structure PairingRow.Provenance (hash : String → String) (calls : List PairingCall) (n : Nat)
    (row : PairingRow) : Prop where
  created : ∃ k < n, ∃ code scopes clock,
    calls[k]? = some (.create code scopes (some row.expiresAt) row.id clock) ∧
      row.codeHash = hash code ∧ uniqueScopes scopes = .ok row.scopes
  claimed : ∀ claim, row.claimSecretHash = some claim → ∃ i < n,
  ∃ code claimSecret deviceName clock,
    calls[i]? = some (.claim code claimSecret deviceName clock) ∧ row.codeHash = hash code ∧
      claim = hash claimSecret ∧
      ∃ old ∈ (pairingTablesAt hash calls i).codes, old.id = row.id ∧ old.claimSecretHash = none
  decided : ∀ decision, row.decision = some decision → ∃ j < n, ∃ approved clock,
    calls[j]? = some (.decide row.id approved clock) ∧
      decision = (if approved then .approved else .rejected) ∧
      ∃ old ∈ (pairingTablesAt hash calls j).codes, old.id = row.id ∧
        old.state clock.first = .awaitingApproval ∧ old.claimSecretHash = row.claimSecretHash

theorem PairingRow.Creates.provenance {row : PairingRow} {n : Nat} {call : PairingCall}
    (h : row.Creates hash call) (hcall : calls[n]? = some call) :
    row.Provenance hash calls (n + 1) := by
  obtain ⟨code, scopes, clock, rfl, hcode, hscopes⟩ := h.call_eq
  refine ⟨⟨n, n.lt_succ_self, code, scopes, clock, hcall, hcode, hscopes⟩, fun claim hclaim => ?_,
    fun decision hdecision => ?_⟩
  · rw [h.unclaimed] at hclaim
    cases hclaim
  · rw [h.undecided] at hdecision
    cases hdecision

theorem PairingRow.Provenance.succ {row : PairingRow} {n : Nat} (h : row.Provenance hash calls n) :
    row.Provenance hash calls (n + 1) := by
  refine ⟨?_, fun claim hclaim => ?_, fun decision hdecision => ?_⟩
  · obtain ⟨k, hk, hrest⟩ := h.created
    exact ⟨k, hk.trans n.lt_succ_self, hrest⟩
  · obtain ⟨i, hi, hrest⟩ := h.claimed claim hclaim
    exact ⟨i, hi.trans n.lt_succ_self, hrest⟩
  · obtain ⟨j, hj, hrest⟩ := h.decided decision hdecision
    exact ⟨j, hj.trans n.lt_succ_self, hrest⟩

/-- A decided row has a claim. -/
theorem PairingRow.Provenance.isSome_claim {row : PairingRow} {n : Nat}
    (h : row.Provenance hash calls n) {decision : PairingDecision}
    (hdecision : row.decision = some decision) : row.claimSecretHash.isSome = true := by
  obtain ⟨_, _, _, _, _, _, old, _, _, hpending, hclaim⟩ := h.decided decision hdecision
  rw [← hclaim]
  exact (PairingRow.state_eq_awaitingApproval.mp hpending).2.2.1

theorem PairingRow.Moves.provenance {row row' : PairingRow} {n : Nat} {call : PairingCall}
    (hmoves : row.Moves hash call row') (hcall : calls[n]? = some call)
    (hrow : row ∈ (pairingTablesAt hash calls n).codes) (h : row.Provenance hash calls n) :
    row'.Provenance hash calls (n + 1) := by
  cases hmoves with
  | same => exact h.succ
  | @claimed code claimSecret deviceName clock hcalled hcode hclaim =>
    refine ⟨h.succ.created, fun claim hsecret => ?_, fun decision hdecision => ?_⟩
    · exact ⟨n, n.lt_succ_self, code, claimSecret, deviceName, clock, hcalled ▸ hcall, hcode,
        (Option.some.inj hsecret).symm, row, hrow, rfl, hclaim⟩
    · -- a decided row has a claim, so it was not claimed now
      have hsome := h.isSome_claim hdecision
      rw [hclaim] at hsome
      cases hsome
  | @decided approved clock hcalled hpending =>
    refine ⟨h.succ.created, h.succ.claimed, fun decision hdecision => ?_⟩
    exact ⟨n, n.lt_succ_self, approved, clock, hcalled ▸ hcall, (Option.some.inj hdecision).symm,
      row, hrow, rfl, hpending, rfl⟩
  | consumed => exact ⟨h.succ.created, h.succ.claimed, h.succ.decided⟩

theorem provenance_at (n : Nat) :
    ∀ row ∈ (pairingTablesAt hash calls n).codes, row.Provenance hash calls n := by
  induction n with
  | zero => exact fun row hrow => absurd hrow List.not_mem_nil
  | succ n ih =>
    intro row' hrow'
    cases hcall : calls[n]? with
    | none =>
      rw [pairingTablesAt_of_none hcall] at hrow'
      exact (ih row' hrow').succ
    | some call =>
      obtain hcreates | ⟨row, hrow, hmoves⟩ := (changes_at hcall).row_cases hrow'
      · exact hcreates.provenance hcall
      · exact hmoves.provenance hcall hrow (ih row hrow)

/-- What a row keeps as long as it exists. -/
structure PairingRow.Keeps (row row' : PairingRow) : Prop where
  id : row'.id = row.id
  claim : ∀ claim, row.claimSecretHash = some claim → row'.claimSecretHash = some claim ∧
    row'.requestedDevice = row.requestedDevice ∧ row'.claimedAt = row.claimedAt
  decision : ∀ decision, row.decision = some decision → row'.decision = some decision
  consumed : row.consumedAt ≠ none → row'.consumedAt ≠ none

theorem PairingRow.Keeps.refl (row : PairingRow) : row.Keeps row :=
  ⟨rfl, fun _ h => ⟨h, rfl, rfl⟩, fun _ h => h, fun h => h⟩

theorem PairingRow.Keeps.trans {a b c : PairingRow} (h : a.Keeps b) (h' : b.Keeps c) :
    a.Keeps c where
  id := h'.id.trans h.id
  claim claim ha := by
    obtain ⟨hb, hdevice, hat⟩ := h.claim claim ha
    obtain ⟨hc, hdevice', hat'⟩ := h'.claim claim hb
    exact ⟨hc, hdevice'.trans hdevice, hat'.trans hat⟩
  decision decision ha := h'.decision decision (h.decision decision ha)
  consumed ha := h'.consumed (h.consumed ha)

theorem PairingRow.Moves.keeps {row row' : PairingRow} {call : PairingCall}
    (h : row.Moves hash call row') : row.Keeps row' := by
  cases h with
  | same => exact .refl row
  | claimed _ _ hclaim =>
    refine ⟨rfl, fun claim hsome => ?_, fun _ h => h, fun h => h⟩
    rw [hclaim] at hsome
    cases hsome
  | decided _ hpending =>
    refine ⟨rfl, fun _ h => ⟨h, rfl, rfl⟩, fun decision hsome => ?_, fun h => h⟩
    rw [(PairingRow.state_eq_awaitingApproval.mp hpending).2.2.2] at hsome
    cases hsome
  | consumed at_ => exact
      ⟨rfl, fun _ h => ⟨h, rfl, rfl⟩, fun _ h => h, fun _ => Option.some_ne_none at_⟩

/-- Call `n` mints a token for the invitation `id`. -/
def MintsAt (hash : String → String) (calls : List PairingCall) (n : Nat) (id : String)
    (created : CreatedAuthToken) : Prop :=
  ∃ code claimSecret draw clock row tables',
    calls[n]? = some (.exchange code claimSecret draw clock) ∧
      (pairingTablesAt hash calls n).pairingByCode (hash code) = some row ∧ row.id = id ∧
      (pairingTablesAt hash calls n).exchangeAuthPairingCode hash code claimSecret draw clock =
        .ok (created, tables')

/-- The invitation `id` has no claim before call `n`. -/
def UnclaimedAt (hash : String → String) (calls : List PairingCall) (n : Nat) (id : String) :
    Prop :=
  ∃ row ∈ (pairingTablesAt hash calls n).codes, row.id = id ∧ row.claimSecretHash = none

/-- The claim of the invitation `id` is pending before call `n`, at the time `now`. -/
def PendingAt (hash : String → String) (calls : List PairingCall) (n : Nat) (id claim : String)
    (now : Int) : Prop :=
  ∃ row ∈ (pairingTablesAt hash calls n).codes, row.id = id ∧ row.claimSecretHash = some claim ∧
    row.state now = .awaitingApproval

theorem MintsAt.mints {n : Nat} {id : String} {created : CreatedAuthToken}
    (h : MintsAt hash calls n id created) :
    ∃ code claimSecret draw clock row, row.id = id ∧
      calls[n]? = some (.exchange code claimSecret draw clock) ∧
      (pairingTablesAt hash calls n).Mints hash code claimSecret clock row created.row.scopes
        (pairingTablesAt hash calls (n + 1)) := by
  obtain ⟨code, claimSecret, draw, clock, row, tables', hcall, hrow, rfl, hok⟩ := h
  have hstep : pairingTablesAt hash calls (n + 1) =
      PairingCall.apply hash (pairingTablesAt hash calls n)
        (.exchange code claimSecret draw clock) :=
    Runs.exists_step_of_getElem? hcall
  have hnext : pairingTablesAt hash calls (n + 1) = tables' := by
    rw [hstep, PairingCall.apply, hok, Runs.settle_ok]
  obtain ⟨found, hmints⟩ := PairingTables.exchangeAuthPairingCode_eq_ok hok
  obtain rfl : row = found := Option.some.inj (hrow.symm.trans hmints.found)
  exact ⟨code, claimSecret, draw, clock, row, rfl, hcall, hnext ▸ hmints⟩

/-- The invitation is used up by a mint. -/
theorem PairingTables.Mints.consumed {tables tables' : PairingTables} {code claimSecret : String}
    {clock : ClockReads} {row : PairingRow} {scopes : List AuthScope} (hkeyed : tables.Keyed)
    (h : tables.Mints hash code claimSecret clock row scopes tables') {row' : PairingRow}
    (hrow' : row' ∈ tables'.codes) (hid : row'.id = row.id) : row'.consumedAt ≠ none := by
  obtain ⟨hmem, -⟩ := Table.mem_of_lookup h.found
  rw [h.codes, Table.mem_updateWhere] at hrow'
  obtain ⟨hold, hselected⟩ | ⟨old, hold, -, rfl⟩ := hrow'
  · obtain rfl := hkeyed.eq_of_id hmem hold hid
    simp [h.unused, h.decision] at hselected
  · exact Option.some_ne_none _

variable (hids : (calls.filterMap PairingCall.invitation?).Nodup)
include hids

/-- The invitation of a row was there before, once it had been created. -/
theorem exists_earlier {k n m : Nat} {code : String} {scopes : List AuthScope}
    {expiresAt : Option Int}
    {id : String} {clock : ClockReads}
    (hcreate : calls[k]? = some (.create code scopes expiresAt id clock))
    (hkn : k < n) (hnm : n ≤ m) {row' : PairingRow}
    (hrow' : row' ∈ (pairingTablesAt hash calls m).codes)
    (hid : row'.id = id) :
    ∃ row ∈ (pairingTablesAt hash calls n).codes, row.Keeps row' := by
  induction m, hnm using Nat.le_induction generalizing row' with
  | base => exact ⟨row', hrow', .refl row'⟩
  | succ m hnm ih =>
    cases hcall : calls[m]? with
    | none =>
      rw [pairingTablesAt_of_none hcall] at hrow'
      exact ih hrow' hid
    | some call =>
      obtain hcreates | ⟨row, hrow, hmoves⟩ := (changes_at hcall).row_cases hrow'
      · -- the id would have been drawn twice
        obtain ⟨code', scopes', clock', rfl, -, -⟩ := hcreates.call_eq
        have hkm : k = m := Runs.index_eq_of_draw hids hcreate hcall rfl (by rw [← hid]; rfl)
        omega
      · obtain ⟨first, hfirst, hkeeps⟩ := ih hrow (hmoves.id_eq.symm.trans hid)
        exact ⟨first, hfirst, hkeeps.trans hmoves.keeps⟩

theorem not_mintsAt_of_lt {n m : Nat} {id : String} {created created' : CreatedAuthToken}
    (hn : MintsAt hash calls n id created) (hm : MintsAt hash calls m id created') : ¬n < m := by
  intro hlt
  obtain ⟨_, _, _, _, row, hid, -, hmints⟩ := hn.mints
  obtain ⟨_, _, _, _, row', hid', -, hmints'⟩ := hm.mints
  obtain ⟨hmem, -⟩ := Table.mem_of_lookup hmints.found
  obtain ⟨hmem', -⟩ := Table.mem_of_lookup hmints'.found
  obtain ⟨k, hk, _, _, _, hcreate, -, -⟩ := (provenance_at n row hmem).created
  -- the row of the second mint was there, used up, behind the first
  obtain ⟨first, hfirst, hkeeps⟩ := exists_earlier hids hcreate (hk.trans n.lt_succ_self) hlt hmem'
    (hid'.trans hid.symm)
  have hconsumed : first.consumedAt ≠ none :=
    hmints.consumed (keyed_pairingTables _) hfirst (hkeeps.id.symm.trans (hid'.trans hid.symm))
  exact hkeeps.consumed hconsumed hmints'.unused

/-- Two rows of one invitation come from the same creating call. -/
theorem created_eq {n m : Nat} {row row' : PairingRow} (h : row.Provenance hash calls n)
    (h' : row'.Provenance hash calls m) (hid : row'.id = row.id) :
    ∃ k < m, ∃ code scopes clock,
      calls[k]? = some (.create code scopes (some row.expiresAt) row.id clock) ∧
        row.codeHash = hash code ∧ row'.codeHash = hash code ∧
        uniqueScopes scopes = .ok row.scopes := by
  obtain ⟨k, -, code, scopes, clock, hcreate, hcode, hscopes⟩ := h.created
  obtain ⟨k', hk', code', scopes', clock', hcreate', hcode', -⟩ := h'.created
  obtain rfl : k = k' := Runs.index_eq_of_draw hids hcreate hcreate' rfl (by rw [← hid]; rfl)
  have hcalls := Option.some.inj (hcreate.symm.trans hcreate')
  injection hcalls with hcodes
  exact ⟨k, hk', code, scopes, clock, hcreate, hcode, hcodes ▸ hcode', hscopes⟩

end History

/-- **Device pairing.** In every history of the four calls: at most one token is minted for an
invitation; a token goes to a caller that presents the code and the secret of the first claim, after
the host approved that claim while it was pending, before the invitation expired, with the scopes of
the invitation; and a claim or a decision of an invitation never changes. -/
theorem device_pairing_is_safe (hash : String → String) (hhash : Function.Injective hash)
    (calls : List PairingCall) (hids : (calls.filterMap PairingCall.invitation?).Nodup) :
    (∀ n m id created created', MintsAt hash calls n id created → MintsAt hash calls m id created' →
        n = m) ∧
      (∀ n id created, MintsAt hash calls n id created →
        ∃ code claimSecret draw clock scopes expiresAt,
          calls[n]? = some (.exchange code claimSecret draw clock) ∧ clock.first < expiresAt ∧
          uniqueScopes scopes = .ok created.row.scopes ∧
          ∃ k i j, k < i ∧ i < j ∧ j < n ∧
            (∃ reads, calls[k]? = some (.create code scopes (some expiresAt) id reads)) ∧
            (∃ deviceName reads, calls[i]? = some (.claim code claimSecret deviceName reads) ∧
              UnclaimedAt hash calls i id) ∧
            ∃ reads, calls[j]? = some (.decide id true reads) ∧
              PendingAt hash calls j id (hash claimSecret) reads.first) ∧
      ∀ n m, n ≤ m → ∀ row ∈ (pairingTablesAt hash calls n).codes,
        ∀ row' ∈ (pairingTablesAt hash calls m).codes, row'.id = row.id → row.Keeps row' := by
  refine ⟨fun n m id created created' hn hm => ?_, fun n id created hmint => ?_,
    fun n m hnm row hrow row' hrow' hid => ?_⟩
  · have hle : ¬n < m := not_mintsAt_of_lt hids hn hm
    have hge : ¬m < n := not_mintsAt_of_lt hids hm hn
    omega
  · obtain ⟨code, claimSecret, draw, clock, row, rfl, hcall, hmints⟩ := hmint.mints
    obtain ⟨hmem, hcode⟩ := Table.mem_of_lookup hmints.found
    have hrow := provenance_at n row hmem
    -- backwards from the mint: the approval, the claim it was about, the invitation
    obtain ⟨j, hj, approved, reads, hdecide, happroved, pending, hpending, hpendingId, hstate,
      hclaim⟩ :=
      hrow.decided .approved hmints.decision
    obtain rfl : approved = true := by
      cases approved with
      | true => rfl
      | false => cases happroved
    rw [hmints.claim] at hclaim
    have hpendingRow := provenance_at j pending hpending
    obtain ⟨i, hi, code', claimSecret', deviceName, reads', hclaimed, hcode', hsecret, old, hold,
      holdId, hunclaimed⟩ := hpendingRow.claimed _ hclaim
    obtain ⟨k, hk, created₀, scopes, reads₀, hcreate, hrowCode, -, hscopes⟩ :=
      created_eq hids hrow (provenance_at i old hold) (holdId.trans hpendingId)
    obtain ⟨_, -, code₁, scopes₁, reads₁, hcreate₁, hrowCode₁, hpendingCode, -⟩ :=
      created_eq hids hrow hpendingRow hpendingId
    obtain rfl : claimSecret = claimSecret' := hhash hsecret
    obtain rfl : created₀ = code := hhash (hrowCode.symm.trans hcode)
    obtain rfl : created₀ = code' := by
      refine hhash (hrowCode.symm.trans (hrowCode₁.trans ?_))
      rw [← hpendingCode, hcode']
    obtain ⟨unique, hunique, htoken⟩ := hmints.scopes_eq
    have hsame : created.row.scopes = row.scopes := by
      rw [uniqueScopes_idem hscopes] at hunique
      obtain rfl := Except.ok.inj hunique
      rw [uniqueScopes_idem hscopes] at htoken
      exact (Except.ok.inj htoken).symm
    refine ⟨created₀, claimSecret, draw, clock, scopes, row.expiresAt, hcall, hmints.live, ?_, k,
      i, j,
      hk, hi, hj, ⟨reads₀, hcreate⟩, ⟨deviceName, reads', hclaimed, old, hold, ?_, hunclaimed⟩,
      reads, hdecide, pending, hpending, hpendingId, hclaim, hstate⟩
    · rw [hsame, hscopes]
    · exact holdId.trans hpendingId
  · obtain ⟨k, hk, _, _, _, hcreate, -, -⟩ := (provenance_at n row hrow).created
    obtain ⟨first, hfirst, hkeeps⟩ := exists_earlier hids hcreate hk hnm hrow' hid
    obtain rfl := (keyed_pairingTables _).eq_of_id hrow hfirst (hkeeps.id.symm.trans hid)
    exact hkeeps

/-- An invitation is created, claimed, approved and exchanged. -/
def pairedCalls : List PairingCall :=
  [.create "0123456789abcdef0123456789abcdef" [.read, .run, .read] (some 100) "i" ⟨0, 0, 0⟩,
    .claim "0123456789abcdef0123456789abcdef" "secret of the device that claims" "phone" ⟨1, 1, 1⟩,
    .decide "i" true ⟨2, 2, 2⟩,
    .exchange "0123456789abcdef0123456789abcdef" "secret of the device that claims" ⟨"t", "token"⟩
      ⟨3, 3, 3⟩]

/-- The token of the last call. -/
def pairedToken : CreatedAuthToken where
  token := "token"
  row :=
    { id := "t", tokenHash := "token", name := "phone", scopes := [.read, .run], createdAt := 3,
      expiresAt := none }

theorem mintsAt_pairedCalls : MintsAt id pairedCalls 3 "i" pairedToken :=
  ⟨_, _, _, _, _, _, rfl, rfl, rfl, rfl⟩

theorem pairedCalls_mint_after_approval :
    ∃ j < 3, ∃ reads, pairedCalls[j]? = some (.decide "i" true reads) ∧
      PendingAt id pairedCalls j "i" "secret of the device that claims" reads.first := by
  obtain ⟨_, claimSecret, _, _, _, _, hcall, -, -, _, _, j, -, -, hj, -, -, reads, hdecide,
    hpending⟩ :=
    (device_pairing_is_safe id Function.injective_id pairedCalls (by decide)).2.1 3 "i" pairedToken
      mintsAt_pairedCalls
  cases hcall
  exact ⟨j, hj, reads, hdecide, hpending⟩

end KakuneCore
