import KakuneCore.Lifecycle.Basic
import KakuneCore.Store.Secrets

/-!
# The salt of the vault

The key of the vault is derived from the passphrase and a salt in a file. The file is created by the
first call that needs it: every `encrypt` looks whether it exists, and truncates and writes it where
it does not. Between the two, another call may have created it and encrypted under it. As long as no
call creates the file while a salt is in use, everything that was encrypted stays readable.
-/

namespace KakuneCore

/-! ### Keys -/

abbrev Salt := { bytes : Bytes // bytes.length = 16 }

abbrev Passphrase := { text : String // text ≠ "" }

/-- The cipher under the key that is derived from a passphrase and a salt. -/
abbrev KeyDerivation := Passphrase → Salt → Except String Vault

/-- What was encrypted under a derived key can be decrypted under it. -/
def OpensDerived (derive : KeyDerivation) : Prop :=
  ∀ passphrase salt vault, derive passphrase salt = .ok vault → vault.Opens

/-- The passphrase of the environment, as `derive_key` takes it. -/
def unlockPassphrase : Option String → Except String Passphrase
  | none => .error "vault is locked; set KAKUNE_VAULT_PASSPHRASE"
  | some text =>
    if h : text = "" then
      .error "vault is locked; KAKUNE_VAULT_PASSPHRASE must not be empty"
    else .ok ⟨text, h⟩

/-- `bytes.try_into()`. -/
def saltOfBytes (bytes : Bytes) : Except String Salt :=
  if h : bytes.length = 16 then .ok ⟨bytes, h⟩ else .error "stored vault salt is invalid"

def loadExistingSalt : Option Bytes → Except String Salt
  | none => .error "vault salt is unavailable; read-only resolution did not initialize the vault"
  | some bytes => saltOfBytes bytes

/-- The last step of `derive_key`. -/
def deriveKey (derive : KeyDerivation) (passphrase : Passphrase) (salt : Salt) :
    Except String Vault :=
  (derive passphrase salt).mapError ("cannot derive vault key: " ++ ·)

/-- `vault::decrypt` over the salt file. -/
def vaultDecrypt (derive : KeyDerivation) (file : Option Bytes) (passphrase : Option String)
    (nonce ciphertext : ByteArray) : Except String ByteArray :=
  if nonce.size ≠ 12 then .error "stored secret has an invalid vault nonce"
  else do
    let passphrase ← unlockPassphrase passphrase
    let salt ← loadExistingSalt file
    let vault ← deriveKey derive passphrase salt
    vault.decrypt (.ok ()) nonce ciphertext

/-- What a call of `encrypt` is given. -/
structure VaultRequest where
  passphrase : Passphrase
  plaintext : ByteArray

/-- `vault::encrypt` once it has its salt. -/
def vaultEncrypt (derive : KeyDerivation) (request : VaultRequest) (salt : Salt)
    (nonce : VaultNonce) : Except String Ciphertext := do
  let vault ← deriveKey derive request.passphrase salt
  vault.encrypt (.ok ()) nonce request.plaintext

@[simp]
theorem unlockPassphrase_coe (passphrase : Passphrase) :
    unlockPassphrase (some passphrase) = .ok passphrase := dif_neg passphrase.2

@[simp]
theorem saltOfBytes_coe (salt : Salt) : saltOfBytes salt = .ok salt := dif_pos salt.2

theorem saltOfBytes_eq_ok {bytes : Bytes} {salt : Salt} (h : saltOfBytes bytes = .ok salt) :
    bytes = salt := by
  rw [saltOfBytes] at h
  split at h
  · cases h
    rfl
  · cases h

theorem deriveKey_eq_ok {derive : KeyDerivation} {passphrase : Passphrase} {salt : Salt}
    {vault : Vault} (h : deriveKey derive passphrase salt = .ok vault) :
    derive passphrase salt = .ok vault := by
  rw [deriveKey] at h
  cases hvault : derive passphrase salt with
  | error => rw [hvault] at h; cases h
  | ok => rw [hvault] at h; exact h

/-- **What was encrypted under a salt is readable while the file holds that salt.** -/
theorem vaultDecrypt_of_vaultEncrypt {derive : KeyDerivation} (hderive : OpensDerived derive)
    {request : VaultRequest} {salt : Salt} {nonce : VaultNonce} {encrypted : Ciphertext}
    (h : vaultEncrypt derive request salt nonce = .ok encrypted) :
    vaultDecrypt derive (some salt.1) (some request.passphrase.1) encrypted.nonce
      encrypted.ciphertext = .ok request.plaintext := by
  obtain ⟨vault, hvault, h⟩ := except_bind_eq_ok h
  have hopens := hderive _ _ _ (deriveKey_eq_ok hvault)
  have hsize : ¬encrypted.nonce.size ≠ 12 := by
    rw [(Vault.encrypt_eq_ok h).1, not_not]
    exact nonce.2
  rw [vaultDecrypt, if_neg hsize, unlockPassphrase_coe, loadExistingSalt, saltOfBytes_coe]
  calc
    _ = (deriveKey derive request.passphrase salt >>= fun vault =>
          vault.decrypt (.ok ()) encrypted.nonce encrypted.ciphertext) := rfl
    _ = vault.decrypt (.ok ()) encrypted.nonce encrypted.ciphertext := by rw [hvault]; rfl
    _ = .ok request.plaintext := hopens.decrypt_eq h

/-! ### Calls of encrypt -/

/-- Where a call of `encrypt` is. -/
inductive VaultPhase
  | absent
  | checking (request : VaultRequest)
  | reading (request : VaultRequest)
  | creating (request : VaultRequest) (salt : Salt)
  | writing (request : VaultRequest) (salt : Salt) (written : Nat)
  | keyed (request : VaultRequest) (salt : Salt)
  | finished (answer : Except String Ciphertext)
  | stopped

/-- The salt that a call writes or has. -/
def VaultPhase.salt? : VaultPhase → Option Salt
  | .writing _ salt _ | .keyed _ salt => some salt
  | _ => none

/-- A ciphertext that a call has returned. -/
structure ReturnedCiphertext where
  request : VaultRequest
  ciphertext : Ciphertext

/-- The salt file, the calls, and what they have returned. -/
structure VaultState where
  salt : Option Bytes
  calls : Nat → VaultPhase
  returned : List ReturnedCiphertext

inductive VaultEvent
  /-- A call begins. -/
  | begin (call : Nat) (passphrase : Option String) (plaintext : ByteArray)
  /-- `path.exists()`, which is false also for a file that cannot be inspected. The salt is the one
  that is drawn if it is. -/
  | check (call : Nat) (answered : Bool) (salt : Salt)
  /-- The file is opened and truncated. -/
  | create (call : Nat) (answer : Except String Unit)
  /-- Some of the bytes that remain are written. -/
  | write (call : Nat) (amount : Nat) (answer : Except String Unit)
  /-- The file is read. -/
  | read (call : Nat) (answer : Except String Unit)
  /-- The key is derived and the plaintext encrypted. -/
  | encrypt (call : Nat) (nonce : VaultNonce)
  /-- The process of the call stops. -/
  | stop (call : Nat)

namespace VaultState

/-- A fresh data directory. -/
def fresh : VaultState := ⟨none, fun _ => .absent, []⟩

def setPhase (state : VaultState) (call : Nat) (phase : VaultPhase) : VaultState :=
  { state with calls := Function.update state.calls call phase }

/-- Bytes written at an offset of a file; a gap is filled with zeros. -/
def writeAt (bytes : Bytes) (offset : Nat) (chunk : Bytes) : Bytes :=
  (bytes ++ List.replicate (offset - bytes.length) 0).take offset ++ chunk ++
    bytes.drop (offset + chunk.length)

/-- The read of `load_or_create_salt`. -/
def readSalt (file : Option Bytes) : Except String Unit → Except String Salt
  | .error error => .error ("cannot read vault salt: " ++ error)
  | .ok () =>
    match file with
    | none => .error "cannot read vault salt: No such file or directory (os error 2)"
    | some bytes => saltOfBytes bytes

/-- **One step of one call.** -/
def step (derive : KeyDerivation) (state : VaultState) : VaultEvent → VaultState
  | .begin call passphrase plaintext =>
    match state.calls call with
    | .absent =>
      match unlockPassphrase passphrase with
      | .ok passphrase => state.setPhase call (.checking ⟨passphrase, plaintext⟩)
      | .error error => state.setPhase call (.finished (.error error))
    | _ => state
  | .check call answered salt =>
    match state.calls call with
    | .checking request =>
      if state.salt.isSome && answered then state.setPhase call (.reading request)
      else state.setPhase call (.creating request salt)
    | _ => state
  | .create call answer =>
    match state.calls call with
    | .creating request salt =>
      match answer with
      | .ok () => { state with salt := some [] }.setPhase call (.writing request salt 0)
      | .error error =>
        state.setPhase call (.finished (.error ("cannot create vault salt: " ++ error)))
    | _ => state
  | .write call amount answer =>
    match state.calls call with
    | .writing request salt written =>
      let chunk := (salt.1.drop written).take amount
      let next := { state with salt := state.salt.map (writeAt · written chunk) }
      match answer with
      | .ok () =>
        if written + chunk.length < 16 then
          next.setPhase call (.writing request salt (written + chunk.length))
        else next.setPhase call (.keyed request salt)
      | .error error =>
        next.setPhase call (.finished (.error ("cannot create vault salt: " ++ error)))
    | _ => state
  | .read call answer =>
    match state.calls call with
    | .reading request =>
      match readSalt state.salt answer with
      | .ok salt => state.setPhase call (.keyed request salt)
      | .error error => state.setPhase call (.finished (.error error))
    | _ => state
  | .encrypt call nonce =>
    match state.calls call with
    | .keyed request salt =>
      match vaultEncrypt derive request salt nonce with
      | .ok ciphertext =>
        { state with returned := ⟨request, ciphertext⟩ :: state.returned }.setPhase call
          (.finished (.ok ciphertext))
      | .error error => state.setPhase call (.finished (.error error))
    | _ => state
  | .stop call => state.setPhase call .stopped

/-- Every ciphertext that was returned can be decrypted with its passphrase. -/
def Readable (derive : KeyDerivation) (state : VaultState) : Prop :=
  ∀ entry ∈ state.returned, vaultDecrypt derive state.salt (some entry.request.passphrase.1)
    entry.ciphertext.nonce entry.ciphertext.ciphertext = .ok entry.request.plaintext

/-- Nothing was encrypted, and no other call writes or has a salt. -/
def Unused (state : VaultState) (call : Nat) : Prop :=
  state.returned = [] ∧ ∀ other ≠ call, (state.calls other).salt? = none

/-- A call that creates the file does so while no salt is in use. -/
def CreatesUnused (state : VaultState) : VaultEvent → Prop
  | .create call (.ok ()) =>
    (∃ request salt, state.calls call = .creating request salt) → state.Unused call
  | _ => True

/-! ### The invariant -/

/-- The file holds the salt of every call that has one and of everything that was encrypted; a call
that is writing its salt is the only one, and the file holds what it has written. -/
structure Settled (derive : KeyDerivation) (state : VaultState) : Prop where
  keyed : ∀ call request salt, state.calls call = .keyed request salt → state.salt = some salt.1
  writing : ∀ call request salt written, state.calls call = .writing request salt written →
    state.salt = some (salt.1.take written) ∧ written < 16 ∧ state.Unused call
  returned : ∀ entry ∈ state.returned, ∃ salt nonce, state.salt = some (Subtype.val salt) ∧
    vaultEncrypt derive entry.request salt nonce = .ok entry.ciphertext

variable {derive : KeyDerivation} {state : VaultState}

@[simp]
theorem setPhase_salt (call : Nat) (phase : VaultPhase) :
    (state.setPhase call phase).salt = state.salt := rfl

@[simp]
theorem setPhase_returned (call : Nat) (phase : VaultPhase) :
    (state.setPhase call phase).returned = state.returned := rfl

theorem setPhase_calls (call other : Nat) (phase : VaultPhase) :
    (state.setPhase call phase).calls other = if other = call then phase else state.calls other :=
  Function.update_apply _ _ _ _

theorem settled_fresh : fresh.Settled derive where
  keyed _ _ _ h := by cases h
  writing _ _ _ _ h := by cases h
  returned _ h := by cases h

theorem readSalt_eq_ok {file : Option Bytes} {answer : Except String Unit} {salt : Salt}
    (h : readSalt file answer = .ok salt) : file = some salt.1 := by
  cases answer with
  | error => cases h
  | ok =>
    cases file with
    | none => cases h
    | some bytes => exact congrArg some (saltOfBytes_eq_ok h)

/-- Another call's phase is seen by `Unused` only through its salt. -/
theorem Unused.setPhase {call other : Nat} {phase : VaultPhase} (h : state.Unused other)
    (hphase : call ≠ other → phase.salt? = none) : (state.setPhase call phase).Unused other := by
  refine ⟨h.1, fun third hthird => ?_⟩
  rw [setPhase_calls]
  split
  · next heq => exact hphase (heq ▸ hthird)
  · exact h.2 third hthird

/-- A call may always come to a phase without a salt. -/
theorem Settled.setPhase (h : state.Settled derive) {call : Nat} {phase : VaultPhase}
    (hphase : phase.salt? = none) : (state.setPhase call phase).Settled derive := by
  refine ⟨fun other request salt hother => ?_, fun other request salt written hother => ?_,
    h.returned⟩
  · rw [setPhase_calls] at hother
    split at hother
    · rw [hother] at hphase
      cases hphase
    · exact h.keyed other request salt hother
  · rw [setPhase_calls] at hother
    split at hother
    · rw [hother] at hphase
      cases hphase
    · obtain ⟨hfile, hwritten, hunused⟩ := h.writing other request salt written hother
      exact ⟨hfile, hwritten, hunused.setPhase fun _ => hphase⟩

/-- A call that is alone with its salt need only agree with the file itself. -/
theorem Unused.settled {call : Nat} {phase : VaultPhase} (hunused : state.Unused call)
    (hkeyed : ∀ request salt, phase = .keyed request salt → state.salt = some salt.1)
    (hwriting : ∀ request salt written, phase = .writing request salt written →
      state.salt = some (salt.1.take written) ∧ written < 16) :
    (state.setPhase call phase).Settled derive := by
  refine ⟨fun other request salt hother => ?_, fun other request salt written hother => ?_,
    fun entry hentry => ?_⟩
  · rw [setPhase_calls] at hother
    split at hother
    · exact hkeyed request salt hother
    · next hne =>
      have hnone := hunused.2 other hne
      rw [hother] at hnone
      cases hnone
  · rw [setPhase_calls] at hother
    split at hother
    · next heq =>
      obtain ⟨hfile, hwritten⟩ := hwriting request salt written hother
      exact ⟨hfile, hwritten, heq ▸ hunused.setPhase fun hne => absurd rfl hne⟩
    · next hne =>
      have hnone := hunused.2 other hne
      rw [hother] at hnone
      cases hnone
  · rw [setPhase_returned, hunused.1] at hentry
    cases hentry

/-- While the file holds a whole salt, no call is writing one. -/
theorem Settled.not_writing (h : state.Settled derive) {salt : Salt}
    (hsalt : state.salt = some salt.1) {call written : Nat} {request : VaultRequest}
    {other : Salt} : state.calls call ≠ .writing request other written := by
  intro hcall
  obtain ⟨hfile, hwritten, -⟩ := h.writing call request other written hcall
  have hlength := congrArg List.length (Option.some.inj (hsalt.symm.trans hfile))
  rw [salt.2, List.length_take] at hlength
  omega

/-- A call comes to have the salt in the file. -/
theorem Settled.setKeyed (h : state.Settled derive) {call : Nat} {request : VaultRequest}
    {salt : Salt} (hsalt : state.salt = some salt.1) :
    (state.setPhase call (.keyed request salt)).Settled derive := by
  refine ⟨fun other request' salt' hother => ?_, fun other request' salt' written hother => ?_,
    h.returned⟩
  · rw [setPhase_calls] at hother
    split at hother
    · cases hother
      exact hsalt
    · exact h.keyed other request' salt' hother
  · rw [setPhase_calls] at hother
    split at hother
    · cases hother
    · exact absurd hother (h.not_writing hsalt)

/-- A call that has its salt returns what it encrypts under it. -/
theorem Settled.setReturned (h : state.Settled derive) {call : Nat} {request : VaultRequest}
    {salt : Salt} {nonce : VaultNonce} {ciphertext : Ciphertext}
    (hcall : state.calls call = .keyed request salt)
    (hencrypted : vaultEncrypt derive request salt nonce = .ok ciphertext) :
    ({ state with returned := ⟨request, ciphertext⟩ :: state.returned }.setPhase call
      (.finished (.ok ciphertext))).Settled derive := by
  have hsalt := h.keyed call request salt hcall
  have hreturned : ∀ entry ∈ ⟨request, ciphertext⟩ :: state.returned, ∃ salt nonce,
      state.salt = some (Subtype.val salt) ∧
        vaultEncrypt derive entry.request salt nonce = .ok entry.ciphertext :=
    List.forall_mem_cons.mpr ⟨⟨salt, nonce, hsalt, hencrypted⟩, h.returned⟩
  have hsettled : ({ state with returned := ⟨request, ciphertext⟩ :: state.returned } :
      VaultState).Settled derive :=
    ⟨h.keyed, fun _ _ _ _ hother => absurd hother (h.not_writing hsalt), hreturned⟩
  exact hsettled.setPhase rfl

/-- Writing the next bytes of a salt. -/
theorem writeAt_take (salt : Bytes) (written amount : Nat) (h : written ≤ salt.length) :
    writeAt (salt.take written) written ((salt.drop written).take amount) =
      salt.take (written + ((salt.drop written).take amount).length) := by
  have hlength : (salt.take written).length = written := List.length_take_of_le h
  have hend : (salt.take written).drop (written + ((salt.drop written).take amount).length) = [] :=
    List.drop_eq_nil_of_le (by omega)
  rw [writeAt, hlength, Nat.sub_self, List.replicate_zero, List.append_nil, hend, List.append_nil,
    List.take_of_length_le hlength.le, List.take_add, List.length_take, ← List.take_eq_take_min]

/-- **What a step preserves.** -/
theorem Settled.step (h : state.Settled derive) (event : VaultEvent)
    (hevent : state.CreatesUnused event) : (state.step derive event).Settled derive := by
  cases event with
  | begin call passphrase plaintext =>
    rw [VaultState.step]
    split
    · split
      · exact h.setPhase rfl
      · exact h.setPhase rfl
    · exact h
  | check call answered salt =>
    rw [VaultState.step]
    split
    · split
      · exact h.setPhase rfl
      · exact h.setPhase rfl
    · exact h
  | create call answer =>
    rw [VaultState.step]
    split
    · next request salt hphase =>
      split
      · refine Unused.settled (hevent ⟨request, salt, hphase⟩)
          (fun _ _ hphase => ?_) fun _ _ _ hphase => ?_
        · cases hphase
        · cases hphase
          exact ⟨rfl, by decide⟩
      · exact h.setPhase rfl
    · exact h
  | write call amount answer =>
    rw [VaultState.step]
    split
    · next request salt written hphase =>
      obtain ⟨hfile, hwritten, hunused⟩ := h.writing call request salt written hphase
      have hnext : state.salt.map (writeAt · written ((salt.1.drop written).take amount)) =
          some (salt.1.take (written + ((salt.1.drop written).take amount).length)) := by
        rw [hfile, Option.map_some, writeAt_take _ _ _ (by rw [salt.2]; omega)]
      dsimp only
      split
      · split
        · next hmore =>
          refine Unused.settled hunused (fun _ _ hphase => ?_) fun _ _ _ hphase => ?_
          · cases hphase
          · cases hphase
            exact ⟨hnext, hmore⟩
        · next hdone =>
          refine Unused.settled hunused (fun _ _ hphase => ?_) fun _ _ _ hphase => ?_
          · -- the whole salt is in the file
            cases hphase
            exact hnext.trans (congrArg some (List.take_of_length_le (by rw [salt.2]; omega)))
          · cases hphase
      · refine Unused.settled hunused (fun _ _ hphase => ?_) fun _ _ _ hphase => ?_
        · cases hphase
        · cases hphase
    · exact h
  | read call answer =>
    rw [VaultState.step]
    split
    · split
      · next salt hsalt => exact h.setKeyed (readSalt_eq_ok hsalt)
      · exact h.setPhase rfl
    · exact h
  | encrypt call nonce =>
    rw [VaultState.step]
    split
    · next request salt hphase =>
      split
      · next ciphertext hencrypted => exact h.setReturned hphase hencrypted
      · exact h.setPhase rfl
    · exact h
  | stop call => exact h.setPhase rfl

theorem Settled.readable (hderive : OpensDerived derive) (h : state.Settled derive) :
    state.Readable derive := by
  intro entry hentry
  obtain ⟨salt, nonce, hsalt, hencrypted⟩ := h.returned entry hentry
  rw [hsalt]
  exact vaultDecrypt_of_vaultEncrypt hderive hencrypted

/-- While there is no salt file, no salt is in use. -/
theorem Settled.unused_of_absent (h : state.Settled derive) (habsent : state.salt = none)
    (call : Nat) : state.Unused call := by
  refine ⟨List.eq_nil_iff_forall_not_mem.mpr fun entry hentry => ?_, fun other _ => ?_⟩
  · obtain ⟨salt, _, hsalt, -⟩ := h.returned entry hentry
    rw [habsent] at hsalt
    cases hsalt
  · cases hother : state.calls other with
    | writing request salt written =>
      have hfile := (h.writing other request salt written hother).1
      rw [habsent] at hfile
      cases hfile
    | keyed request salt =>
      have hfile := h.keyed other request salt hother
      rw [habsent] at hfile
      cases hfile
    | _ => rfl

end VaultState

open VaultState

/-- **Vault ciphertexts stay readable** in every run in which no call creates the salt file while a
salt is in use. -/
theorem vault_ciphertexts_stay_readable {derive : KeyDerivation} (hderive : OpensDerived derive)
    {events : List VaultEvent} (h : Runs.Meets (step derive) CreatesUnused fresh events) :
    (Runs.run (step derive) fresh events).Readable derive :=
  (h.invariant settled_fresh fun _ event hsettled hevent =>
    hsettled.step event hevent).readable hderive

/-- A call that creates the file does so while there is none. -/
def CreatesExclusively (state : VaultState) : VaultEvent → Prop
  | .create _ (.ok ()) => state.salt = none
  | _ => True

/-- An exclusive creation would be enough. -/
theorem readable_of_exclusive_creation {derive : KeyDerivation} (hderive : OpensDerived derive)
    {events : List VaultEvent} (h : Runs.Meets (step derive) CreatesExclusively fresh events) :
    (Runs.run (step derive) fresh events).Readable derive := by
  refine (h.invariant settled_fresh fun state event hsettled hevent => ?_).readable hderive
  refine hsettled.step event ?_
  cases event with
  | create call answer =>
    cases answer with
    | ok => exact fun _ => hsettled.unused_of_absent hevent call
    | error => trivial
  | _ => trivial

/-! ### Two calls on a fresh directory -/

/-- A cipher that writes its key in front of the plaintext. -/
def keyedVault (key : Bytes) : Vault where
  sealing _ plaintext := some ⟨(key ++ plaintext.data.toList).toArray⟩
  unsealing _ ciphertext :=
    if ciphertext.data.toList.take key.length = key then
      some ⟨(ciphertext.data.toList.drop key.length).toArray⟩
    else none

theorem keyedVault_opens (key : Bytes) : (keyedVault key).Opens := by
  intro nonce plaintext ciphertext h
  obtain rfl := Option.some.inj h
  simp [keyedVault]

/-- The key is the salt with the passphrase. -/
def saltedKey : KeyDerivation := fun passphrase salt =>
  .ok (keyedVault (salt.1 ++ passphrase.1.toUTF8.data.toList))

theorem saltedKey_opens : OpensDerived saltedKey := by
  intro passphrase salt vault h
  obtain rfl := Except.ok.inj h
  exact keyedVault_opens _

def firstSalt : Salt := ⟨List.replicate 16 1, rfl⟩

def secondSalt : Salt := ⟨List.replicate 16 2, rfl⟩

def zeroNonce : VaultNonce := ⟨⟨(List.replicate 12 0).toArray⟩, rfl⟩

/-- One call creates the salt, another reads it; both encrypt. -/
def orderlyCalls : List VaultEvent :=
  [.begin 0 (some "p") ⟨#[7]⟩, .check 0 true firstSalt, .create 0 (.ok ()), .write 0 10 (.ok ()),
    .write 0 10 (.ok ()), .begin 1 (some "q") ⟨#[8]⟩, .check 1 true secondSalt,
    .read 1 (.ok ()), .encrypt 0 zeroNonce, .encrypt 1 zeroNonce]

theorem orderly_ciphertexts_stay_readable :
    (Runs.run (step saltedKey) fresh orderlyCalls).Readable saltedKey := by
  refine vault_ciphertexts_stay_readable saltedKey_opens ⟨trivial, trivial, fun _ => ?_, trivial,
    trivial, trivial, trivial, trivial, trivial, trivial, trivial⟩
  refine ⟨rfl, fun other hother => ?_⟩
  show (Function.update (Function.update (fun _ => VaultPhase.absent) 0 _) 0 _ other).salt? = none
  rw [Function.update_of_ne hother, Function.update_of_ne hother]
  rfl

/-- Both calls find no salt. The first encrypts before the second creates its own. -/
def racingCalls : List VaultEvent :=
  [.begin 0 (some "p") ⟨#[7]⟩, .begin 1 (some "p") ⟨#[8]⟩, .check 0 true firstSalt,
    .check 1 true secondSalt, .create 0 (.ok ()), .write 0 16 (.ok ()), .encrypt 0 zeroNonce,
    .create 1 (.ok ()), .write 1 16 (.ok ())]

/-- **A ciphertext is lost**: the salt it was encrypted under has been replaced. -/
theorem racing_calls_lose_a_ciphertext : OpensDerived saltedKey ∧
    ¬ (Runs.run (step saltedKey) fresh racingCalls).Readable saltedKey := by
  refine ⟨saltedKey_opens, fun h => ?_⟩
  have hlost : (Runs.run (step saltedKey) fresh racingCalls).returned.all fun entry =>
      (vaultDecrypt saltedKey (Runs.run (step saltedKey) fresh racingCalls).salt
        (some entry.request.passphrase.1) entry.ciphertext.nonce
        entry.ciphertext.ciphertext).toOption.isNone := by decide
  cases hreturned : (Runs.run (step saltedKey) fresh racingCalls).returned with
  | nil =>
    have hlength : (Runs.run (step saltedKey) fresh racingCalls).returned.length = 1 := rfl
    rw [hreturned] at hlength
    cases hlength
  | cons entry entries =>
    have hmem : entry ∈ (Runs.run (step saltedKey) fresh racingCalls).returned := by
      rw [hreturned]
      exact List.mem_cons_self
    have hnone := List.all_eq_true.mp hlost entry hmem
    rw [h entry hmem] at hnone
    cases hnone

end KakuneCore
