import KakuneCore.Process.Attempt
import KakuneCore.Relational.Runs

/-!
# Secrets

A secret is a row of the table `secrets`; the row says which backend holds the value. There are two
generations of writers. `set_secret` and `delete_secret` keep the native value under the **name** of
the secret. `set_secret_versioned` and `remove_secret_versioned` keep it under a fresh **version**
that the row refers to, so that a new value can be staged and verified before it is published.

The native store and the database are two systems: what a call has written natively stays when the
call fails. Every answer of the outside (native store, vault key, clock, database) is data of the
call.
-/

namespace KakuneCore

open Attempt

/-- The credential backend of a secret write. -/
inductive SecretBackendKind
  | native
  | vault
  | nativeWithVaultBackup
  deriving DecidableEq, Repr

namespace SecretBackendKind

def databaseValue : SecretBackendKind → String
  | native => "native"
  | vault => "vault"
  | nativeWithVaultBackup => "native-with-vault-backup"

def usesNative : SecretBackendKind → Bool
  | native | nativeWithVaultBackup => true
  | vault => false

def usesVault : SecretBackendKind → Bool
  | vault | nativeWithVaultBackup => true
  | native => false

end SecretBackendKind

/-- `matches!(backend, "native" | "native-with-vault-backup")` for a backend column. -/
def isNativeBackend (backend : String) : Bool :=
  backend = "native" || backend = "native-with-vault-backup"

/-- `secret name must be 1-120 ASCII letters, digits, '.', '_' or '-'`. -/
def validateSecretName (name : String) : Except String Unit :=
  if name ≠ "" && name.utf8ByteSize ≤ 120 &&
      name.toList.all fun c => c.isAlphanum || c ∈ ['_', '-', '.'] then
    .ok ()
  else
    .error "secret name must be 1-120 ASCII letters, digits, '.', '_' or '-'"

/-! ### The vault -/

structure Ciphertext where
  nonce : ByteArray
  ciphertext : ByteArray

/-- The cipher under the key that passphrase and salt determine. -/
structure Vault where
  /-- Encrypts a plaintext under a nonce. -/
  sealing : ByteArray → ByteArray → Option ByteArray
  /-- Decrypts a ciphertext under a nonce. -/
  unsealing : ByteArray → ByteArray → Option ByteArray

/-- What was encrypted can be decrypted. -/
def Vault.Opens (vault : Vault) : Prop :=
  ∀ nonce plaintext ciphertext, vault.sealing nonce plaintext = some ciphertext →
    vault.unsealing nonce ciphertext = some plaintext

/-- The first twelve bytes of a UUID. -/
abbrev VaultNonce := { bytes : ByteArray // bytes.size = 12 }

/-- `vault::encrypt`; `key` is the answer of `derive_key`. -/
def Vault.encrypt (vault : Vault) (key : Except String Unit) (nonce : VaultNonce)
    (plaintext : ByteArray) : Except String Ciphertext := do
  key
  match vault.sealing nonce plaintext with
  | some ciphertext => .ok ⟨nonce, ciphertext⟩
  | none => .error "cannot encrypt secret"

/-- `vault::decrypt`. -/
def Vault.decrypt (vault : Vault) (key : Except String Unit) (nonce ciphertext : ByteArray) :
    Except String ByteArray :=
  if nonce.size ≠ 12 then
    .error "stored secret has an invalid vault nonce"
  else do
    key
    match vault.unsealing nonce ciphertext with
    | some plaintext => .ok plaintext
    | none => .error "cannot decrypt secret; check KAKUNE_VAULT_PASSPHRASE"

theorem Vault.encrypt_eq_ok {vault : Vault} {key : Except String Unit} {nonce : VaultNonce}
    {plaintext : ByteArray} {encrypted : Ciphertext}
    (h : vault.encrypt key nonce plaintext = .ok encrypted) :
    encrypted.nonce = nonce ∧ vault.sealing nonce plaintext = some encrypted.ciphertext := by
  cases key with
  | error => cases h
  | ok =>
    rw [Vault.encrypt] at h
    dsimp only [bind, Except.bind] at h
    split at h
    · next hsealed =>
      cases h
      exact ⟨rfl, hsealed⟩
    · cases h

theorem Vault.Opens.decrypt_eq {vault : Vault} (h : vault.Opens) {key : Except String Unit}
    {nonce : VaultNonce} {plaintext : ByteArray} {encrypted : Ciphertext}
    (hencrypted : vault.encrypt key nonce plaintext = .ok encrypted) :
    vault.decrypt (.ok ()) encrypted.nonce encrypted.ciphertext = .ok plaintext := by
  obtain ⟨hnonce, hsealed⟩ := Vault.encrypt_eq_ok hencrypted
  have hsize : ¬encrypted.nonce.size ≠ 12 := by
    rw [hnonce, not_not]
    exact nonce.2
  have hopened := h _ _ _ hsealed
  rw [← hnonce] at hopened
  rw [Vault.decrypt, if_neg hsize, hopened]
  rfl

/-- What can be decrypted under some answers can be decrypted when the key is there. -/
theorem Vault.decrypt_of_decrypt {vault : Vault} {key : Except String Unit}
    {nonce ciphertext plaintext : ByteArray}
    (h : vault.decrypt key nonce ciphertext = .ok plaintext) :
    vault.decrypt (.ok ()) nonce ciphertext = .ok plaintext := by
  rw [Vault.decrypt] at h ⊢
  split at h
  · cases h
  · next hsize =>
    rw [if_neg hsize]
    cases key with
    | error => cases h
    | ok => exact h

/-! ### The native store -/

inductive KeyringError
  | noEntry
  | other (text : String)

def KeyringError.text : KeyringError → String
  | noEntry => "No matching entry found in secure storage"
  | other text => text

/-- What a native write or deletion reports, and what is under its key afterwards. -/
structure NativeAnswer where
  reported : Except KeyringError Unit
  leaves : Option ByteArray

/-- A write whose success means that the value can be read back. -/
def NativeAnswer.Keeps (answer : NativeAnswer) (value : ByteArray) : Prop :=
  answer.reported = .ok () → answer.leaves = some value

/-- A row of `secrets`. -/
structure SecretRow where
  nonce : ByteArray
  ciphertext : ByteArray
  updatedAt : String
  backend : String
  credentialVersion : Option String

/-- The table `secrets`, keyed by name, and the native values: those kept under the names of this
Core and those kept under versions. -/
structure SecretStore where
  secrets : String → Option SecretRow := fun _ => none
  entries : String → Option ByteArray := fun _ => none
  credentials : String → Option ByteArray := fun _ => none

structure SecretRecord where
  name : String
  updatedAt : String
  backend : String

structure SecretSetOutcome where
  record : SecretRecord
  cleanupWarning : Option String

structure SecretRemoveOutcome where
  removed : Bool
  cleanupWarning : Option String

/-- The answers of the outside to one write. -/
structure SecretAnswers where
  /-- `with_secret_name_lock`. -/
  lock : Except String Unit := .ok ()
  /-- The query for the previous row. -/
  lookup : Except String Unit := .ok ()
  /-- The Core id and the keyring entry of the name. -/
  entry : Except String Unit := .ok ()
  /-- The vault key of the encryption. -/
  key : Except String Unit := .ok ()
  nonce : VaultNonce
  /-- The drawn credential version. -/
  version : String
  /-- The native write of the value. -/
  write : NativeAnswer
  /-- Reading the staged value back. -/
  readback : Except String Unit := .ok ()
  /-- The vault key of the verification. -/
  verify : Except String Unit := .ok ()
  clock : Except String String := .ok ""
  /-- The statement or transaction that writes the row. -/
  publication : Except String Unit := .ok ()
  /-- The deletion of a staged value that is given up. -/
  discard : NativeAnswer
  /-- The deletion of a native value whose row is replaced or removed. -/
  cleanup : NativeAnswer

/-- The answers of the outside to one read. -/
structure ResolveAnswers where
  lookup : Except String Unit := .ok ()
  entry : Except String Unit := .ok ()
  /-- Whether the native store can be read. -/
  native : Except String Unit := .ok ()
  key : Except String Unit := .ok ()

abbrev SecretM := Attempt SecretStore String

namespace SecretStore

/-- `NativeCredentialBackend::write`. -/
def writeCredential (key : String) (answer : NativeAnswer) : SecretM (Except KeyringError Unit) :=
  total fun store =>
    (answer.reported,
      { store with credentials := Function.update store.credentials key answer.leaves })

/-- `NativeCredentialBackend::read`. -/
def readCredential (store : SecretStore) (key : String) (answer : Except String Unit) :
    Except String (Option ByteArray) :=
  answer.map fun _ => store.credentials key

/-- `NativeCredentialBackend::delete`: a key without a value is not an error. -/
def deleteCredential (key : String) (answer : NativeAnswer) : SecretM (Except String Unit) :=
  total fun store =>
    match store.credentials key with
    | none => (.ok (), store)
    | some _ =>
      (answer.reported.mapError fun _ => "native secret store is unavailable",
        { store with credentials := Function.update store.credentials key answer.leaves })

/-- `Entry::set_secret` of the entry of a name. -/
def setEntry (name : String) (answer : NativeAnswer) : SecretM (Except KeyringError Unit) :=
  total fun store =>
    (answer.reported, { store with entries := Function.update store.entries name answer.leaves })

/-- `Entry::delete_credential` of the entry of a name: a name without an entry is an error. -/
def deleteEntry (name : String) (answer : NativeAnswer) : SecretM (Except KeyringError Unit) :=
  total fun store =>
    match store.entries name with
    | none => (.error .noEntry, store)
    | some _ =>
      (answer.reported, { store with entries := Function.update store.entries name answer.leaves })

/-- A value of `answer?`. -/
def liftAnswer {α : Type} (answer : Except String α) : SecretM α := query fun _ => answer

def putRow (name : String) (row : SecretRow) : SecretM Unit :=
  update fun store => { store with secrets := Function.update store.secrets name (some row) }

def dropRow (name : String) : SecretM Unit :=
  update fun store => { store with secrets := Function.update store.secrets name none }

/-! ### Writers that keep the value under the name -/

def writeNativeEntry (backend : SecretBackendKind) (answers : SecretAnswers) (name : String) :
    SecretM Unit :=
  if backend.usesNative then do
    liftAnswer answers.entry
    match ← setEntry name answers.write with
    | .ok () => pure ()
    | .error error => throw s!"cannot write native secret {name}: {error.text}"
  else
    pure ()

/-- The ciphertext of a value, for the backends that keep one. -/
def encryptValue (vault : Vault) (backend : SecretBackendKind) (answers : SecretAnswers)
    (value : String) : SecretM (Option Ciphertext) :=
  if backend.usesVault then
    liftAnswer ((vault.encrypt answers.key answers.nonce value.toUTF8).map some)
  else
    pure none

/-- The ciphertext columns of a row. -/
def ciphertextColumns : Option Ciphertext → Ciphertext
  | some encrypted => encrypted
  | none => ⟨.empty, .empty⟩

/-- `backend` is the answer of `SecretBackend::current()`. On a conflict the statement keeps the
`credential_version` of the row. -/
def setSecret (vault : Vault) (backend : Except String SecretBackendKind) (answers : SecretAnswers)
    (name value : String) : SecretM SecretRecord := do
  liftAnswer (validateSecretName name)
  if value = "" then throw "secret value must not be empty" else do
    let backend ← liftAnswer backend
    writeNativeEntry backend answers name
    let encrypted := ciphertextColumns (← encryptValue vault backend answers value)
    let updatedAt ← liftAnswer answers.clock
    liftAnswer answers.publication
    let previous ← query fun store => .ok (store.secrets name)
    putRow name
      { nonce := encrypted.nonce
        ciphertext := encrypted.ciphertext
        updatedAt
        backend := backend.databaseValue
        credentialVersion := previous.bind SecretRow.credentialVersion }
    return { name, updatedAt, backend := backend.databaseValue }

def deleteSecret (answers : SecretAnswers) (name : String) : SecretM Bool := do
  liftAnswer answers.lookup
  match ← query fun store => .ok (store.secrets name) with
  | none => return false
  | some row => do
    deleteNativeEntry row
    liftAnswer answers.publication
    let present ← query fun store => .ok (store.secrets name).isSome
    dropRow name
    return present
where
  deleteNativeEntry (row : SecretRow) : SecretM Unit :=
    if isNativeBackend row.backend then do
      liftAnswer answers.entry
      match ← deleteEntry name answers.cleanup with
      | .ok () => pure ()
      | .error error => throw s!"cannot delete native secret {name}: {error.text}"
    else
      pure ()

/-! ### Writers that keep the value under a version -/

/-- Gives a staged value up; the answer is not looked at. -/
def discardVersion (backend : SecretBackendKind) (answers : SecretAnswers) : SecretM Unit :=
  if backend.usesNative then do
    let _ ← deleteCredential answers.version answers.discard
  else
    pure ()

/-- Writes the value under the new version and reads it back. -/
def stageVersion (backend : SecretBackendKind) (answers : SecretAnswers) (value : ByteArray) :
    SecretM Unit :=
  if backend.usesNative then do
    match ← writeCredential answers.version answers.write with
    | .error _ => do
      discardVersion backend answers
      throw "native secret staging failed; prior access was preserved"
    | .ok () => do
      match ← query fun store => .ok (store.readCredential answers.version answers.readback) with
      | .ok (some readback) =>
        if readback = value then
          pure ()
        else do
          discardVersion backend answers
          throw "native secret readback verification failed; prior access was preserved"
      | _ => do
        discardVersion backend answers
        throw "native secret readback verification failed; prior access was preserved"
  else
    pure ()

/-- Decrypts the ciphertext of the value again. -/
def verifyVault (vault : Vault) (backend : SecretBackendKind) (answers : SecretAnswers)
    (value : ByteArray) : Option Ciphertext → SecretM Unit
  | none => pure ()
  | some encrypted =>
    match vault.decrypt answers.verify encrypted.nonce encrypted.ciphertext with
    | .error error => do
      discardVersion backend answers
      throw error
    | .ok readback =>
      if readback = value then
        pure ()
      else do
        discardVersion backend answers
        throw "vault secret readback verification failed; prior access was preserved"

/-- The transaction that publishes a row. -/
def publishRow (backend : SecretBackendKind) (answers : SecretAnswers) (name : String)
    (row : SecretRow) : SecretM Unit :=
  match answers.publication with
  | .ok () => putRow name row
  | .error error => do
    discardVersion backend answers
    throw s!"secret publication failed; prior access was preserved: {error}"

/-- Deletes the native value of a row that is replaced or removed. -/
def cleanUp (answers : SecretAnswers) (name : String) (row : SecretRow) :
    SecretM (Except String Unit) :=
  if isNativeBackend row.backend then
    match row.credentialVersion with
    | some version => deleteCredential version answers.cleanup
    | none =>
      match answers.entry with
      | .error error => return .error error
      | .ok () => do
        match ← deleteEntry name answers.cleanup with
        | .ok () | .error .noEntry => return .ok ()
        | .error (.other _) => return .error "native secret cleanup failed"
  else
    return .ok ()

def cleanUpPrevious (answers : SecretAnswers) (name : String) :
    Option SecretRow → SecretM (Except String Unit)
  | none => return .ok ()
  | some row => cleanUp answers name row

/-- The warning of a failed cleanup. -/
def cleanupWarning (text : String) : Except String Unit → Option String
  | .ok () => none
  | .error _ => some text

def publishSecretVersion (vault : Vault) (backend : SecretBackendKind) (answers : SecretAnswers)
    (name value : String) : SecretM SecretSetOutcome := do
  liftAnswer answers.lookup
  let previous ← query fun store => .ok (store.secrets name)
  let encrypted ← encryptValue vault backend answers value
  stageVersion backend answers value.toUTF8
  verifyVault vault backend answers value.toUTF8 encrypted
  let timestamp ← liftAnswer answers.clock
  publishRow backend answers name
    { nonce := (ciphertextColumns encrypted).nonce
      ciphertext := (ciphertextColumns encrypted).ciphertext
      updatedAt := timestamp
      backend := backend.databaseValue
      credentialVersion := some answers.version }
  let cleanup ← cleanUpPrevious answers name previous
  return {
    record := { name, updatedAt := timestamp, backend := backend.databaseValue }
    cleanupWarning := cleanupWarning
      "secret was committed, but the previous credential version could not be removed" cleanup }

/-- `backend` is the backend that the store was opened with. -/
def setSecretVersioned (vault : Vault) (backend : SecretBackendKind) (answers : SecretAnswers)
    (name value : String) : SecretM SecretSetOutcome := do
  liftAnswer (validateSecretName name)
  if value = "" || value.utf8ByteSize > 64 * 1024 then
    throw "secret value must contain 1 to 65536 UTF-8 bytes"
  else do
    liftAnswer answers.lock
    publishSecretVersion vault backend answers name value

/-- Removes the row first, then the native value. -/
def removeSecretVersioned (answers : SecretAnswers) (name : String) :
    SecretM SecretRemoveOutcome := do
  liftAnswer (validateSecretName name)
  liftAnswer answers.lock
  liftAnswer answers.lookup
  match ← query fun store => .ok (store.secrets name) with
  | none => return { removed := false, cleanupWarning := none }
  | some row => do
    liftAnswer answers.publication
    let removed ← query fun store => .ok (store.secrets name).isSome
    dropRow name
    if removed then do
      let cleanup ← cleanUp answers name row
      return {
        removed := true
        cleanupWarning := cleanupWarning
          "secret reference was removed, but physical credential cleanup failed" cleanup }
    else
      return { removed := false, cleanupWarning := none }

/-! ### Reading -/

def utf8Secret (name : String) (value : ByteArray) : Except String String :=
  match String.fromUTF8? value with
  | some text => .ok text
  | none => .error s!"secret {name} is not valid UTF-8"

def resolveSecret (vault : Vault) (answers : ResolveAnswers) (store : SecretStore) (name : String) :
    Except String String := do
  validateSecretName name
  answers.lookup
  match store.secrets name with
  | none => .error s!"secret {name} was not found"
  | some row =>
    if row.backend = "vault" then
      fromVault row
    else if ¬isNativeBackend row.backend then
      .error "secret metadata names an unsupported credential backend"
    else
      match row.credentialVersion with
      | some version =>
        match store.readCredential version answers.native with
        | .ok (some value) => utf8Secret name value
        | .ok none =>
          if row.backend = "native-with-vault-backup" then fromVault row
          else .error s!"secret {name} is unavailable"
        | .error _ =>
          if row.backend = "native-with-vault-backup" then fromVault row
          else .error "native secret store is unavailable"
      | none => do
        answers.entry
        match answers.native.map fun _ => store.entries name with
        | .ok (some value) => utf8Secret name value
        | _ =>
          if row.backend = "native-with-vault-backup" then fromVault row
          else .error "native secret store is unavailable"
where
  fromVault (row : SecretRow) : Except String String := do
    utf8Secret name (← vault.decrypt answers.key row.nonce row.ciphertext)

/-! ### What a call may touch -/

/-- Behind some steps of a call for `name`: rows and entries of other names are as they were, native
versions outside `keys` are as they were, and the row of the name refers to a version in `keys`. -/
structure Within (initial : SecretStore) (name : String) (keys : String → Prop)
    (store : SecretStore) : Prop where
  secrets : ∀ other ≠ name, store.secrets other = initial.secrets other
  entries : ∀ other ≠ name, store.entries other = initial.entries other
  credentials : ∀ key, ¬keys key → store.credentials key = initial.credentials key
  versions : ∀ row version, store.secrets name = some row →
    row.credentialVersion = some version → keys version

section Footprint

variable {initial : SecretStore} {name : String} {keys : String → Prop}

theorem keeps_liftAnswer {α : Type} {I : SecretStore → Prop} (answer : Except String α) :
    Keeps I (liftAnswer answer) := .query _

theorem Within.writeCredential {key : String} (hkey : keys key) (answer : NativeAnswer) :
    Keeps (Within initial name keys) (writeCredential key answer) := by
  refine .total fun store h => ⟨h.secrets, h.entries, fun other hother => ?_, h.versions⟩
  have hne : other ≠ key := fun heq => hother (heq ▸ hkey)
  rw [← h.credentials other hother]
  exact Function.update_of_ne hne _ _

theorem Within.deleteCredential {key : String} (hkey : keys key) (answer : NativeAnswer) :
    Keeps (Within initial name keys) (deleteCredential key answer) := by
  refine .total fun store h => ?_
  split
  · exact h
  · refine ⟨h.secrets, h.entries, fun other hother => ?_, h.versions⟩
    have hne : other ≠ key := fun heq => hother (heq ▸ hkey)
    rw [← h.credentials other hother]
    exact Function.update_of_ne hne _ _

theorem Within.setEntry (answer : NativeAnswer) :
    Keeps (Within initial name keys) (setEntry name answer) := by
  refine .total fun store h => ⟨h.secrets, fun other hne => ?_, h.credentials, h.versions⟩
  rw [← h.entries other hne]
  exact Function.update_of_ne hne _ _

theorem Within.deleteEntry (answer : NativeAnswer) :
    Keeps (Within initial name keys) (deleteEntry name answer) := by
  refine .total fun store h => ?_
  split
  · exact h
  · refine ⟨h.secrets, fun other hne => ?_, h.credentials, h.versions⟩
    rw [← h.entries other hne]
    exact Function.update_of_ne hne _ _

theorem Within.putRow {row : SecretRow}
    (hrow : ∀ version, row.credentialVersion = some version → keys version) :
    Keeps (Within initial name keys) (putRow name row) := by
  refine .update fun store h => ⟨fun other hne => ?_, h.entries, h.credentials, ?_⟩
  · rw [← h.secrets other hne]
    exact Function.update_of_ne hne _ _
  · intro stored version hstored hversion
    obtain rfl : row = stored := by simpa using hstored
    exact hrow version hversion

theorem Within.dropRow : Keeps (Within initial name keys) (dropRow name) := by
  refine .update fun store h => ⟨fun other hne => ?_, h.entries, h.credentials, ?_⟩
  · rw [← h.secrets other hne]
    exact Function.update_of_ne hne _ _
  · intro stored version hstored
    simp at hstored

theorem Within.writeNativeEntry (backend : SecretBackendKind) (answers : SecretAnswers) :
    Keeps (Within initial name keys) (writeNativeEntry backend answers name) := by
  rw [SecretStore.writeNativeEntry]
  split
  · refine (keeps_liftAnswer _).bind fun _ => (Within.setEntry _).bind fun reported => ?_
    cases reported with
    | ok => exact .pure _
    | error => exact .throw _
  · exact .pure _

theorem keeps_encryptValue {I : SecretStore → Prop} (vault : Vault) (backend : SecretBackendKind)
    (answers : SecretAnswers) (value : String) :
    Keeps I (encryptValue vault backend answers value) := by
  rw [encryptValue]
  split
  · exact keeps_liftAnswer _
  · exact .pure _

theorem Within.discardVersion (backend : SecretBackendKind) {answers : SecretAnswers}
    (hkey : keys answers.version) :
    Keeps (Within initial name keys) (discardVersion backend answers) := by
  rw [SecretStore.discardVersion]
  split
  · exact (Within.deleteCredential hkey _).bind fun _ => .pure _
  · exact .pure _

/-- Giving up after a staged value. -/
theorem Within.discardThrow {α : Type} (backend : SecretBackendKind) {answers : SecretAnswers}
    (hkey : keys answers.version) (error : String) :
    Keeps (Within initial name keys)
      (do SecretStore.discardVersion backend answers; throw error : SecretM α) :=
  (Within.discardVersion backend hkey).bind fun _ => .throw _

theorem Within.stageVersion (backend : SecretBackendKind) {answers : SecretAnswers}
    (hkey : keys answers.version) (value : ByteArray) :
    Keeps (Within initial name keys) (stageVersion backend answers value) := by
  rw [SecretStore.stageVersion]
  split
  · refine (Within.writeCredential hkey _).bind fun reported => ?_
    cases reported with
    | error => exact Within.discardThrow backend hkey _
    | ok =>
      refine (Keeps.query _).bind fun readback => ?_
      split
      · split
        · exact .pure _
        · exact Within.discardThrow backend hkey _
      · exact Within.discardThrow backend hkey _
  · exact .pure _

theorem Within.verifyVault (vault : Vault) (backend : SecretBackendKind) {answers : SecretAnswers}
    (hkey : keys answers.version) (value : ByteArray) (encrypted : Option Ciphertext) :
    Keeps (Within initial name keys) (verifyVault vault backend answers value encrypted) := by
  cases encrypted with
  | none => exact .pure _
  | some encrypted =>
    rw [SecretStore.verifyVault]
    split
    · exact Within.discardThrow backend hkey _
    · split
      · exact .pure _
      · exact Within.discardThrow backend hkey _

theorem Within.publishRow (backend : SecretBackendKind) {answers : SecretAnswers}
    (hkey : keys answers.version) {row : SecretRow}
    (hrow : ∀ version, row.credentialVersion = some version → keys version) :
    Keeps (Within initial name keys) (publishRow backend answers name row) := by
  rw [SecretStore.publishRow]
  split
  · exact Within.putRow hrow
  · exact Within.discardThrow backend hkey _

theorem Within.cleanUp (answers : SecretAnswers) {row : SecretRow}
    (hrow : ∀ version, row.credentialVersion = some version → keys version) :
    Keeps (Within initial name keys) (cleanUp answers name row) := by
  rw [SecretStore.cleanUp]
  split
  · split
    · next version hversion => exact Within.deleteCredential (hrow version hversion) _
    · split
      · exact .pure _
      · refine (Within.deleteEntry _).bind fun reported => ?_
        split <;> exact .pure _
  · exact .pure _

theorem Within.cleanUpPrevious (answers : SecretAnswers) {previous : Option SecretRow}
    (hprevious : ∀ row ∈ previous, ∀ version, row.credentialVersion = some version → keys version) :
    Keeps (Within initial name keys) (cleanUpPrevious answers name previous) := by
  cases previous with
  | none => exact .pure _
  | some row => exact Within.cleanUp answers (hprevious row rfl)

/-- The row that a call finds refers to a version in `keys`. -/
theorem Within.of_query {store : SecretStore} {previous : Option SecretRow}
    (h : Within initial name keys store)
    (hquery : (Except.ok (store.secrets name) : Except String _) = .ok previous) :
    ∀ row ∈ previous, ∀ version, row.credentialVersion = some version → keys version := by
  obtain rfl := Except.ok.inj hquery
  exact fun row hrow version => h.versions row version hrow

theorem Within.setSecret (vault : Vault) (backend : Except String SecretBackendKind)
    (answers : SecretAnswers) (value : String) :
    Keeps (Within initial name keys) (setSecret vault backend answers name value) := by
  refine (keeps_liftAnswer _).bind fun _ => ?_
  dsimp only
  split
  · exact .throw _
  refine (keeps_liftAnswer _).bind fun backend => ?_
  refine (Within.writeNativeEntry _ _).bind fun _ => ?_
  refine (keeps_encryptValue _ _ _ _).bind fun encrypted => ?_
  refine (keeps_liftAnswer _).bind fun updatedAt => (keeps_liftAnswer _).bind fun _ => ?_
  refine .query_bind (fun store previous h => h.of_query) fun previous hprevious => ?_
  refine (Within.putRow fun version hversion => ?_).bind fun _ => .pure _
  obtain ⟨row, hrow, hversion⟩ := Option.bind_eq_some_iff.mp hversion
  exact hprevious row hrow version hversion

theorem Within.deleteSecret (answers : SecretAnswers) :
    Keeps (Within initial name keys) (deleteSecret answers name) := by
  refine (keeps_liftAnswer _).bind fun _ => (Keeps.query _).bind fun previous => ?_
  cases previous with
  | none => exact .pure _
  | some row =>
    refine Keeps.bind ?_ fun _ => (keeps_liftAnswer _).bind fun _ => (Keeps.query _).bind fun _ =>
      Within.dropRow.bind fun _ => .pure _
    rw [deleteSecret.deleteNativeEntry]
    split
    · refine (keeps_liftAnswer _).bind fun _ => (Within.deleteEntry _).bind fun reported => ?_
      cases reported with
      | ok => exact .pure _
      | error => exact .throw _
    · exact .pure _

theorem Within.setSecretVersioned (vault : Vault) (backend : SecretBackendKind)
    {answers : SecretAnswers} (hkey : keys answers.version) (value : String) :
    Keeps (Within initial name keys) (setSecretVersioned vault backend answers name value) := by
  refine (keeps_liftAnswer _).bind fun _ => ?_
  split
  · exact .throw _
  refine (keeps_liftAnswer _).bind fun _ => (keeps_liftAnswer _).bind fun _ => ?_
  refine .query_bind (fun store previous h => h.of_query) fun previous hprevious => ?_
  refine (keeps_encryptValue _ _ _ _).bind fun encrypted => ?_
  refine (Within.stageVersion _ hkey _).bind fun _ => ?_
  refine (Within.verifyVault _ _ hkey _ _).bind fun _ => (keeps_liftAnswer _).bind fun _ => ?_
  refine (Within.publishRow _ hkey fun version hversion => ?_).bind fun _ => ?_
  · obtain rfl := Option.some.inj hversion
    exact hkey
  · exact (Within.cleanUpPrevious _ hprevious).bind fun _ => .pure _

theorem Within.removeSecretVersioned (answers : SecretAnswers) :
    Keeps (Within initial name keys) (removeSecretVersioned answers name) := by
  refine (keeps_liftAnswer _).bind fun _ => (keeps_liftAnswer _).bind fun _ =>
    (keeps_liftAnswer _).bind fun _ => ?_
  refine .query_bind (fun store previous h => h.of_query) fun previous hprevious => ?_
  cases previous with
  | none => exact .pure _
  | some row =>
    refine (keeps_liftAnswer _).bind fun _ => (Keeps.query _).bind fun removed =>
      Within.dropRow.bind fun _ => ?_
    split
    · exact (Within.cleanUp _ (hprevious row rfl)).bind fun _ => .pure _
    · exact .pure _

end Footprint

/-! ### Publication -/

/-- Behind the staging steps only the native value of the new version may differ. -/
structure Staged (initial : SecretStore) (version : String) (store : SecretStore) : Prop where
  secrets : store.secrets = initial.secrets
  entries : store.entries = initial.entries
  credentials : ∀ key ≠ version, store.credentials key = initial.credentials key

/-- The row of a name refers to a version that holds the value, and its backup decrypts to it. -/
structure Publishes (vault : Vault) (backend : SecretBackendKind) (version name : String)
    (value : ByteArray) (row : SecretRow) (store : SecretStore) : Prop where
  secret : store.secrets name = some row
  backend_eq : row.backend = backend.databaseValue
  version_eq : row.credentialVersion = some version
  native : backend.usesNative = true → store.credentials version = some value
  backup : backend.usesVault = true → vault.decrypt (.ok ()) row.nonce row.ciphertext = .ok value

section Publication

variable {vault : Vault} {backend : SecretBackendKind} {answers : SecretAnswers} {name : String}
  {initial store : SecretStore}

theorem ensures_liftAnswer {α : Type} {answer : Except String α} {good : α → SecretStore → Prop}
    {bad : String → SecretStore → Prop} :
    Ensures (liftAnswer answer) good bad store ↔
      (∀ a, answer = .ok a → good a store) ∧ ∀ e, answer = .error e → bad e store := ensures_query

theorem keeps_discardVersion :
    Keeps (Staged initial answers.version) (discardVersion backend answers) := by
  rw [discardVersion]
  split
  · refine Keeps.bind (.total fun store h => ?_) fun _ => .pure _
    split
    · exact h
    · refine ⟨h.secrets, h.entries, fun key hne => ?_⟩
      rw [← h.credentials key hne]
      exact Function.update_of_ne hne _ _
  · exact .pure _

/-- Giving up leaves everything but the new version as it was. -/
theorem ensures_discardThrow {α : Type} (h : Staged initial answers.version store) (error : String)
    {good : α → SecretStore → Prop} :
    Ensures (do discardVersion backend answers; throw error : SecretM α) good
      (fun _ => Staged initial answers.version) store :=
  (keeps_discardVersion store h).bind fun _ _ h => h

theorem ensures_stageVersion (value : ByteArray) (h : Staged initial answers.version store) :
    Ensures (stageVersion backend answers value)
      (fun _ store => Staged initial answers.version store ∧
        (backend.usesNative = true → store.credentials answers.version = some value))
      (fun _ => Staged initial answers.version) store := by
  rw [stageVersion]
  split
  · next hnative =>
    refine ensures_bind.mpr ?_
    have hwritten : Staged initial answers.version { store with
        credentials :=
          Function.update store.credentials answers.version answers.write.leaves } := by
      refine ⟨h.secrets, h.entries, fun key hne => ?_⟩
      rw [← h.credentials key hne]
      exact Function.update_of_ne hne _ _
    rw [writeCredential, ensures_total]
    generalize answers.write.leaves = leaves at hwritten
    cases answers.write.reported with
    | error => exact ensures_discardThrow hwritten _
    | ok =>
      refine ensures_bind.mpr (ensures_query.mpr ⟨fun read hread => ?_, nofun⟩)
      obtain rfl := Except.ok.inj hread
      dsimp only
      split
      · next readback hreadback =>
        split
        · next heq =>
          -- the value that was read back is the one under the version
          refine ⟨hwritten, fun _ => ?_⟩
          rw [← heq]
          cases hanswer : answers.readback with
          | error => simp [readCredential, hanswer, Except.map] at hreadback
          | ok => simpa [readCredential, hanswer, Except.map] using hreadback
        · exact ensures_discardThrow hwritten _
      · exact ensures_discardThrow hwritten _
  · next hnative => exact ⟨h, fun hcontra => absurd hcontra hnative⟩

theorem ensures_encryptValue {value : String} {good : Option Ciphertext → SecretStore → Prop}
    {bad : String → SecretStore → Prop}
    (hgood : ∀ encrypted : Option Ciphertext,
      (∀ ciphertext ∈ encrypted,
        vault.encrypt answers.key answers.nonce value.toUTF8 = .ok ciphertext) →
      (encrypted = none → backend.usesVault = false) → good encrypted store)
    (hbad : ∀ e, bad e store) :
    Ensures (encryptValue vault backend answers value) good bad store := by
  rw [encryptValue]
  split
  · refine ensures_liftAnswer.mpr ⟨fun encrypted hencrypted => ?_, fun e _ => hbad e⟩
    cases hanswer : vault.encrypt answers.key answers.nonce value.toUTF8 with
    | error e =>
      rw [hanswer] at hencrypted
      cases hencrypted
    | ok ciphertext =>
      rw [hanswer] at hencrypted
      obtain rfl := Except.ok.inj hencrypted
      refine hgood (some ciphertext) (fun c hc => ?_) nofun
      rw [hanswer, Option.mem_some.mp hc]
  · next hvault => exact hgood none nofun fun _ => by simpa using hvault

theorem ensures_verifyVault {value : ByteArray} (encrypted : Option Ciphertext)
    (h : Staged initial answers.version store) {good : Unit → SecretStore → Prop}
    (hgood : (∀ ciphertext ∈ encrypted,
      vault.decrypt (.ok ()) ciphertext.nonce ciphertext.ciphertext = .ok value) → good () store) :
    Ensures (verifyVault vault backend answers value encrypted) good
      (fun _ => Staged initial answers.version) store := by
  cases encrypted with
  | none => exact hgood nofun
  | some ciphertext =>
    rw [verifyVault]
    split
    · exact ensures_discardThrow h _
    · next readback hreadback =>
      split
      · next heq =>
        refine hgood fun c hc => ?_
        rw [← Option.mem_some.mp hc, ← heq]
        exact Vault.decrypt_of_decrypt hreadback
      · exact ensures_discardThrow h _

/-- The cleanup leaves the published row and its version alone. -/
theorem ensures_cleanUpPrevious {version : String} {previous : Option SecretRow}
    (hprevious : ∀ row ∈ previous, row.credentialVersion ≠ some version)
    {bad : String → SecretStore → Prop} :
    Ensures (cleanUpPrevious answers name previous)
      (fun _ store' => store'.secrets = store.secrets ∧
        store'.credentials version = store.credentials version) bad store := by
  cases previous with
  | none => exact ⟨rfl, rfl⟩
  | some row =>
    rw [cleanUpPrevious, cleanUp]
    split
    · split
      · next old hold =>
        have hne : version ≠ old := by
          rintro rfl
          exact hprevious row rfl hold
        rw [deleteCredential, ensures_total]
        split
        · exact ⟨rfl, rfl⟩
        · exact ⟨rfl, Function.update_of_ne hne _ _⟩
      · split
        · exact ⟨rfl, rfl⟩
        · rw [deleteEntry, ensures_bind, ensures_total]
          split <;> split <;> exact ⟨rfl, rfl⟩
    · exact ⟨rfl, rfl⟩

theorem ensures_publishSecretVersion {value : String}
    (hfresh : ∀ row ∈ store.secrets name, row.credentialVersion ≠ some answers.version) :
    Ensures (publishSecretVersion vault backend answers name value)
      (fun _ => fun store' =>
        ∃ row, Publishes vault backend answers.version name value.toUTF8 row store')
      (fun _ => Staged store answers.version) store := by
  have hstart : Staged store answers.version store := ⟨rfl, rfl, fun _ _ => rfl⟩
  refine ensures_bind.mpr (ensures_liftAnswer.mpr ⟨fun _ _ => ?_, fun _ _ => hstart⟩)
  refine ensures_bind.mpr (ensures_query.mpr ⟨fun previous hquery => ?_, nofun⟩)
  obtain rfl := Except.ok.inj hquery
  refine ensures_bind.mpr (ensures_encryptValue (fun encrypted _ hnone => ?_) fun _ => hstart)
  refine (ensures_stageVersion value.toUTF8 hstart).bind fun _ staged hstaged => ?_
  refine ensures_bind.mpr (ensures_verifyVault encrypted hstaged.1 fun hopens => ?_)
  refine ensures_bind.mpr (ensures_liftAnswer.mpr ⟨fun timestamp _ => ?_, fun _ _ => hstaged.1⟩)
  refine ensures_bind.mpr ?_
  rw [publishRow]
  split
  · rw [putRow, ensures_update]
    refine (ensures_cleanUpPrevious hfresh).bind fun _ final hfinal => ?_
    have hsecret := (congrFun hfinal.1 name).trans (Function.update_self name _ _)
    refine ⟨_, hsecret, rfl, rfl, fun hnative => ?_, fun hvault => ?_⟩
    · rw [hfinal.2]
      exact hstaged.2 hnative
    · cases encrypted with
      | none => rw [hnone rfl] at hvault; cases hvault
      | some ciphertext => exact hopens ciphertext rfl
  · exact ensures_discardThrow hstaged.1 _

theorem ensures_setSecretVersioned (vault : Vault) (backend : SecretBackendKind) (value : String)
    (hfresh : ∀ row ∈ store.secrets name, row.credentialVersion ≠ some answers.version) :
    Ensures (setSecretVersioned vault backend answers name value)
      (fun _ store' => validateSecretName name = .ok () ∧
        ∃ row, Publishes vault backend answers.version name value.toUTF8 row store')
      (fun _ => Staged store answers.version) store := by
  have hstart : Staged store answers.version store := ⟨rfl, rfl, fun _ _ => rfl⟩
  refine ensures_bind.mpr (ensures_liftAnswer.mpr ⟨fun _ hname => ?_, fun _ _ => hstart⟩)
  split
  · exact hstart
  refine ensures_bind.mpr (ensures_liftAnswer.mpr ⟨fun _ _ => ?_, fun _ _ => hstart⟩)
  exact (ensures_publishSecretVersion hfresh).mono (fun _ _ h => ⟨hname, h⟩) fun _ _ h => h

end Publication

/-! ### What a read sees -/

section Reads

variable {vault : Vault} {answers : ResolveAnswers} {store store' : SecretStore}
  {name value : String}
  {row : SecretRow}

@[simp]
theorem utf8Secret_toUTF8 : utf8Secret name value.toUTF8 = .ok value := by
  have hvalid : value.toUTF8.IsValidUTF8 := value.isValidUTF8
  rw [utf8Secret, String.fromUTF8?, dif_pos hvalid]
  rfl

/-- A read looks at the row, the entry of the name and the version of the row. -/
theorem resolveSecret_congr (hsecret : store'.secrets name = store.secrets name)
    (hentry : store'.entries name = store.entries name)
    (hversion : ∀ row version, store.secrets name = some row →
      row.credentialVersion = some version →
      store'.credentials version = store.credentials version) :
    resolveSecret vault answers store' name = resolveSecret vault answers store name := by
  rw [resolveSecret, resolveSecret, hsecret, hentry]
  cases hrow : store.secrets name with
  | none => rfl
  | some row =>
    cases hcurrent : row.credentialVersion with
    | none => simp only [hcurrent]
    | some version => simp only [hcurrent, readCredential, hversion row version hrow hcurrent]

variable (hname : validateSecretName name = .ok ())
include hname

theorem resolveSecret_none (h : store.secrets name = none) :
    resolveSecret vault {} store name = .error s!"secret {name} was not found" := by
  rw [resolveSecret, hname, h]
  rfl

variable (hrow : store.secrets name = some row)
include hrow

/-- The backup of the row decrypts to the value. -/
theorem resolveSecret_of_vault (hbackend : row.backend = "vault")
    (hbackup : vault.decrypt (.ok ()) row.nonce row.ciphertext = .ok value.toUTF8) :
    resolveSecret vault {} store name = .ok value := by
  rw [resolveSecret, hname, hrow]
  change (if row.backend = "vault" then _ else _) = _
  rw [if_pos hbackend, resolveSecret.fromVault, hbackup]
  exact utf8Secret_toUTF8

theorem resolveSecret_of_native (hnative : isNativeBackend row.backend = true)
    (hread : ∀ version, row.credentialVersion = some version →
      store.credentials version = some value.toUTF8 ∨
        row.backend = "native-with-vault-backup" ∧ store.credentials version = none ∧
          vault.decrypt (.ok ()) row.nonce row.ciphertext = .ok value.toUTF8)
    (hentry : row.credentialVersion = none → store.entries name = some value.toUTF8) :
    resolveSecret vault {} store name = .ok value := by
  have hvault : row.backend ≠ "vault" := by
    intro heq
    rw [heq] at hnative
    simp [isNativeBackend] at hnative
  rw [resolveSecret, hname, hrow]
  change (if row.backend = "vault" then _ else if ¬isNativeBackend row.backend then _ else _) = _
  rw [if_neg hvault, if_neg (not_not.mpr hnative)]
  cases hcurrent : row.credentialVersion with
  | none =>
    simp only [hentry hcurrent]
    exact utf8Secret_toUTF8
  | some version =>
    obtain hheld | ⟨hbackend, hmissing, hbackup⟩ := hread version hcurrent
    · simp only [readCredential, Except.map, hheld, utf8Secret_toUTF8]
    · simp only [readCredential, Except.map, hmissing, if_pos hbackend, resolveSecret.fromVault,
        hbackup]
      exact utf8Secret_toUTF8

end Reads

/-- A published secret is read back. -/
theorem Publishes.resolveSecret_eq {vault : Vault} {backend : SecretBackendKind}
    {version name value : String} {row : SecretRow} {store : SecretStore}
    (h : Publishes vault backend version name value.toUTF8 row store)
    (hname : validateSecretName name = .ok ()) : resolveSecret vault {} store name = .ok value := by
  by_cases hnative : backend.usesNative = true
  · refine resolveSecret_of_native hname h.secret ?_
      (fun current hcurrent => .inl ?_) fun hnone => ?_
    · rw [h.backend_eq]
      cases backend <;> simp_all [isNativeBackend, SecretBackendKind.databaseValue,
        SecretBackendKind.usesNative]
    · obtain rfl : version = current := by simpa [h.version_eq] using hcurrent
      exact h.native hnative
    · simp [h.version_eq] at hnone
  · obtain rfl : backend = .vault := by
      cases backend <;> simp_all [SecretBackendKind.usesNative]
    exact resolveSecret_of_vault hname h.secret h.backend_eq (h.backup rfl)

/-! ### What a successful call leaves -/

section Success

variable {vault : Vault} {answers : SecretAnswers} {name value : String} {store : SecretStore}

/-- Only the entry of the name has changed, and it holds the value if the backend is native. -/
structure Entered (backend : SecretBackendKind) (name : String) (value : ByteArray)
    (initial store : SecretStore) : Prop where
  secrets : store.secrets = initial.secrets
  credentials : store.credentials = initial.credentials
  entry : backend.usesNative = true → store.entries name = some value

theorem ensures_writeNativeEntry {backend : SecretBackendKind} {value : ByteArray}
    (hkeeps : answers.write.Keeps value) :
    Ensures (writeNativeEntry backend answers name)
      (fun _ => Entered backend name value store) (fun _ _ => True) store := by
  rw [writeNativeEntry]
  split
  · refine ensures_bind.mpr (ensures_liftAnswer.mpr ⟨fun _ _ => ?_, fun _ _ => trivial⟩)
    rw [setEntry, ensures_bind, ensures_total]
    cases hreported : answers.write.reported with
    | error => exact trivial
    | ok =>
      refine ⟨rfl, rfl, fun _ => ?_⟩
      rw [← hkeeps hreported]
      exact Function.update_self _ _ _
  · next hnative => exact ⟨rfl, rfl, fun h => absurd h hnative⟩

/-- A write under the name is read back unless the row refers to a version that is read first. -/
theorem ensures_setSecret {backend : Except String SecretBackendKind} (hvault : vault.Opens)
    (hkeeps : answers.write.Keeps value.toUTF8)
    (hnative : backend = .ok .native → ∀ row ∈ store.secrets name, row.credentialVersion = none)
    (hbackup : backend = .ok .nativeWithVaultBackup → ∀ row ∈ store.secrets name, ∀ version,
      row.credentialVersion = some version → store.credentials version = none) :
    Ensures (setSecret vault backend answers name value)
      (fun _ store' => validateSecretName name = .ok () →
        resolveSecret vault {} store' name = .ok value)
      (fun _ _ => True) store := by
  refine ensures_bind.mpr (ensures_liftAnswer.mpr ⟨fun _ _ => ?_, fun _ _ => trivial⟩)
  split
  · exact trivial
  refine ensures_bind.mpr (ensures_liftAnswer.mpr ⟨fun kind hkind => ?_, fun _ _ => trivial⟩)
  refine (ensures_writeNativeEntry hkeeps).bind fun _ entered hentered => ?_
  refine ensures_bind.mpr
    (ensures_encryptValue (fun encrypted hencrypted hnone => ?_) fun _ => trivial)
  refine ensures_bind.mpr (ensures_liftAnswer.mpr ⟨fun updatedAt _ => ?_, fun _ _ => trivial⟩)
  refine ensures_bind.mpr (ensures_liftAnswer.mpr ⟨fun _ _ => ?_, fun _ _ => trivial⟩)
  refine ensures_bind.mpr (ensures_query.mpr ⟨fun previous hquery => ?_, nofun⟩)
  obtain rfl := Except.ok.inj hquery
  rw [putRow, ensures_bind, ensures_update]
  intro hname
  have hopens : kind.usesVault = true → vault.decrypt (.ok ()) (ciphertextColumns encrypted).nonce
      (ciphertextColumns encrypted).ciphertext = .ok value.toUTF8 := by
    intro huses
    cases encrypted with
    | none => rw [hnone rfl] at huses; cases huses
    | some ciphertext => exact hvault.decrypt_eq (hencrypted ciphertext rfl)
  -- the version column of the new row is the one of the old row
  have hversion :
      ∀ version, (entered.secrets name).bind SecretRow.credentialVersion = some version →
      ∃ row ∈ store.secrets name, row.credentialVersion = some version := by
    intro version h
    rw [hentered.secrets] at h
    obtain ⟨row, hrow, hcurrent⟩ := Option.bind_eq_some_iff.mp h
    exact ⟨row, hrow, hcurrent⟩
  cases kind with
  | vault => exact resolveSecret_of_vault hname (Function.update_self _ _ _) rfl (hopens rfl)
  | native =>
    refine resolveSecret_of_native hname (Function.update_self _ _ _) (by rfl)
      (fun version h => ?_) fun _ => hentered.entry rfl
    obtain ⟨row, hrow, hcurrent⟩ := hversion version h
    rw [hnative hkind row hrow] at hcurrent
    cases hcurrent
  | nativeWithVaultBackup =>
    refine resolveSecret_of_native hname (Function.update_self _ _ _) (by rfl)
      (fun version h => .inr ⟨rfl, ?_, hopens rfl⟩) fun _ => hentered.entry rfl
    obtain ⟨row, hrow, hcurrent⟩ := hversion version h
    change entered.credentials version = none
    rw [hentered.credentials]
    exact hbackup hkind row hrow version hcurrent

theorem ensures_deleteSecret :
    Ensures (deleteSecret answers name) (fun _ store' => store'.secrets name = none)
      (fun _ _ => True) store := by
  refine ensures_bind.mpr (ensures_liftAnswer.mpr ⟨fun _ _ => ?_, fun _ _ => trivial⟩)
  refine ensures_bind.mpr (ensures_query.mpr ⟨fun previous hquery => ?_, nofun⟩)
  have hprevious := Except.ok.inj hquery
  cases previous with
  | none => exact hprevious
  | some row =>
    refine ensures_true.bind fun _ deleted _ => ?_
    refine ensures_bind.mpr (ensures_liftAnswer.mpr ⟨fun _ _ => ?_, fun _ _ => trivial⟩)
    refine ensures_bind.mpr (ensures_query.mpr ⟨fun present _ => ?_, nofun⟩)
    rw [dropRow, ensures_bind, ensures_update]
    exact Function.update_self _ _ _

theorem keeps_secrets_cleanUp (stored : Option SecretRow) (answers : SecretAnswers)
    (row : SecretRow) :
    Keeps (fun store => store.secrets name = stored) (cleanUp answers name row) := by
  rw [cleanUp]
  split
  · split
    · refine .total fun store h => ?_
      split <;> exact h
    · split
      · exact .pure _
      · refine Keeps.bind (.total fun store h => ?_) fun reported => ?_
        · split <;> exact h
        · split <;> exact .pure _
  · exact .pure _

theorem ensures_removeSecretVersioned :
    Ensures (removeSecretVersioned answers name) (fun _ store' => store'.secrets name = none)
      (fun _ _ => True) store := by
  refine ensures_bind.mpr (ensures_liftAnswer.mpr ⟨fun _ _ => ?_, fun _ _ => trivial⟩)
  refine ensures_bind.mpr (ensures_liftAnswer.mpr ⟨fun _ _ => ?_, fun _ _ => trivial⟩)
  refine ensures_bind.mpr (ensures_liftAnswer.mpr ⟨fun _ _ => ?_, fun _ _ => trivial⟩)
  refine ensures_bind.mpr (ensures_query.mpr ⟨fun previous hquery => ?_, nofun⟩)
  have hprevious := Except.ok.inj hquery
  cases previous with
  | none => exact hprevious
  | some row =>
    refine ensures_bind.mpr (ensures_liftAnswer.mpr ⟨fun _ _ => ?_, fun _ _ => trivial⟩)
    refine ensures_bind.mpr (ensures_query.mpr ⟨fun present _ => ?_, nofun⟩)
    rw [dropRow, ensures_bind, ensures_update]
    have hdropped : Function.update store.secrets name none name = none :=
      Function.update_self _ _ _
    split
    · -- the cleanup writes to the native store only
      have hclean := keeps_secrets_cleanUp none answers row
        { store with secrets := Function.update store.secrets name none } hdropped
      exact (hclean.mono (fun _ _ h => h) fun _ _ _ => trivial).bind fun _ _ h => h
    · exact hdropped

end Success

end SecretStore

/-! ### Histories of calls -/

open SecretStore

inductive SecretCall
  | set (backend : Except String SecretBackendKind) (answers : SecretAnswers) (name value : String)
  | setVersioned (backend : SecretBackendKind) (answers : SecretAnswers) (name value : String)
  | delete (answers : SecretAnswers) (name : String)
  | removeVersioned (answers : SecretAnswers) (name : String)

namespace SecretCall

def name : SecretCall → String
  | set _ _ name _ | setVersioned _ _ name _ | delete _ name | removeVersioned _ name => name

/-- The credential version a call draws. -/
def version? : SecretCall → Option String
  | setVersioned _ answers _ _ => some answers.version
  | _ => none

def action (vault : Vault) : SecretCall → SecretM Unit
  | set backend answers name value => do let _ ← setSecret vault backend answers name value
  | setVersioned backend answers name value => do
    let _ ← setSecretVersioned vault backend answers name value
  | delete answers name => do let _ ← deleteSecret answers name
  | removeVersioned answers name => do let _ ← removeSecretVersioned answers name

/-- The store a call leaves, whether it succeeds or fails. -/
def apply (vault : Vault) (store : SecretStore) (call : SecretCall) : SecretStore :=
  ((call.action vault).exec store).2

def Succeeds (vault : Vault) (store : SecretStore) (call : SecretCall) : Prop :=
  ((call.action vault).exec store).1.isOk = true

/-- What the secret `name` is once the call has succeeded. -/
def written (name : String) (before : Option String) : SecretCall → Option String
  | set _ _ target value | setVersioned _ _ target value => if target =
      name then some value else before
  | delete _ target | removeVersioned _ target => if target = name then none else before

/-- A native write that reports success leaves the value. -/
def NativeKeeps : SecretCall → Prop
  | set _ answers _ value | setVersioned _ answers _ value => answers.write.Keeps value.toUTF8
  | _ => True

/-- A write under the name does not meet a row that refers to a version: with the native backend to
any version, with the native backend and backup to one that is still in the native store. -/
def MeetsNoVersion (store : SecretStore) : SecretCall → Prop
  | set backend _ name _ =>
    (backend = .ok .native → ∀ row ∈ store.secrets name, row.credentialVersion = none) ∧
      (backend = .ok .nativeWithVaultBackup → ∀ row ∈ store.secrets name, ∀ version,
        row.credentialVersion = some version → store.credentials version = none)
  | _ => True

end SecretCall

/-- The store after a history of calls, successful or not. -/
def secretStore (vault : Vault) (calls : List SecretCall) : SecretStore :=
  Runs.run (SecretCall.apply vault) {} calls

/-- The value of the last set of a name, if nothing has removed it since. -/
def lastWritten (name : String) (calls : List SecretCall) : Option String :=
  calls.foldl (SecretCall.written name) none

/-- The versions that the calls have drawn. -/
def drawnVersions (calls : List SecretCall) : List String := calls.filterMap SecretCall.version?

/-- The rows refer to drawn versions, and no two rows to the same. -/
structure SecretStore.VersionsDrawn (drawn : List String) (store : SecretStore) : Prop where
  mem : ∀ name row version, store.secrets name = some row →
    row.credentialVersion = some version → version ∈ drawn
  apart : ∀ name name' row row' version, store.secrets name = some row →
    store.secrets name' = some row' → row.credentialVersion = some version →
    row'.credentialVersion = some version → name = name'

section Histories

variable {vault : Vault} {store : SecretStore} {drawn : List String}

/-- The versions a call may touch: the one it draws and the one of the row it finds. -/
def SecretCall.Reaches (store : SecretStore) (call : SecretCall) (version : String) : Prop :=
  call.version? = some version ∨
    ∃ row, store.secrets call.name = some row ∧ row.credentialVersion = some version

theorem within_self (store : SecretStore) (call : SecretCall) :
    Within store call.name (call.Reaches store) store where
  secrets _ _ := rfl
  entries _ _ := rfl
  credentials _ _ := rfl
  versions row _ hrow hcurrent := .inr ⟨row, hrow, hcurrent⟩

theorem SecretCall.within_apply (store : SecretStore) (call : SecretCall) :
    Within store call.name (call.Reaches store) (call.apply vault store) := by
  have hkeeps : Keeps (Within store call.name (call.Reaches store)) (call.action vault) := by
    cases call with
    | set backend answers name value =>
      exact (Within.setSecret vault backend answers value).bind fun _ => .pure _
    | setVersioned backend answers name value =>
      exact (Within.setSecretVersioned vault backend (.inl rfl) value).bind fun _ => .pure _
    | delete answers name => exact (Within.deleteSecret answers).bind fun _ => .pure _
    | removeVersioned answers name =>
      exact (Within.removeSecretVersioned answers).bind fun _ => .pure _
  exact hkeeps.exec (within_self store call)

/-- A version of another row is not reached by a call that draws a fresh one. -/
theorem SecretStore.VersionsDrawn.not_reaches (h : store.VersionsDrawn drawn) {call : SecretCall}
    (hfresh : ∀ version ∈ call.version?, version ∉ drawn) {name version : String} {row : SecretRow}
    (hname : name ≠ call.name) (hrow : store.secrets name = some row)
    (hcurrent : row.credentialVersion = some version) : ¬call.Reaches store version := by
  rintro (hdrawn | ⟨row', hrow', hcurrent'⟩)
  · exact hfresh version hdrawn (h.mem name row version hrow hcurrent)
  · exact hname (h.apart name call.name row row' version hrow hrow' hcurrent hcurrent')

theorem SecretCall.versionsDrawn_apply (h : store.VersionsDrawn drawn) (call : SecretCall)
    (hfresh : ∀ version ∈ call.version?, version ∉ drawn) :
    (call.apply vault store).VersionsDrawn (drawn ++ call.version?.toList) := by
  have hwithin : Within store call.name (call.Reaches store) (call.apply vault store) :=
    call.within_apply store
  have hold :
      ∀ name row version, name ≠ call.name → (call.apply vault store).secrets name = some row →
      row.credentialVersion = some version → version ∈ drawn ∧ ¬call.Reaches store version := by
    intro name row version hne hrow hcurrent
    rw [hwithin.secrets name hne] at hrow
    exact ⟨h.mem name row version hrow hcurrent, h.not_reaches hfresh hne hrow hcurrent⟩
  constructor
  · intro name row version hrow hcurrent
    rw [List.mem_append, Option.mem_toList]
    by_cases hname : name = call.name
    · subst hname
      obtain hdrawn | ⟨row', hrow', hcurrent'⟩ := hwithin.versions row version hrow hcurrent
      · exact .inr hdrawn
      · exact .inl (h.mem _ row' version hrow' hcurrent')
    · exact .inl (hold name row version hname hrow hcurrent).1
  · intro name name' row row' version hrow hrow' hcurrent hcurrent'
    by_cases hname : name = call.name
    · by_cases hname' : name' = call.name
      · rw [hname, hname']
      · refine absurd ?_ (hold name' row' version hname' hrow' hcurrent').2
        exact hwithin.versions row version (hname ▸ hrow) hcurrent
    · by_cases hname' : name' = call.name
      · refine absurd ?_ (hold name row version hname hrow hcurrent).2
        exact hwithin.versions row' version (hname' ▸ hrow') hcurrent'
      · rw [hwithin.secrets name hname] at hrow
        rw [hwithin.secrets name' hname'] at hrow'
        exact h.apart name name' row row' version hrow hrow' hcurrent hcurrent'

/-- A call for one name does not change what is read of another. -/
theorem SecretStore.VersionsDrawn.resolveSecret_of_within (h : store.VersionsDrawn drawn)
    {call : SecretCall} {store' : SecretStore}
    (hwithin : Within store call.name (call.Reaches store) store')
    (hfresh : ∀ version ∈ call.version?, version ∉ drawn) {name : String} (hname : name ≠ call.name)
    (answers : ResolveAnswers) :
    resolveSecret vault answers store' name = resolveSecret vault answers store name := by
  refine resolveSecret_congr (hwithin.secrets name hname) (hwithin.entries name hname)
    fun row version hrow hcurrent => hwithin.credentials version ?_
  exact h.not_reaches hfresh hname hrow hcurrent

/-- The next call of a history draws a version that was not drawn before. -/
theorem fresh_of_history {calls before : List SecretCall} {call : SecretCall}
    (hdraws : (drawnVersions calls).Nodup) (hbefore : before ++ [call] <+: calls) :
    ∀ version ∈ call.version?, version ∉ drawnVersions before := by
  intro version hversion hdrawn
  have hnodup := hdraws.sublist (hbefore.sublist.filterMap SecretCall.version?)
  rw [List.filterMap_append, List.nodup_append] at hnodup
  exact hnodup.2.2 version hdrawn version (by simpa using hversion) rfl

theorem drawnVersions_concat (before : List SecretCall) (call : SecretCall) :
    drawnVersions (before ++ [call]) = drawnVersions before ++ call.version?.toList := by
  rw [drawnVersions, drawnVersions, List.filterMap_append]
  cases hversion : call.version? <;> simp [hversion]

theorem versionsDrawn_secretStore {calls : List SecretCall} (hdraws : (drawnVersions calls).Nodup) :
    (secretStore vault calls).VersionsDrawn (drawnVersions calls) := by
  have hall : Runs.Meets (SecretCall.apply vault) (fun _ _ => True) {} calls :=
    Runs.meets_of_forall fun _ _ _ => trivial
  refine hall.invariant_history (I := fun calls store => store.VersionsDrawn (drawnVersions calls))
    ⟨nofun, nofun⟩ fun before state call hbefore hinv _ => ?_
  rw [drawnVersions_concat]
  exact call.versionsDrawn_apply hinv (fresh_of_history hdraws hbefore)

/-! ### Main results -/

/-- **Publication is atomic.** Behind any history of calls, whatever failed in it: when
`set_secret_versioned` fails, every secret reads as before; when it succeeds, the name reads as the
new value and every other name as before, whether or not the old version could be removed. The new
row and the old one refer to different versions. -/
theorem secret_publication_is_atomic (vault : Vault) (calls : List SecretCall)
    (backend : SecretBackendKind) (answers : SecretAnswers) (name value : String)
    (hdraws : (drawnVersions calls ++ [answers.version]).Nodup) :
    let store := secretStore vault calls
    let outcome := (setSecretVersioned vault backend answers name value).exec store
    (∀ error, outcome.1 = .error error → ∀ reads other,
        resolveSecret vault reads outcome.2 other = resolveSecret vault reads store other) ∧
      ∀ published, outcome.1 = .ok published →
        resolveSecret vault {} outcome.2 name = .ok value ∧
          (∀ reads, ∀ other ≠ name,
            resolveSecret vault reads outcome.2 other = resolveSecret vault reads store other) ∧
          ∃ row, outcome.2.secrets name = some row ∧
            row.credentialVersion = some answers.version ∧
            ∀ old, store.secrets name = some old → old.credentialVersion ≠
              row.credentialVersion := by
  intro store outcome
  obtain ⟨hbefore, -, hlast⟩ := List.nodup_append.mp hdraws
  have hdrawn : store.VersionsDrawn (drawnVersions calls) := versionsDrawn_secretStore hbefore
  have hunused : answers.version ∉ drawnVersions calls := fun hmem =>
    hlast answers.version hmem answers.version List.mem_cons_self rfl
  have hold : ∀ other row, store.secrets other = some row →
      row.credentialVersion ≠ some answers.version := fun other row hrow hcurrent =>
    hunused (hdrawn.mem other row answers.version hrow hcurrent)
  have hensures := ensures_setSecretVersioned vault backend value fun row => hold name row
  constructor
  · intro error herror reads other
    have hstaged : Staged store answers.version outcome.2 := hensures.of_error herror
    refine resolveSecret_congr (congrFun hstaged.secrets other) (congrFun hstaged.entries other)
      fun row version hrow hcurrent => hstaged.credentials version ?_
    rintro rfl
    exact hold other row hrow hcurrent
  · intro published hpublished
    obtain ⟨hname, row, hrow⟩ := hensures.of_ok hpublished
    refine ⟨hrow.resolveSecret_eq hname, fun reads other hother => ?_, row, hrow.secret,
      hrow.version_eq, fun old hsecret => ?_⟩
    · have hwithin := (Within.setSecretVersioned vault backend (.inl rfl) value).exec
        (within_self store (.setVersioned backend answers name value))
      refine hdrawn.resolveSecret_of_within hwithin (fun version hversion => ?_) hother reads
      obtain rfl := Option.some.inj hversion
      exact hunused
    · rw [hrow.version_eq]
      exact hold name old hsecret

/-- A cipher that leaves the text as it is. -/
def openVault : Vault := ⟨fun _ plaintext => some plaintext, fun _ ciphertext => some ciphertext⟩

/-- Every step of a write succeeds. -/
def sampleAnswers (version value : String) : SecretAnswers where
  nonce := ⟨⟨#[0, 0, 0, 0, 0, 0, 0, 0, 0, 0, 0, 0]⟩, rfl⟩
  version
  write := ⟨.ok (), some value.toUTF8⟩
  discard := ⟨.ok (), none⟩
  cleanup := ⟨.ok (), none⟩

/-- The old version cannot be removed. -/
def keptVersionAnswers : SecretAnswers :=
  { sampleAnswers "2" "b" with cleanup := ⟨.error (.other "busy"), some "a".toUTF8⟩ }

theorem keptVersion_reads_new_value :
    resolveSecret openVault {}
      ((setSecretVersioned openVault .native keptVersionAnswers "n" "b").exec
      (secretStore openVault [.setVersioned .native (sampleAnswers "1" "a") "n" "a"])).2 "n" =
      .ok "b" := by
  have hatomic := secret_publication_is_atomic openVault
    [.setVersioned .native (sampleAnswers "1" "a") "n" "a"] .native keptVersionAnswers "n" "b"
    (by decide)
  exact (hatomic.2 ⟨⟨"n", "", "native"⟩,
    some "secret was committed, but the previous credential version could not be removed"⟩ rfl).1

/-- What a read of a name returns when nothing fails. -/
def readOf (name : String) : Option String → Except String String
  | some value => .ok value
  | none => .error s!"secret {name} was not found"

/-- A successful call that meets no version leaves what it wrote. -/
theorem SecretCall.resolveSecret_apply_self (hvault : vault.Opens) (call : SecretCall)
    (hdrawn : store.VersionsDrawn drawn) (hfresh : ∀ version ∈ call.version?, version ∉ drawn)
    (hsucceeds : call.Succeeds vault store) (hkeeps : call.NativeKeeps)
    (hversion : call.MeetsNoVersion store) (before : Option String)
    (hname : validateSecretName call.name = .ok ()) :
    resolveSecret vault {} (call.apply vault store) call.name =
      readOf call.name (call.written call.name before) := by
  have hpost :
      Ensures (call.action vault) (fun _ store' => resolveSecret vault {} store' call.name =
      readOf call.name (call.written call.name before)) (fun _ _ => True) store := by
    cases call with
    | set backend answers name value =>
      simp only [written, SecretCall.name, if_true]
      exact (ensures_setSecret hvault hkeeps hversion.1 hversion.2).bind fun _ _ h => h hname
    | setVersioned backend answers name value =>
      simp only [written, SecretCall.name, if_true]
      have hunused : ∀ row ∈ store.secrets name, row.credentialVersion ≠ some answers.version :=
        fun row hrow hcurrent =>
          hfresh answers.version rfl (hdrawn.mem name row answers.version hrow hcurrent)
      refine Ensures.bind ((ensures_setSecretVersioned vault backend value hunused).mono
        (fun _ _ h => h) fun _ _ _ => trivial) fun _ store' h => ?_
      obtain ⟨-, row, hrow⟩ := h
      exact hrow.resolveSecret_eq hname
    | delete answers name =>
      simp only [written, SecretCall.name, if_true]
      exact ensures_deleteSecret.bind fun _ _ h => resolveSecret_none hname h
    | removeVersioned answers name =>
      simp only [written, SecretCall.name, if_true]
      exact ensures_removeSecretVersioned.bind fun _ _ h => resolveSecret_none hname h
  cases hresult : ((call.action vault).exec store).1 with
  | error => simp [Succeeds, hresult, Except.isOk, Except.toBool] at hsucceeds
  | ok => exact hpost.of_ok hresult

theorem SecretCall.written_of_ne {name : String} (call : SecretCall) (hname : name ≠ call.name)
    (before : Option String) : call.written name before = before := by
  cases call <;> exact if_neg (Ne.symm hname)

/-- **Secrets read your writes** in every history of successful calls in which no write under a name
meets a version: a name reads as the value of its last set, and is not found exactly when it was
never set or removed since. -/
theorem secrets_read_your_writes (vault : Vault) (hvault : vault.Opens) (calls : List SecretCall)
    (hdraws : (drawnVersions calls).Nodup) (hkeeps : ∀ call ∈ calls, call.NativeKeeps)
    (hsucceed : Runs.Meets (SecretCall.apply vault) (SecretCall.Succeeds vault) {} calls)
    (hversions : Runs.Meets (SecretCall.apply vault)
      (fun store call => call.MeetsNoVersion store) {} calls) (name : String) :
    resolveSecret vault {} (secretStore vault calls) name =
      (validateSecretName name).bind fun _ => readOf name (lastWritten name calls) := by
  cases hname : validateSecretName name with
  | error error =>
    rw [resolveSecret, hname]
    rfl
  | ok =>
    change _ = readOf name (lastWritten name calls)
    refine ((hsucceed.and hversions).invariant_history (I := fun calls store =>
      store.VersionsDrawn (drawnVersions calls) ∧
        resolveSecret vault {} store name = readOf name (lastWritten name calls))
          ⟨⟨nofun, nofun⟩, ?_⟩
      fun before store call hbefore ⟨hdrawn, hread⟩ ⟨hsucceeds, hversion⟩ => ?_).2
    · exact resolveSecret_none hname rfl
    · have hfresh := fresh_of_history hdraws hbefore
      have hmem : call ∈ calls := hbefore.subset (List.mem_append_right _ List.mem_cons_self)
      rw [drawnVersions_concat, lastWritten, List.foldl_concat, ← lastWritten]
      refine ⟨call.versionsDrawn_apply hdrawn hfresh, ?_⟩
      by_cases htarget : name = call.name
      · subst htarget
        exact call.resolveSecret_apply_self hvault hdrawn hfresh hsucceeds
          (hkeeps call hmem) hversion
          _ hname
      · rw [call.written_of_ne htarget, ← hread]
        exact hdrawn.resolveSecret_of_within (call.within_apply store) hfresh htarget {}

theorem openVault_opens : openVault.Opens := by
  intro nonce plaintext ciphertext h
  exact h.symm

/-- A version is published and removed, then the name is set. -/
def separateCalls : List SecretCall :=
  [.setVersioned .native (sampleAnswers "1" "a") "n" "a",
    .removeVersioned (sampleAnswers "" "") "n",
    .set (.ok .native) (sampleAnswers "" "b") "n" "b"]

theorem separateCalls_read_last_value :
    resolveSecret openVault {} (secretStore openVault separateCalls) "n" = .ok "b" := by
  refine secrets_read_your_writes openVault openVault_opens separateCalls (by decide) ?_
    ⟨rfl, rfl, rfl, trivial⟩ ⟨trivial, trivial, ⟨?_, nofun⟩, trivial⟩ "n"
  · intro call hcall
    fin_cases hcall <;> first | exact fun _ => rfl | trivial
  · intro _ row hrow
    cases hrow

/-- A version is published, then a refreshed token is set under the name. -/
def mixedCalls : List SecretCall :=
  [.setVersioned .native (sampleAnswers "1" "a") "n" "a",
    .set (.ok .native) (sampleAnswers "" "b") "n" "b"]

/-- Both calls succeed, and the name still reads as the first value. -/
theorem refreshed_secret_reads_old_value :
    openVault.Opens ∧ (drawnVersions mixedCalls).Nodup ∧
      (∀ call ∈ mixedCalls, call.NativeKeeps) ∧
      Runs.Meets (SecretCall.apply openVault) (SecretCall.Succeeds openVault) {} mixedCalls ∧
      lastWritten "n" mixedCalls = some "b" ∧
      resolveSecret openVault {} (secretStore openVault mixedCalls) "n" = .ok "a" := by
  refine ⟨openVault_opens, by decide, ?_, ⟨rfl, rfl, trivial⟩, rfl, rfl⟩
  intro call hcall
  fin_cases hcall <;> exact fun _ => rfl

end Histories

end KakuneCore
