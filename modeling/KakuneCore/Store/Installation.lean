import KakuneCore.Store.Pairing

/-!
# The database of an installation

How `initialize` opens the database: a file that it has created is brought to the latest schema, and
a file that it has found is first checked to be the database of an installation. Only the first may
be given an administrator credential, and only while it has none. A database that was opened once is
opened again as it is.
-/

namespace KakuneCore

def latestSchemaVersion : Nat := 17

/-! ### Databases -/

/-- A row of `auth_tokens`, as it is stored. A column that a migration adds has the value that the
migration gives it. -/
structure StoredToken where
  id : String
  tokenHash : String
  name : String
  scopes : String
  createdAt : String
  expiresAt : Option String
  revokedAt : Option String
  deriving DecidableEq

/-- A database. `versions` are the rows of `schema_migrations` and `identity` is the row of
`core_state`, if there are such tables; `tables` are the other ones, and `content` is everything
else in them. -/
structure Database (Content : Type) where
  tables : List String
  versions : Option (List Int)
  identity : Option (Option String)
  tokens : List StoredToken
  content : Content
  deriving DecidableEq

/-- What is found at the path of the database. -/
inductive DatabaseFile (Content : Type)
  /-- A file without a byte, or no regular file. -/
  | empty
  | unreadable
  | sound (database : Database Content)
  deriving DecidableEq

/-- What the store is built with. -/
structure StoreEnv (Content : Type) where
  tokenHash : String → String
  parseScopes : String → Except String (List AuthScope)
  /-- `OffsetDateTime::parse`. -/
  parseTime : String → Except String Int
  /-- What a database without tables has in them. -/
  blank : Content

/-- What an attempt to open the database is answered by the file system and by SQLite. -/
structure OpenAnswers (Content : Type) where
  directory : Except String Unit
  create : Except String Unit
  inspect : Except String Unit
  /-- The steps of `open_with_busy_timeout` before the backup. -/
  prepare : Except String Unit
  backup : Except String Unit
  connect : Except String Unit
  /-- The identity that `create_initial_schema` draws. -/
  coreId : String
  /-- What the migration to a version makes of the rest of the database. -/
  upgrade : Nat → Content → Except String Content

namespace Database

variable {Content : Type} (db : Database Content)

def coreId? : Option String := db.identity.join

/-- `COALESCE(MAX(version), 0)`, as an unsigned 32-bit number. -/
def versionOf (versions : List Int) : Except String Nat :=
  let version := versions.max?.getD 0
  if 0 ≤ version ∧ version < 2 ^ 32 then .ok version.toNat
  else .error "database schema version is invalid"

/-- `schema_version_before_migration`. -/
def schemaVersion : Except String Nat :=
  match db.versions with
  | some versions => versionOf versions
  | none => .ok 0

def newerVersion (version : Nat) : String :=
  "Kakune database schema version " ++ toString version ++
    " is newer than this Core supports (17)"

/-- The tables that the migration to a version creates. -/
def createdTables : Nat → List String
  | 1 => ["workflows", "workflow_revisions", "executions", "node_runs", "auth_tokens", "secrets",
      "installed_plugins", "prepared_plugin_installs", "scheduled_triggers", "events",
      "execution_plans", "execution_results", "artifacts", "execution_artifacts"]
  | 3 => ["execution_plans", "execution_results", "artifacts"]
  | 4 => ["execution_artifacts"]
  | 5 => ["scheduled_triggers"]
  | 6 => ["prepared_plugin_installs"]
  | 7 => ["provider_token_reservations", "provider_invocations"]
  | 8 => ["provider_profiles"]
  | 10 => ["execution_trace_spans"]
  | 13 => ["node_checkpoints", "execution_deadlines"]
  | 14 => ["execution_idempotency"]
  | 15 => ["auth_pairing_codes"]
  | 16 => ["named_mcp_connections"]
  | 17 => ["executions", "plugin_lifecycle", "plugin_removal_workflows", "plugin_execution_pins"]
  | _ => []

/-- One round of the loop of `migrate_through_version`: the transaction of one version. -/
def applyMigration (answers : OpenAnswers Content) (version : Nat) :
    Except String (Database Content) := do
  let content ← answers.upgrade version db.content
  .ok { db with
    tables := db.tables.union (createdTables version)
    versions := some (db.versions.getD [] ++ [(version : Int)])
    identity := if version = 1 then some (some (db.coreId?.getD answers.coreId)) else db.identity
    content := content }

/-- The loop of `migrate_through_version`. What it has committed stays. -/
def migrateThrough (answers : OpenAnswers Content) (db : Database Content) :
    List Nat → Database Content × Except String Unit
  | [] => (db, .ok ())
  | version :: versions =>
    match db.applyMigration answers version with
    | .error error => (db, .error error)
    | .ok next => migrateThrough answers next versions

def migrate (answers : OpenAnswers Content) : Database Content × Except String Unit :=
  let started := { db with versions := some (db.versions.getD []) }
  match started.schemaVersion with
  | .error error => (started, .error error)
  | .ok current =>
    if latestSchemaVersion < current then (started, .error (newerVersion current))
    else migrateThrough answers started (List.range' (current + 1) (latestSchemaVersion - current))

/-- The tables by which a database without versions is recognized. -/
def legacyTables : List String := ["workflows", "node_runs", "auth_tokens"]

/-- `validate_initialization_database`, for a database that can be read. -/
def validateInitialization : Except String Unit :=
  if ¬ legacyTables ⊆ db.tables then
    .error "preexisting database does not have a supported Kakune schema"
  else
    match db.schemaVersion with
    | .error error => .error error
    | .ok current =>
      if latestSchemaVersion < current then .error (newerVersion current)
      else if 0 < current ∧ db.coreId? = none then
        .error "preexisting database is missing its supported core identity"
      else .ok ()

end Database

namespace DatabaseFile

variable {Content : Type}

/-- The credentials that a file holds. -/
def tokens : DatabaseFile Content → List StoredToken
  | sound db => db.tokens
  | _ => []

def validateInitialization : DatabaseFile Content → Except String Unit
  | empty => .error "preexisting database is empty or is not a regular file"
  | unreadable => .error "preexisting database is unreadable or corrupt"
  | sound db => db.validateInitialization

/-- The database that a connection to the file finds. -/
def connect (env : StoreEnv Content) : DatabaseFile Content → Except String (Database Content)
  | empty => .ok ⟨[], none, none, [], env.blank⟩
  | unreadable => .error "file is not a database"
  | sound db => .ok db

/-- The part of `open_with_busy_timeout` that looks at a file that is not empty: a database of an
earlier version is copied before it is migrated. -/
def backup (answers : OpenAnswers Content) : DatabaseFile Content → Except String Unit
  | sound db => do
    let current ← db.schemaVersion
    if latestSchemaVersion < current then .error (Database.newerVersion current)
    else if current < latestSchemaVersion then answers.backup
    else .ok ()
  | _ => .ok ()

end DatabaseFile

section Content

variable {Content : Type} (env : StoreEnv Content)

/-- The steps of `open_with_busy_timeout` before it migrates. -/
def connectStore (answers : OpenAnswers Content) (file : DatabaseFile Content) :
    Except String (Database Content) := do
  answers.prepare
  file.backup answers
  answers.connect
  file.connect env

/-- `open_with_busy_timeout`: the file that it leaves, and the database. -/
def openWithBusyTimeout (answers : OpenAnswers Content) (file : DatabaseFile Content) :
    DatabaseFile Content × Except String (Database Content) :=
  match connectStore env answers file with
  | .error error => (file, .error error)
  | .ok db =>
    match db.migrate answers with
    | (migrated, .error error) =>
      (.sound migrated, .error ("Kakune storage migration failed: " ++ error))
    | (migrated, .ok ()) => (.sound migrated, .ok migrated)

/-- `open_for_initialization`: the file that it leaves, and the database together with whether the
installation is new. -/
def openForInitialization (answers : OpenAnswers Content) (file : Option (DatabaseFile Content)) :
    Option (DatabaseFile Content) × Except String (Database Content × Bool) :=
  match answers.directory with
  | .error error => (file, .error ("cannot create Kakune data directory: " ++ error))
  | .ok () =>
    match file with
    | none =>
      match answers.create with
      | .error error => (none, .error ("cannot create Kakune database: " ++ error))
      | .ok () =>
        let opened := openWithBusyTimeout env answers .empty
        (some opened.1, opened.2.map (·, true))
    | some file =>
      match (answers.inspect.mapError ("cannot inspect Kakune database: " ++ ·)).bind
          fun _ => file.validateInitialization with
      | .error error => (some file, .error error)
      | .ok () =>
        let opened := openWithBusyTimeout env answers file
        (some opened.1, opened.2.map (·, false))

/-! ### Credentials -/

/-- What the issue of the first credential draws and is answered. -/
structure IssueAnswers where
  transaction : Except String Unit
  token : String
  id : String
  now : Except String String

/-- `issue_initial_admin_credential`; the flag is `initialization_issuance_eligible`. -/
def issueInitialAdminCredential (answers : IssueAnswers) (eligible : Bool)
    (db : Database Content) : Except String (String × Database Content) :=
  if eligible = false then .error "initial credential issuance requires a new installation"
  else do
    answers.transaction
    if db.coreId? = none ∨ db.tokens ≠ [] then
      .error "installation identity or credential history prevents initial issuance"
    else
      let token := "kakune_" ++ answers.token
      let createdAt ← answers.now
      .ok (token, { db with tokens := db.tokens ++ [{
        id := answers.id
        tokenHash := env.tokenHash token
        name := "Initial local administrator"
        scopes := "[\"admin\"]"
        createdAt := createdAt
        expiresAt := none
        revokedAt := none }] })

def StoreEnv.isExpired (now : Int) : Option String → Except String Bool
  | none => .ok false
  | some expiresAt =>
    match env.parseTime expiresAt with
    | .error _ => .error "cannot decode persisted token expiration"
    | .ok expiresAt => .ok (expiresAt ≤ now)

/-- The loop of `authorize_scope` over the tokens: the first one with the hash decides. -/
def StoreEnv.authorizeScope (now : Int) (token : String) (required : AuthScope) :
    List StoredToken → Except String Bool
  | [] => .ok false
  | row :: rows =>
    if row.revokedAt = none ∧ row.tokenHash = env.tokenHash token then
      match env.isExpired now row.expiresAt with
      | .error error => .error error
      | .ok true => .ok false
      | .ok false => do
        let scopes ← env.parseScopes row.scopes
        .ok (decide (.admin ∈ scopes) || decide (required ∈ scopes))
    else StoreEnv.authorizeScope now token required rows

end Content

/-! ### What a migration keeps -/

/-- What no migration takes away: tables, the identity, and every credential as it is. -/
structure Database.Upgrades {Content : Type} (before after : Database Content) : Prop where
  tokens : after.tokens = before.tokens
  tables : before.tables ⊆ after.tables
  identity : ∀ id, before.coreId? = some id → after.coreId? = some id

/-- A database of the latest schema with the identity of an installation. -/
structure Database.Ready {Content : Type} (db : Database Content) : Prop where
  recognized : Database.legacyTables ⊆ db.tables
  versioned : db.versions.isSome
  latest : db.schemaVersion = .ok latestSchemaVersion
  identified : db.coreId? ≠ none

namespace Database

variable {Content : Type} {answers : OpenAnswers Content} {db next after : Database Content}

theorem Upgrades.refl (db : Database Content) : db.Upgrades db :=
  ⟨rfl, List.Subset.refl _, fun _ h => h⟩

theorem Upgrades.trans (h : db.Upgrades next) (h' : next.Upgrades after) : db.Upgrades after :=
  ⟨h'.tokens.trans h.tokens, List.Subset.trans h.tables h'.tables,
    fun id hid => h'.identity id (h.identity id hid)⟩

theorem versionOf_append {versions : List Int} {current version : Nat}
    (h : versionOf versions = .ok current) (hnext : current < version) (hbound : version < 2 ^ 32) :
    versionOf (versions ++ [(version : Int)]) = .ok version := by
  have hmax : (versions ++ [(version : Int)]).max? = some (version : Int) := by
    rw [List.max?_eq_some_iff]
    refine ⟨by simp, fun other hother => ?_⟩
    rcases List.mem_append.mp hother with hother | hother
    · rw [versionOf] at h
      split at h
      · next hrange =>
        cases h
        cases hold : versions.max? with
        | none =>
          rw [List.max?_eq_none_iff] at hold
          rw [hold] at hother
          cases hother
        | some latest =>
          have hle := (List.max?_eq_some_iff.mp hold).2 other hother
          rw [hold, Option.getD_some] at hnext hrange
          omega
      · cases h
    · rw [List.mem_singleton.mp hother]
  rw [versionOf, hmax, Option.getD_some, if_pos (by omega), Int.toNat_natCast]

theorem schemaVersion_started (db : Database Content) :
    schemaVersion { db with versions := some (db.versions.getD []) } = db.schemaVersion := by
  cases h : db.versions with
  | none => simp [schemaVersion, h, versionOf]
  | some versions => simp [schemaVersion, h]

/-- **What one migration does.** -/
theorem applyMigration_eq_ok {version : Nat} (h : db.applyMigration answers version = .ok next) :
    db.Upgrades next ∧ next.versions = some (db.versions.getD [] ++ [(version : Int)]) ∧
      createdTables version ⊆ next.tables ∧
      (version = 1 → next.coreId? = some (db.coreId?.getD answers.coreId)) := by
  obtain ⟨content, -, h⟩ := except_bind_eq_ok h
  cases h
  refine ⟨⟨rfl, fun table htable => List.mem_union_iff.mpr (Or.inl htable), fun id hid => ?_⟩, rfl,
    fun table htable => List.mem_union_iff.mpr (Or.inr htable), fun hversion => ?_⟩
  · by_cases hversion : version = 1
    · rw [coreId?, if_pos hversion, hid]
      rfl
    · rw [coreId?, if_neg hversion]
      exact hid
  · simp [coreId?, hversion]

theorem migrateThrough_upgrades (answers : OpenAnswers Content) (db : Database Content)
    (versions : List Nat) : db.Upgrades (migrateThrough answers db versions).1 := by
  induction versions generalizing db with
  | nil => exact Upgrades.refl db
  | cons version versions ih =>
    rw [migrateThrough]
    split
    · exact Upgrades.refl db
    · next next hnext => exact (applyMigration_eq_ok hnext).1.trans (ih next)

theorem migrate_upgrades (answers : OpenAnswers Content) (db : Database Content) :
    db.Upgrades (db.migrate answers).1 := by
  have hstarted : db.Upgrades { db with versions := some (db.versions.getD []) } :=
    ⟨rfl, List.Subset.refl _, fun _ hid => hid⟩
  simp only [migrate]
  split
  · exact hstarted
  · split
    · exact hstarted
    · exact hstarted.trans (migrateThrough_upgrades answers _ _)

theorem migrateThrough_range {start count : Nat} (hversion : db.schemaVersion = .ok start)
    (hversions : db.versions.isSome) (hbound : start + count < 2 ^ 32)
    (h : migrateThrough answers db (List.range' (start + 1) count) = (next, .ok ())) :
    next.schemaVersion = .ok (start + count) ∧ next.versions.isSome := by
  induction count generalizing db start with
  | zero =>
    cases h
    exact ⟨hversion, hversions⟩
  | succ count ih =>
    rw [List.range'_succ, migrateThrough] at h
    split at h
    · cases h
    next stepped hstepped =>
    obtain ⟨versions, hsome⟩ := Option.isSome_iff_exists.mp hversions
    have hnew : stepped.versions = some (versions ++ [((start + 1 : Nat) : Int)]) := by
      rw [(applyMigration_eq_ok hstepped).2.1, hsome]
      rfl
    rw [schemaVersion, hsome] at hversion
    have hlatest : stepped.schemaVersion = .ok (start + 1) := by
      rw [schemaVersion, hnew]
      exact versionOf_append hversion (by omega) (by omega)
    have hrest := ih hlatest (by rw [hnew]; rfl) (by omega) h
    rwa [show start + (count + 1) = start + 1 + count by omega]

/-- **A migrated database is ready**, if it was recognized or is migrated from the first version
on. -/
theorem migrate_ready (h : db.migrate answers = (next, .ok ()))
    (hrecognized : db.schemaVersion = .ok 0 ∨ legacyTables ⊆ db.tables ∧ db.coreId? ≠ none) :
    next.Ready ∧ next.coreId? = some (db.coreId?.getD answers.coreId) := by
  simp only [migrate] at h
  rw [schemaVersion_started] at h
  split at h
  · cases h
  next current hcurrent =>
  split at h
  · cases h
  next hsupported =>
  have hstarted : schemaVersion { db with versions := some (db.versions.getD []) } = .ok current :=
    (schemaVersion_started db).trans hcurrent
  have hbound : current + (latestSchemaVersion - current) = latestSchemaVersion := by omega
  obtain ⟨hlatest, hversioned⟩ := migrateThrough_range hstarted rfl (by rw [hbound]; decide) h
  rw [hbound] at hlatest
  have hupgrades := migrateThrough_upgrades answers
    { db with versions := some (db.versions.getD []) }
    (List.range' (current + 1) (latestSchemaVersion - current))
  rw [h] at hupgrades
  suffices hrest : legacyTables ⊆ next.tables ∧
      next.coreId? = some (db.coreId?.getD answers.coreId) by
    refine ⟨⟨hrest.1, hversioned, hlatest, ?_⟩, hrest.2⟩
    rw [hrest.2]
    exact Option.some_ne_none _
  by_cases hzero : current = 0
  · -- the first migration creates the tables and the identity, and the others keep them
    subst hzero
    rw [show List.range' (0 + 1) (latestSchemaVersion - 0) = 1 :: List.range' 2 16 by decide,
      migrateThrough] at h
    split at h
    · cases h
    next stepped hstepped =>
    obtain ⟨-, -, htables, hidentity⟩ := applyMigration_eq_ok hstepped
    have hkept := migrateThrough_upgrades answers stepped (List.range' 2 16)
    rw [h] at hkept
    have hlegacy : legacyTables ⊆ createdTables 1 := by decide
    exact ⟨List.Subset.trans (List.Subset.trans hlegacy htables) hkept.tables,
      hkept.identity _ (hidentity rfl)⟩
  · rcases hrecognized with hversion | ⟨htables, hidentity⟩
    · rw [hversion] at hcurrent
      cases hcurrent
      exact absurd rfl hzero
    · obtain ⟨id, hid⟩ := Option.ne_none_iff_exists'.mp hidentity
      refine ⟨List.Subset.trans htables hupgrades.tables, ?_⟩
      rw [hid]
      exact hupgrades.identity id hid

theorem Ready.migrate (h : db.Ready) (answers : OpenAnswers Content) :
    db.migrate answers = (db, .ok ()) := by
  obtain ⟨versions, hversions⟩ := Option.isSome_iff_exists.mp h.versioned
  have hstarted : { db with versions := some (db.versions.getD []) } = db := by
    rw [hversions, Option.getD_some, ← hversions]
  simp only [Database.migrate]
  rw [hstarted, h.latest]
  rfl

theorem Ready.validateInitialization (h : db.Ready) : db.validateInitialization = .ok () := by
  simp only [Database.validateInitialization]
  rw [if_neg (not_not_intro h.recognized), h.latest]
  simp [h.identified]

end Database

/-! ### Opening a database again -/

/-- The identity that a file holds. -/
def DatabaseFile.coreId? {Content : Type} : DatabaseFile Content → Option String
  | sound db => db.coreId?
  | _ => none

/-- What opening keeps of a file that exists: its identity, and every credential as it is. -/
structure DatabaseFile.Keeps {Content : Type} (before after : DatabaseFile Content) : Prop where
  tokens : after.tokens = before.tokens
  identity : ∀ id, before.coreId? = some id → after.coreId? = some id

/-- Nothing stands in the way of opening a database of the latest schema. -/
structure OpenAnswers.Undisturbed {Content : Type} (answers : OpenAnswers Content) : Prop where
  directory : answers.directory = .ok ()
  inspect : answers.inspect = .ok ()
  prepare : answers.prepare = .ok ()
  connect : answers.connect = .ok ()

section Content

variable {Content : Type} {env : StoreEnv Content} {answers : OpenAnswers Content}
  {db : Database Content} {file : DatabaseFile Content}

open DatabaseFile

theorem DatabaseFile.Keeps.refl (file : DatabaseFile Content) : file.Keeps file :=
  ⟨rfl, fun _ h => h⟩

theorem connectStore_eq_ok (h : connectStore env answers file = .ok db) :
    file = .empty ∧ db = ⟨[], none, none, [], env.blank⟩ ∨ file = .sound db := by
  obtain ⟨-, -, h⟩ := except_bind_eq_ok h
  obtain ⟨-, -, h⟩ := except_bind_eq_ok h
  obtain ⟨-, -, h⟩ := except_bind_eq_ok h
  cases file with
  | empty =>
    cases h
    exact Or.inl ⟨rfl, rfl⟩
  | unreadable => cases h
  | sound db =>
    cases h
    exact Or.inr rfl

theorem openWithBusyTimeout_keeps (env : StoreEnv Content) (answers : OpenAnswers Content)
    (file : DatabaseFile Content) : file.Keeps (openWithBusyTimeout env answers file).1 := by
  rw [openWithBusyTimeout]
  split
  · exact Keeps.refl file
  next db hdb =>
  have hmigrated : file.Keeps (.sound (db.migrate answers).1) := by
    have hupgrades := Database.migrate_upgrades answers db
    rcases connectStore_eq_ok hdb with ⟨rfl, rfl⟩ | rfl
    · exact ⟨hupgrades.tokens, nofun⟩
    · exact ⟨hupgrades.tokens, hupgrades.identity⟩
  split
  · next migrated _ h => rwa [h] at hmigrated
  · next migrated h => rwa [h] at hmigrated

/-- **An installation that exists keeps its identity and its credentials** however it is opened. -/
theorem openForInitialization_keeps (env : StoreEnv Content) (answers : OpenAnswers Content)
    (file : DatabaseFile Content) : ∃ after,
      (openForInitialization env answers (some file)).1 = some after ∧ file.Keeps after := by
  rw [openForInitialization]
  split
  · exact ⟨file, rfl, Keeps.refl file⟩
  · dsimp only
    split
    · exact ⟨file, rfl, Keeps.refl file⟩
    · exact ⟨_, rfl, openWithBusyTimeout_keeps env answers file⟩

theorem openWithBusyTimeout_eq_ok (h : (openWithBusyTimeout env answers file).2 = .ok db) :
    ∃ found, connectStore env answers file = .ok found ∧ found.migrate answers = (db, .ok ()) ∧
      (openWithBusyTimeout env answers file).1 = .sound db := by
  rw [openWithBusyTimeout] at h ⊢
  split at h
  · cases h
  next found hfound =>
  split at h
  · cases h
  · next migrated hmigrated =>
    cases h
    exact ⟨found, hfound, hmigrated, rfl⟩

/-- The two ways in which a database is opened. -/
theorem opened_eq_ok {after : Option (DatabaseFile Content)} {isNew flag : Bool}
    (h : (some (openWithBusyTimeout env answers file).1,
      (openWithBusyTimeout env answers file).2.map (·, flag)) = (after, .ok (db, isNew))) :
    after = some (.sound db) ∧ isNew = flag ∧ ∃ found, connectStore env answers file = .ok found ∧
      found.migrate answers = (db, .ok ()) := by
  obtain ⟨rfl, hresult⟩ := Prod.mk.inj h
  cases hopened : (openWithBusyTimeout env answers file).2 with
  | error error =>
    rw [hopened] at hresult
    cases hresult
  | ok opened =>
    rw [hopened] at hresult
    cases hresult
    obtain ⟨found, hfound, hmigrated, hafter⟩ := openWithBusyTimeout_eq_ok hopened
    exact ⟨congrArg some hafter, rfl, found, hfound, hmigrated⟩

theorem Database.recognized_of_validate (h : db.validateInitialization = .ok ()) :
    db.schemaVersion = .ok 0 ∨ legacyTables ⊆ db.tables ∧ db.coreId? ≠ none := by
  simp only [Database.validateInitialization] at h
  split at h
  · cases h
  next hlegacy =>
  split at h
  · cases h
  next current hcurrent =>
  split at h
  · cases h
  split at h
  · cases h
  next hidentity =>
  rcases Nat.eq_zero_or_pos current with rfl | hpos
  · exact Or.inl hcurrent
  · exact Or.inr ⟨not_not.mp hlegacy, fun hnone => hidentity ⟨hpos, hnone⟩⟩

/-- **What is opened is ready**: it has the credentials and the identity that were found, or none
and a new identity. -/
theorem openForInitialization_eq_ok {before after : Option (DatabaseFile Content)} {isNew : Bool}
    (h : openForInitialization env answers before = (after, .ok (db, isNew))) :
    after = some (.sound db) ∧ isNew = before.isNone ∧ db.Ready ∧
      db.coreId? = some ((before.bind DatabaseFile.coreId?).getD answers.coreId) := by
  unfold openForInitialization at h
  split at h
  · cases h
  split at h
  · split at h
    · cases h
    obtain ⟨rfl, rfl, found, hfound, hmigrated⟩ := opened_eq_ok h
    rcases connectStore_eq_ok hfound with ⟨-, rfl⟩ | hfound
    · obtain ⟨hready, hid⟩ := Database.migrate_ready hmigrated (Or.inl rfl)
      exact ⟨rfl, rfl, hready, hid⟩
    · cases hfound
  · next file =>
    split at h
    · cases h
    next hvalid =>
    have hvalidated : file.validateInitialization = .ok () := by
      cases hinspect : answers.inspect with
      | error error =>
        rw [hinspect] at hvalid
        cases hvalid
      | ok answer =>
        rw [hinspect] at hvalid
        exact hvalid
    obtain ⟨rfl, rfl, found, hfound, hmigrated⟩ := opened_eq_ok h
    rcases connectStore_eq_ok hfound with ⟨rfl, -⟩ | rfl
    · cases hvalidated
    · obtain ⟨hready, hid⟩ := Database.migrate_ready hmigrated
        (Database.recognized_of_validate hvalidated)
      exact ⟨rfl, rfl, hready, hid⟩

/-- **A database that is ready is opened as it is.** -/
theorem Database.Ready.open (h : db.Ready) (hanswers : answers.Undisturbed) :
    openForInitialization env answers (some (.sound db)) = (some (.sound db), .ok (db, false)) := by
  have hconnect : connectStore env answers (.sound db) = .ok db := by
    have hbackup : DatabaseFile.backup answers (.sound db) = .ok () := by
      rw [DatabaseFile.backup, h.latest]
      rfl
    rw [connectStore, hanswers.prepare, hbackup, hanswers.connect]
    rfl
  have hopened : openWithBusyTimeout env answers (.sound db) = (.sound db, .ok db) := by
    rw [openWithBusyTimeout, hconnect]
    dsimp only
    rw [h.migrate answers]
  have hvalidate : DatabaseFile.validateInitialization (.sound db) = .ok () :=
    h.validateInitialization
  simp only [openForInitialization, hanswers.directory, hanswers.inspect, hvalidate, hopened]
  rfl

/-! ### Issuing and authorizing -/

theorem issueInitialAdminCredential_eq_ok {answers : IssueAnswers} {eligible : Bool}
    {token : String} {issued : Database Content}
    (h : issueInitialAdminCredential env answers eligible db = .ok (token, issued)) :
    eligible = true ∧ ∃ row, issued = { db with tokens := db.tokens ++ [row] } := by
  rw [issueInitialAdminCredential] at h
  split at h
  · cases h
  next heligible =>
  obtain ⟨-, -, h⟩ := except_bind_eq_ok h
  split at h
  · cases h
  obtain ⟨createdAt, -, h⟩ := except_bind_eq_ok h
  cases h
  exact ⟨Bool.eq_true_of_not_eq_false heligible, _, rfl⟩

/-- No token expires between two readings of the clock. -/
def StoreEnv.NoneExpires (env : StoreEnv Content) (now later : Int) (tokens : List StoredToken) :
    Prop :=
  ∀ row ∈ tokens, env.isExpired now row.expiresAt = .ok false →
    env.isExpired later row.expiresAt = .ok false

theorem StoreEnv.authorizeScope_later {now later : Int} {token : String} {required : AuthScope}
    {tokens : List StoredToken} (hlasting : env.NoneExpires now later tokens)
    (h : env.authorizeScope now token required tokens = .ok true) :
    env.authorizeScope later token required tokens = .ok true := by
  induction tokens with
  | nil => cases h
  | cons row rows ih =>
    rw [StoreEnv.authorizeScope] at h ⊢
    split at h
    · next hrow =>
      rw [if_pos hrow]
      split at h
      · cases h
      · cases h
      · next hexpired =>
        rw [hlasting row List.mem_cons_self hexpired]
        exact h
    · next hrow =>
      rw [if_neg hrow]
      exact ih (fun row hmem => hlasting row (List.mem_cons_of_mem _ hmem)) h

end Content

end KakuneCore
