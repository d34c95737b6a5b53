import KakuneCore.Relational.Runs
import KakuneCore.Store.Pairing
import KakuneCore.Workflow.Value

/-!
# Context collections

The contexts a user has named, as they are kept in one file, and the updates that
`ContextRepository` makes to them. An update makes some **facts** of the collection true, and
overwrites others; everything else about the collection it leaves as it is.
-/

namespace KakuneCore

def maxContextFileBytes : Nat := 1048576

def maxContexts : Nat := 1000

structure ConnectionContext where
  id : String
  name : String
  endpoint : String
  expectedCoreId : Option String
  color : Option String
  credentialRef : Option String
  deriving DecidableEq

structure ContextFile where
  format : String
  exportedAt : String
  activeContextId : Option String
  revision : UInt64
  contexts : List ConnectionContext
  deriving DecidableEq

/-- `ContextFile::default`. -/
def emptyContexts (exportedAt : String) : ContextFile where
  format := "kakune-contexts/v1"
  exportedAt := exportedAt
  activeContextId := none
  revision := 0
  contexts := []

/-! ### Validation -/

/-- What `reqwest::Url` says of an address. -/
structure Url where
  scheme : String
  host : Option String
  username : String
  password : Option String
  query : Option String
  fragment : Option String
  queryPairs : List (String × String)

/-- The query parameters that carry credentials. -/
def credentialParameters : List String :=
  ["token", "access_token", "api_key", "apikey", "secret", "password", "authorization",
    "credential"]

def isAsciiHexDigit (c : Char) : Bool :=
  c.isDigit || ('a' ≤ c && c ≤ 'f') || ('A' ≤ c && c ≤ 'F')

/-- The test of the ID, the name and the expected identity. -/
def isPlainText (limit : Nat) (text : String) : Bool :=
  !blank text && text.utf8ByteSize ≤ limit && !text.toList.any isControl

def validateContext (parseUrl : String → Option Url) (context : ConnectionContext) :
    Except String Unit :=
  if !isPlainText 256 context.id then .error "context ID must be 1-256 characters"
  else if !isPlainText 200 context.name then .error "context name must be 1-200 characters"
  else match parseUrl context.endpoint with
    | none => .error "context endpoint must be a valid HTTP or HTTPS URL"
    | some url =>
      if url.scheme ∉ ["http", "https"] || url.host.isNone || url.username != "" ||
          url.password.isSome || url.fragment.isSome then
        .error "context endpoint must be an HTTP or HTTPS URL"
      else if url.queryPairs.any fun pair => pair.1.toLower ∈ credentialParameters then
        .error "context endpoint must not contain credential query parameters"
      else if context.expectedCoreId.any fun expected => !isPlainText 256 expected then
        .error "expected Core identity must be 1-256 non-control characters"
      else if context.color.any fun color => color.utf8ByteSize ≠ 7 ||
          color.toList.head? ≠ some '#' || !color.toList.tail.all isAsciiHexDigit then
        .error "context color must be a #RRGGBB value"
      else if context.credentialRef.any fun reference => blank reference ||
          reference.utf8ByteSize > 1024 || reference.toList.any isWhitespace ||
          reference.toList.any isControl then
        .error "context credentialRef must be a non-secret reference without whitespace"
      else .ok ()

/-- The loop of `validate` over the contexts. -/
def requireValid (parseUrl : String → Option Url) : List ConnectionContext → Except String Unit
  | [] => .ok ()
  | context :: contexts => do
    validateContext parseUrl context
    requireValid parseUrl contexts

/-- The loop of `validate` that compares each ID with those before it. -/
def requireUnique (before : List ConnectionContext) : List ConnectionContext → Except String Unit
  | [] => .ok ()
  | context :: contexts =>
    if before.any fun other => other.id = context.id then
      .error ("duplicate context ID " ++ context.id)
    else requireUnique (before ++ [context]) contexts

def requireActive (contexts : List ConnectionContext) : Option String → Except String Unit
  | some active =>
    if contexts.any fun context => context.id = active then .ok ()
    else .error ("active context " ++ active ++ " does not exist")
  | none => .ok ()

def tooManyContexts : String := "context collections may contain at most 1000 entries"

def ContextFile.validate (parseUrl : String → Option Url) (file : ContextFile) :
    Except String Unit :=
  if file.format ≠ "kakune-contexts/v1" then
    .error "contexts format must be kakune-contexts/v1"
  else if maxContexts < file.contexts.length then .error tooManyContexts
  else do
    requireValid parseUrl file.contexts
    requireUnique [] file.contexts
    requireActive file.contexts file.activeContextId

/-- The IDs are unique, and an active one is among them. -/
structure ContextFile.WellFormed (file : ContextFile) : Prop where
  unique : (file.contexts.map ConnectionContext.id).Nodup
  active : ∀ id, file.activeContextId = some id → ∃ context ∈ file.contexts, context.id = id

theorem nodup_of_requireUnique {before contexts : List ConnectionContext}
    (hbefore : (before.map ConnectionContext.id).Nodup)
    (h : requireUnique before contexts = .ok ()) :
    ((before ++ contexts).map ConnectionContext.id).Nodup := by
  induction contexts generalizing before with
  | nil => rwa [List.append_nil]
  | cons context contexts ih =>
    rw [requireUnique] at h
    split at h
    · cases h
    · next hnew =>
      rw [List.append_cons]
      refine ih ?_ h
      rw [List.map_append, List.map_singleton, List.nodup_append]
      refine ⟨hbefore, List.nodup_singleton _, fun id hid other hother heq => hnew ?_⟩
      rw [List.mem_singleton] at hother
      obtain ⟨earlier, hearlier, rfl⟩ := List.mem_map.mp hid
      exact List.any_eq_true.mpr ⟨earlier, hearlier, decide_eq_true (heq.trans hother)⟩

/-- **What is validated is well formed.** -/
theorem ContextFile.wellFormed_of_validate {parseUrl : String → Option Url} {file : ContextFile}
    (h : file.validate parseUrl = .ok ()) : file.WellFormed := by
  rw [ContextFile.validate] at h
  split at h
  · cases h
  split at h
  · cases h
  obtain ⟨_, -, h⟩ := except_bind_eq_ok h
  obtain ⟨_, hunique, hactive⟩ := except_bind_eq_ok h
  refine ⟨@nodup_of_requireUnique [] _ List.nodup_nil hunique, fun id hid => ?_⟩
  rw [hid, requireActive] at hactive
  split at hactive
  · next hany =>
    obtain ⟨context, hcontext, heq⟩ := List.any_eq_true.mp hany
    exact ⟨context, hcontext, of_decide_eq_true heq⟩
  · cases hactive

/-! ### Updates -/

inductive ContextUpdate
  | add (context : ConnectionContext)
  | importContexts (contexts : List ConnectionContext)
  | useContext (id : String)
  | remove (id : String)

def hasContext (contexts : List ConnectionContext) (id : String) : Bool :=
  contexts.any fun context => context.id = id

/-- The loop of `import` over the imported contexts. -/
def requireNew (existing : List ConnectionContext) (incoming : List String) :
    List ConnectionContext → Except String Unit
  | [] => .ok ()
  | context :: contexts =>
    if context.id ∈ incoming then .error ("import contains duplicate context ID " ++ context.id)
    else if hasContext existing context.id then
      .error ("context " ++ context.id ++ " already exists")
    else requireNew existing (context.id :: incoming) contexts

/-- The closures that the operations of `ContextRepository` pass to `transact`. -/
def ContextUpdate.apply (file : ContextFile) : ContextUpdate → Except String ContextFile
  | .add context =>
    if hasContext file.contexts context.id then
      .error ("context " ++ context.id ++ " already exists")
    else if file.contexts.length = maxContexts then .error tooManyContexts
    else .ok { file with contexts := file.contexts ++ [context] }
  | .importContexts contexts => do
    requireNew file.contexts [] contexts
    if maxContexts < file.contexts.length + contexts.length then .error tooManyContexts
    else .ok { file with contexts := file.contexts ++ contexts }
  | .useContext id =>
    if hasContext file.contexts id then .ok { file with activeContextId := some id }
    else .error ("context " ++ id ++ " was not found")
  | .remove id =>
    let kept := file.contexts.filter fun context => context.id ≠ id
    if kept.length = file.contexts.length then .error ("context " ++ id ++ " was not found")
    else .ok { file with
      contexts := kept
      activeContextId := if file.activeContextId = some id then none else file.activeContextId }

/-- What can be said of one entry of a collection. -/
inductive ContextFact
  | present (context : ConnectionContext)
  | missing (id : String)
  | selected (id : String)

def ContextFact.Holds (file : ContextFile) : ContextFact → Prop
  | .present context => context ∈ file.contexts
  | .missing id => ∀ context ∈ file.contexts, context.id ≠ id
  | .selected id => file.activeContextId = some id

/-- What an update makes true. -/
def ContextUpdate.facts : ContextUpdate → List ContextFact
  | .add context => [.present context]
  | .importContexts contexts => contexts.map .present
  | .useContext id => [.selected id]
  | .remove id => [.missing id]

/-- What an update may make false. -/
def ContextUpdate.Overwrites : ContextUpdate → ContextFact → Prop
  | .add context, .missing id => context.id = id
  | .importContexts contexts, .missing id => ∃ context ∈ contexts, context.id = id
  | .useContext other, .selected id => other ≠ id
  | .remove id, .present context => context.id = id
  | .remove other, .selected id => other = id
  | _, _ => False

section Updates

variable {file updated : ContextFile} {update : ContextUpdate} {fact : ContextFact}

/-- **An update that succeeds has its effect.** -/
theorem ContextUpdate.holds_facts (h : update.apply file = .ok updated)
    (hfact : fact ∈ update.facts) :
    fact.Holds updated := by
  cases update with
  | add context =>
    rw [apply] at h
    split at h
    · cases h
    split at h
    · cases h
    cases h
    obtain rfl := List.mem_singleton.mp hfact
    exact List.mem_append_right _ List.mem_cons_self
  | importContexts contexts =>
    obtain ⟨_, -, h⟩ := except_bind_eq_ok h
    split at h
    · cases h
    cases h
    obtain ⟨context, hcontext, rfl⟩ := List.mem_map.mp hfact
    exact List.mem_append_right _ hcontext
  | useContext id =>
    rw [apply] at h
    split at h
    · cases h
      obtain rfl := List.mem_singleton.mp hfact
      rfl
    · cases h
  | remove id =>
    rw [apply] at h
    split at h
    · cases h
    · cases h
      obtain rfl := List.mem_singleton.mp hfact
      intro context hcontext
      exact of_decide_eq_true (List.mem_filter.mp hcontext).2

/-- **An update keeps what it does not overwrite.** -/
theorem ContextUpdate.holds_of_not_overwrites (h : update.apply file = .ok updated)
    (hkept : ¬ update.Overwrites fact) (hfact : fact.Holds file) : fact.Holds updated := by
  cases update with
  | add context =>
    rw [apply] at h
    split at h
    · cases h
    split at h
    · cases h
    cases h
    cases fact with
    | present other => exact List.mem_append_left _ hfact
    | missing id =>
      intro other hother
      rcases List.mem_append.mp hother with hother | hother
      · exact hfact other hother
      · obtain rfl := List.mem_singleton.mp hother
        exact hkept
    | selected id => exact hfact
  | importContexts contexts =>
    obtain ⟨_, -, h⟩ := except_bind_eq_ok h
    split at h
    · cases h
    cases h
    cases fact with
    | present other => exact List.mem_append_left _ hfact
    | missing id =>
      intro other hother
      rcases List.mem_append.mp hother with hother | hother
      · exact hfact other hother
      · exact fun heq => hkept ⟨other, hother, heq⟩
    | selected id => exact hfact
  | useContext id =>
    rw [apply] at h
    split at h
    · cases h
      cases fact with
      | present other => exact hfact
      | missing other => exact hfact
      | selected other => exact congrArg some (not_not.mp hkept)
    · cases h
  | remove id =>
    rw [apply] at h
    split at h
    · cases h
    · cases h
      cases fact with
      | present other => exact List.mem_filter.mpr ⟨hfact, decide_eq_true hkept⟩
      | missing other => exact fun context hcontext => hfact context (List.mem_filter.mp hcontext).1
      | selected other =>
        have hne : file.activeContextId ≠ some id := fun heq =>
          hkept (Option.some.inj (heq.symm.trans hfact))
        exact (if_neg hne).trans hfact

theorem ContextUpdate.revision_eq (h : update.apply file = .ok updated) :
    updated.revision = file.revision := by
  cases update with
  | add context =>
    rw [apply] at h
    split at h
    · cases h
    split at h
    · cases h
    cases h
    rfl
  | importContexts contexts =>
    obtain ⟨_, -, h⟩ := except_bind_eq_ok h
    split at h
    · cases h
    cases h
    rfl
  | useContext id =>
    rw [apply] at h
    split at h
    · cases h
      rfl
    · cases h
  | remove id =>
    rw [apply] at h
    split at h
    · cases h
    · cases h
      rfl

/-- No update looks at the time of the last one. -/
theorem ContextUpdate.apply_exportedAt (h : update.apply file = .ok updated) (exportedAt : String) :
    update.apply { file with exportedAt := exportedAt } =
      .ok { updated with exportedAt := exportedAt } := by
  cases update with
  | add context =>
    rw [apply] at h ⊢
    split at h
    · cases h
    next hnew =>
    split at h
    · cases h
    next hroom =>
    cases h
    rw [if_neg hnew, if_neg hroom]
  | importContexts contexts =>
    obtain ⟨_, hnew, h⟩ := except_bind_eq_ok h
    split at h
    · cases h
    next hroom =>
    cases h
    rw [apply, hnew]
    exact if_neg hroom
  | useContext id =>
    rw [apply] at h ⊢
    split at h
    · next hfound =>
      cases h
      rw [if_pos hfound]
    · cases h
  | remove id =>
    rw [apply] at h ⊢
    dsimp only at h ⊢
    split at h
    · cases h
    · next hfound =>
      cases h
      rw [if_neg hfound]

end Updates

/-! ### Commits -/

/-- An update that was published by a call, and the collection it left. -/
structure ContextCommit where
  call : Nat
  update : ContextUpdate
  collection : ContextFile

/-- The collection is what the update makes of the one before it, under the next revision. -/
structure Committed (before : ContextFile) (commit : ContextCommit) : Prop where
  applied : ∃ updated, commit.update.apply before = .ok updated ∧
    commit.collection = { updated with
      revision := commit.collection.revision
      exportedAt := commit.collection.exportedAt }
  increased : before.revision < commit.collection.revision

/-- The collection after some commits, the latest of which comes first. -/
def latestContexts (start : ContextFile) : List ContextCommit → ContextFile
  | [] => start
  | commit :: _ => commit.collection

/-- Each commit was made to the collection that the one before it left. -/
def Commits (start : ContextFile) : List ContextCommit → Prop
  | [] => True
  | commit :: earlier => Committed (latestContexts start earlier) commit ∧ Commits start earlier

variable {start : ContextFile} {earlier later : List ContextCommit} {commit : ContextCommit}

theorem Commits.committed (h : Commits start (later ++ commit :: earlier)) :
    Committed (latestContexts start earlier) commit := by
  induction later with
  | nil => exact h.1
  | cons last later ih => exact ih h.2

/-- **No update is lost**: what a commit made true holds until a later one overwrites it. -/
theorem Commits.holds (h : Commits start (later ++ commit :: earlier)) {fact : ContextFact}
    (hfact : fact ∈ commit.update.facts) (hkept : ∀ last ∈ later, ¬ last.update.Overwrites fact) :
    fact.Holds (latestContexts start (later ++ commit :: earlier)) := by
  have hcollection : ∀ {before file : ContextFile} {revision : UInt64} {exportedAt : String},
      before = { file with revision := revision, exportedAt := exportedAt } →
        fact.Holds file → fact.Holds before := by
    rintro _ file revision exportedAt rfl hholds
    cases fact <;> exact hholds
  induction later with
  | nil =>
    obtain ⟨updated, happly, hcommit⟩ := h.1.applied
    exact hcollection hcommit (ContextUpdate.holds_facts happly hfact)
  | cons last later ih =>
    rw [List.forall_mem_cons] at hkept
    obtain ⟨updated, happly, hcommit⟩ := h.1.applied
    exact hcollection hcommit
      (ContextUpdate.holds_of_not_overwrites happly hkept.1 (ih h.2 hkept.2))

end KakuneCore
