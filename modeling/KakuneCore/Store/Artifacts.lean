import KakuneCore.Lifecycle.Basic
import KakuneCore.Relational.Runs
import KakuneCore.Relational.Table
import KakuneCore.Workflow.Value

/-!
# Content-addressed artifacts

`put_artifact` and `read_artifact`: the bytes are a file whose path is their SHA-256 digest, and a
row of `artifacts` under the same digest holds their media type and name.

The row is written with `INSERT OR IGNORE`. The main result, `artifact_round_trip_iff`: in every
run of puts, what a put returns is what every later read of its id returns, exactly when no put
meets a row of the same content with **another media type or name**.

SHA-256 is a parameter. It cannot be injective, so it is assumed to be so on the contents of a run.
The time at which a row is written is left out, and so is the trace of a failed write: temporary
files have paths of their own.
-/

namespace KakuneCore

/-! ### Artifacts -/

structure ArtifactRef where
  id : String
  sha256 : String
  sizeBytes : Nat
  mediaType : String
  name : Option String := none
  deriving DecidableEq, Repr

/-- A row of `artifacts`. -/
structure ArtifactRow where
  id : String
  sha256 : String
  sizeBytes : Int
  mediaType : String
  name : Option String := none
  deriving DecidableEq, Repr

/-- The values `INSERT INTO artifacts` binds. -/
def ArtifactRef.row (artifact : ArtifactRef) : ArtifactRow where
  id := artifact.id
  sha256 := artifact.sha256
  sizeBytes := artifact.sizeBytes
  mediaType := artifact.mediaType
  name := artifact.name

/-- The reference a row with a size is read as. -/
def ArtifactRow.ref (row : ArtifactRow) : ArtifactRef where
  id := row.id
  sha256 := row.sha256
  sizeBytes := row.sizeBytes.toNat
  mediaType := row.mediaType
  name := row.name

@[simp]
theorem ArtifactRef.ref_row (artifact : ArtifactRef) : artifact.row.ref = artifact := rfl

/-- A lower-case hexadecimal digit. -/
def isLowerHex (c : Char) : Bool := c.isDigit || ('a' ≤ c && c ≤ 'f')

/-- `is_artifact_id`. -/
def isArtifactId (value : String) : Bool :=
  value.utf8ByteSize = 64 && value.toList.all isLowerHex

/-- `artifact_path`, from the data directory. -/
def artifactPath (sha256 : String) : List String :=
  ["artifacts", .ofList (sha256.toList.take 2), sha256]

theorem artifactPath_injective : Function.Injective artifactPath := by
  intro sha256 sha256' h
  simp only [artifactPath, List.cons.injEq, and_true, true_and] at h
  exact h.2

/-- `INSERT OR IGNORE` on the rows of `artifacts`: `id` is the primary key, `sha256` is unique. -/
def insertArtifact (rows : List ArtifactRow) (row : ArtifactRow) : List ArtifactRow :=
  if rows.any fun other => other.id = row.id || other.sha256 = row.sha256 then rows
  else rows ++ [row]

/-- The files below the data directory and the rows of `artifacts`. -/
structure ArtifactStore where
  files : List (List String × Bytes) := []
  artifacts : List ArtifactRow := []
  deriving DecidableEq

/-- What stops a put between its checks and its answer. -/
inductive PutFault
  | write (text : String)
  | database (text : String)
  deriving DecidableEq, Repr

/-- The arguments of `put_artifact`, and what goes wrong below it. -/
structure ArtifactPut where
  bytes : Bytes
  mediaType : String
  name : Option String := none
  fault : Option PutFault := none
  deriving DecidableEq

/-- A put that passes the checks and meets no fault. -/
def ArtifactPut.IsAccepted (put : ArtifactPut) : Prop :=
  blank put.mediaType = false ∧ put.mediaType.utf8ByteSize ≤ 200 ∧
    put.bytes.length ≤ 2 ^ 63 - 1 ∧ put.fault = none

instance (put : ArtifactPut) : Decidable put.IsAccepted :=
  inferInstanceAs (Decidable (_ ∧ _))

namespace ArtifactStore

/-- The file at a path. -/
def file? (store : ArtifactStore) (path : List String) : Option Bytes :=
  (Table.lookup Prod.fst store.files path).map Prod.snd

/-- `SELECT … FROM artifacts WHERE id = ?1`. -/
def row? (store : ArtifactStore) (id : String) : Option ArtifactRow :=
  Table.lookup ArtifactRow.id store.artifacts id

/-- A path that exists is left as it is. -/
def writeFile (store : ArtifactStore) (path : List String) (bytes : Bytes) : ArtifactStore :=
  if (store.file? path).isSome then store
  else { store with files := store.files ++ [(path, bytes)] }

/-- `write_atomically`. -/
def writeAtomically (store : ArtifactStore) (path : List String) (bytes : Bytes) :
    Option PutFault → Except String ArtifactStore
  | some (.write text) => .error text
  | _ => .ok (store.writeFile path bytes)

/-- `INSERT OR IGNORE INTO artifacts …`. -/
def insertRow (store : ArtifactStore) (row : ArtifactRow) : ArtifactStore :=
  { store with artifacts := insertArtifact store.artifacts row }

section Operations

variable (artifactId : Bytes → String)

/-- The reference `put_artifact` answers with. -/
def record (put : ArtifactPut) : ArtifactRef where
  id := artifactId put.bytes
  sha256 := artifactId put.bytes
  sizeBytes := put.bytes.length
  mediaType := put.mediaType
  name := put.name

/-- `put_artifact`: the file is written before the row. -/
def putArtifact (store : ArtifactStore) (put : ArtifactPut) :
    Except String ArtifactRef × ArtifactStore :=
  if blank put.mediaType || 200 < put.mediaType.utf8ByteSize then
    (.error "artifact media type must be 1-200 characters", store)
  else
    let record := record artifactId put
    match store.writeAtomically (artifactPath record.sha256) put.bytes put.fault with
    | .error text => (.error text, store)
    | .ok store =>
      if (2 : Int) ^ 63 - 1 < record.sizeBytes then
        (.error "artifact is too large to persist", store)
      else
        match put.fault with
        | some (.database text) => (.error s!"Kakune database error: {text}", store)
        | _ =>
          (.ok record, store.insertRow record.row)

/-- `read_artifact`. -/
def readArtifact (store : ArtifactStore) (id : String) :
    Except String (Option (ArtifactRef × Bytes)) :=
  if !isArtifactId id then
    .error "artifact id must be a 64-character lowercase SHA-256 hex digest"
  else
    match store.row? id with
    | none => .ok none
    | some row =>
      if row.sizeBytes < 0 then .error s!"artifact {id} has an invalid persisted size"
      else
        let artifact := row.ref
        match store.file? (artifactPath artifact.sha256) with
        | none => .error s!"cannot read artifact {id}: No such file or directory (os error 2)"
        | some bytes =>
          if bytes.length ≠ artifact.sizeBytes || artifactId bytes ≠ artifact.sha256 then
            .error s!"artifact {id} does not match its persisted content hash"
          else .ok (some (artifact, bytes))

/-- The store after a put. -/
def step (store : ArtifactStore) (put : ArtifactPut) : ArtifactStore :=
  (store.putArtifact artifactId put).2

end Operations

/-! ### What a put leaves -/

section Puts

variable {artifactId : Bytes → String} {store : ArtifactStore} {put : ArtifactPut}
  {ref : ArtifactRef} {row : ArtifactRow} {id : String} {path path' : List String} {bytes : Bytes}

/-- **What a put does**: it answers with its record and leaves file and row, or it fails with at
most the file written. -/
theorem putArtifact_cases (artifactId : Bytes → String) (store : ArtifactStore)
    (put : ArtifactPut) :
    (put.IsAccepted ∧ store.putArtifact artifactId put =
      (.ok (record artifactId put),
        (store.writeFile (artifactPath (artifactId put.bytes)) put.bytes).insertRow
          (record artifactId put).row)) ∨
    (¬ put.IsAccepted ∧ ∃ text, store.putArtifact artifactId put = (.error text, store)) ∨
    (¬ put.IsAccepted ∧ ∃ text, store.putArtifact artifactId put =
      (.error text, store.writeFile (artifactPath (artifactId put.bytes)) put.bytes)) := by
  rw [putArtifact]
  split
  · next hmedia =>
    rw [Bool.or_eq_true, decide_eq_true_eq] at hmedia
    refine .inr (.inl ⟨fun h => ?_, _, rfl⟩)
    obtain ⟨hblank, hlength, -, -⟩ := h
    rcases hmedia with hmedia | hmedia
    · rw [hblank] at hmedia
      cases hmedia
    · omega
  next hmedia =>
    rw [Bool.not_eq_true, Bool.or_eq_false_iff, decide_eq_false_iff_not] at hmedia
    by_cases hlarge : (2 : Int) ^ 63 - 1 < (record artifactId put).sizeBytes
    · have hnot : ¬ put.IsAccepted := by
        intro h
        have hlength : put.bytes.length ≤ 2 ^ 63 - 1 := h.2.2.1
        simp only [record] at hlarge
        omega
      obtain ⟨bytes, mediaType, name, fault⟩ := put
      rcases fault with _ | ⟨text | text⟩
      · exact .inr (.inr ⟨hnot, _, if_pos hlarge⟩)
      · exact .inr (.inl ⟨hnot, text, rfl⟩)
      · exact .inr (.inr ⟨hnot, _, if_pos hlarge⟩)
    · obtain ⟨bytes, mediaType, name, fault⟩ := put
      rcases fault with _ | ⟨text | text⟩
      · refine .inl ⟨⟨hmedia.1, Nat.not_lt.mp hmedia.2, ?_, rfl⟩, if_neg hlarge⟩
        simp only [record] at hlarge ⊢
        omega
      · exact .inr (.inl ⟨fun h => Option.some_ne_none _ h.2.2.2, text, rfl⟩)
      · exact .inr (.inr ⟨fun h => Option.some_ne_none _ h.2.2.2, _, if_neg hlarge⟩)

theorem putArtifact_eq_ok_iff :
    (store.putArtifact artifactId put).1 = .ok ref ↔
      put.IsAccepted ∧ ref = record artifactId put := by
  obtain ⟨h, heq⟩ | ⟨h, text, heq⟩ | ⟨h, text, heq⟩ := putArtifact_cases artifactId store put
  · simp [heq, h, eq_comm]
  · simp [heq, h]
  · simp [heq, h]

/-- The store after a put. -/
theorem step_cases (artifactId : Bytes → String) (store : ArtifactStore) (put : ArtifactPut) :
    (put.IsAccepted ∧ step artifactId store put =
      (store.writeFile (artifactPath (artifactId put.bytes)) put.bytes).insertRow
        (record artifactId put).row) ∨
    (¬ put.IsAccepted ∧ step artifactId store put = store) ∨
    (¬ put.IsAccepted ∧ step artifactId store put =
      store.writeFile (artifactPath (artifactId put.bytes)) put.bytes) := by
  obtain ⟨h, heq⟩ | ⟨h, text, heq⟩ | ⟨h, text, heq⟩ := putArtifact_cases artifactId store put
  · exact .inl ⟨h, by rw [step, heq]⟩
  · exact .inr (.inl ⟨h, by rw [step, heq]⟩)
  · exact .inr (.inr ⟨h, by rw [step, heq]⟩)

theorem file?_writeFile :
    (store.writeFile path bytes).file? path' =
      if path' = path then some ((store.file? path).getD bytes) else store.file? path' := by
  rw [writeFile]
  cases hfile : store.file? path with
  | some old =>
    by_cases hpath : path' = path
    · simp [hpath, hfile]
    · simp [hpath]
  | none =>
    have hnew : path ∉ store.files.map Prod.fst := by
      rw [file?, Option.map_eq_none_iff, Table.lookup_eq_none] at hfile
      intro hmem
      obtain ⟨file, hfile', rfl⟩ := List.mem_map.mp hmem
      exact hfile file hfile' rfl
    have hlookup : Table.lookup Prod.fst (store.files ++ [(path, bytes)]) path' =
        if path = path' then some (path, bytes) else Table.lookup Prod.fst store.files path' :=
      Table.lookup_append hnew
    by_cases hpath : path' = path
    · subst hpath
      simp [file?, hlookup]
    · simp [file?, hlookup, hpath, Ne.symm hpath]

theorem row?_writeFile : (store.writeFile path bytes).row? id = store.row? id := by
  rw [writeFile]
  split
  · rfl
  · rfl

theorem file?_insertRow : (store.insertRow row).file? path = store.file? path := rfl

/-- The rows after an insertion, when digests are ids. -/
theorem row?_insertRow (hrows : ∀ other ∈ store.artifacts, other.sha256 = other.id)
    (hrow : row.sha256 = row.id) :
    (store.insertRow row).row? id =
      if id = row.id then some ((store.row? row.id).getD row) else store.row? id := by
  rw [insertRow, insertArtifact]
  split
  · next hany =>
    -- the id is taken
    have htaken : (store.row? row.id).isSome := by
      rw [Option.isSome_iff_ne_none]
      intro hnone
      obtain ⟨other, hmem, hother⟩ := List.any_eq_true.mp hany
      rw [hrows other hmem, hrow, Bool.or_self, decide_eq_true_eq] at hother
      exact Table.lookup_eq_none.mp hnone other hmem hother
    obtain ⟨old, hold⟩ := Option.isSome_iff_exists.mp htaken
    by_cases hid : id = row.id
    · simp [hid, hold]
    · simp [hid]
  · next hany =>
    have hfree : ∀ other ∈ store.artifacts, other.id ≠ row.id := by
      intro other hmem hother
      refine hany (List.any_eq_true.mpr ⟨other, hmem, ?_⟩)
      simp [hother]
    have hnew : row.id ∉ store.artifacts.map ArtifactRow.id := by
      intro hmem
      obtain ⟨other, hother, heq⟩ := List.mem_map.mp hmem
      exact hfree other hother heq
    have hlookup := Table.lookup_append (k := id) hnew
    have hnone : store.row? row.id = none := Table.lookup_eq_none.mpr hfree
    by_cases hid : id = row.id
    · subst hid
      simp [row?, hlookup] at hnone ⊢
      simp [hnone]
    · simp [row?, hlookup, hid, Ne.symm hid]

end Puts

/-! ### Sound stores -/

section Sound

variable (artifactId : Bytes → String) (contents : Set Bytes)

/-- Every file is one of the contents at its path, and every row has its file. -/
structure Sound (store : ArtifactStore) : Prop where
  files : ∀ path bytes, store.file? path = some bytes →
    bytes ∈ contents ∧ path = artifactPath (artifactId bytes)
  rows : ∀ row ∈ store.artifacts, row.sha256 = row.id ∧
    ∃ bytes, store.file? (artifactPath row.id) = some bytes ∧ row.id = artifactId bytes ∧
      row.sizeBytes = bytes.length

/-- Files and rows stay. -/
def Extends (store store' : ArtifactStore) : Prop :=
  (∀ path bytes, store.file? path = some bytes → store'.file? path = some bytes) ∧
    ∀ id row, store.row? id = some row → store'.row? id = some row

variable {artifactId contents} {store : ArtifactStore} {put : ArtifactPut} {bytes : Bytes}
  {row : ArtifactRow} {id : String}

theorem sound_empty : Sound artifactId contents {} where
  files _ _ h := nomatch h
  rows _ h := nomatch h

theorem Extends.refl (store : ArtifactStore) : Extends store store :=
  ⟨fun _ _ h => h, fun _ _ h => h⟩

theorem Extends.trans {store store' store'' : ArtifactStore} (h : Extends store store')
    (h' : Extends store' store'') : Extends store store'' :=
  ⟨fun path bytes hfile => h'.1 path bytes (h.1 path bytes hfile),
    fun id row hrow => h'.2 id row (h.2 id row hrow)⟩

theorem extends_writeFile (store : ArtifactStore) (path : List String) (bytes : Bytes) :
    Extends store (store.writeFile path bytes) := by
  constructor
  · intro path' old hold
    rw [file?_writeFile]
    split
    · next heq => rw [← heq, hold, Option.getD_some]
    · exact hold
  · intro id row hrow
    rwa [row?_writeFile]

/-- The file at the path of a content is that content. -/
theorem Sound.file_eq (h : Sound artifactId contents store) (hinj : Set.InjOn artifactId contents)
    (hmem : bytes ∈ contents) {old : Bytes}
    (hold : store.file? (artifactPath (artifactId bytes)) = some old) : old = bytes := by
  obtain ⟨hcontents, hpath⟩ := h.files _ _ hold
  exact hinj hcontents hmem (artifactPath_injective hpath).symm

theorem Sound.file?_writeFile_self (h : Sound artifactId contents store)
    (hinj : Set.InjOn artifactId contents) (hmem : bytes ∈ contents) :
    (store.writeFile (artifactPath (artifactId bytes)) bytes).file?
      (artifactPath (artifactId bytes)) = some bytes := by
  rw [file?_writeFile, if_pos rfl]
  cases hold : store.file? (artifactPath (artifactId bytes)) with
  | none => rfl
  | some old => rw [Option.getD_some, h.file_eq hinj hmem hold]

theorem Sound.writeFile (h : Sound artifactId contents store)
    (hinj : Set.InjOn artifactId contents) (hmem : bytes ∈ contents) :
    Sound artifactId contents (store.writeFile (artifactPath (artifactId bytes)) bytes) where
  files path old hold := by
    by_cases hpath : path = artifactPath (artifactId bytes)
    · rw [hpath, h.file?_writeFile_self hinj hmem] at hold
      obtain rfl := Option.some.inj hold
      exact ⟨hmem, hpath⟩
    · rw [file?_writeFile, if_neg hpath] at hold
      exact h.files path old hold
  rows row hrow := by
    have hrows : (store.writeFile (artifactPath (artifactId bytes)) bytes).artifacts =
        store.artifacts := by
      rw [ArtifactStore.writeFile]
      split
      · rfl
      · rfl
    obtain ⟨hsha256, content, hfile, hid, hsize⟩ := h.rows row (hrows ▸ hrow)
    exact ⟨hsha256, content, (extends_writeFile store _ _).1 _ _ hfile, hid, hsize⟩

/-- A row of a content that is there. -/
theorem Sound.insertRow (h : Sound artifactId contents store) (hsha256 : row.sha256 = row.id)
    (hfile : store.file? (artifactPath row.id) = some bytes) (hid : row.id = artifactId bytes)
    (hsize : row.sizeBytes = bytes.length) : Sound artifactId contents (store.insertRow row) where
  files path old hold := by
    rw [file?_insertRow] at hold
    exact h.files path old hold
  rows other hother := by
    have hmem : other ∈ store.artifacts ∨ other = row := by
      rw [ArtifactStore.insertRow, insertArtifact] at hother
      split at hother
      · exact .inl hother
      · simpa using hother
    rcases hmem with hmem | rfl
    · obtain ⟨hsha256', content, hfile', hid', hsize'⟩ := h.rows other hmem
      exact ⟨hsha256', content, by rwa [file?_insertRow], hid', hsize'⟩
    · exact ⟨hsha256, bytes, by rwa [file?_insertRow], hid, hsize⟩

theorem Sound.extends_insertRow (h : Sound artifactId contents store)
    (hsha256 : row.sha256 = row.id) : Extends store (store.insertRow row) := by
  constructor
  · intro path bytes hfile
    rwa [file?_insertRow]
  · intro id old hold
    rw [row?_insertRow (fun other hother => (h.rows other hother).1) hsha256]
    split
    · next heq => rw [← heq, hold, Option.getD_some]
    · exact hold

/-- **A put keeps the store sound**, with the files and rows it has. -/
theorem Sound.step (h : Sound artifactId contents store) (hinj : Set.InjOn artifactId contents)
    (hmem : put.bytes ∈ contents) :
    Sound artifactId contents (ArtifactStore.step artifactId store put) ∧
      Extends store (ArtifactStore.step artifactId store put) := by
  have hwritten := h.writeFile hinj hmem
  have hextends := extends_writeFile store (artifactPath (artifactId put.bytes)) put.bytes
  obtain ⟨-, heq⟩ | ⟨-, heq⟩ | ⟨-, heq⟩ := step_cases artifactId store put
  · rw [heq]
    exact ⟨hwritten.insertRow rfl (h.file?_writeFile_self hinj hmem) rfl rfl,
      hextends.trans (hwritten.extends_insertRow rfl)⟩
  · rw [heq]
    exact ⟨h, Extends.refl store⟩
  · rw [heq]
    exact ⟨hwritten, hextends⟩

/-- The row an accepted put finds or leaves. -/
theorem Sound.row?_step (h : Sound artifactId contents store)
    (hinj : Set.InjOn artifactId contents) (hmem : put.bytes ∈ contents) (hput : put.IsAccepted) :
    (ArtifactStore.step artifactId store put).row? (artifactId put.bytes) =
      some ((store.row? (artifactId put.bytes)).getD (record artifactId put).row) := by
  have hwritten := h.writeFile hinj hmem
  obtain ⟨-, heq⟩ | ⟨hnot, -⟩ | ⟨hnot, -⟩ := step_cases artifactId store put
  · rw [heq, row?_insertRow (fun other hother => (hwritten.rows other hother).1) rfl]
    exact (if_pos rfl).trans (by rw [row?_writeFile]; rfl)
  · exact absurd hput hnot
  · exact absurd hput hnot

/-- **Reading in a sound store**: the row of the id, with the content it belongs to. -/
theorem Sound.readArtifact (h : Sound artifactId contents store)
    (hinj : Set.InjOn artifactId contents) (hid : isArtifactId (artifactId bytes) = true)
    (hmem : bytes ∈ contents) (hrow : store.row? (artifactId bytes) = some row) :
    store.readArtifact artifactId (artifactId bytes) = .ok (some (row.ref, bytes)) ∧
      row.sha256 = artifactId bytes ∧ row.id = artifactId bytes ∧
      row.sizeBytes = bytes.length := by
  obtain ⟨hrowmem, hrowid⟩ := Table.mem_of_lookup hrow
  obtain ⟨hsha256, content, hfile, -, hsize⟩ := h.rows row hrowmem
  rw [hrowid] at hfile hsha256
  obtain rfl := h.file_eq hinj hmem hfile
  refine ⟨?_, hsha256, hrowid, hsize⟩
  have hnonneg : ¬ row.sizeBytes < 0 := by omega
  have hlength : content.length = row.ref.sizeBytes := by
    rw [ArtifactRow.ref, hsize, Int.toNat_natCast]
  have hdigest : row.ref.sha256 = artifactId content := hsha256
  rw [ArtifactStore.readArtifact, hid]
  simp [hrow, hnonneg, hdigest, hfile, ← hlength]

end Sound

/-! ### The round trip -/

section RoundTrip

variable (artifactId : Bytes → String) {contents : Set Bytes}

/-- After the `n`-th put of a run, if it is accepted, its id is read back as the reference it
returned with the bytes it stored. -/
def RoundTrips (store : ArtifactStore) (puts : List ArtifactPut) (n : Nat) : Prop :=
  ∀ put ref, puts[n]? = some put →
    ((Runs.run (step artifactId) store (puts.take n)).putArtifact artifactId put).1 = .ok ref →
    ∀ m, n < m → (Runs.run (step artifactId) store (puts.take m)).readArtifact artifactId ref.id =
      .ok (some (ref, put.bytes))

/-- The row that an accepted put finds has its media type and its name. -/
def KeepsMetadata (store : ArtifactStore) (put : ArtifactPut) : Prop :=
  put.IsAccepted → ∀ row ∈ store.row? (artifactId put.bytes),
    row.mediaType = put.mediaType ∧ row.name = put.name

instance (store : ArtifactStore) (put : ArtifactPut) :
    Decidable (KeepsMetadata artifactId store put) :=
  inferInstanceAs (Decidable (_ → _))

variable {artifactId} {store : ArtifactStore} {puts : List ArtifactPut}

theorem Sound.run (h : Sound artifactId contents store) (hinj : Set.InjOn artifactId contents)
    (hputs : ∀ put ∈ puts, put.bytes ∈ contents) :
    Sound artifactId contents (Runs.run (ArtifactStore.step artifactId) store puts) ∧
      Extends store (Runs.run (ArtifactStore.step artifactId) store puts) := by
  induction puts generalizing store with
  | nil => exact ⟨h, Extends.refl store⟩
  | cons put puts ih =>
    obtain ⟨hsound, hextends⟩ := h.step hinj (hputs put List.mem_cons_self)
    obtain ⟨hrun, hextends'⟩ := ih hsound fun p hp => hputs p (List.mem_cons_of_mem _ hp)
    exact ⟨hrun, hextends.trans hextends'⟩

theorem Sound.take (h : Sound artifactId contents store) (hinj : Set.InjOn artifactId contents)
    (hputs : ∀ put ∈ puts, put.bytes ∈ contents) (n : Nat) :
    Sound artifactId contents (Runs.run (ArtifactStore.step artifactId) store (puts.take n)) :=
  (h.run hinj fun put hput => hputs put (List.mem_of_mem_take hput)).1

/-- A put's row is the one that every later state has. -/
theorem Sound.row?_run (h : Sound artifactId contents store) (hinj : Set.InjOn artifactId contents)
    (hputs : ∀ put ∈ puts, put.bytes ∈ contents) {n m : Nat} {put : ArtifactPut}
    (hput : puts[n]? = some put) (haccepted : put.IsAccepted) (hlt : n < m) :
    (Runs.run (ArtifactStore.step artifactId) store (puts.take m)).row? (artifactId put.bytes) =
      some (((Runs.run (ArtifactStore.step artifactId) store (puts.take n)).row?
        (artifactId put.bytes)).getD
        (record artifactId put).row) := by
  have hmem : put.bytes ∈ contents := hputs put (List.mem_of_getElem? hput)
  have hafter := (h.take hinj hputs n).row?_step hinj hmem haccepted
  have hnext : Runs.run (ArtifactStore.step artifactId) store (puts.take (n + 1)) =
      ArtifactStore.step artifactId
        (Runs.run (ArtifactStore.step artifactId) store (puts.take n)) put :=
    Runs.exists_step_of_getElem? hput
  rw [← hnext] at hafter
  -- the calls in between extend the store after the put
  have hsplit : puts.take m = puts.take (n + 1) ++ (puts.take m).drop (n + 1) := by
    conv_lhs => rw [← List.take_append_drop (n + 1) (puts.take m), List.take_take,
      Nat.min_eq_left hlt]
  have hextends : Extends _ (Runs.run (ArtifactStore.step artifactId) _
      ((puts.take m).drop (n + 1))) :=
    ((h.take hinj hputs (n + 1)).run hinj fun p hp =>
      hputs p (List.mem_of_mem_take (List.mem_of_mem_drop hp))).2
  rw [hsplit, Runs.run_append]
  exact hextends.2 _ _ hafter

/-- **The round trip of one put** of a run. -/
theorem Sound.roundTrips_iff (h : Sound artifactId contents store)
    (hinj : Set.InjOn artifactId contents) (hid : ∀ bytes, isArtifactId (artifactId bytes) = true)
    (hputs : ∀ put ∈ puts, put.bytes ∈ contents) (n : Nat) :
    RoundTrips artifactId store puts n ↔
      ∀ put, puts[n]? = some put →
        KeepsMetadata artifactId
          (Runs.run (ArtifactStore.step artifactId) store (puts.take n)) put := by
  constructor
  · intro htrip put hput haccepted row hrow
    have hmem : put.bytes ∈ contents := hputs put (List.mem_of_getElem? hput)
    have hread := htrip put _ hput (putArtifact_eq_ok_iff.mpr ⟨haccepted, rfl⟩) (n + 1)
      (Nat.lt_succ_self n)
    have hafter := h.row?_run hinj hputs hput haccepted (Nat.lt_succ_self n)
    rw [Option.mem_def.mp hrow, Option.getD_some] at hafter
    rw [record, ((h.take hinj hputs (n + 1)).readArtifact hinj (hid _) hmem hafter).1] at hread
    obtain ⟨hrefs, -⟩ := Prod.mk.inj (Option.some.inj (Except.ok.inj hread))
    exact ⟨congrArg ArtifactRef.mediaType hrefs, congrArg ArtifactRef.name hrefs⟩
  · intro hkeeps put ref hput hanswer m hlt
    obtain ⟨haccepted, rfl⟩ := putArtifact_eq_ok_iff.mp hanswer
    have hmem : put.bytes ∈ contents := hputs put (List.mem_of_getElem? hput)
    have hafter := h.row?_run hinj hputs hput haccepted hlt
    obtain ⟨hread, hsha256, hrowid, hsize⟩ :=
      (h.take hinj hputs m).readArtifact hinj (hid _) hmem hafter
    rw [show (record artifactId put).id = artifactId put.bytes from rfl, hread]
    cases hrow : (Runs.run (ArtifactStore.step artifactId) store (puts.take n)).row?
        (artifactId put.bytes) with
    | none => rfl
    | some row =>
      obtain ⟨hmedia, hname⟩ := hkeeps put hput haccepted row hrow
      rw [hrow, Option.getD_some] at hsha256 hrowid hsize
      rw [Option.getD_some, ArtifactRow.ref, hsha256, hrowid, hsize, hmedia, hname]
      rfl

/-- **The artifact round trip**, over every run of puts on a sound store: what each accepted put
returned is what its id reads as from then on, exactly when no put meets a row of its content with
another media type or name. -/
theorem artifact_round_trip_iff (h : Sound artifactId contents store)
    (hinj : Set.InjOn artifactId contents) (hid : ∀ bytes, isArtifactId (artifactId bytes) = true)
    (hputs : ∀ put ∈ puts, put.bytes ∈ contents) :
    (∀ n, RoundTrips artifactId store puts n) ↔
      Runs.Meets (step artifactId) (KeepsMetadata artifactId) store puts := by
  rw [Runs.meets_iff_getElem?]
  exact forall_congr' fun n => h.roundTrips_iff hinj hid hputs n

end RoundTrip

/-! ### Two runs -/

/-- SHA-256, on the empty content and on `abc`. -/
def sampleDigest (bytes : Bytes) : String :=
  if bytes = [] then "e3b0c44298fc1c149afbf4c8996fb92427ae41e4649b934ca495991b7852b855"
  else if bytes = [97, 98, 99] then
    "ba7816bf8f01cfea414140de5dae2223b00361a396177a9cb410ff61f20015ad"
  else "0000000000000000000000000000000000000000000000000000000000000000"

theorem isArtifactId_sampleDigest (bytes : Bytes) : isArtifactId (sampleDigest bytes) = true := by
  rw [sampleDigest]
  split
  · decide
  · split
    · decide
    · decide

theorem injOn_sampleDigest : Set.InjOn sampleDigest {[], [97, 98, 99]} := by
  rintro bytes (rfl | rfl) bytes' (rfl | rfl) h
  · rfl
  · exact absurd h (by decide)
  · exact absurd h (by decide)
  · rfl

/-- The second `abc` agrees with the first one, and the put in between is refused. -/
def agreeingPuts : List ArtifactPut :=
  [⟨[97, 98, 99], "text/plain", some "a.txt", none⟩, ⟨[], "text/plain", none, none⟩,
    ⟨[97, 98, 99], " ", none, none⟩, ⟨[97, 98, 99], "text/plain", some "a.txt", none⟩]

theorem agreeingPuts_roundTrip :
    Runs.Meets (step sampleDigest) (KeepsMetadata sampleDigest) {} agreeingPuts ∧
      ∀ n, RoundTrips sampleDigest {} agreeingPuts n := by
  have hmeets : Runs.Meets (step sampleDigest) (KeepsMetadata sampleDigest) {} agreeingPuts := by
    decide
  exact ⟨hmeets, (artifact_round_trip_iff sound_empty injOn_sampleDigest isArtifactId_sampleDigest
    (by decide)).mpr hmeets⟩

/-- The same content under two media types. -/
def clashingPuts : List ArtifactPut :=
  [⟨[97, 98, 99], "text/plain", some "a.txt", none⟩,
    ⟨[97, 98, 99], "application/json", some "a.json", none⟩]

/-- **The second put returns a reference that no read gives**: the row of the first one stays. -/
theorem clashingPuts_keep_the_first_row :
    ((Runs.run (step sampleDigest) {} (clashingPuts.take 1)).putArtifact sampleDigest
        ⟨[97, 98, 99], "application/json", some "a.json", none⟩).1 =
      .ok (record sampleDigest ⟨[97, 98, 99], "application/json", some "a.json", none⟩) ∧
    (Runs.run (step sampleDigest) {} clashingPuts).readArtifact sampleDigest
        (sampleDigest [97, 98, 99]) =
      .ok (some (record sampleDigest ⟨[97, 98, 99], "text/plain", some "a.txt", none⟩,
        [97, 98, 99])) ∧
    ¬ ∀ n, RoundTrips sampleDigest {} clashingPuts n := by
  have hanswer : ((Runs.run (step sampleDigest) {} (clashingPuts.take 1)).putArtifact sampleDigest
      ⟨[97, 98, 99], "application/json", some "a.json", none⟩).1 =
      .ok (record sampleDigest ⟨[97, 98, 99], "application/json", some "a.json", none⟩) :=
    putArtifact_eq_ok_iff.mpr ⟨by decide, rfl⟩
  have hread : (Runs.run (step sampleDigest) {} clashingPuts).readArtifact sampleDigest
      (sampleDigest [97, 98, 99]) =
      .ok (some (record sampleDigest ⟨[97, 98, 99], "text/plain", some "a.txt", none⟩,
        [97, 98, 99])) := by
    rfl
  refine ⟨hanswer, hread, fun htrip => ?_⟩
  have hsecond := htrip 1 _ _ rfl hanswer 2 Nat.one_lt_two
  rw [show (record sampleDigest _).id = sampleDigest [97, 98, 99] from rfl] at hsecond
  obtain ⟨hrefs, -⟩ := Prod.mk.inj (Option.some.inj (Except.ok.inj (hread.symm.trans hsecond)))
  exact absurd hrefs (by decide)

end ArtifactStore

end KakuneCore
