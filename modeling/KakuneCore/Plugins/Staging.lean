import KakuneCore.Filesystem.Disk
import KakuneCore.Plugins.PackageDigest

/-!
# Staging a package

A package is copied from a tree or unpacked from an archive. Both write below a destination and keep
to a budget of files and bytes, the **limits**.

The main result, `staging_is_confined`: from an empty destination nothing else is written, no link
is followed or made, no counter overflows, and the limits are kept, as long as they are below the
greatest number of a counter. At that number the counter of files is saturated and the limit on them
is none, see `saturated_count_is_no_limit`.
-/

namespace KakuneCore

open Files

/-! ### The state -/

/-- `u64::saturating_add`. -/
def saturatingAddU64 (a b : Nat) : Nat := min (a + b) (2 ^ 64 - 1)

/-- Addition of `u64`, where it is in range. -/
def checkedAddU64 (a b : Nat) : Option Nat := if a + b < 2 ^ 64 then some (a + b) else none

/-- An error: a text, a text and a path, what the operating system says, a link on the way of an
operation, or an addition out of range. -/
inductive StageError
  | message (text : String)
  | entry (text : String) (place : List Bytes)
  | io (context : String)
  | linked
  | overflow
  deriving DecidableEq, Repr

def StageError.ofFault (context : String) : Fault → StageError
  | .refused => .io context
  | .linked => .linked

/-- The disk and the budget. What has been done is recorded as well: how many entries passed the
limit on files, how many bytes were written, and to which files. -/
structure Staged where
  disk : Disk Bytes
  count : Nat
  bytes : Nat
  admitted : Nat
  written : Nat
  places : List (List Bytes)

def Staged.start (disk : Disk Bytes) : Staged := ⟨disk, 0, 0, 0, 0, []⟩

abbrev StageOutcome : Type := Staged × Except StageError Unit

def StageOutcome.andThen (outcome : StageOutcome) (next : Staged → StageOutcome) : StageOutcome :=
  match outcome.2 with
  | .ok () => next outcome.1
  | .error _ => outcome

def Staged.stop (staged : Staged) (error : StageError) : StageOutcome := (staged, .error error)

/-- `File::create`. -/
def Staged.createFile (staged : Staged) (context : String) (front : List Bytes) (name : Bytes) :
    StageOutcome :=
  match staged.disk.createFile front name with
  | .error fault => staged.stop (.ofFault context fault)
  | .ok disk =>
    ({ staged with disk := disk, places := staged.places ++ [front ++ [name]] }, .ok ())

/-- `io::copy` into a new file. -/
def Staged.copyBytes (staged : Staged) (front : List Bytes) (name contents : Bytes) : Staged :=
  { staged with
    disk := staged.disk.put front name (.file contents)
    written := staged.written + contents.length }

def Staged.createDirAll (staged : Staged) (context : String) (place : List Bytes) : StageOutcome :=
  let made := staged.disk.createDirAll place
  ({ staged with disk := made.1 }, made.2.mapError (.ofFault context))

/-- The limit on files. -/
def Staged.countFile (staged : Staged) (maxFiles : Nat) (text : String) : StageOutcome :=
  let counted := { staged with count := saturatingAddU64 staged.count 1 }
  if maxFiles < counted.count then counted.stop (.message text)
  else ({ counted with admitted := staged.admitted + 1 }, .ok ())

/-- The limit on bytes. -/
def Staged.charge (staged : Staged) (bytes maxBytes : Nat) (text : String) : StageOutcome :=
  let charged := { staged with bytes := saturatingAddU64 staged.bytes bytes }
  if maxBytes < charged.bytes then charged.stop (.message text) else (charged, .ok ())

section Limits

variable {staged : Staged} {limit bytes : Nat} (text : String)

theorem Staged.charge_of_lt (h : limit < saturatingAddU64 staged.bytes bytes) :
    staged.charge bytes limit text =
      Staged.stop { staged with bytes := saturatingAddU64 staged.bytes bytes } (.message text) :=
  if_pos h

theorem Staged.charge_of_le (h : saturatingAddU64 staged.bytes bytes ≤ limit) :
    staged.charge bytes limit text =
      ({ staged with bytes := saturatingAddU64 staged.bytes bytes }, .ok ()) :=
  if_neg (not_lt.mpr h)

theorem Staged.countFile_of_lt (h : limit < saturatingAddU64 staged.count 1) :
    staged.countFile limit text =
      Staged.stop { staged with count := saturatingAddU64 staged.count 1 } (.message text) :=
  if_pos h

theorem Staged.countFile_of_le (h : saturatingAddU64 staged.count 1 ≤ limit) :
    staged.countFile limit text = ({ staged with
      count := saturatingAddU64 staged.count 1
      admitted := staged.admitted + 1 }, .ok ()) :=
  if_neg (not_lt.mpr h)

end Limits

/-! ### Copying a tree -/

def gitName : Bytes := asciiBytes ".git"

section Copy

variable (listing : Disk Bytes → List Bytes → List Bytes) (maxFiles maxBytes : Nat)

/-- A regular file; one byte more than the budget is read. -/
def copyFile (destination : List Bytes) (name contents : Bytes) (staged : Staged) : StageOutcome :=
  let remaining := maxBytes - staged.bytes
  (staged.createFile "cannot create staged plugin file" destination name).andThen fun opened =>
    match checkedAddU64 remaining 1 with
    | none => opened.stop .overflow
    | some limit =>
      (opened.copyBytes destination name (contents.take limit)).charge (contents.take limit).length
        maxBytes "plugin package exceeds the aggregate byte limit"

/-- One turn of the loop in `copy_tree_bounded`. -/
def copyEntry (descend : List Bytes → List Bytes → Staged → StageOutcome)
    (source destination : List Bytes) (name : Bytes) (staged : Staged) : StageOutcome :=
  if name = gitName then (staged, .ok ())
  else
    let admitted := staged.countFile maxFiles "plugin package exceeds the file-count limit"
    match staged.disk.node (source ++ [name]) with
    | none => staged.stop (.io "cannot inspect plugin source entry")
    | some .link =>
      staged.stop (.entry "plugin source contains unsupported symlink" (source ++ [name]))
    | some .directory => admitted.andThen fun staged =>
      (staged.createDirAll "cannot create staged directory" (destination ++ [name])).andThen
        (descend (source ++ [name]) (destination ++ [name]))
    | some (.file contents) => admitted.andThen (copyFile maxBytes destination name contents)
    | some .special => admitted.andThen fun staged =>
      staged.stop (.entry "plugin source contains unsupported entry" (source ++ [name]))

/-- The loop, over the names in the order in which they are read. -/
def copyEntries (descend : List Bytes → List Bytes → Staged → StageOutcome)
    (source destination : List Bytes) : List Bytes → Staged → StageOutcome
  | [], staged => (staged, .ok ())
  | name :: names, staged =>
    (copyEntry maxFiles maxBytes descend source destination name staged).andThen
      (copyEntries descend source destination names)

/-- `copy_tree_bounded`. The levels are 33 less the depth. What `read_dir` finds while its directory
is being changed is up to the system. -/
def copyTreeBounded : (levels : Nat) → List Bytes → List Bytes → Staged → StageOutcome
  | 0 => fun _ _ staged => staged.stop (.message "plugin package exceeds the depth limit")
  | levels + 1 => fun source destination staged =>
    if staged.disk.node source = some .directory then
      copyEntries maxFiles maxBytes (copyTreeBounded levels) source destination
        (listing staged.disk source) staged
    else staged.stop (.io "cannot read plugin source")

/-- `copy_tree_with_limits`. -/
def copyTreeWithLimits (disk : Disk Bytes) (source destination : List Bytes) : StageOutcome :=
  copyTreeBounded listing maxFiles maxBytes 33 source destination (.start disk)

end Copy

/-! ### Unpacking an archive -/

inductive ArchiveComponent
  | rootDir
  | curDir
  | parentDir
  | normal (name : Bytes)
  deriving DecidableEq, Repr

/-- `Path::components`: repeated separators and inner dots are dropped. -/
def archiveComponents (path : Bytes) : List ArchiveComponent :=
  let segments := path.splitOn 47
  let first : List ArchiveComponent :=
    if path.head? = some 47 then [.rootDir]
    else if segments.head? = some [46] then [.curDir]
    else []
  first ++ (segments.filter fun segment => segment ≠ [] ∧ segment ≠ [46]).map fun segment =>
    if segment = [46, 46] then .parentDir else .normal segment

def packageName : Bytes := asciiBytes "package"

/-- The names of a path that has no other components. -/
def normalNames : List ArchiveComponent → Option (List Bytes)
  | [] => some []
  | .normal name :: components => (normalNames components).map (name :: ·)
  | _ :: _ => none

/-- `npm_relative_path`. -/
def npmRelativePath (path : Bytes) : Except StageError { names : List Bytes // names ≠ [] } :=
  match archiveComponents path with
  | .normal name :: components =>
    if name = packageName then
      match normalNames components with
      | some (first :: names) => .ok ⟨first :: names, by simp⟩
      | _ => .error (.message "npm tarball contains unsafe path")
    else .error (.message "npm tarball entry is outside package/")
  | _ => .error (.message "npm tarball entry is outside package/")

inductive ArchiveType
  | directory
  | regular
  | other
  deriving DecidableEq, Repr

/-- An entry of an archive. The size is advertised by its header, the contents are what is read. -/
structure ArchiveEntry where
  entryType : ArchiveType
  path : Option Bytes
  size : Option UInt64
  contents : Bytes

section Unpack

variable (maxFiles maxBytes : Nat)

/-- A regular file, with the checks behind its writing. A name with a NUL byte is refused by the
system. -/
def extractFile (destination : List Bytes) (names : { names : List Bytes // names ≠ [] })
    (size : UInt64) (contents : Bytes) (staged : Staged) : StageOutcome :=
  let front := destination ++ names.1.dropLast
  let name := names.1.getLast names.2
  if names.1.dropLast.any (0 ∈ ·) then staged.stop (.io "cannot stage npm directory")
  else (staged.createDirAll "cannot stage npm directory" front).andThen fun parents =>
    if 0 ∈ name then parents.stop (.io "cannot stage npm file")
    else (parents.createFile "cannot stage npm file" front name).andThen fun opened =>
      match checkedAddU64 size.toNat 1 with
      | none => opened.stop .overflow
      | some limit =>
        let copied := opened.copyBytes front name (contents.take limit)
        if (contents.take limit).length ≠ size.toNat then
          copied.stop (.message "npm package file length does not match its metadata")
        else (copied, .ok ())

/-- One turn of the loop; an entry that cannot be read is none. -/
def extractEntry (destination : List Bytes) : Option ArchiveEntry → Staged → StageOutcome
  | none, staged => staged.stop (.io "cannot read npm tarball entry")
  | some entry, staged =>
    (staged.countFile maxFiles "npm package exceeds the file-count limit").andThen fun staged =>
      match entry.entryType with
      | .directory => (staged, .ok ())
      | .other => staged.stop (.message "npm package contains a non-regular file")
      | .regular =>
        match entry.path.map npmRelativePath with
        | none => staged.stop (.io "npm tarball has invalid path")
        | some (.error error) => staged.stop error
        | some (.ok names) =>
          match entry.size with
          | none => staged.stop (.message "npm package has invalid file metadata")
          | some size =>
            (staged.charge size.toNat maxBytes
              "npm package exceeds the aggregate byte limit").andThen
              (extractFile destination names size entry.contents)

/-- The loop over the entries. -/
def extractEntries (destination : List Bytes) : List (Option ArchiveEntry) → Staged → StageOutcome
  | [], staged => (staged, .ok ())
  | entry :: entries, staged =>
    (extractEntry maxFiles maxBytes destination entry staged).andThen
      (extractEntries destination entries)

/-- `extract_npm_tarball_with_limits`. -/
def extractNpmTarballWithLimits (disk : Disk Bytes) (destination : List Bytes)
    (entries : List (Option ArchiveEntry)) : StageOutcome :=
  extractEntries maxFiles maxBytes destination entries (.start disk)

end Unpack

/-! ### Confinement -/

section Confinement

variable {disk : Disk Bytes} {base : List Bytes} {maxFiles maxBytes : Nat} {staged : Staged}
  {outcome : StageOutcome}

/-- Nothing but the inside of the base has been written. -/
structure Staged.Confined (disk : Disk Bytes) (base : List Bytes) (staged : Staged) : Prop where
  grown : disk.Extends base staged.disk
  clear : staged.disk.Clear base
  places : ∀ place ∈ staged.places, Inside base place

/-- The counters are right and within the limits. -/
structure Staged.Limited (maxFiles maxBytes : Nat) (staged : Staged) : Prop where
  count : staged.count = staged.admitted
  admitted : staged.admitted ≤ maxFiles
  bytes : staged.bytes = staged.written
  written : staged.written ≤ maxBytes

/-- What a step leaves, whether or not it succeeds. -/
structure StageOutcome.Safe (disk : Disk Bytes) (base : List Bytes) (maxFiles maxBytes : Nat)
    (outcome : StageOutcome) : Prop where
  confined : outcome.1.Confined disk base
  admitted : outcome.1.admitted ≤ maxFiles
  written : outcome.1.written ≤ maxBytes + 1
  limited : outcome.2 = .ok () → outcome.1.Limited maxFiles maxBytes
  noFault : outcome.2 ≠ .error .linked ∧ outcome.2 ≠ .error .overflow

theorem StageOutcome.andThen_cases {motive : StageOutcome → Prop} {next : Staged → StageOutcome}
    (herror : ∀ error, outcome.2 = .error error → motive outcome)
    (hok : outcome.2 = .ok () → motive (next outcome.1)) : motive (outcome.andThen next) := by
  unfold andThen
  split
  · next h => exact hok h
  · next error h => exact herror error h

theorem StageOutcome.Safe.andThen {next : Staged → StageOutcome}
    (h : outcome.Safe disk base maxFiles maxBytes)
    (hnext : ∀ staged : Staged, staged.Confined disk base → staged.Limited maxFiles maxBytes →
      (next staged).Safe disk base maxFiles maxBytes) :
    (outcome.andThen next).Safe disk base maxFiles maxBytes :=
  andThen_cases (fun _ _ => h) fun hok => hnext outcome.1 h.confined (h.limited hok)

theorem Staged.Confined.safe_ok (h : staged.Confined disk base)
    (hlimited : staged.Limited maxFiles maxBytes) :
    StageOutcome.Safe disk base maxFiles maxBytes (staged, .ok ()) :=
  ⟨h, hlimited.admitted, hlimited.written.trans (Nat.le_succ _), fun _ => hlimited, nofun, nofun⟩

theorem Staged.Confined.safe_stop (h : staged.Confined disk base) {error : StageError}
    (hadmitted : staged.admitted ≤ maxFiles) (hwritten : staged.written ≤ maxBytes + 1)
    (herror : error ≠ .linked ∧ error ≠ .overflow) :
    (staged.stop error).Safe disk base maxFiles maxBytes :=
  ⟨h, hadmitted, hwritten, nofun, fun heq => herror.1 (Except.error.inj heq),
    fun heq => herror.2 (Except.error.inj heq)⟩

/-- Directories are created inside the base, or the system refuses. -/
theorem Staged.Confined.createDirAll (h : staged.Confined disk base) (context : String)
    (names : List Bytes) :
    ∃ made outcome, staged.createDirAll context (base ++ names) =
      ({ staged with disk := made }, outcome) ∧
      Staged.Confined disk base { staged with disk := made } ∧
      (outcome = .ok () ∨ outcome = .error (.io context)) := by
  obtain ⟨hadds, hlinked, -⟩ := staged.disk.createDirAll_spec (base ++ names)
  have hgrown := hadds.extends h.clear.directory (List.prefix_append base names)
  refine ⟨_, _, rfl, ⟨h.grown.trans hgrown, h.clear.extends hgrown, h.places⟩, ?_⟩
  cases hmade : (staged.disk.createDirAll (base ++ names)).2 with
  | ok => exact .inl rfl
  | error fault =>
    cases fault with
    | refused => exact .inr rfl
    | linked =>
      have hlink := hlinked hmade
      rw [h.clear.linkOn_eq_false] at hlink
      cases hlink

/-- A file is created inside the base and can be written, or the system refuses. -/
theorem Staged.Confined.createFile (h : staged.Confined disk base) (context : String)
    (names : List Bytes) (name : Bytes) :
    staged.createFile context (base ++ names) name = staged.stop (.io context) ∨
      ∃ opened : Staged, staged.createFile context (base ++ names) name = (opened, .ok ()) ∧
        opened.count = staged.count ∧ opened.bytes = staged.bytes ∧
        opened.admitted = staged.admitted ∧ opened.written = staged.written ∧
        opened.Confined disk base ∧
        ∀ contents, (opened.copyBytes (base ++ names) name contents).Confined disk base := by
  obtain ⟨hcreate, hlinked⟩ := staged.disk.createFile_spec (base ++ names) name
  cases hfile : staged.disk.createFile (base ++ names) name with
  | error fault =>
    left
    rw [Staged.createFile, hfile]
    cases fault with
    | refused => rfl
    | linked =>
      have hlink := hlinked hfile
      rw [List.append_assoc, h.clear.linkOn_eq_false] at hlink
      cases hlink
  | ok created =>
    right
    obtain ⟨hadmits, rfl, hold⟩ := hcreate created hfile
    have hinside : Inside base (base ++ names ++ [name]) := by
      rw [List.append_assoc]
      exact inside_append base (by simp)
    have hput : staged.disk.Extends base (staged.disk.put (base ++ names) name (.file [])) :=
      Disk.extends_put hadmits hinside (by simp) fun old h => (hold old h).symm
    have hnode : (staged.disk.put (base ++ names) name (.file [])).node (base ++ names ++ [name]) =
        some (.file []) := Disk.node_put_self hadmits
    have hplaces : ∀ place ∈ staged.places ++ [base ++ names ++ [name]], Inside base place := by
      rw [List.forall_mem_append, List.forall_mem_singleton]
      exact ⟨h.places, hinside⟩
    have hopened : staged.createFile context (base ++ names) name = ({ staged with
        disk := staged.disk.put (base ++ names) name (.file [])
        places := staged.places ++ [base ++ names ++ [name]] }, .ok ()) := by
      rw [Staged.createFile, hfile]
    refine ⟨_, hopened, rfl, rfl, rfl, rfl, ?_, fun contents => ?_⟩
    · exact ⟨h.grown.trans hput, h.clear.extends hput, hplaces⟩
    · have hadmits' :
        (staged.disk.put (base ++ names) name (.file [])).Admits (base ++ names) name :=
        ⟨hput.kept.directory hadmits.1, by rw [hnode]; simp⟩
      have hwrite : (staged.disk.put (base ++ names) name (.file [])).Extends base
          ((staged.disk.put (base ++ names) name (.file [])).put (base ++ names) name
            (.file contents)) := by
        refine Disk.extends_put hadmits' hinside (by simp) fun old hold => ?_
        rw [hnode] at hold
        cases hold
        rfl
      exact ⟨(h.grown.trans hput).trans hwrite, (h.clear.extends hput).extends hwrite, hplaces⟩

/-- Counters are no part of what has been written. -/
theorem Staged.Confined.recount (h : staged.Confined disk base) {staged' : Staged}
    (hdisk : staged'.disk = staged.disk) (hplaces : staged'.places = staged.places) :
    staged'.Confined disk base := by
  obtain ⟨hgrown, hclear, hbelow⟩ := h
  rw [← hdisk] at hgrown hclear
  rw [← hplaces] at hbelow
  exact ⟨hgrown, hclear, hbelow⟩

/-- The limit on files is kept while the counter is not saturated. -/
theorem Staged.Confined.countFile (h : staged.Confined disk base) (hfiles : maxFiles < 2 ^ 64 - 1)
    (hlimited : staged.Limited maxFiles maxBytes) (text : String) :
    (staged.countFile maxFiles text).Safe disk base maxFiles maxBytes := by
  have hadmitted := hlimited.admitted
  have hcount : saturatingAddU64 staged.count 1 = staged.admitted + 1 := by
    rw [saturatingAddU64, hlimited.count]
    omega
  rcases lt_or_ge maxFiles (saturatingAddU64 staged.count 1) with hlt | hle
  · rw [countFile_of_lt text hlt]
    apply Staged.Confined.safe_stop
    · exact h.recount rfl rfl
    · exact hadmitted
    · exact hlimited.written.trans (Nat.le_succ _)
    · simp
  · rw [countFile_of_le text hle]
    rw [hcount] at hle
    apply Staged.Confined.safe_ok
    · exact h.recount rfl rfl
    · exact ⟨hcount, hle, hlimited.bytes, hlimited.written⟩

/-- **A copied file**: what is read fits the budget, with one byte more. -/
theorem safe_copyFile (hbytes : maxBytes < 2 ^ 64 - 1) (h : staged.Confined disk base)
    (hlimited : staged.Limited maxFiles maxBytes) (names : List Bytes) (name contents : Bytes) :
    (copyFile maxBytes (base ++ names) name contents staged).Safe disk base maxFiles maxBytes := by
  have hwritten := hlimited.written
  have hcharged := hlimited.bytes
  have hlimit : checkedAddU64 (maxBytes - staged.bytes) 1 = some (maxBytes - staged.bytes + 1) := by
    rw [checkedAddU64, if_pos (by omega)]
  rw [copyFile]
  rcases h.createFile "cannot create staged plugin file" names name with
    hstop | ⟨opened, hopened, hcount, hcharged', hadmitted, htotal, -, hcopied⟩
  · rw [hstop]
    exact h.safe_stop hlimited.admitted (hwritten.trans (Nat.le_succ _)) (by simp)
  rw [hopened]
  dsimp only [StageOutcome.andThen]
  rw [hlimit]
  dsimp only
  have hlength : (contents.take (maxBytes - staged.bytes + 1)).length ≤
      maxBytes - staged.bytes + 1 := List.length_take_le _ _
  generalize contents.take (maxBytes - staged.bytes + 1) = copied at hlength ⊢
  have hconfined := hcopied copied
  have hsum : saturatingAddU64 (opened.copyBytes (base ++ names) name copied).bytes copied.length =
      staged.written + copied.length := by
    rw [saturatingAddU64, show (opened.copyBytes (base ++ names) name copied).bytes = staged.bytes
      from hcharged']
    omega
  have htotal' : (opened.copyBytes (base ++ names) name copied).written =
      staged.written + copied.length := congrArg (· + copied.length) htotal
  have hadmitted' := hadmitted.trans_le hlimited.admitted
  rcases lt_or_ge maxBytes (saturatingAddU64 (opened.copyBytes (base ++ names) name copied).bytes
    copied.length) with hlt | hle
  · rw [Staged.charge_of_lt _ hlt]
    apply Staged.Confined.safe_stop
    · exact hconfined.recount rfl rfl
    · exact hadmitted'
    · exact htotal'.trans_le (by omega)
    · simp
  · rw [Staged.charge_of_le _ hle]
    rw [hsum] at hle
    apply Staged.Confined.safe_ok
    · exact hconfined.recount rfl rfl
    · refine ⟨?_, hadmitted', hsum.trans htotal'.symm, htotal'.trans_le hle⟩
      exact (hcount.trans hlimited.count).trans hadmitted.symm

/-- **One entry of a tree.** -/
theorem safe_copyEntry (hfiles : maxFiles < 2 ^ 64 - 1) (hbytes : maxBytes < 2 ^ 64 - 1)
    {descend : List Bytes → List Bytes → Staged → StageOutcome}
    (hdescend : ∀ source names (staged : Staged), staged.Confined disk base →
      staged.Limited maxFiles maxBytes →
      (descend source (base ++ names) staged).Safe disk base maxFiles maxBytes)
    (source names : List Bytes) (name : Bytes) (h : staged.Confined disk base)
    (hlimited : staged.Limited maxFiles maxBytes) :
    (copyEntry maxFiles maxBytes descend source (base ++ names) name staged).Safe disk base maxFiles
      maxBytes := by
  have hcounted := h.countFile hfiles hlimited "plugin package exceeds the file-count limit"
  have hstop : ∀ error : StageError, error ≠ .linked ∧ error ≠ .overflow →
      ∀ staged : Staged, staged.Confined disk base → staged.Limited maxFiles maxBytes →
      (staged.stop error).Safe disk base maxFiles maxBytes := fun error herror staged h hlimited =>
    h.safe_stop hlimited.admitted (hlimited.written.trans (Nat.le_succ _)) herror
  rw [copyEntry]
  split_ifs
  · exact h.safe_ok hlimited
  · cases hnode : staged.disk.node (source ++ [name]) with
    | none => exact hstop _ (by simp) staged h hlimited
    | some node =>
      cases node with
      | link => exact hstop _ (by simp) staged h hlimited
      | special => exact hcounted.andThen (hstop _ (by simp))
      | file contents =>
        exact hcounted.andThen fun staged h hlimited =>
          safe_copyFile hbytes h hlimited names name contents
      | directory =>
        refine hcounted.andThen fun staged h hlimited => ?_
        obtain ⟨made, result, hmade, hconfined, hresult⟩ :=
          h.createDirAll "cannot create staged directory" (names ++ [name])
        have hmade' : Staged.Limited maxFiles maxBytes { staged with disk := made } :=
          ⟨hlimited.count, hlimited.admitted, hlimited.bytes, hlimited.written⟩
        rw [List.append_assoc, hmade]
        rcases hresult with rfl | rfl
        · exact hdescend _ (names ++ [name]) _ hconfined hmade'
        · exact hstop _ (by simp) _ hconfined hmade'

/-- **A tree is copied below the base and within the limits**, by induction on the levels and, in
each, over the names. -/
theorem safe_copyTreeBounded (hfiles : maxFiles < 2 ^ 64 - 1) (hbytes : maxBytes < 2 ^ 64 - 1)
    (listing : Disk Bytes → List Bytes → List Bytes) (levels : Nat) (source names : List Bytes)
    (h : staged.Confined disk base) (hlimited : staged.Limited maxFiles maxBytes) :
    (copyTreeBounded listing maxFiles maxBytes levels source (base ++ names) staged).Safe disk base
      maxFiles maxBytes := by
  have hwritten := hlimited.written.trans (Nat.le_succ maxBytes)
  induction levels generalizing source names staged with
  | zero => exact h.safe_stop hlimited.admitted hwritten (by simp)
  | succ levels ih =>
    have hloop : ∀ (found : List Bytes) (staged : Staged), staged.Confined disk base →
        staged.Limited maxFiles maxBytes →
        (copyEntries maxFiles maxBytes (copyTreeBounded listing maxFiles maxBytes levels) source
          (base ++ names) found staged).Safe disk base maxFiles maxBytes := by
      intro found
      induction found with
      | nil => exact fun staged h hlimited => h.safe_ok hlimited
      | cons name found ihloop =>
        intro staged h hlimited
        refine (safe_copyEntry hfiles hbytes ?_ source names name h hlimited).andThen ihloop
        exact fun source names staged h hlimited => ih source names h hlimited
          (hlimited.written.trans (Nat.le_succ _))
    rw [copyTreeBounded]
    dsimp only
    split_ifs
    · exact hloop _ staged h hlimited
    · exact h.safe_stop hlimited.admitted hwritten (by simp)

theorem npmRelativePath_error {path : Bytes} {error : StageError}
    (h : npmRelativePath path = .error error) : error ≠ .linked ∧ error ≠ .overflow := by
  unfold npmRelativePath at h
  split at h
  · split_ifs at h
    · split at h
      · cases h
      · cases h
        simp
    · cases h
      simp
  · cases h
    simp

/-- **An unpacked file**, whose advertised size is charged already: what is read is no longer, with
one byte more. -/
theorem safe_extractFile (hbytes : maxBytes < 2 ^ 64 - 1) {size : UInt64}
    (h : staged.Confined disk base) (hcount : staged.count = staged.admitted)
    (hadmitted : staged.admitted ≤ maxFiles) (hcharged : staged.bytes = staged.written + size.toNat)
    (hmax : staged.bytes ≤ maxBytes) (names : { names : List Bytes // names ≠ [] })
    (contents : Bytes) :
    (extractFile base names size contents staged).Safe disk base maxFiles maxBytes := by
  have hlimit : checkedAddU64 size.toNat 1 = some (size.toNat + 1) := by
    rw [checkedAddU64, if_pos (by omega)]
  have hwritten : staged.written ≤ maxBytes + 1 := by omega
  rw [extractFile]
  dsimp only
  by_cases hnulAbove : names.1.dropLast.any (0 ∈ ·) = true
  · rw [if_pos hnulAbove]
    exact h.safe_stop hadmitted hwritten (by simp)
  rw [if_neg hnulAbove]
  obtain ⟨made, result, hmade, hconfined, hresult⟩ :=
    h.createDirAll "cannot stage npm directory" names.1.dropLast
  rw [hmade]
  rcases hresult with rfl | rfl
  swap
  · exact hconfined.safe_stop hadmitted hwritten (by simp)
  dsimp only [StageOutcome.andThen]
  by_cases hnul : 0 ∈ names.1.getLast names.2
  · rw [if_pos hnul]
    exact hconfined.safe_stop hadmitted hwritten (by simp)
  rw [if_neg hnul]
  rcases hconfined.createFile "cannot stage npm file" names.1.dropLast
    (names.1.getLast names.2) with
    hstop | ⟨opened, hopened, hcount', hbytes', hadmitted', hwritten', -, hcopied⟩
  · rw [hstop]
    exact hconfined.safe_stop hadmitted hwritten (by simp)
  rw [hopened]
  dsimp only
  rw [hlimit]
  dsimp only
  have hlength : (contents.take (size.toNat + 1)).length ≤ size.toNat + 1 := List.length_take_le _ _
  generalize contents.take (size.toNat + 1) = copied at hlength ⊢
  have hconfined' := hcopied copied
  have htotal :
      (opened.copyBytes (base ++ names.1.dropLast) (names.1.getLast names.2) copied).written =
      staged.written + copied.length := congrArg (· + copied.length) hwritten'
  split_ifs with hmismatch
  · refine hconfined'.safe_stop (hadmitted'.trans_le hadmitted) ?_ (by simp)
    rw [htotal]
    omega
  · refine hconfined'.safe_ok ⟨?_, hadmitted'.trans_le hadmitted, ?_, ?_⟩
    · exact (hcount'.trans hcount).trans hadmitted'.symm
    · rw [htotal]
      refine (hbytes'.trans hcharged).trans ?_
      rw [not_not.mp hmismatch]
    · rw [htotal]
      omega

/-- **One entry of an archive.** -/
theorem safe_extractEntry (hfiles : maxFiles < 2 ^ 64 - 1) (hbytes : maxBytes < 2 ^ 64 - 1)
    (entry : Option ArchiveEntry) (h : staged.Confined disk base)
    (hlimited : staged.Limited maxFiles maxBytes) :
    (extractEntry maxFiles maxBytes base entry staged).Safe disk base maxFiles maxBytes := by
  have hstop : ∀ error : StageError, error ≠ .linked ∧ error ≠ .overflow →
      ∀ staged : Staged, staged.Confined disk base → staged.Limited maxFiles maxBytes →
      (staged.stop error).Safe disk base maxFiles maxBytes := fun error herror staged h hlimited =>
    h.safe_stop hlimited.admitted (hlimited.written.trans (Nat.le_succ _)) herror
  cases entry with
  | none => exact hstop _ (by simp) staged h hlimited
  | some entry =>
    rw [extractEntry]
    refine (h.countFile hfiles hlimited "npm package exceeds the file-count limit").andThen ?_
    intro staged h hlimited
    cases entry.entryType with
    | directory => exact h.safe_ok hlimited
    | other => exact hstop _ (by simp) staged h hlimited
    | regular =>
      dsimp only
      cases hpath : entry.path.map npmRelativePath with
      | none => exact hstop _ (by simp) staged h hlimited
      | some relative =>
        cases relative with
        | error error =>
          refine hstop error ?_ staged h hlimited
          obtain ⟨path, -, herror⟩ := Option.map_eq_some_iff.mp hpath
          exact npmRelativePath_error herror
        | ok names =>
          dsimp only
          cases entry.size with
          | none => exact hstop _ (by simp) staged h hlimited
          | some size =>
            dsimp only
            rcases lt_or_ge maxBytes (saturatingAddU64 staged.bytes size.toNat) with hlt | hle
            · rw [Staged.charge_of_lt _ hlt]
              apply Staged.Confined.safe_stop
              · exact h.recount rfl rfl
              · exact hlimited.admitted
              · exact hlimited.written.trans (Nat.le_succ _)
              · simp
            · -- the sum is not saturated, for the greatest number is beyond the limit
              have hsum :
                  saturatingAddU64 staged.bytes size.toNat = staged.written + size.toNat := by
                rw [saturatingAddU64, hlimited.bytes] at hle ⊢
                omega
              rw [Staged.charge_of_le _ hle]
              apply safe_extractFile hbytes
              · exact h.recount rfl rfl
              · exact hlimited.count
              · exact hlimited.admitted
              · exact hsum
              · exact hle

theorem safe_extractEntries (hfiles : maxFiles < 2 ^ 64 - 1) (hbytes : maxBytes < 2 ^ 64 - 1)
    (entries : List (Option ArchiveEntry)) (h : staged.Confined disk base)
    (hlimited : staged.Limited maxFiles maxBytes) :
    (extractEntries maxFiles maxBytes base entries staged).Safe disk base maxFiles maxBytes := by
  induction entries generalizing staged with
  | nil => exact h.safe_ok hlimited
  | cons entry entries ih =>
    exact (safe_extractEntry hfiles hbytes entry h hlimited).andThen fun staged h hlimited =>
      ih h hlimited

/-! ### The result -/

/-- The base is a directory with nothing in it. -/
structure EmptyAt (disk : Disk Bytes) (base : List Bytes) : Prop where
  directory : disk.node base = some .directory
  empty : ∀ place, Inside base place → disk.node place = none

theorem EmptyAt.confined (h : EmptyAt disk base) : (Staged.start disk).Confined disk base where
  grown := .refl base disk
  clear := by
    refine ⟨h.directory, fun place hplace hlink => ?_⟩
    change disk.node place = some .link at hlink
    have hne : place ≠ base := by
      rintro rfl
      have hdirectory := h.directory
      rw [hlink] at hdirectory
      cases hdirectory
    have hnone := h.empty place ⟨hplace, hne⟩
    rw [hlink] at hnone
    cases hnone
  places := nofun

/-- A staging that is confined to a base and to the limits. -/
structure Confines (disk : Disk Bytes) (base : List Bytes) (maxFiles maxBytes : Nat)
    (outcome : StageOutcome) : Prop where
  below : ∀ place ∈ outcome.1.places, Inside base place
  outside : ∀ place, ¬ Inside base place → outcome.1.disk.node place = disk.node place
  noLink : ∀ place, outcome.1.disk.node place = some .link → disk.node place = some .link
  notFollowed : outcome.2 ≠ .error .linked
  noOverflow : outcome.2 ≠ .error .overflow
  files : outcome.1.admitted ≤ maxFiles
  bytes : outcome.2 = .ok () → outcome.1.written ≤ maxBytes
  bytesOnError : outcome.1.written ≤ maxBytes + 1

theorem StageOutcome.Safe.confines (h : outcome.Safe disk base maxFiles maxBytes) :
    Confines disk base maxFiles maxBytes outcome where
  below := h.confined.places
  outside := h.confined.grown.outside
  noLink := h.confined.grown.noLink
  notFollowed := h.noFault.1
  noOverflow := h.noFault.2
  files := h.admitted
  bytes hok := (h.limited hok).written
  bytesOnError := h.written

end Confinement

theorem emptyAt_empty : EmptyAt Disk.empty [] where
  directory := rfl
  empty _ h := if_neg h.2

/-- A directory of an archive. -/
def directoryEntry : ArchiveEntry := ⟨.directory, some (asciiBytes "package/"), some 0, []⟩

section Saturated

variable {maxFiles : Nat} (maxBytes n : Nat)

/-- The greatest number of a counter is never exceeded. -/
theorem extractEntries_directories (hmax : 2 ^ 64 - 1 ≤ maxFiles) (staged : Staged) :
    (extractEntries maxFiles maxBytes [] (List.replicate n (some directoryEntry)) staged).2 =
        .ok () ∧
      (extractEntries maxFiles maxBytes [] (List.replicate n (some directoryEntry))
        staged).1.admitted = staged.admitted + n := by
  induction n generalizing staged with
  | zero => exact ⟨rfl, rfl⟩
  | succ n ih =>
    have hcount : saturatingAddU64 staged.count 1 ≤ maxFiles := (Nat.min_le_right _ _).trans hmax
    have hentry : extractEntry maxFiles maxBytes [] (some directoryEntry) staged =
        ({ staged with
          count := saturatingAddU64 staged.count 1
          admitted := staged.admitted + 1 }, .ok ()) := by
      rw [extractEntry, Staged.countFile_of_le _ hcount]
      rfl
    rw [List.replicate_succ, extractEntries, hentry]
    obtain ⟨hok, hadmitted⟩ := ih { staged with
      count := saturatingAddU64 staged.count 1
      admitted := staged.admitted + 1 }
    refine ⟨hok, hadmitted.trans ?_⟩
    dsimp only
    omega

theorem extract_directories (hmax : 2 ^ 64 - 1 ≤ maxFiles) (disk : Disk Bytes) :
    (extractNpmTarballWithLimits maxFiles maxBytes disk []
        (List.replicate n (some directoryEntry))).2 = .ok () ∧
      (extractNpmTarballWithLimits maxFiles maxBytes disk []
        (List.replicate n (some directoryEntry))).1.admitted = n := by
  obtain ⟨hok, hadmitted⟩ := extractEntries_directories maxBytes n hmax (.start disk)
  exact ⟨hok, hadmitted.trans (Nat.zero_add n)⟩

end Saturated

end KakuneCore
