import KakuneCore.Encoding.Frames
import KakuneCore.Encoding.Utf8
import KakuneCore.Lifecycle.Basic
import KakuneCore.Relational.Runs

/-!
# The digest of a plugin package

A package is a tree of files. Its digest is taken of its files under their **normalised** names, and
determines them. It determines the files themselves only among packages in which no two paths have
one normalised name.
-/

namespace KakuneCore

open Frames

/-! ### Packages -/

/-- What is found at a place of a package. A directory lists its entries in the order in which they
are read. -/
inductive PackageEntry
  | file (contents : Bytes)
  | directory (entries : List (Bytes × PackageEntry))
  | symlink
  | unsupported

/-- A file name: bytes without a separator and NUL, and not one of the two that every directory
has. -/
def isFileName (name : Bytes) : Bool :=
  name ≠ [] ∧ 0 ∉ name ∧ 47 ∉ name ∧ name ≠ [46] ∧ name ≠ [46, 46]

mutual

/-- The names in every directory are file names, and different ones. -/
def PackageEntry.WellFormed : PackageEntry → Prop
  | .directory entries => (entries.map Prod.fst).Nodup ∧ EntriesWellFormed entries
  | _ => True

def EntriesWellFormed : List (Bytes × PackageEntry) → Prop
  | [] => True
  | (name, entry) :: entries =>
    isFileName name = true ∧ entry.WellFormed ∧ EntriesWellFormed entries

end

mutual

/-- The files below a place, with the paths to them. -/
def entryFiles (path : List Bytes) : PackageEntry → List (List Bytes × Bytes)
  | .file contents => [(path, contents)]
  | .directory entries => entriesFiles path entries
  | .symlink | .unsupported => []

def entriesFiles (path : List Bytes) : List (Bytes × PackageEntry) → List (List Bytes × Bytes)
  | [] => []
  | (name, entry) :: entries => entryFiles (path ++ [name]) entry ++ entriesFiles path entries

end

/-- The files of a package. -/
def PackageEntry.files (entry : PackageEntry) : List (List Bytes × Bytes) := entryFiles [] entry

/-! ### The digest -/

def maxPluginFiles : Nat := 10000

def maxPluginPackageBytes : Nat := 256 * 1024 * 1024

/-- The name under which a file is recorded: its path with losses, backslashes as separators. -/
def relativeName (path : List Bytes) : String :=
  .ofList ((Utf8.lossy ([47].intercalate path)).map fun c => if c = '\\' then '/' else c)

/-- What `collect_files` keeps: the files, and the budget that is used up. -/
structure Collected where
  files : StrMap Bytes
  count : Nat
  bytes : Nat

section Collect

variable (maxFiles maxBytes : Nat)

mutual

/-- The loop of `collect_files` over the entries of a directory. -/
def collectEntries (depth : Nat) (path : List Bytes) :
    List (Bytes × PackageEntry) → Collected → Except String Collected
  | [], collected => .ok collected
  | (name, entry) :: entries, collected =>
    if maxFiles < collected.count + 1 then .error "plugin package exceeds the file-count limit"
    else do
      let next ← collectEntry depth (path ++ [name]) entry
        { collected with count := collected.count + 1 }
      collectEntries depth path entries next

def collectEntry (depth : Nat) (path : List Bytes) :
    PackageEntry → Collected → Except String Collected
  | .symlink, _ => .error "staged plugin contains a symlink"
  | .unsupported, _ => .error "staged plugin contains an unsupported entry"
  | .directory entries, collected =>
    if 32 < depth + 1 then .error "plugin package exceeds the depth limit"
    else collectEntries (depth + 1) path entries collected
  | .file contents, collected =>
    -- no more than the remaining bytes and one are read
    let bytes := contents.take (maxBytes - collected.bytes + 1)
    if maxBytes < collected.bytes + bytes.length then
      .error "plugin package exceeds the aggregate byte limit"
    else .ok { collected with
      files := collected.files.insert (relativeName path) bytes
      bytes := collected.bytes + bytes.length }

end

end Collect

/-- What the digest is taken of: the files in the order of their names. -/
def digestInput (files : StrMap Bytes) : Bytes :=
  records (byteLengths 8) 0 (files.map fun file => (Utf8.encode file.1.toList, file.2))

/-- `package_digest_with_limits`; `sha256` gives the hexadecimal digits. -/
def packageDigestWithLimits (sha256 : Bytes → String) (maxFiles maxBytes : Nat) :
    PackageEntry → Except String String
  | .directory entries => do
    let collected ← collectEntries maxFiles maxBytes 0 [] entries ⟨[], 0, 0⟩
    .ok ("sha256:" ++ sha256 (digestInput collected.files))
  | _ => .error "plugin package root must be a regular directory"

/-- `package_digest`. -/
def packageDigest (sha256 : Bytes → String) (package : PackageEntry) : Except String String :=
  packageDigestWithLimits sha256 maxPluginFiles maxPluginPackageBytes package

/-! ### What is collected -/

/-- The map of files under their names; of two files with one name the later is kept. -/
def recorded (files : List (List Bytes × Bytes)) (start : StrMap Bytes) : StrMap Bytes :=
  files.foldl (fun collected file => collected.insert (relativeName file.1) file.2) start

theorem recorded_append (files rest : List (List Bytes × Bytes)) (start : StrMap Bytes) :
    recorded (files ++ rest) start = recorded rest (recorded files start) := List.foldl_append

/-- A collection that has come to some files: they are recorded, are within the limits, and their
paths are no deeper than the depth allows. -/
structure Collects (maxBytes depth : Nat) (path : List Bytes) (files : List (List Bytes × Bytes))
    (collected next : Collected) : Prop where
  files_eq : next.files = recorded files collected.files
  within : ∀ file ∈ files, file.2.length ≤ maxBytes
  deep : ∀ file ∈ files, ∃ names, file.1 = path ++ names ∧ depth + names.length ≤ 33

section Collected

variable {maxFiles maxBytes depth : Nat} {path : List Bytes} {collected next : Collected}

theorem Collects.append {files rest : List (List Bytes × Bytes)} {last : Collected}
    (h : Collects maxBytes depth path files collected next)
    (h' : Collects maxBytes depth path rest next last) :
    Collects maxBytes depth path (files ++ rest) collected last := by
  refine ⟨?_, fun file hfile => ?_, fun file hfile => ?_⟩
  · rw [h'.files_eq, h.files_eq, recorded_append]
  · exact (List.mem_append.mp hfile).elim (h.within file) (h'.within file)
  · exact (List.mem_append.mp hfile).elim (h.deep file) (h'.deep file)

/-- What is collected below an entry, seen from the directory around it. -/
theorem Collects.below {files : List (List Bytes × Bytes)} {name : Bytes}
    (h : Collects maxBytes (depth + 1) (path ++ [name]) files collected next) :
    Collects maxBytes depth path files collected next := by
  refine ⟨h.files_eq, h.within, fun file hfile => ?_⟩
  obtain ⟨names, hnames, hdeep⟩ := h.deep file hfile
  refine ⟨name :: names, ?_, ?_⟩
  · rw [hnames, List.append_assoc, List.singleton_append]
  · rw [List.length_cons]
    omega

mutual

/-- **What collecting the entries of a directory does.** -/
theorem collects_entries {depth : Nat} {path : List Bytes} (hdepth : depth ≤ 32) :
    ∀ (entries : List (Bytes × PackageEntry)) {collected next : Collected},
      collectEntries maxFiles maxBytes depth path entries collected = .ok next →
      Collects maxBytes depth path (entriesFiles path entries) collected next
  | [], collected, next, h => by
    rw [collectEntries] at h
    cases h
    exact ⟨rfl, fun _ hfile => absurd hfile List.not_mem_nil,
      fun _ hfile => absurd hfile List.not_mem_nil⟩
  | (name, entry) :: entries, collected, next, h => by
    rw [collectEntries] at h
    split at h
    · cases h
    obtain ⟨middle, hentry, hrest⟩ := except_bind_eq_ok h
    have hfirst := (collects_entry hdepth entry hentry).below
    have hlater := collects_entries hdepth entries hrest
    rw [entriesFiles]
    exact Collects.append ⟨hfirst.files_eq, hfirst.within, hfirst.deep⟩ hlater

theorem collects_entry {depth : Nat} {path : List Bytes} (hdepth : depth ≤ 32) :
    ∀ (entry : PackageEntry) {collected next : Collected},
      collectEntry maxFiles maxBytes depth path entry collected = .ok next →
      Collects maxBytes (depth + 1) path (entryFiles path entry) collected next
  | .symlink, _, _, h => by
    rw [collectEntry] at h
    cases h
  | .unsupported, _, _, h => by
    rw [collectEntry] at h
    cases h
  | .directory entries, collected, next, h => by
    rw [collectEntry] at h
    split at h
    · cases h
    next hlimit =>
    rw [entryFiles]
    exact collects_entries (by omega) entries h
  | .file contents, collected, next, h => by
    rw [collectEntry] at h
    split at h
    · cases h
    next hlimit =>
    cases h
    -- nothing was cut off, since what was read is within the limit
    have hwhole : contents.take (maxBytes - collected.bytes + 1) = contents := by
      refine List.take_of_length_le ?_
      rw [List.length_take] at hlimit
      omega
    rw [hwhole] at hlimit ⊢
    refine ⟨rfl, fun file hfile => ?_, fun file hfile => ?_⟩
    all_goals
      rw [entryFiles] at hfile
      obtain rfl := List.mem_singleton.mp hfile
    · show contents.length ≤ maxBytes
      omega
    · exact ⟨[], by rw [List.append_nil], by rw [List.length_nil]; omega⟩

end

end Collected

/-! ### The paths of a package -/

mutual

/-- The paths below a directory begin with one of its names. -/
theorem path_of_mem_entriesFiles {path : List Bytes} : ∀ (entries : List (Bytes × PackageEntry)),
    EntriesWellFormed entries → ∀ file ∈ entriesFiles path entries, ∃ name names,
      name ∈ entries.map Prod.fst ∧ file.1 = path ++ name :: names ∧
        ∀ n ∈ name :: names, isFileName n = true
  | [], _, file, hfile => by
    rw [entriesFiles] at hfile
    exact absurd hfile List.not_mem_nil
  | (name, entry) :: entries, hwell, file, hfile => by
    rw [EntriesWellFormed] at hwell
    rw [entriesFiles, List.mem_append] at hfile
    rw [List.map_cons]
    rcases hfile with hfirst | hrest
    · obtain ⟨names, hnames, hvalid⟩ := path_of_mem_entryFiles entry hwell.2.1 file hfirst
      refine ⟨name, names, List.mem_cons_self, ?_, List.forall_mem_cons.mpr ⟨hwell.1, hvalid⟩⟩
      rw [hnames, List.append_assoc, List.singleton_append]
    · obtain ⟨name', names, hmem, hrest⟩ := path_of_mem_entriesFiles entries hwell.2.2 file hrest
      exact ⟨name', names, List.mem_cons_of_mem _ hmem, hrest⟩

theorem path_of_mem_entryFiles {path : List Bytes} : ∀ (entry : PackageEntry), entry.WellFormed →
    ∀ file ∈ entryFiles path entry, ∃ names, file.1 = path ++ names ∧
      ∀ n ∈ names, isFileName n = true
  | .file contents, _, file, hfile => by
    rw [entryFiles] at hfile
    obtain rfl := List.mem_singleton.mp hfile
    exact ⟨[], by rw [List.append_nil], fun _ hn => absurd hn List.not_mem_nil⟩
  | .directory entries, hwell, file, hfile => by
    rw [entryFiles] at hfile
    rw [PackageEntry.WellFormed] at hwell
    obtain ⟨name, names, -, hnames, hvalid⟩ :=
      path_of_mem_entriesFiles entries hwell.2 file hfile
    exact ⟨name :: names, hnames, hvalid⟩
  | .symlink, _, _, hfile => by
    rw [entryFiles] at hfile
    exact absurd hfile List.not_mem_nil
  | .unsupported, _, _, hfile => by
    rw [entryFiles] at hfile
    exact absurd hfile List.not_mem_nil

end

mutual

/-- **A path names one file.** -/
theorem entriesFiles_unique {path : List Bytes} : ∀ (entries : List (Bytes × PackageEntry)),
    (entries.map Prod.fst).Nodup → EntriesWellFormed entries →
      ∀ file ∈ entriesFiles path entries, ∀ other ∈ entriesFiles path entries,
        file.1 = other.1 → file = other
  | [], _, _, file, hfile, _, _, _ => by
    rw [entriesFiles] at hfile
    exact absurd hfile List.not_mem_nil
  | (name, entry) :: entries, hnodup, hwell, file, hfile, other, hother, heq => by
    rw [EntriesWellFormed] at hwell
    rw [List.map_cons, List.nodup_cons] at hnodup
    rw [entriesFiles, List.mem_append] at hfile hother
    -- a file of the first entry has a path with another name in it than one of the others
    have hapart : ∀ f ∈ entryFiles (path ++ [name]) entry, ∀ g ∈ entriesFiles path entries,
        f.1 ≠ g.1 := by
      intro f hf g hg hpaths
      obtain ⟨names, hnames, -⟩ := path_of_mem_entryFiles entry hwell.2.1 f hf
      obtain ⟨name', names', hmem, hnames', -⟩ :=
        path_of_mem_entriesFiles entries hwell.2.2 g hg
      rw [hnames, hnames', List.append_assoc, List.singleton_append] at hpaths
      obtain ⟨rfl, -⟩ := List.cons_eq_cons.mp (List.append_cancel_left hpaths)
      exact hnodup.1 hmem
    rcases hfile with hfile | hfile <;> rcases hother with hother | hother
    · exact entryFiles_unique entry hwell.2.1 file hfile other hother heq
    · exact absurd heq (hapart file hfile other hother)
    · exact absurd heq.symm (hapart other hother file hfile)
    · exact entriesFiles_unique entries hnodup.2 hwell.2.2 file hfile other hother heq

theorem entryFiles_unique {path : List Bytes} : ∀ (entry : PackageEntry), entry.WellFormed →
    ∀ file ∈ entryFiles path entry, ∀ other ∈ entryFiles path entry,
      file.1 = other.1 → file = other
  | .file contents, _, file, hfile, other, hother, _ => by
    rw [entryFiles] at hfile hother
    rw [List.mem_singleton.mp hfile, List.mem_singleton.mp hother]
  | .directory entries, hwell, file, hfile, other, hother, heq => by
    rw [entryFiles] at hfile hother
    rw [PackageEntry.WellFormed] at hwell
    exact entriesFiles_unique entries hwell.1 hwell.2 file hfile other hother heq
  | .symlink, _, _, hfile, _, _, _ => by
    rw [entryFiles] at hfile
    exact absurd hfile List.not_mem_nil
  | .unsupported, _, _, hfile, _, _, _ => by
    rw [entryFiles] at hfile
    exact absurd hfile List.not_mem_nil

end

/-! ### The map of names -/

theorem ordered_recorded {files : List (List Bytes × Bytes)} {start : StrMap Bytes}
    (h : start.Ordered) : (recorded files start).Ordered := by
  induction files generalizing start with
  | nil => exact h
  | cons file files ih => exact ih (h.insert _ _)

theorem get?_recorded {files : List (List Bytes × Bytes)} {start : StrMap Bytes} {key : String}
    {contents : Bytes} (h : (recorded files start).get? key = some contents) :
    start.get? key = some contents ∨
      ∃ file ∈ files, relativeName file.1 = key ∧ file.2 = contents := by
  induction files generalizing start with
  | nil => exact .inl h
  | cons file files ih =>
    rcases ih h with hstart | ⟨other, hother, hkey⟩
    · rw [StrMap.get?_insert] at hstart
      split at hstart
      · next heq => exact .inr ⟨file, List.mem_cons_self, heq, Option.some.inj hstart⟩
      · exact .inl hstart
    · exact .inr ⟨other, List.mem_cons_of_mem _ hother, hkey⟩

/-- Where no two files have one name, each is kept under its own. -/
theorem get?_recorded_of_mem {files : List (List Bytes × Bytes)} {start : StrMap Bytes}
    (hnames : ∀ file ∈ files, ∀ other ∈ files,
      relativeName file.1 = relativeName other.1 → file = other)
    {file : List Bytes × Bytes} (hfile : file ∈ files) :
    (recorded files start).get? (relativeName file.1) = some file.2 := by
  induction files generalizing start with
  | nil => cases hfile
  | cons first files ih =>
    by_cases hlater : file ∈ files
    · exact ih (fun f hf g hg => hnames f (List.mem_cons_of_mem _ hf) g (List.mem_cons_of_mem _ hg))
        hlater
    · obtain rfl := (List.mem_cons.mp hfile).resolve_right hlater
      have hkept : ∀ key, (∀ other ∈ files, relativeName other.1 ≠ key) → ∀ begin : StrMap Bytes,
          (recorded files begin).get? key = begin.get? key := by
        clear ih hnames hfile hlater
        intro key hkey begin
        induction files generalizing begin with
        | nil => rfl
        | cons other files ih =>
          rw [List.forall_mem_cons] at hkey
          rw [recorded, List.foldl_cons, ← recorded, ih hkey.2, StrMap.get?_insert_ne _ hkey.1]
      rw [recorded, List.foldl_cons, ← recorded, hkept, StrMap.get?_insert_self]
      intro other hother hkey
      have heq := hnames other (List.mem_cons_of_mem _ hother) file List.mem_cons_self hkey
      exact hlater (heq ▸ hother)

/-- A normalised name has no NUL. -/
theorem nul_not_mem_relativeName {path : List Bytes} (h : ∀ name ∈ path, isFileName name = true) :
    0 ∉ Utf8.encode (relativeName path).toList := by
  have hpath : (0 : UInt8) ∉ [47].intercalate path := by
    induction path with
    | nil => simp
    | cons name path ih =>
      rw [List.forall_mem_cons] at h
      have hname : 0 ∉ name := by
        have hvalid := h.1
        simp only [isFileName, decide_eq_true_eq] at hvalid
        exact hvalid.2.1
      cases path with
      | nil => simpa [List.intercalate_singleton] using hname
      | cons second path =>
        rw [List.intercalate_cons_cons, List.mem_append, List.mem_append, List.mem_singleton]
        rintro ((hmem | hmem) | hmem)
        · exact hname hmem
        · exact absurd hmem (by decide)
        · exact ih h.2 hmem
  have hlossy := Utf8.nul_not_mem_lossy hpath
  rw [relativeName, String.toList_ofList]
  intro hmem
  obtain ⟨c, hc, hbyte⟩ := List.mem_flatMap.mp hmem
  obtain ⟨d, hd, rfl⟩ := List.mem_map.mp hc
  have hnul : d ≠ Char.ofNat 0 := by
    rintro rfl
    exact hlossy hd
  by_cases hlt : (if d = '\\' then '/' else d).toNat < 128
  · rw [Utf8.encodeChar_of_lt hlt, List.mem_singleton] at hbyte
    have hzero := congrArg UInt8.toNat hbyte
    rw [UInt8.toNat_ofNat', Nat.mod_eq_of_lt (by omega)] at hzero
    split at hzero
    · exact absurd hzero (by decide)
    · exact hnul (Char.toNat_inj.mp hzero.symm)
  · have hlarge := Utf8.le_of_mem_encodeChar (by omega) hbyte
    exact absurd hlarge (by decide)

/-! ### What a digest determines -/

/-- Two packages have the same files under the same paths. -/
def SameFiles (package other : PackageEntry) : Prop :=
  ∀ file, file ∈ package.files ↔ file ∈ other.files

/-- A path of a package: file names, no more of them than the depth limit allows. -/
structure PackagePath (path : List Bytes) : Prop where
  nonempty : path ≠ []
  bounded : path.length ≤ 33
  names : ∀ name ∈ path, isFileName name = true

/-- The digest determines the files of the packages whose paths are all in `P`. -/
def DigestDetermines (sha256 : Bytes → String) (P : List Bytes → Prop) : Prop :=
  ∀ package other : PackageEntry, package.WellFormed → other.WellFormed →
    (∀ file ∈ package.files, P file.1) → (∀ file ∈ other.files, P file.1) →
    ∀ digest, packageDigest sha256 package = .ok digest → packageDigest sha256 other = .ok digest →
      SameFiles package other

section Digest

variable {sha256 : Bytes → String} {package other : PackageEntry} {digest : String}

/-- **What a digest is taken of.** -/
theorem packageDigest_eq_ok (h : packageDigest sha256 package = .ok digest) :
    digest = "sha256:" ++ sha256 (digestInput (recorded package.files [])) ∧
      (∀ file ∈ package.files, file.2.length < 256 ^ 8) ∧
      ∀ file ∈ package.files, file.1.length ≤ 33 := by
  rw [packageDigest, packageDigestWithLimits.eq_def] at h
  split at h
  · next entries =>
    obtain ⟨collected, hcollected, h⟩ := except_bind_eq_ok h
    have hcollects := collects_entries (Nat.zero_le 32) entries hcollected
    refine ⟨?_, fun file hfile => ?_, fun file hfile => ?_⟩
    · rw [← Except.ok.inj h, hcollects.files_eq, PackageEntry.files, entryFiles]
    · rw [PackageEntry.files, entryFiles] at hfile
      exact (hcollects.within file hfile).trans_lt (by decide)
    · rw [PackageEntry.files, entryFiles] at hfile
      obtain ⟨names, hnames, hdeep⟩ := hcollects.deep file hfile
      rw [hnames, List.nil_append]
      omega
  · cases h

theorem packagePath_of_mem (hwell : package.WellFormed)
    (h : packageDigest sha256 package = .ok digest) {file : List Bytes × Bytes}
    (hfile : file ∈ package.files) : PackagePath file.1 := by
  refine ⟨?_, (packageDigest_eq_ok h).2.2 file hfile, ?_⟩
  · -- the root is a directory
    rw [packageDigest, packageDigestWithLimits.eq_def] at h
    split at h
    · next entries =>
      rw [PackageEntry.WellFormed] at hwell
      rw [PackageEntry.files, entryFiles] at hfile
      obtain ⟨name, names, -, hnames, -⟩ := path_of_mem_entriesFiles entries hwell.2 file hfile
      rw [hnames]
      simp
    · cases h
  · obtain ⟨names, hnames, hvalid⟩ := path_of_mem_entryFiles package hwell file hfile
    rw [hnames, List.nil_append]
    exact hvalid

/-- The names and contents can be told apart in the input of the digest. -/
theorem writable_recorded (hwell : package.WellFormed)
    (h : packageDigest sha256 package = .ok digest) :
    Writable (byteLengths 8) 0 ((recorded package.files []).map fun file =>
      (Utf8.encode file.1.toList, file.2)) := by
  intro entry hentry
  obtain ⟨⟨key, contents⟩, hmem, rfl⟩ := List.mem_map.mp hentry
  have hordered : (recorded package.files []).Ordered := ordered_recorded List.Pairwise.nil
  rcases get?_recorded (hordered.get?_of_mem hmem) with hstart | ⟨file, hfile, rfl, rfl⟩
  · cases hstart
  · exact ⟨nul_not_mem_relativeName (packagePath_of_mem hwell h hfile).names,
      (packageDigest_eq_ok h).2.1 file hfile⟩

/-- **Equal digests are those of equal maps of names.** -/
theorem recorded_eq_of_digest (hsha : Function.Injective sha256) (hwell : package.WellFormed)
    (hwell' : other.WellFormed) (h : packageDigest sha256 package = .ok digest)
    (h' : packageDigest sha256 other = .ok digest) :
    recorded package.files [] = recorded other.files [] := by
  have heq := (packageDigest_eq_ok h).1.symm.trans (packageDigest_eq_ok h').1
  have hinput := hsha (String.append_right_inj "sha256:" |>.mp heq)
  have hmap := records_injective (writable_recorded hwell h) (writable_recorded hwell' h') hinput
  refine List.map_injective_iff.mpr (fun file file' hfile => ?_) hmap
  obtain ⟨hname, hcontents⟩ := Prod.mk.inj hfile
  exact Prod.ext (String.toList_inj.mp (Utf8.encode_injective hname)) hcontents

/-- Where names are told apart, the files of one package are in the other. -/
theorem mem_files_of_recorded {P : List Bytes → Prop}
    (hinj : ∀ p q, PackagePath p → PackagePath q → P p → P q → relativeName p = relativeName q →
      p = q) (hwell : package.WellFormed)
    (hpaths : ∀ file ∈ package.files, PackagePath file.1 ∧ P file.1)
    (hpaths' : ∀ file ∈ other.files, PackagePath file.1 ∧ P file.1)
    (hmap : recorded package.files [] = recorded other.files []) :
    ∀ file ∈ package.files, file ∈ other.files := by
  intro file hfile
  have hnames : ∀ f ∈ package.files, ∀ g ∈ package.files,
      relativeName f.1 = relativeName g.1 → f = g := fun f hf g hg hname =>
    entryFiles_unique package hwell f hf g hg
      (hinj f.1 g.1 (hpaths f hf).1 (hpaths g hg).1 (hpaths f hf).2 (hpaths g hg).2 hname)
  have hget := @get?_recorded_of_mem _ [] hnames _ hfile
  rw [hmap] at hget
  rcases get?_recorded hget with hstart | ⟨f, hf, hname, hcontents⟩
  · cases hstart
  · have hpath := hinj f.1 file.1 (hpaths' f hf).1 (hpaths file hfile).1 (hpaths' f hf).2
      (hpaths file hfile).2 hname
    exact (Prod.ext hpath hcontents : f = file) ▸ hf

end Digest

/-! ### A package with one file -/

/-- A package with an empty file. -/
def singleFile : List Bytes → PackageEntry
  | [] => .file []
  | name :: path => .directory [(name, singleFile path)]

theorem entryFiles_singleFile (before path : List Bytes) :
    entryFiles before (singleFile path) = [(before ++ path, [])] := by
  induction path generalizing before with
  | nil => simp [singleFile, entryFiles]
  | cons name path ih => simp [singleFile, entryFiles, entriesFiles, ih]

theorem wellFormed_singleFile {path : List Bytes} (h : ∀ name ∈ path, isFileName name = true) :
    (singleFile path).WellFormed := by
  induction path with
  | nil => simp [singleFile, PackageEntry.WellFormed]
  | cons name path ih =>
    rw [List.forall_mem_cons] at h
    simp [singleFile, PackageEntry.WellFormed, EntriesWellFormed, h.1, ih h.2]

theorem collectEntry_singleFile {maxFiles maxBytes depth : Nat} {before path : List Bytes}
    {collected : Collected} (hdepth : depth + path.length ≤ 32)
    (hcount : collected.count + path.length ≤ maxFiles) (hbytes : collected.bytes ≤ maxBytes) :
    ∃ count, collectEntry maxFiles maxBytes depth before (singleFile path) collected =
      .ok { collected with
        files := collected.files.insert (relativeName (before ++ path)) []
        count := count } := by
  induction path generalizing depth before collected with
  | nil =>
    refine ⟨collected.count, ?_⟩
    rw [singleFile, collectEntry, List.append_nil]
    simp [hbytes]
  | cons name path ih =>
    rw [List.length_cons] at hdepth hcount
    obtain ⟨count, hrest⟩ := @ih (depth + 1) (before ++ [name])
      { collected with count := collected.count + 1 } (by omega) (by dsimp only; omega) hbytes
    refine ⟨count, ?_⟩
    rw [singleFile, collectEntry, if_neg (by omega), collectEntries, if_neg (by omega), hrest,
      List.append_assoc, List.singleton_append]
    rfl

theorem packageDigest_singleFile (sha256 : Bytes → String) {path : List Bytes}
    (h : PackagePath path) : packageDigest sha256 (singleFile path) =
      .ok ("sha256:" ++ sha256 (digestInput [(relativeName path, [])])) := by
  obtain ⟨name, path, rfl⟩ := List.exists_cons_of_ne_nil h.nonempty
  have hbounded := h.bounded
  rw [List.length_cons] at hbounded
  obtain ⟨count, hcollect⟩ := @collectEntry_singleFile maxPluginFiles maxPluginPackageBytes 0 [name]
    path ⟨[], 1, 0⟩ (by omega) (by rw [maxPluginFiles]; dsimp only; omega) (Nat.zero_le _)
  rw [singleFile, packageDigest, packageDigestWithLimits, collectEntries,
    if_neg (by rw [maxPluginFiles]; decide), List.nil_append, hcollect]
  rfl

/-- **What the approval digest determines**: the files of all packages with paths in a set exactly
where no two paths of the set have one normalised name. -/
theorem package_digest_determines_iff {sha256 : Bytes → String} (hsha : Function.Injective sha256)
    (P : List Bytes → Prop) :
    DigestDetermines sha256 P ↔ ∀ path other, PackagePath path → PackagePath other →
      P path → P other → relativeName path = relativeName other → path = other := by
  constructor
  · intro h path other hpath hother hP hP' hname
    have hfiles : ∀ p : List Bytes, (singleFile p).files = [(p, [])] := fun p => by
      rw [PackageEntry.files, entryFiles_singleFile, List.nil_append]
    have hsame := h (singleFile path) (singleFile other) (wellFormed_singleFile hpath.names)
      (wellFormed_singleFile hother.names) (by simpa [hfiles] using hP)
      (by simpa [hfiles] using hP') _ (packageDigest_singleFile sha256 hpath)
      (by rw [hname]; exact packageDigest_singleFile sha256 hother) (path, [])
    rw [hfiles, hfiles] at hsame
    simpa using hsame.mp List.mem_cons_self
  · intro hinj package other hwell hwell' hP hP' digest hdigest hdigest' file
    have hmap := recorded_eq_of_digest hsha hwell hwell' hdigest hdigest'
    have hpaths : ∀ f ∈ package.files, PackagePath f.1 ∧ P f.1 := fun f hf =>
      ⟨packagePath_of_mem hwell hdigest hf, hP f hf⟩
    have hpaths' : ∀ f ∈ other.files, PackagePath f.1 ∧ P f.1 := fun f hf =>
      ⟨packagePath_of_mem hwell' hdigest' hf, hP' f hf⟩
    exact ⟨mem_files_of_recorded hinj hwell hpaths hpaths' hmap file,
      mem_files_of_recorded hinj hwell' hpaths' hpaths hmap.symm file⟩

/-! ### Plain names -/

/-- A path of UTF-8 names without backslashes. -/
def PlainPath (path : List Bytes) : Prop :=
  ∃ text, [47].intercalate path = Utf8.encode text ∧ '\\' ∉ text

theorem relativeName_of_plain {path : List Bytes} {text : List Char}
    (hpath : [47].intercalate path = Utf8.encode text) (htext : '\\' ∉ text) :
    relativeName path = .ofList text := by
  rw [relativeName, hpath, Utf8.lossy_encode]
  congr 1
  refine (List.map_congr_left fun c hc => if_neg ?_).trans (List.map_id _)
  rintro rfl
  exact htext hc

/-- A path is read back from its names with separators between them. -/
theorem PackagePath.splitOn_intercalate {path : List Bytes} (h : PackagePath path) :
    ([47].intercalate path).splitOn 47 = path := by
  refine List.splitOn_intercalate _ (fun name hname => ?_) h.nonempty
  have hvalid := h.names name hname
  simp only [isFileName, decide_eq_true_eq] at hvalid
  exact hvalid.2.2.1

theorem plain_path_of_relativeName (path other : List Bytes) (h : PackagePath path)
    (h' : PackagePath other) (hplain : PlainPath path) (hplain' : PlainPath other)
    (hname : relativeName path = relativeName other) : path = other := by
  obtain ⟨text, hpath, htext⟩ := hplain
  obtain ⟨text', hother, htext'⟩ := hplain'
  rw [relativeName_of_plain hpath htext, relativeName_of_plain hother htext'] at hname
  have heq := String.ofList_injective hname
  rw [← h.splitOn_intercalate, ← h'.splitOn_intercalate, hpath, hother, heq]

/-- The bytes as characters: a digest without collisions. -/
def bytesDigest (bytes : Bytes) : String := .ofList (bytes.map Char.ofUInt8)

theorem bytesDigest_injective : Function.Injective bytesDigest := by
  intro bytes other h
  refine List.map_injective_iff.mpr (fun a b hab => ?_) (String.ofList_injective h)
  exact UInt8.toUInt32_inj.mp (congrArg Char.val hab)

theorem plain_package_digest_determines : DigestDetermines bytesDigest PlainPath :=
  (package_digest_determines_iff bytesDigest_injective PlainPath).mpr plain_path_of_relativeName

/-- A package with one file of a name that has a backslash in it. -/
def backslashPackage : PackageEntry := singleFile [[97, 92, 98]]

/-- A package with a directory and a file in it. -/
def nestedPackage : PackageEntry := singleFile [[97], [98]]

/-- **Two packages with one digest**, whatever the hash. -/
theorem backslash_package_is_confused : backslashPackage.WellFormed ∧ nestedPackage.WellFormed ∧
    (∀ sha256, ∃ digest, packageDigest sha256 backslashPackage = .ok digest ∧
      packageDigest sha256 nestedPackage = .ok digest) ∧
    ¬ SameFiles backslashPackage nestedPackage := by
  have hpath : PackagePath [[97, 92, 98]] := ⟨by decide, by decide, by decide⟩
  have hpath' : PackagePath [[97], [98]] := ⟨by decide, by decide, by decide⟩
  have hname : relativeName [[97, 92, 98]] = relativeName [[97], [98]] := by
    have hfirst : [47].intercalate [[97, 92, 98]] = Utf8.encode ['a', '\\', 'b'] := by decide
    have hsecond : [47].intercalate [[97], [98]] = Utf8.encode ['a', '/', 'b'] := by decide
    rw [relativeName, relativeName, hfirst, hsecond, Utf8.lossy_encode, Utf8.lossy_encode]
    rfl
  refine ⟨wellFormed_singleFile hpath.names, wellFormed_singleFile hpath'.names,
    fun sha256 => ⟨_, packageDigest_singleFile sha256 hpath, ?_⟩, fun hsame => ?_⟩
  · rw [hname]
    exact packageDigest_singleFile sha256 hpath'
  · have hmem := (hsame ([[97, 92, 98]], [])).mp
    rw [PackageEntry.files, PackageEntry.files, backslashPackage, nestedPackage,
      entryFiles_singleFile, entryFiles_singleFile] at hmem
    exact absurd (hmem List.mem_cons_self) (by decide)

end KakuneCore
