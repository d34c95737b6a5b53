import KakuneCore.Plugins.Staging

/-!
# Staging a source

A local source is copied into the staging directory. A repository is checked out into a directory of
its own **inside** the staging directory, copied out of it, and the checkout is removed.

The main result, `stageSource_exact_iff`: the staging directory gets exactly the files of the
source, unless the repository has files in a directory with the name of the checkout. Those are
copied into the checkout and removed with it.
-/

namespace KakuneCore

open Files

/-! ### Sources -/

/-- The directory that a repository is checked out to. -/
def checkoutName : Bytes := asciiBytes ".checkout"

/-- A source: the canonical root of a tree, or the commands that check a repository out. -/
inductive PluginSource
  | local (root : List Bytes)
  | git (checkOut : Disk Bytes → Except StageError (Disk Bytes))

section Source

variable (listing : Disk Bytes → List Bytes → List Bytes)

/-- `copy_tree`. -/
def copyTree (disk : Disk Bytes) (source destination : List Bytes) : StageOutcome :=
  copyTreeWithLimits listing maxPluginFiles maxPluginPackageBytes disk source destination

/-- `stage_git`, behind the commands. -/
def stageCheckout (disk : Disk Bytes) (staging : List Bytes) : StageOutcome :=
  (copyTree listing disk (staging ++ [checkoutName]) staging).andThen fun staged =>
    ({ staged with disk := staged.disk.removeDirAll (staging ++ [checkoutName]) (by simp) }, .ok ())

/-- `stage_source`, of a tree or a repository. -/
def stageSource (disk : Disk Bytes) (staging : List Bytes) : PluginSource → StageOutcome
  | .local root => copyTree listing disk root staging
  | .git checkOut =>
    match checkOut disk with
    | .error error => (Staged.start disk).stop error
    | .ok disk => stageCheckout listing disk staging

end Source

/-! ### Steps that succeed -/

section Steps

variable {maxFiles maxBytes : Nat} {source destination front : List Bytes} {name contents : Bytes}
  {staged : Staged} {outcome : StageOutcome}
  {descend : List Bytes → List Bytes → Staged → StageOutcome}

theorem StageOutcome.andThen_eq_ok {next : Staged → StageOutcome}
    (h : (outcome.andThen next).2 = .ok ()) :
    outcome.2 = .ok () ∧ outcome.andThen next = next outcome.1 := by
  cases hfirst : outcome.2 with
  | ok => exact ⟨rfl, by rw [andThen, hfirst]⟩
  | error error =>
    rw [andThen, hfirst] at h
    rw [hfirst] at h
    cases h

theorem Staged.countFile_eq_ok {limit : Nat} {text : String}
    (h : (staged.countFile limit text).2 = .ok ()) :
    (staged.countFile limit text).1.disk = staged.disk := by
  rcases lt_or_ge limit (saturatingAddU64 staged.count 1) with hlt | hle
  · rw [countFile_of_lt text hlt] at h
    cases h
  · rw [countFile_of_le text hle]

theorem Staged.charge_eq_ok {bytes limit : Nat} {text : String}
    (h : (staged.charge bytes limit text).2 = .ok ()) :
    saturatingAddU64 staged.bytes bytes ≤ limit ∧
      (staged.charge bytes limit text).1.disk = staged.disk := by
  rcases lt_or_ge limit (saturatingAddU64 staged.bytes bytes) with hlt | hle
  · rw [charge_of_lt text hlt] at h
    cases h
  · exact ⟨hle, by rw [charge_of_le text hle]⟩

/-- A file that is copied stands where it may, with all its contents. -/
structure Wrote (disk disk' : Disk Bytes) (front : List Bytes) (name contents : Bytes) : Prop where
  keeps : disk.Keeps disk'
  node : ∀ place, disk'.node place =
    if place = front ++ [name] then some (.file contents) else disk.node place

theorem copyFile_eq_ok (hbytes : maxBytes < 2 ^ 64 - 1)
    (h : (copyFile maxBytes front name contents staged).2 = .ok ()) :
    Wrote staged.disk
      (copyFile maxBytes front name contents staged).1.disk front name contents := by
  have hlimit : checkedAddU64 (maxBytes - staged.bytes) 1 = some (maxBytes - staged.bytes + 1) := by
    rw [checkedAddU64, if_pos (by omega)]
  rw [copyFile] at h ⊢
  obtain ⟨hopen, hrest⟩ := StageOutcome.andThen_eq_ok h
  rw [hrest] at h ⊢
  rw [hlimit] at h ⊢
  dsimp only at h ⊢
  obtain ⟨hcreate, -⟩ := staged.disk.createFile_spec front name
  cases hfile : staged.disk.createFile front name with
  | error fault =>
    rw [Staged.createFile, hfile] at hopen
    cases hopen
  | ok created =>
    obtain ⟨hadmits, rfl, hold⟩ := hcreate created hfile
    rw [Staged.createFile, hfile] at h ⊢
    obtain ⟨hcharge, hdisk⟩ := Staged.charge_eq_ok h
    rw [hdisk]
    dsimp only [Staged.copyBytes] at hcharge ⊢
    -- within the limit the contents are not cut
    have hwhole : contents.take (maxBytes - staged.bytes + 1) = contents := by
      rw [saturatingAddU64, List.length_take] at hcharge
      exact List.take_of_length_le (by omega)
    rw [hwhole]
    have hkeeps : staged.disk.Keeps (staged.disk.put front name (.file [])) :=
      Disk.keeps_put hadmits fun old h => (hold old h).symm
    have hnode : ∀ place, (staged.disk.put front name (.file [])).node place =
        if place = front ++ [name] then some (.file []) else staged.disk.node place :=
      Disk.node_put hadmits
    have hself := (hnode (front ++ [name])).trans (if_pos rfl)
    have hadmits' : (staged.disk.put front name (.file [])).Admits front name :=
      ⟨hkeeps.directory hadmits.1, by rw [hself]; simp⟩
    refine ⟨hkeeps.trans (Disk.keeps_put hadmits' fun old h => ?_), fun place => ?_⟩
    · rw [hself] at h
      cases h
      rfl
    · rw [Disk.node_put hadmits', hnode]
      split_ifs <;> rfl

/-- What a turn of the loop that succeeds has done: nothing, for the name that is left out; a new
directory, and the copy into it; or a file. -/
theorem copyEntry_eq_ok (hbytes : maxBytes < 2 ^ 64 - 1)
    (h : (copyEntry maxFiles maxBytes descend source destination name staged).2 = .ok ()) :
    (name = gitName ∧
        copyEntry maxFiles maxBytes descend source destination name staged = (staged, .ok ())) ∨
      name ≠ gitName ∧
        ((staged.disk.node (source ++ [name]) = some .directory ∧
          ∃ made : Staged, staged.disk.AddsOn made.disk (destination ++ [name]) ∧
            made.disk.node (destination ++ [name]) = some .directory ∧
            copyEntry maxFiles maxBytes descend source destination name staged =
              descend (source ++ [name]) (destination ++ [name]) made) ∨
        ∃ contents, staged.disk.node (source ++ [name]) = some (.file contents) ∧
          Wrote staged.disk
            (copyEntry maxFiles maxBytes descend source destination name staged).1.disk destination
            name contents) := by
  rw [copyEntry] at h ⊢
  by_cases hgit : name = gitName
  · rw [if_pos hgit]
    exact .inl ⟨hgit, rfl⟩
  · rw [if_neg hgit] at h ⊢
    refine .inr ⟨hgit, ?_⟩
    cases hnode : staged.disk.node (source ++ [name]) with
    | none =>
      rw [hnode] at h
      cases h
    | some node =>
      rw [hnode] at h
      cases node with
      | link => cases h
      | special =>
        dsimp only at h
        obtain ⟨-, hrest⟩ := StageOutcome.andThen_eq_ok h
        rw [hrest] at h
        cases h
      | file contents =>
        dsimp only at h ⊢
        obtain ⟨hcount, hrest⟩ := StageOutcome.andThen_eq_ok h
        refine .inr ⟨contents, rfl, ?_⟩
        rw [hrest] at h ⊢
        have hwrote := copyFile_eq_ok hbytes h
        rwa [Staged.countFile_eq_ok hcount] at hwrote
      | directory =>
        dsimp only at h ⊢
        obtain ⟨hcount, hrest⟩ := StageOutcome.andThen_eq_ok h
        rw [hrest] at h
        obtain ⟨hmade, hdescend⟩ := StageOutcome.andThen_eq_ok h
        have hdisk := Staged.countFile_eq_ok hcount
        refine .inl ⟨rfl, _, ?_, ?_, hrest.trans hdescend⟩
        · have hadds := (staged.disk.createDirAll_spec (destination ++ [name])).1
          rw [← hdisk] at hadds
          rwa [← hdisk]
        · refine (Disk.createDirAll_spec _ (destination ++ [name])).2.2 ?_
          rw [Staged.createDirAll] at hmade
          dsimp only at hmade
          revert hmade
          cases (Disk.createDirAll _ (destination ++ [name])).2 with
          | ok => exact fun _ => rfl
          | error fault =>
            intro hmade
            cases hmade

/-- A loop that succeeds: what every turn preserves holds at the end, and what a turn establishes
holds too, if it is preserved. -/
theorem copyEntries_eq_ok (motive : Staged → Prop) (reached : Bytes → Staged → Prop)
    (hstep : ∀ name (staged : Staged), motive staged →
      (copyEntry maxFiles maxBytes descend source destination name staged).2 = .ok () →
      motive (copyEntry maxFiles maxBytes descend source destination name staged).1 ∧
        reached name (copyEntry maxFiles maxBytes descend source destination name staged).1 ∧
        ∀ other, reached other staged →
          reached other (copyEntry maxFiles maxBytes descend source destination name staged).1)
    {names : List Bytes} (hstaged : motive staged)
    (h : (copyEntries maxFiles maxBytes descend source destination names staged).2 = .ok ()) :
    motive (copyEntries maxFiles maxBytes descend source destination names staged).1 ∧
      (∀ name ∈ names,
        reached name (copyEntries maxFiles maxBytes descend source destination names staged).1) ∧
      ∀ other, reached other staged →
        reached other
          (copyEntries maxFiles maxBytes descend source destination names staged).1 := by
  induction names generalizing staged with
  | nil => exact ⟨hstaged, by simp, fun _ h => h⟩
  | cons name names ih =>
    rw [copyEntries] at h ⊢
    obtain ⟨hturn, hrest⟩ := StageOutcome.andThen_eq_ok h
    rw [hrest] at h ⊢
    obtain ⟨hmotive, hreached, hkept⟩ := hstep name staged hstaged hturn
    obtain ⟨hmotive', hnames, hkept'⟩ := ih hmotive h
    refine ⟨hmotive', ?_, fun other hother => hkept' other (hkept other hother)⟩
    rw [List.forall_mem_cons]
    exact ⟨hkept' name hreached, hnames⟩

theorem copyTreeBounded_eq_ok {listing : Disk Bytes → List Bytes → List Bytes} {levels : Nat}
    (h : (copyTreeBounded listing maxFiles maxBytes levels source destination staged).2 = .ok ()) :
    ∃ rest, levels = rest + 1 ∧ staged.disk.node source = some .directory ∧
      copyTreeBounded listing maxFiles maxBytes levels source destination staged =
        copyEntries maxFiles maxBytes (copyTreeBounded listing maxFiles maxBytes rest) source
          destination (listing staged.disk source) staged := by
  cases levels with
  | zero => cases h
  | succ rest =>
    rw [copyTreeBounded] at h ⊢
    dsimp only at h ⊢
    by_cases hsource : staged.disk.node source = some .directory
    · rw [if_pos hsource]
      exact ⟨rest, rfl, hsource, rfl⟩
    · rw [if_neg hsource] at h
      cases h

end Steps

/-! ### What is lost, and what is copied into itself -/

section Copies

variable {listing : Disk Bytes → List Bytes → List Bytes} {maxFiles maxBytes : Nat}

/-- `read_dir` finds at least what is there when the directory is opened. -/
def Lists (listing : Disk Bytes → List Bytes → List Bytes) : Prop :=
  ∀ disk place name, disk.node (place ++ [name]) ≠ none → name ∈ listing disk place

theorem keeps_copyEntry (hbytes : maxBytes < 2 ^ 64 - 1)
    {descend : List Bytes → List Bytes → Staged → StageOutcome}
    (hdescend : ∀ source destination staged, (descend source destination staged).2 = .ok () →
      staged.disk.Keeps (descend source destination staged).1.disk)
    {source destination : List Bytes} {name : Bytes} {staged : Staged}
    (h : (copyEntry maxFiles maxBytes descend source destination name staged).2 = .ok ()) :
    staged.disk.Keeps
      (copyEntry maxFiles maxBytes descend source destination name staged).1.disk := by
  rcases copyEntry_eq_ok hbytes h with
    ⟨-, heq⟩ | ⟨-, ⟨-, made, hadds, -, heq⟩ | ⟨contents, -, hwrote⟩⟩
  · rw [heq]
    exact .refl _
  · rw [heq] at h ⊢
    exact hadds.keeps.trans (hdescend _ _ made h)
  · exact hwrote.keeps

/-- A copy that succeeds loses nothing. -/
theorem keeps_copyTreeBounded (hbytes : maxBytes < 2 ^ 64 - 1) (levels : Nat)
    (source destination : List Bytes) (staged : Staged)
    (h : (copyTreeBounded listing maxFiles maxBytes levels source destination staged).2 = .ok ()) :
    staged.disk.Keeps
      (copyTreeBounded listing maxFiles maxBytes levels source destination staged).1.disk := by
  induction levels generalizing source destination staged with
  | zero => cases h
  | succ levels ih =>
    obtain ⟨rest, hlevels, -, heq⟩ := copyTreeBounded_eq_ok h
    obtain rfl : levels = rest := Nat.succ.inj hlevels
    rw [heq] at h ⊢
    refine (copyEntries_eq_ok (fun other => staged.disk.Keeps other.disk) (fun _ _ => True)
      (fun name other hkeeps hturn => ?_) (.refl _) h).1
    exact ⟨hkeeps.trans (keeps_copyEntry hbytes ih hturn), trivial, fun _ _ => trivial⟩

/-- **A tree is not copied into itself**: each level of the copy makes another level of the
source. -/
theorem copy_inside_fails (hbytes : maxBytes < 2 ^ 64 - 1) (hlisting : Lists listing) (levels : Nat)
    (source : List Bytes) {path : List Bytes} (hne : path ≠ []) (hgit : gitName ∉ path)
    (staged : Staged) (hdestination : staged.disk.node (source ++ path) = some .directory) :
    (copyTreeBounded listing maxFiles maxBytes levels source (source ++ path) staged).2 ≠
      .ok () := by
  induction levels generalizing source path staged with
  | zero => nofun
  | succ levels ih =>
    intro h
    obtain ⟨rest, hlevels, -, heq⟩ := copyTreeBounded_eq_ok h
    obtain rfl : levels = rest := Nat.succ.inj hlevels
    rw [heq] at h
    obtain ⟨first, path, rfl⟩ := List.exists_cons_of_ne_nil hne
    rw [List.mem_cons, not_or] at hgit
    have hassoc : source ++ first :: path = source ++ [first] ++ path := by simp
    have hfirst : staged.disk.node (source ++ [first]) = some .directory := by
      rcases eq_or_ne path [] with rfl | hpath
      · exact hdestination
      · rw [hassoc] at hdestination
        exact staged.disk.directory_of_prefix (by rw [hdestination]; simp) (List.prefix_append _ _)
          (by simpa using hpath)
    have hlisted : first ∈ listing staged.disk source :=
      hlisting staged.disk source first (by rw [hfirst]; simp)
    -- no turn of the loop is about the name that leads to the destination
    refine (copyEntries_eq_ok (fun other => staged.disk.Keeps other.disk)
      (fun name _ => name ≠ first) ?_ (.refl _) h).2.1 first hlisted rfl
    intro name other hkeeps hturn
    refine ⟨hkeeps.trans (keeps_copyEntry hbytes (keeps_copyTreeBounded hbytes levels) hturn), ?_,
      fun _ h => h⟩
    rintro rfl
    rcases copyEntry_eq_ok hbytes hturn with
      ⟨hname, -⟩ | ⟨-, ⟨-, made, hadds, hmade, heq⟩ | ⟨contents, hfile, -⟩⟩
    · exact hgit.1 hname.symm
    · rw [heq] at hturn
      have hdestination' :
          source ++ name :: path ++ [name] = source ++ [name] ++ (path ++ [name]) := by
        simp
      rw [hdestination'] at hturn hmade
      refine ih (source ++ [name]) (by simp) ?_ made hmade hturn
      rw [List.mem_append, not_or, List.mem_singleton]
      exact ⟨hgit.2, hgit.1⟩
    · rw [hkeeps.directory hfirst] at hfile
      cases hfile

end Copies

/-! ### Mirrors -/

section Mirrors

variable {listing : Disk Bytes → List Bytes → List Bytes} {maxFiles maxBytes : Nat}
  {start disk disk' : Disk Bytes} {source staging : List Bytes}

/-- No file of the source is copied into the source. -/
def SourceApart (start : Disk Bytes) (source staging : List Bytes) : Prop :=
  ∀ path contents path', gitName ∉ path → gitName ∉ path' →
    start.node (source ++ path) = some (.file contents) → staging ++ path ≠ source ++ path'

/-- A disk in the course of a copy: the source is as it was, and the files in the staging directory
were there or are copies. -/
structure Mirrors (start : Disk Bytes) (source staging : List Bytes) (disk : Disk Bytes) :
    Prop where
  keeps : start.Keeps disk
  sources : ∀ path contents, gitName ∉ path →
    (disk.node (source ++ path) = some (.file contents) ↔
      start.node (source ++ path) = some (.file contents))
  copies : ∀ path contents, disk.node (staging ++ path) = some (.file contents) →
    start.node (staging ++ path) = some (.file contents) ∨
      gitName ∉ path ∧ start.node (source ++ path) = some (.file contents)

/-- What stands below a path of the source is in the staging directory. -/
def Arrived (start : Disk Bytes) (source staging : List Bytes) (disk : Disk Bytes)
    (path : List Bytes) : Prop :=
  ∀ rest contents, gitName ∉ rest → start.node (source ++ (path ++ rest)) = some (.file contents) →
    ∃ contents', disk.node (staging ++ (path ++ rest)) = some (.file contents')

theorem Arrived.keeps {path : List Bytes} (h : Arrived start source staging disk path)
    (hkeeps : disk.Keeps disk') : Arrived start source staging disk' path := by
  intro rest contents hgit hfile
  obtain ⟨contents', hcopied⟩ := h rest contents hgit hfile
  exact hkeeps.file hcopied

theorem Mirrors.addsOn (h : Mirrors start source staging disk) {place : List Bytes}
    (hadds : disk.AddsOn disk' place) : Mirrors start source staging disk' where
  keeps := h.keeps.trans hadds.keeps
  sources path contents hgit := hadds.file_iff.trans (h.sources path contents hgit)
  copies path contents hfile := h.copies path contents (hadds.file_iff.mp hfile)

/-- A file of the source is copied. -/
theorem Mirrors.wrote (h : Mirrors start source staging disk)
    (hapart : SourceApart start source staging)
    {path : List Bytes} {name contents : Bytes} (hgit : gitName ∉ path ++ [name])
    (hfile : disk.node (source ++ path ++ [name]) = some (.file contents))
    (hwrote : Wrote disk disk' (staging ++ path) name contents) :
    Mirrors start source staging disk' ∧ Arrived start source staging disk' (path ++ [name]) := by
  rw [List.append_assoc] at hfile
  have hstart := (h.sources _ _ hgit).mp hfile
  have hnode := hwrote.node
  rw [List.append_assoc] at hnode
  refine ⟨⟨h.keeps.trans hwrote.keeps, ?_, ?_⟩, ?_⟩
  · intro path' contents' hgit'
    rw [hnode, if_neg (hapart _ _ _ hgit hgit' hstart).symm]
    exact h.sources path' contents' hgit'
  · intro path' contents' hfile'
    rw [hnode] at hfile'
    split_ifs at hfile' with hplace
    · obtain rfl := List.append_cancel_left hplace
      cases hfile'
      exact .inr ⟨hgit, hstart⟩
    · exact h.copies path' contents' hfile'
  · intro rest contents' _ hbelow
    -- nothing stands below a file
    have hrest : rest = [] := by
      by_contra hne
      have hdirectory := start.directory_of_prefix (by rw [hbelow]; simp)
        ((List.prefix_append_right_inj source).mpr (List.prefix_append (path ++ [name]) rest))
        (by simpa using hne)
      rw [hstart] at hdirectory
      cases hdirectory
    subst hrest
    rw [List.append_nil, hnode, if_pos rfl]
    exact ⟨contents, rfl⟩

/-- **A tree is mirrored**: after a copy that succeeds, all files below the path have been
copied. -/
theorem mirrors_copyTreeBounded (hbytes : maxBytes < 2 ^ 64 - 1) (hlisting : Lists listing)
    (hapart : SourceApart start source staging) (levels : Nat) {path : List Bytes}
    (hgit : gitName ∉ path)
    {staged : Staged} (hmirrors : Mirrors start source staging staged.disk)
    (h : (copyTreeBounded listing maxFiles maxBytes levels (source ++ path) (staging ++ path)
      staged).2 = .ok ()) :
    Mirrors start source staging (copyTreeBounded listing maxFiles maxBytes levels (source ++ path)
        (staging ++ path) staged).1.disk ∧
      Arrived start source staging
        (copyTreeBounded listing maxFiles maxBytes levels (source ++ path)
        (staging ++ path) staged).1.disk path := by
  induction levels generalizing path staged with
  | zero => cases h
  | succ levels ih =>
    obtain ⟨rest, hlevels, hdirectory, heq⟩ := copyTreeBounded_eq_ok h
    obtain rfl : levels = rest := Nat.succ.inj hlevels
    rw [heq] at h ⊢
    have hloop := copyEntries_eq_ok (fun other => Mirrors start source staging other.disk)
      (fun name other => name ≠ gitName → Arrived start source staging other.disk (path ++ [name]))
      (fun name other hother hturn => ?_) hmirrors h
    · refine ⟨hloop.1, fun names contents hnames hfile => ?_⟩
      cases names with
      | nil =>
        -- the path leads to a directory
        obtain ⟨contents', hkept⟩ := hmirrors.keeps.file hfile
        rw [List.append_nil, hdirectory] at hkept
        cases hkept
      | cons name names =>
        rw [List.mem_cons, not_or] at hnames
        have hassoc : path ++ name :: names = path ++ [name] ++ names := by simp
        have hlisted : name ∈ listing staged.disk (source ++ path) := by
          refine hlisting _ _ _ fun hnone => ?_
          have hthere : start.node (source ++ path ++ [name]) ≠ none := by
            rcases eq_or_ne names [] with rfl | hne
            · rw [List.append_assoc, hfile]
              simp
            · rw [start.directory_of_prefix (by rw [hfile]; simp) ?_ ?_]
              · simp
              · exact ⟨names, by simp⟩
              · simpa using hne
          obtain ⟨node, hnode⟩ := Option.ne_none_iff_exists'.mp hthere
          obtain ⟨node', hnode', -⟩ := hmirrors.keeps _ _ hnode
          rw [hnone] at hnode'
          cases hnode'
        rw [hassoc] at hfile ⊢
        exact hloop.2.1 name hlisted (Ne.symm hnames.1) names contents hnames.2 hfile
    · have hkeeps := keeps_copyEntry hbytes (keeps_copyTreeBounded hbytes levels) hturn
      have hkept : ∀ other', (other' ≠ gitName →
          Arrived start source staging other.disk (path ++ [other'])) → other' ≠ gitName →
          Arrived start source staging _ (path ++ [other']) := fun other' hreached hne =>
        (hreached hne).keeps hkeeps
      rcases copyEntry_eq_ok hbytes hturn with
        ⟨hname, heq⟩ | ⟨hname, ⟨-, made, hadds, -, heq⟩ | ⟨contents, hfile, hwrote⟩⟩
      · refine ⟨?_, fun hne => absurd hname hne, hkept⟩
        rw [heq]
        exact hother
      · rw [heq] at hturn
        rw [List.append_assoc, List.append_assoc] at hturn
        have hpath : gitName ∉ path ++ [name] := by
          rw [List.mem_append, not_or, List.mem_singleton]
          exact ⟨hgit, Ne.symm hname⟩
        obtain ⟨hmade, hreached⟩ := ih hpath (hother.addsOn hadds) hturn
        rw [← List.append_assoc, ← List.append_assoc, ← heq] at hmade hreached
        exact ⟨hmade, fun _ => hreached, hkept⟩
      · have hpath : gitName ∉ path ++ [name] := by
          rw [List.mem_append, not_or, List.mem_singleton]
          exact ⟨hgit, Ne.symm hname⟩
        obtain ⟨hmade, hreached⟩ := hother.wrote hapart hpath hfile hwrote
        exact ⟨hmade, fun _ => hreached, hkept⟩

end Mirrors

/-! ### The staged source -/

section Exact

variable {listing : Disk Bytes → List Bytes → List Bytes} {disk cloned : Disk Bytes}
  {staging root : List Bytes} {source : PluginSource}

/-- The disk with the tree of a source, and its root. -/
def PluginSource.tree (disk : Disk Bytes) (staging : List Bytes) :
    PluginSource → Disk Bytes × List Bytes
  | .local root => (disk, root)
  | .git checkOut =>
    match checkOut disk with
    | .error _ => (disk, staging ++ [checkoutName])
    | .ok cloned => (cloned, staging ++ [checkoutName])

/-- The files of a source: those that do not stand below the metadata of a repository. -/
def PluginSource.HasFile (source : PluginSource) (disk : Disk Bytes) (staging : List Bytes)
    (path : List Bytes) (contents : Bytes) : Prop :=
  gitName ∉ path ∧
    (source.tree disk staging).1.node ((source.tree disk staging).2 ++ path) =
      some (.file contents)

/-- The staging directory has exactly the files of the source. -/
def StagesExactly (source : PluginSource) (disk : Disk Bytes) (staging : List Bytes)
    (staged : Staged) : Prop :=
  ∀ path contents, staged.disk.node (staging ++ path) = some (.file contents) ↔
    source.HasFile disk staging path contents

/-- No file stands where a checkout would be. -/
def PluginSource.SparesCheckout (disk : Disk Bytes) (staging : List Bytes) : PluginSource → Prop
  | .local _ => True
  | .git checkOut => ∀ path contents,
    ¬ (PluginSource.git checkOut).HasFile disk staging (checkoutName :: path) contents

/-- What a checkout leaves in the staging directory is the checkout. -/
def PluginSource.ChecksOut (disk : Disk Bytes) (staging : List Bytes) : PluginSource → Prop
  | .local _ => True
  | .git checkOut => ∀ cloned, checkOut disk = .ok cloned →
    cloned.node staging = some .directory ∧
      ∀ place, Inside staging place → cloned.node place ≠ none →
        staging ++ [checkoutName] <+: place

/-- The disk without anything inside the staging directory keeps no files there. -/
theorem EmptyAt.not_file (h : EmptyAt disk staging) (path : List Bytes) (contents : Bytes) :
    disk.node (staging ++ path) ≠ some (.file contents) := by
  intro hfile
  rcases eq_or_ne path [] with rfl | hne
  · rw [List.append_nil, h.directory] at hfile
    cases hfile
  · rw [h.empty _ (inside_append staging hne)] at hfile
    cases hfile

/-- A tree and an empty directory are apart, if the directory is not in the tree. -/
theorem EmptyAt.apart (h : EmptyAt disk staging)
    (hout : ∀ path, staging = root ++ path → path ≠ [] → gitName ∈ path) :
    SourceApart disk root staging := by
  intro path contents path' hgit hgit' hfile heq
  rcases List.prefix_or_prefix_of_prefix (List.prefix_append staging path)
    (heq ▸ List.prefix_append root path') with ⟨rest, hrest⟩ | ⟨rest, hrest⟩
  · -- the tree is in the directory, where there is none
    rw [← hrest, List.append_assoc] at hfile
    exact h.not_file _ _ hfile
  · rw [← hrest, List.append_assoc] at heq
    obtain rfl := List.append_cancel_left heq
    rw [List.mem_append, not_or] at hgit'
    rcases eq_or_ne rest [] with rfl | hne
    · rw [List.append_nil] at hrest
      rw [hrest] at hfile
      exact h.not_file _ _ hfile
    · exact hgit'.1 (hout rest hrest.symm hne)

/-- What has been mirrored when the whole source is copied. -/
theorem mirrors_copyTree (hlisting : Lists listing) (hapart : SourceApart disk root staging)
    (h : (copyTree listing disk root staging).2 = .ok ()) :
    Mirrors disk root staging (copyTree listing disk root staging).1.disk ∧
      Arrived disk root staging (copyTree listing disk root staging).1.disk [] := by
  have hcopy := @mirrors_copyTreeBounded listing maxPluginFiles maxPluginPackageBytes disk root
    staging (by decide) hlisting hapart 33 [] (by simp) (.start disk)
    ⟨.refl disk, fun _ _ _ => Iff.rfl, fun _ _ h => .inl h⟩
  rw [List.append_nil, List.append_nil] at hcopy
  exact hcopy h

/-- **A local source is staged exactly.** -/
theorem stageSource_local (hlisting : Lists listing) (hempty : EmptyAt disk staging)
    (h : (stageSource listing disk staging (.local root)).2 = .ok ()) :
    StagesExactly (.local root) disk staging
      (stageSource listing disk staging (.local root)).1 := by
  have hout : ∀ path, staging = root ++ path → path ≠ [] → gitName ∈ path := by
    intro path hpath hne
    by_contra hgit
    refine copy_inside_fails (by decide) hlisting 33 root hne hgit (.start disk) ?_ (hpath ▸ h)
    rw [← hpath]
    exact hempty.directory
  obtain ⟨hmirrors, hreaches⟩ := mirrors_copyTree hlisting (hempty.apart hout) h
  intro path contents
  constructor
  · intro hfile
    exact (hmirrors.copies path contents hfile).resolve_left (hempty.not_file path contents)
  · rintro ⟨hgit, hfile⟩
    obtain ⟨contents', hcopied⟩ := hreaches path contents hgit hfile
    have hsource := (hmirrors.copies path contents' hcopied).resolve_left
      (hempty.not_file path contents')
    have hsame : disk.node (root ++ path) = some (.file contents) := hfile
    rw [hsource.2] at hsame
    cases hsame
    exact hcopied

/-- **A repository is staged exactly when it spares the name of the checkout.** -/
theorem stageCheckout_iff (hlisting : Lists listing)
    (hdirectory : cloned.node staging = some .directory)
    (honly : ∀ place, Inside staging place → cloned.node place ≠ none →
      staging ++ [checkoutName] <+: place)
    (h : (stageCheckout listing cloned staging).2 = .ok ()) :
    (∀ path contents,
      (stageCheckout listing cloned staging).1.disk.node (staging ++ path) =
          some (.file contents) ↔
        gitName ∉ path ∧
          cloned.node (staging ++ [checkoutName] ++ path) = some (.file contents)) ↔
      ∀ path contents, ¬ (gitName ∉ checkoutName :: path ∧
        cloned.node (staging ++ [checkoutName] ++ checkoutName :: path) =
          some (.file contents)) := by
  rw [stageCheckout] at h ⊢
  obtain ⟨hcopy, heq⟩ := StageOutcome.andThen_eq_ok h
  rw [heq]
  have hremoved : ∀ path, (staging ++ [checkoutName] <+: staging ++ path ↔
      ∃ rest, path = checkoutName :: rest) := by
    intro path
    rw [List.prefix_append_right_inj]
    constructor
    · rintro ⟨rest, rfl⟩
      exact ⟨rest, rfl⟩
    · rintro ⟨rest, rfl⟩
      exact ⟨rest, rfl⟩
  constructor
  · rintro hexact path contents hfile
    have hgone := (hexact (checkoutName :: path) contents).mpr hfile
    dsimp only [Disk.removeDirAll] at hgone
    rw [if_pos ((hremoved _).mpr ⟨path, rfl⟩)] at hgone
    cases hgone
  · intro hspares
    have hapart : SourceApart cloned (staging ++ [checkoutName]) staging := by
      intro path contents path' hgit hgit' hfile heq'
      rw [List.append_assoc] at heq'
      obtain rfl := List.append_cancel_left heq'
      exact hspares path' contents ⟨hgit, hfile⟩
    obtain ⟨hmirrors, hreaches⟩ := mirrors_copyTree hlisting hapart hcopy
    have hcopied : ∀ path contents, (¬ ∃ rest, path = checkoutName :: rest) →
        cloned.node (staging ++ path) ≠ some (.file contents) := by
      intro path contents hpath hfile
      rcases eq_or_ne path [] with rfl | hne
      · rw [List.append_nil, hdirectory] at hfile
        cases hfile
      · exact hpath ((hremoved path).mp (honly _ (inside_append staging hne) (by rw [hfile]; simp)))
    intro path contents
    dsimp only [Disk.removeDirAll]
    by_cases hpath : ∃ rest, path = checkoutName :: rest
    · rw [if_pos ((hremoved path).mpr hpath)]
      obtain ⟨rest, rfl⟩ := hpath
      exact iff_of_false nofun (hspares rest contents)
    · rw [if_neg fun hleads => hpath ((hremoved path).mp hleads)]
      constructor
      · intro hfile
        exact (hmirrors.copies path contents hfile).resolve_left (hcopied path contents hpath)
      · rintro ⟨hgit, hfile⟩
        obtain ⟨contents', hfile'⟩ := hreaches path contents hgit hfile
        have hsource := (hmirrors.copies path contents' hfile').resolve_left
          (hcopied path contents' hpath)
        rw [hsource.2] at hfile
        cases hfile
        exact hfile'

/-- **Staging is exact** if and only if the source is a tree, or a repository with no file below a
directory with the name of the checkout. -/
theorem stageSource_exact_iff (hlisting : Lists listing) (hempty : EmptyAt disk staging)
    (hchecks : source.ChecksOut disk staging)
    (h : (stageSource listing disk staging source).2 = .ok ()) :
    StagesExactly source disk staging (stageSource listing disk staging source).1 ↔
      source.SparesCheckout disk staging := by
  cases source with
  | «local» root => exact iff_of_true (stageSource_local hlisting hempty h) trivial
  | git checkOut =>
    rw [stageSource] at h ⊢
    cases hcloned : checkOut disk with
    | error error =>
      rw [hcloned] at h
      cases h
    | ok cloned =>
      rw [hcloned] at h
      obtain ⟨hdirectory, honly⟩ := hchecks cloned hcloned
      have hiff := stageCheckout_iff hlisting hdirectory honly h
      simpa only [StagesExactly, PluginSource.HasFile, PluginSource.SparesCheckout,
        PluginSource.tree, hcloned] using hiff

end Exact

theorem lists_children : Lists Disk.children := fun _ _ _ h => Disk.mem_children h

/-- A checkout with a manifest. -/
def manifestCheckout : Disk Bytes :=
  (Disk.empty.put [] checkoutName .directory).put [checkoutName] (asciiBytes "manifest") (.file [1])

/-- A checkout with a directory of its own name. -/
def nestedCheckout : Disk Bytes :=
  (manifestCheckout.put [checkoutName] checkoutName .directory).put [checkoutName, checkoutName]
    (asciiBytes "notes") (.file [2])

/-- The manifest is staged. -/
theorem manifest_is_staged :
    StagesExactly (.git fun _ => .ok manifestCheckout) .empty []
        (stageSource Disk.children .empty [] (.git fun _ => .ok manifestCheckout)).1 ↔
      (PluginSource.git fun _ => .ok manifestCheckout).SparesCheckout .empty [] := by
  refine stageSource_exact_iff lists_children emptyAt_empty ?_ (by decide +kernel)
  rintro cloned hcloned
  obtain rfl : manifestCheckout = cloned := Except.ok.inj hcloned
  have honly : ∀ place ∈ manifestCheckout.places, place ≠ [] → [checkoutName] <+: place := by
    decide +kernel
  exact ⟨by decide +kernel, fun place hinside hnode =>
    honly place (manifestCheckout.listed place hnode) hinside.2⟩

/-- The notes below a directory with the name of the checkout are lost. -/
theorem nested_checkout_is_lost :
    (stageSource Disk.children .empty [] (.git fun _ => .ok nestedCheckout)).2 = .ok () ∧
      (PluginSource.git fun _ => .ok nestedCheckout).HasFile .empty []
        [checkoutName, asciiBytes "notes"] [2] ∧
      ¬ StagesExactly (.git fun _ => .ok nestedCheckout) .empty []
        (stageSource Disk.children .empty [] (.git fun _ => .ok nestedCheckout)).1 := by
  have hfile : (PluginSource.git fun _ => .ok nestedCheckout).HasFile .empty []
      [checkoutName, asciiBytes "notes"] [2] := by
    refine ⟨by decide, ?_⟩
    change nestedCheckout.node [checkoutName, checkoutName, asciiBytes "notes"] = some (.file [2])
    decide +kernel
  refine ⟨by decide +kernel, hfile, fun hexact => ?_⟩
  have hstaged := (hexact _ _).mpr hfile
  revert hstaged
  decide +kernel

end KakuneCore
