import KakuneCore.Filesystem.Resolution

/-!
# Operations on paths

What the operations on files look up and touch: a directory is created by its last name, a file
opened for writing may be new, and renaming is about the entry itself, not what it links to. A base
directory **confines** a path when no beginning of the path leads out of the base; then the missing
directories on the path are created inside the base.
-/

namespace Files

/-- `ELOOP` comes after that many links. -/
def maxLinks : Nat := 40

variable (tree : Tree)

def isDirectory (path : List Step) : Bool :=
  match walk tree false maxLinks [] path with
  | .ok (_, place) => tree.entry place = some .directory
  | .error _ => false

def isFile (path : List Step) : Bool :=
  match walk tree false maxLinks [] path with
  | .ok (_, place) => tree.entry place = some .file
  | .error _ => false

/-- Open a file for reading. -/
def openForReading (path : List Step) : Except Failure Place := do
  let (_, place) ← walk tree false maxLinks [] path
  if tree.entry place = some .directory then .error .isDirectory else .ok place

/-- Open a file for writing, creating it where a link or the path itself ends in a missing name. -/
def openForWriting (path : List Step) : Except Failure Place := do
  let (_, place) ← walk tree true maxLinks [] path
  if tree.entry place = some .directory then .error .isDirectory else .ok place

/-- The entry with the last name of a path, whether or not it is there. -/
def entryOf (path : List Step) : Except Failure Place :=
  match path.getLast? with
  | some (.name name) => do
    let (_, place) ← walk tree false maxLinks [] path.dropLast
    if tree.entry place = some .directory then .ok (place ++ [name]) else .error .notDirectory
  | _ => .error .invalid

/-- Create one directory. -/
def mkdir (front : List Step) (last : Step) : Except Failure (Tree × Place) :=
  match last with
  | .name name => do
    let (_, place) ← walk tree false maxLinks [] front
    if hplace : tree.entry place = some .directory then
      if hnew : tree.entry (place ++ [name]) = none then
        .ok (tree.addDirectory place name hplace hnew, place ++ [name])
      else .error .alreadyExists
    else .error .notDirectory
  | _ => .error .alreadyExists

/-- The tree after a creation, the places created, and the outcome. -/
structure Created where
  tree : Tree
  made : List Place
  outcome : Except Failure Unit

/-- `create_dir_all`, over the path from its end. -/
def createUpwards (tree : Tree) : List Step → Created
  | [] => ⟨tree, [], .ok ()⟩
  | last :: above =>
    match mkdir tree above.reverse last with
    | .ok (tree', place) => ⟨tree', [place], .ok ()⟩
    | .error failure =>
      if failure = .missing then
        let parents := createUpwards tree above
        match parents.outcome with
        | .error failure => ⟨parents.tree, parents.made, .error failure⟩
        | .ok () =>
          match mkdir parents.tree above.reverse last with
          | .ok (tree', place) => ⟨tree', parents.made ++ [place], .ok ()⟩
          | .error failure =>
            ⟨parents.tree, parents.made,
              if isDirectory parents.tree (last :: above).reverse then .ok () else .error failure⟩
      else ⟨tree, [], if isDirectory tree (last :: above).reverse then .ok () else .error failure⟩

def createDirAll (path : List Step) : Created := createUpwards tree path.reverse

/-- No beginning of the path leads from the base out of it. -/
def Tree.Confines (base : Place) (path : List Step) : Prop :=
  ∀ front left goal, front <+: path →
    Walks tree false maxLinks [] (base.map .name ++ front) left goal → base <+: goal

variable {tree : Tree} {base place : Place} {path front : List Step} {left : Nat} {last : Step}

theorem isDirectory_of_walks (h : Walks tree false maxLinks [] path left place)
    (hplace : tree.entry place = some .directory) : isDirectory tree path = true := by
  rw [isDirectory, walk_eq_ok_iff.mpr h]
  exact decide_eq_true hplace

theorem exists_walks_of_isDirectory (h : isDirectory tree path = true) :
    ∃ left place, Walks tree false maxLinks [] path left place ∧
      tree.entry place = some .directory := by
  rw [isDirectory] at h
  rcases hwalk : walk tree false maxLinks [] path with failure | ⟨left, place⟩
  · simp [hwalk] at h
  · rw [hwalk] at h
    exact ⟨left, place, walk_eq_ok_iff.mp hwalk, of_decide_eq_true h⟩

theorem mkdir_of_walks (h : Walks tree false maxLinks [] front left place)
    (hplace : tree.entry place = some .directory) {name : String} :
    mkdir tree front (.name name) =
      if hnew : tree.entry (place ++ [name]) = none then
        .ok (tree.addDirectory place name hplace hnew, place ++ [name])
      else .error .alreadyExists := by
  rw [mkdir, walk_eq_ok_iff.mpr h]
  exact dif_pos hplace

theorem mkdir_eq_ok {result : Tree × Place} (h : mkdir tree front last = .ok result) :
    ∃ name left place, ∃ (hplace : tree.entry place = some .directory)
      (hnew : tree.entry (place ++ [name]) = none), last = .name name ∧
        Walks tree false maxLinks [] front left place ∧
        result = (tree.addDirectory place name hplace hnew, place ++ [name]) := by
  rcases last with - | - | name
  · simp [mkdir] at h
  · simp [mkdir] at h
  · rw [mkdir] at h
    rcases hwalk : walk tree false maxLinks [] front with failure | ⟨left, place⟩
    · rw [hwalk] at h
      cases h
    · rw [hwalk] at h
      change (if hplace : tree.entry place = some .directory then _ else _) = _ at h
      split_ifs at h with hplace hnew
      exact ⟨name, left, place, hplace, hnew, rfl, walk_eq_ok_iff.mp hwalk, (Except.ok.inj h).symm⟩

theorem below_of_mkdir {result : Tree × Place} (h : mkdir tree front last = .ok result) :
    tree.Below result.1 := by
  obtain ⟨name, left, place, hplace, hnew, -, -, rfl⟩ := mkdir_eq_ok h
  exact Tree.below_addDirectory hplace hnew

/-- Nothing is lost from the tree. -/
theorem below_createDirAll (tree : Tree) (path : List Step) :
    tree.Below (createDirAll tree path).tree := by
  rw [createDirAll]
  generalize path.reverse = above
  induction above with
  | nil => exact .refl tree
  | cons last above ih =>
    rw [createUpwards]
    rcases hmkdir : mkdir tree above.reverse last with failure | result
    · dsimp only
      by_cases hmissing : failure = .missing
      · rw [if_pos hmissing]
        rcases houtcome : (createUpwards tree above).outcome with failure' | _
        · exact ih
        · rcases hagain :
            mkdir (createUpwards tree above).tree above.reverse last with failure' | result
          · exact ih
          · exact fun place entry hentry => below_of_mkdir hagain _ _ (ih _ _ hentry)
      · rw [if_neg hmissing]
        exact .refl tree
    · exact below_of_mkdir hmkdir

/-- Something that is there is not created again. -/
theorem mkdir_of_walks_concat (h : Walks tree false maxLinks [] (front ++ [last]) left place) :
    mkdir tree front last = .error .alreadyExists := by
  obtain ⟨left', place', hfront, hlast⟩ := h.split rfl (List.cons_ne_nil _ _)
  rcases hlast with _ | _ | _ | ⟨hdir, hentry, hlink, -⟩ | ⟨hdir, hentry, -⟩ | ⟨hcreate, -, -⟩
  · rfl
  · rfl
  · rw [mkdir_of_walks hfront hdir, dif_neg (by simp [hentry])]
  · rw [mkdir_of_walks hfront hdir, dif_neg (by simp [hentry])]
  · simp at hcreate

/-- **An existing directory** is left alone. -/
theorem createDirAll_of_walks (h : Walks tree false maxLinks [] path left place)
    (hplace : tree.entry place = some .directory) :
    createDirAll tree path = ⟨tree, [], .ok ()⟩ := by
  rw [createDirAll]
  rcases hreverse : path.reverse with - | ⟨last, above⟩
  · rfl
  · have hpath : path = above.reverse ++ [last] := by
      rw [← List.reverse_reverse path, hreverse, List.reverse_cons]
    rw [hpath] at h
    rw [createUpwards, mkdir_of_walks_concat h, List.reverse_cons]
    dsimp only
    rw [if_neg (by simp), if_pos (isDirectory_of_walks h hplace)]

/-- What a creation that succeeds leaves: the tree as it was, with the directory in it; or more
directories, and at the path a new one inside the base. -/
def Created.Leaves (created : Created) (tree : Tree) (base : Place) (path : List Step) : Prop :=
  (created = ⟨tree, [], .ok ()⟩ ∧ ∃ left place, Walks tree false maxLinks [] path left place ∧
    tree.entry place = some .directory) ∨
  (tree.Below created.tree ∧ ∃ left place, Walks created.tree false maxLinks [] path left place ∧
    base <+: place ∧ created.tree.entry place = some .directory ∧
    ∀ name, created.tree.entry (place ++ [name]) = none)

/-- A directory created in one that the path leads to. -/
theorem leaves_of_mkdir {created : Created} {result : Tree × Place} {name : String}
    (hbelow : tree.Below created.tree)
    (hconfined : ∀ left place, Walks created.tree false maxLinks [] front left place →
      base <+: place)
    (h : mkdir created.tree front (.name name) = .ok result) (made : List Place) :
    base <+: result.2 ∧
      (⟨result.1, made, .ok ()⟩ : Created).Leaves tree base (front ++ [.name name]) := by
  obtain ⟨name', left, place, hplace, hnew, hname, hwalks, rfl⟩ := mkdir_eq_ok h
  obtain rfl : name = name' := Step.name.inj hname
  have hin : base <+: place ++ [name] :=
    (hconfined left place hwalks).trans (List.prefix_append _ _)
  have hadd := Tree.below_addDirectory hplace hnew
  refine ⟨hin, .inr ⟨fun other entry hother => hadd _ _ (hbelow _ _ hother), left, place ++ [name],
    ?_, hin, Tree.entry_addDirectory hplace hnew, Tree.entry_below_addDirectory hplace hnew⟩⟩
  exact (hwalks.mono hadd).append
    (.enter (hadd _ _ hplace) (Tree.entry_addDirectory hplace hnew) rfl (.done _ _))

/-- The parents have been created, and the directory is created in them. -/
theorem leaves_of_parents {parents : Created} (hbelow : tree.Below parents.tree)
    (hwalks : Walks parents.tree false maxLinks [] front left place) (hin : base <+: place)
    (hplace : parents.tree.entry place = some .directory)
    (hempty : ∀ name, parents.tree.entry (place ++ [name]) = none) (name : String) :
    ∃ result, mkdir parents.tree front (.name name) = .ok result ∧ base <+: result.2 ∧
      ∀ made, (⟨result.1, made, .ok ()⟩ : Created).Leaves tree base (front ++ [.name name]) := by
  have hnew : mkdir _ front (.name name) = _ := mkdir_of_walks hwalks hplace
  rw [dif_pos (hempty name)] at hnew
  have hwithin : ∀ left' place', Walks parents.tree false maxLinks [] front left' place' →
      base <+: place' := fun left' place' hwalks' => by
    obtain ⟨-, rfl⟩ := hwalks.unique hwalks'
    exact hin
  exact ⟨_, hnew, (leaves_of_mkdir hbelow hwithin hnew []).1,
    fun made => (leaves_of_mkdir hbelow hwithin hnew made).2⟩

/-- **Missing directories are created inside the base** when the path is confined to it. -/
theorem createDirAll_spec (hbase : tree.entry base = some .directory) {names : List String}
    (hconfined : tree.Confines base (names.map .name)) :
    (∀ place ∈ (createDirAll tree (base.map .name ++ names.map .name)).made, base <+: place) ∧
      ((createDirAll tree (base.map .name ++ names.map .name)).outcome = .ok () →
        (createDirAll tree (base.map .name ++ names.map .name)).Leaves tree base
          (base.map .name ++ names.map .name)) := by
  induction names using List.reverseRecOn with
  | nil =>
    have hwalks : Walks tree false maxLinks [] (base.map .name) maxLinks base := walks_names hbase
    rw [List.map_nil, List.append_nil, createDirAll_of_walks hwalks hbase]
    exact ⟨by simp, fun _ => .inl ⟨rfl, _, _, hwalks, hbase⟩⟩
  | append_singleton names name ih =>
    rw [List.map_append, List.map_singleton, ← List.append_assoc] at *
    obtain ⟨hmade, hleaves⟩ := ih fun front left goal hfront =>
      hconfined front left goal (hfront.trans (List.prefix_append _ _))
    generalize hpath : base.map Step.name ++ names.map Step.name = above at *
    have hwithin : ∀ left place, Walks tree false maxLinks [] above left place → base <+: place :=
      fun left place hwalks => hconfined (names.map .name) left place (List.prefix_append _ _)
        (hpath ▸ hwalks)
    have hupwards : createDirAll tree (above ++ [.name name]) =
        createUpwards tree (.name name :: above.reverse) := by
      rw [createDirAll, List.reverse_append, List.reverse_singleton, List.singleton_append]
    have hparents : createUpwards tree above.reverse = createDirAll tree above := rfl
    rw [hupwards, createUpwards, List.reverse_reverse, hparents]
    rcases hmkdir : mkdir tree above (.name name) with failure | result
    · dsimp only
      by_cases hmissing : failure = .missing
      · rw [if_pos hmissing]
        rcases houtcome : (createDirAll tree above).outcome with failure' | _
        · exact ⟨hmade, by simp⟩
        · rcases hleaves houtcome with ⟨-, left, place, hwalks, hplace⟩ |
            ⟨hbelow, left, place, hwalks, hin, hplace, hempty⟩
          · -- the parents are there, so the directory itself was not missing
            rw [mkdir_of_walks hwalks hplace] at hmkdir
            split_ifs at hmkdir
            simp [← Except.error.inj hmkdir] at hmissing
          · obtain ⟨result, hnew, hin', hleaves'⟩ :=
              leaves_of_parents hbelow hwalks hin hplace hempty name
            rw [hnew]
            refine ⟨fun other hother => ?_, fun _ => hleaves' _⟩
            rcases List.mem_append.mp hother with hother | hother
            · exact hmade other hother
            · rw [List.mem_singleton.mp hother]
              exact hin'
      · rw [if_neg hmissing, List.reverse_cons, List.reverse_reverse]
        refine ⟨by simp, fun houtcome => .inl ?_⟩
        dsimp only at houtcome ⊢
        split_ifs at houtcome ⊢ with hdir
        exact ⟨rfl, exists_walks_of_isDirectory hdir⟩
    · obtain ⟨hin, hleaves'⟩ := @leaves_of_mkdir tree base above ⟨tree, [], .ok ()⟩ result name
        (.refl tree) hwithin hmkdir [result.2]
      exact ⟨by simpa using hin, fun _ => hleaves'⟩

end Files
