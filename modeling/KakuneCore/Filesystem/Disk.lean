import Mathlib.Data.List.Dedup
import Mathlib.Data.List.Infix

/-!
# Disks

What stands at the places of a disk, and the operations that create something there. A place is the
list of the names that lead to it from the root. An operation on a place with a link on the way is a
fault of its own, `linked`: what the link would lead to is not followed.

One disk **extends** another below a base when nothing else is different, whatever was there is
still of its kind, and there is no new link.
-/

namespace Files

inductive Node
  | directory
  | file (contents : List UInt8)
  | link
  | special
  deriving DecidableEq, Repr

/-- A node without its contents. -/
def Node.kind : Node → Node
  | file _ => file []
  | node => node

theorem Node.kind_eq_directory {node : Node} : node.kind = .directory ↔ node = .directory := by
  cases node <;> simp [kind]

theorem Node.kind_eq_file {node : Node} :
    node.kind = .file [] ↔ ∃ contents, node = .file contents := by
  cases node <;> simp [kind]

variable {N : Type}

/-- What stands where. Everything but the root stands in a directory, and nothing stands at places
that are not among the listed ones. -/
structure Disk (N : Type) where
  node : List N → Option Node
  places : List (List N)
  root : node [] = some .directory
  parent : ∀ place name, node (place ++ [name]) ≠ none → node place = some .directory
  listed : ∀ place, node place ≠ none → place ∈ places

variable {disk disk' disk'' : Disk N} {base place front : List N} {name : N} {node : Node}

/-- What leads to a node is a directory. -/
theorem Disk.directory_of_prefix (h : disk.node place ≠ none) (hleads : front <+: place)
    (hne : front ≠ place) : disk.node front = some .directory := by
  obtain ⟨rest, rfl⟩ := hleads
  induction rest using List.reverseRecOn with
  | nil => exact absurd (List.append_nil front).symm hne
  | append_singleton rest name ih =>
    rw [← List.append_assoc] at h
    have hparent := disk.parent _ _ h
    rcases eq_or_ne rest [] with rfl | hrest
    · simpa using hparent
    · exact ih (by rw [hparent]; simp) (by simpa using hrest)

/-- There are no links below a directory. -/
structure Disk.Clear (disk : Disk N) (base : List N) : Prop where
  directory : disk.node base = some .directory
  noLink : ∀ place, base <+: place → disk.node place ≠ some .link

/-- The places strictly below a base. -/
def Inside (base place : List N) : Prop := base <+: place ∧ place ≠ base

theorem inside_append (base : List N) {names : List N} (h : names ≠ []) :
    Inside base (base ++ names) :=
  ⟨List.prefix_append _ _, by simpa using h⟩

/-! ### Extending a disk -/

/-- What was there is there, and of its kind. -/
def Disk.Keeps (disk disk' : Disk N) : Prop :=
  ∀ place node, disk.node place = some node →
    ∃ node', disk'.node place = some node' ∧ node'.kind = node.kind

theorem Disk.Keeps.refl (disk : Disk N) : disk.Keeps disk := fun _ node h => ⟨node, h, rfl⟩

theorem Disk.Keeps.trans (h : disk.Keeps disk') (h' : disk'.Keeps disk'') : disk.Keeps disk'' := by
  intro place node hnode
  obtain ⟨node', hnode', hkind⟩ := h place node hnode
  obtain ⟨node'', hnode'', hkind'⟩ := h' place node' hnode'
  exact ⟨node'', hnode'', hkind'.trans hkind⟩

theorem Disk.Keeps.directory (h : disk.Keeps disk') (hplace : disk.node place = some .directory) :
    disk'.node place = some .directory := by
  obtain ⟨node, hnode, hkind⟩ := h place _ hplace
  rw [hnode, Node.kind_eq_directory.mp hkind]

theorem Disk.Keeps.file (h : disk.Keeps disk') {contents : List UInt8}
    (hplace : disk.node place = some (.file contents)) :
    ∃ contents', disk'.node place = some (.file contents') := by
  obtain ⟨node, hnode, hkind⟩ := h place _ hplace
  obtain ⟨contents', rfl⟩ := Node.kind_eq_file.mp hkind
  exact ⟨contents', hnode⟩

/-- What creating below a base leaves. -/
structure Disk.Extends (base : List N) (disk disk' : Disk N) : Prop where
  outside : ∀ place, ¬ Inside base place → disk'.node place = disk.node place
  kept : disk.Keeps disk'
  noLink : ∀ place, disk'.node place = some .link → disk.node place = some .link

theorem Disk.Extends.refl (base : List N) (disk : Disk N) : disk.Extends base disk :=
  ⟨fun _ _ => rfl, .refl disk, fun _ h => h⟩

theorem Disk.Extends.trans (h : disk.Extends base disk') (h' : disk'.Extends base disk'') :
    disk.Extends base disk'' where
  outside place hplace := (h'.outside place hplace).trans (h.outside place hplace)
  kept := h.kept.trans h'.kept
  noLink place hlink := h.noLink place (h'.noLink place hlink)

theorem Disk.Clear.extends (h : disk.Clear base) (hextends : disk.Extends base disk') :
    disk'.Clear base where
  directory := hextends.kept.directory h.directory
  noLink place hplace hlink := h.noLink place hplace (hextends.noLink place hlink)

/-- The second disk has more directories, which lead to a place. -/
def Disk.AddsOn (disk disk' : Disk N) (place : List N) : Prop :=
  ∀ other, disk'.node other = disk.node other ∨
    disk.node other = none ∧ disk'.node other = some .directory ∧ other <+: place

theorem Disk.AddsOn.keeps (h : disk.AddsOn disk' place) : disk.Keeps disk' := by
  intro other node hnode
  rcases h other with heq | ⟨hnone, -, -⟩
  · exact ⟨node, heq.trans hnode, rfl⟩
  · rw [hnone] at hnode
    cases hnode

/-- Every file is as it was. -/
theorem Disk.AddsOn.file_iff (h : disk.AddsOn disk' place) {other : List N}
    {contents : List UInt8} :
    disk'.node other = some (.file contents) ↔ disk.node other = some (.file contents) := by
  rcases h other with heq | ⟨hnone, hdirectory, -⟩
  · rw [heq]
  · simp [hnone, hdirectory]

/-- Directories on the way to a place below the base are inside of it. -/
theorem Disk.AddsOn.extends (h : disk.AddsOn disk' place) (hbase : disk.node base = some .directory)
    (hplace : base <+: place) : disk.Extends base disk' where
  outside other hother := by
    rcases h other with heq | ⟨hnone, -, hleads⟩
    · exact heq
    · refine absurd ⟨?_, ?_⟩ hother
      · refine (List.prefix_or_prefix_of_prefix hplace hleads).resolve_right fun habove => ?_
        by_cases hne : other = base
        · rw [hne, hbase] at hnone
          cases hnone
        · rw [disk.directory_of_prefix (by rw [hbase]; simp) habove hne] at hnone
          cases hnone
      · rintro rfl
        rw [hbase] at hnone
        cases hnone
  kept := h.keeps
  noLink other hlink := by
    rcases h other with heq | ⟨-, hdirectory, -⟩
    · rwa [heq] at hlink
    · rw [hdirectory] at hlink
      cases hlink

/-! ### Putting and removing -/

section Operations

variable [DecidableEq N]

/-- A disk with nothing on it. -/
def Disk.empty : Disk N where
  node place := if place = [] then some .directory else none
  places := [[]]
  root := if_pos rfl
  parent place name h := by simp at h
  listed place h := by
    rw [List.mem_singleton]
    by_contra hplace
    exact h (if_neg hplace)

/-- Where a node may be put: in a directory, and not in the place of one. -/
def Disk.Admits (disk : Disk N) (front : List N) (name : N) : Prop :=
  disk.node front = some .directory ∧ disk.node (front ++ [name]) ≠ some .directory

instance (disk : Disk N) (front : List N) (name : N) : Decidable (disk.Admits front name) :=
  inferInstanceAs (Decidable (_ ∧ _))

/-- The disk with a node in a directory, where it may be put. -/
def Disk.put (disk : Disk N) (front : List N) (name : N) (node : Node) : Disk N :=
  if h : disk.Admits front name then {
    node := fun place => if place = front ++ [name] then some node else disk.node place
    places := (front ++ [name]) :: disk.places
    root := by rw [if_neg (by simp), disk.root]
    parent := by
      intro place other hother
      by_cases hplace : place = front ++ [name]
      · -- nothing stood in what was no directory
        subst hplace
        rw [if_neg (by simp)] at hother
        exact absurd (disk.parent _ _ hother) h.2
      · rw [if_neg hplace]
        by_cases heq : place ++ [other] = front ++ [name]
        · obtain ⟨rfl, -⟩ := List.append_inj' heq rfl
          exact h.1
        · rw [if_neg heq] at hother
          exact disk.parent place other hother
    listed := by
      intro place hplace
      by_cases heq : place = front ++ [name]
      · exact heq ▸ List.mem_cons_self
      · rw [if_neg heq] at hplace
        exact List.mem_cons_of_mem _ (disk.listed place hplace) }
  else disk

/-- The disk without what stands at a place and below it. -/
def Disk.removeDirAll (disk : Disk N) (place : List N) (h : place ≠ []) : Disk N where
  node other := if place <+: other then none else disk.node other
  places := disk.places
  root := by rw [if_neg (by simpa using h), disk.root]
  parent other name hother := by
    by_cases hplace : place <+: other ++ [name]
    · rw [if_pos hplace] at hother
      exact absurd rfl hother
    · rw [if_neg hplace] at hother
      rw [if_neg fun hleads => hplace (hleads.trans (List.prefix_append _ _))]
      exact disk.parent other name hother
  listed other hother := by
    by_cases hplace : place <+: other
    · exact absurd (if_pos hplace) hother
    · rw [if_neg hplace] at hother
      exact disk.listed other hother

/-- The names in a directory. -/
def Disk.children (disk : Disk N) (place : List N) : List N :=
  ((disk.places.filter fun other => disk.node other ≠ none ∧ other.dropLast = place).filterMap
    List.getLast?).dedup

theorem Disk.mem_children {disk : Disk N} {place : List N} {name : N}
    (h : disk.node (place ++ [name]) ≠ none) : name ∈ disk.children place := by
  rw [children, List.mem_dedup, List.mem_filterMap]
  refine ⟨place ++ [name], ?_, by simp⟩
  rw [List.mem_filter]
  exact ⟨disk.listed _ h, by simp [h]⟩

theorem Disk.node_put (h : disk.Admits front name) (place : List N) :
    (disk.put front name node).node place =
      if place = front ++ [name] then some node else disk.node place := by
  rw [put, dif_pos h]

theorem Disk.node_put_self (h : disk.Admits front name) :
    (disk.put front name node).node (front ++ [name]) = some node := by
  rw [node_put h, if_pos rfl]

/-! ### Links -/

/-- Some link stands on the way to a place, or there. -/
def Disk.linkOn (disk : Disk N) (place : List N) : Bool :=
  place.inits.any fun front => disk.node front = some .link

theorem Disk.Clear.linkOn_eq_false (h : disk.Clear base) (names : List N) :
    disk.linkOn (base ++ names) = false := by
  rw [linkOn, List.any_eq_false]
  intro front hfront hlink
  have hlink := of_decide_eq_true hlink
  rcases List.prefix_or_prefix_of_prefix ((List.mem_inits _ _).mp hfront)
    (List.prefix_append base names) with hleads | hleads
  · by_cases hne : front = base
    · rw [hne, h.directory] at hlink
      cases hlink
    · rw [disk.directory_of_prefix (by rw [h.directory]; simp) hleads hne] at hlink
      cases hlink
  · exact h.noLink front hleads hlink

/-! ### Creating -/

inductive Fault
  | refused
  | linked
  deriving DecidableEq, Repr

/-- The missing directories on the way to a place, from a directory on it. -/
def Disk.createFrom (disk : Disk N) (place : List N) : List N → Disk N × Except Fault Unit
  | [] => (disk, .ok ())
  | name :: names =>
    match disk.node (place ++ [name]) with
    | some .directory => disk.createFrom (place ++ [name]) names
    | some _ => (disk, .error .refused)
    | none => (disk.put place name .directory).createFrom (place ++ [name]) names

/-- `create_dir_all`. -/
def Disk.createDirAll (disk : Disk N) (place : List N) : Disk N × Except Fault Unit :=
  if disk.linkOn place then (disk, .error .linked) else disk.createFrom [] place

/-- `File::create`, of a name in a directory: an empty file, which may replace one. -/
def Disk.createFile (disk : Disk N) (front : List N) (name : N) : Except Fault (Disk N) :=
  if disk.linkOn (front ++ [name]) then .error .linked
  else if disk.node front = some .directory then
    match disk.node (front ++ [name]) with
    | none | some (.file _) => .ok (disk.put front name (.file []))
    | some _ => .error .refused
  else .error .refused

theorem Disk.createFrom_spec (hplace : disk.node place = some .directory) (names : List N) :
    disk.AddsOn (disk.createFrom place names).1 (place ++ names) ∧
      (disk.createFrom place names).2 ≠ .error .linked ∧
      ((disk.createFrom place names).2 = .ok () →
        (disk.createFrom place names).1.node (place ++ names) = some .directory) := by
  induction names generalizing disk place with
  | nil =>
    rw [List.append_nil]
    exact ⟨fun _ => .inl rfl, nofun, fun _ => hplace⟩
  | cons name names ih =>
    rw [createFrom, show place ++ name :: names = place ++ [name] ++ names by simp]
    cases hnode : disk.node (place ++ [name]) with
    | none =>
      have hadmits : disk.Admits place name := ⟨hplace, by rw [hnode]; simp⟩
      obtain ⟨hadds, hlinked, hmade⟩ := ih (node_put_self hadmits)
      refine ⟨fun other => ?_, hlinked, hmade⟩
      by_cases hother : other = place ++ [name]
      · subst hother
        refine .inr ⟨hnode, ?_, List.prefix_append _ _⟩
        exact hadds.keeps.directory (node_put_self hadmits)
      · have hput := hadds other
        rwa [node_put hadmits, if_neg hother] at hput
    | some node =>
      cases node with
      | directory => exact ih hnode
      | file | link | special => exact ⟨fun _ => .inl rfl, by simp, by simp⟩

/-- **Directories are created on the way to the place.** -/
theorem Disk.createDirAll_spec (disk : Disk N) (place : List N) :
    disk.AddsOn (disk.createDirAll place).1 place ∧
      ((disk.createDirAll place).2 = .error .linked → disk.linkOn place = true) ∧
      ((disk.createDirAll place).2 = .ok () →
        (disk.createDirAll place).1.node place = some .directory) := by
  rw [createDirAll]
  split_ifs with hlink
  · exact ⟨fun _ => .inl rfl, fun _ => hlink, nofun⟩
  · obtain ⟨hadds, hlinked, hmade⟩ := createFrom_spec disk.root place
    exact ⟨hadds, fun h => absurd h hlinked, hmade⟩

/-- **A file is created in a directory**, as a new one or in the place of one. -/
theorem Disk.createFile_spec (disk : Disk N) (front : List N) (name : N) :
    (∀ disk', disk.createFile front name = .ok disk' →
      disk.Admits front name ∧ disk' = disk.put front name (.file []) ∧
        ∀ old, disk.node (front ++ [name]) = some old → old.kind = .file []) ∧
      (disk.createFile front name = .error .linked → disk.linkOn (front ++ [name]) = true) := by
  rw [createFile]
  split_ifs with hlink hfront
  · exact ⟨nofun, fun _ => hlink⟩
  · split
    · next hnone =>
      refine ⟨fun disk' h => ⟨⟨hfront, by rw [hnone]; simp⟩, (Except.ok.inj h).symm, ?_⟩, nofun⟩
      intro old hold
      rw [hnone] at hold
      cases hold
    · next contents hfile =>
      refine ⟨fun disk' h => ⟨⟨hfront, by rw [hfile]; simp⟩, (Except.ok.inj h).symm, ?_⟩, nofun⟩
      intro old hold
      rw [hfile] at hold
      cases hold
      rfl
    · exact ⟨nofun, by simp⟩
  · exact ⟨nofun, by simp⟩

/-- A node may be put where there is none, or one of its kind. -/
theorem Disk.keeps_put (h : disk.Admits front name)
    (hkind : ∀ old, disk.node (front ++ [name]) = some old → node.kind = old.kind) :
    disk.Keeps (disk.put front name node) := by
  intro place old hold
  rw [node_put h]
  by_cases hplace : place = front ++ [name]
  · subst hplace
    rw [if_pos rfl]
    exact ⟨node, rfl, hkind old hold⟩
  · rw [if_neg hplace]
    exact ⟨old, hold, rfl⟩

/-- Below the base, a node may be put where there is none, or one of its kind. -/
theorem Disk.extends_put (h : disk.Admits front name) (hinside : Inside base (front ++ [name]))
    (hlink : node ≠ .link)
    (hkind : ∀ old, disk.node (front ++ [name]) = some old → node.kind = old.kind) :
    disk.Extends base (disk.put front name node) where
  outside place hplace := by
    rw [node_put h, if_neg]
    rintro rfl
    exact hplace hinside
  kept := keeps_put h hkind
  noLink place hplace := by
    rw [node_put h] at hplace
    split_ifs at hplace with heq
    · exact absurd (Option.some.inj hplace) hlink
    · exact hplace

end Operations

end Files
