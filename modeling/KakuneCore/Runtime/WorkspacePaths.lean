import KakuneCore.Filesystem.Directories
import KakuneCore.Workflow.Value

/-!
# Paths in the workspace

The filesystem nodes take relative paths. `workspace_path` refuses one when a beginning of it that
exists resolves outside the workspace; what does not exist is not checked. A link to a missing name
does not exist, so a file opened for writing through it may be created outside: `confinement_iff`
says that nothing else leads out. The tree is not changed by others, and nobody is refused access.
-/

namespace KakuneCore

open Files (Tree Place Step Failure Walks walk maxLinks)

/-! ### The check -/

/-- A piece of a path text between slashes. -/
def stepOf (piece : List Char) : Step :=
  if piece = [] ∨ piece = ['.'] then .here
  else if piece = ['.', '.'] then .up
  else .name (.ofList piece)

/-- The steps the operating system takes along a relative path. -/
def pathSteps (input : String) : List Step := (splitChars '/' input.toList).map stepOf

/-- `Path::components`: empty pieces are dropped, and `.` unless it comes first. -/
def candidateComponents (input : String) : List Step :=
  (if (splitChars '/' input.toList).head? = some ['.'] then [.here] else []) ++
    (pathSteps input).filter (· ≠ .here)

def isAbsolute (input : String) : Bool := input.toList.head? = some '/'

/-- The loop over the components, from a path that is checked. -/
def checkComponents (tree : Tree) (root : Place) (checked : List Step) :
    List Step → Except String Unit
  | [] => .ok ()
  | component :: components =>
    match walk tree false maxLinks [] (checked ++ [component]) with
    | .error _ => checkComponents tree root (checked ++ [component]) components
    | .ok (_, resolved) =>
      if root <+: resolved then checkComponents tree root (checked ++ [component]) components
      else .error "path resolves outside the Kakune workspace"

/-- `workspace_path`: the path below the canonical root. -/
def workspacePath (tree : Tree) (root : List Step) (input : String) :
    Except String (List Step) :=
  if isAbsolute input ∨ .up ∈ candidateComponents input then
    .error "path must be relative to the Kakune workspace"
  else
    match walk tree false maxLinks [] root with
    | .error _ => .error "cannot resolve workspace root"
    | .ok (_, place) => do
      checkComponents tree place (place.map .name) (candidateComponents input)
      .ok (place.map .name ++ pathSteps input)

/-! ### The nodes -/

/-- `Path::parent`. -/
def destinationParent (path : List Step) : List Step := (path.filter (· ≠ .here)).dropLast

/-- The filesystem nodes, with their path inputs. -/
inductive FsNode
  | writeText (path : String)
  | readText (path : String)
  | copy (source destination : String)
  | move (source destination : String)

namespace FsNode

def paths : FsNode → List String
  | writeText path | readText path => [path]
  | copy source destination | move source destination => [source, destination]

/-- What a step of a node touches and what it says, with the message of its failure. -/
def step (made : List Place) (text message : String) : Except Failure (List Place) →
    List Place × Except String String
  | .ok touched => (made ++ touched, .ok message)
  | .error _ => (made, .error text)

/-- Create the parents of a destination, then go on in the new tree. -/
def afterParents (tree : Tree) (target : List Step) (text : String)
    (next : Tree → List Place → List Place × Except String String) :
    List Place × Except String String :=
  match (Files.createDirAll tree (destinationParent target)).outcome with
  | .error _ => ((Files.createDirAll tree (destinationParent target)).made, .error text)
  | .ok () => next (Files.createDirAll tree (destinationParent target)).tree
      (Files.createDirAll tree (destinationParent target)).made

/-- The objects that a node touches, and its message. The error of the operating system is left out
of the messages. -/
def run (tree : Tree) (root : List Step) : FsNode → List Place × Except String String
  | writeText path =>
    match workspacePath tree root path with
    | .error error => ([], .error error)
    | .ok target => afterParents tree target "cannot create parent directory" fun tree made =>
      step made s!"cannot write {path}" s!"wrote {path}" do
        let place ← Files.openForWriting tree target
        .ok [place]
  | readText path =>
    match workspacePath tree root path with
    | .error error => ([], .error error)
    | .ok target => step [] s!"cannot read {path}" s!"read {path}" do
      let place ← Files.openForReading tree target
      .ok [place]
  | copy source destination =>
    match workspacePath tree root source, workspacePath tree root destination with
    | .error error, _ => ([], .error error)
    | .ok _, .error error => ([], .error error)
    | .ok sourcePath, .ok target =>
      if Files.isFile tree sourcePath then
        afterParents tree target "cannot create destination parent" fun tree made =>
          match Files.openForReading tree sourcePath with
          | .error _ => (made, .error s!"cannot copy {source} to {destination}")
          | .ok opened =>
            step (made ++ [opened]) s!"cannot copy {source} to {destination}"
                s!"copied {source} to {destination}" do
              let place ← Files.openForWriting tree target
              .ok [place]
      else ([], .error s!"source {source} must be an existing regular file")
  | move source destination =>
    match workspacePath tree root source, workspacePath tree root destination with
    | .error error, _ => ([], .error error)
    | .ok _, .error error => ([], .error error)
    | .ok sourcePath, .ok target =>
      if Files.isFile tree sourcePath then
        afterParents tree target "cannot create destination parent" fun tree made =>
          step made s!"cannot move {source} to {destination}" s!"moved {source} to {destination}" do
            let moved ← Files.entryOf tree sourcePath
            let place ← Files.entryOf tree target
            if tree.entry place = some .directory then .error .isDirectory else .ok [moved, place]
      else ([], .error s!"source {source} must be an existing regular file")

end FsNode

/-! ### What is accepted is confined -/

section Confinement

variable {tree : Tree} {place : Place} {path : List Step}

theorem exists_names {steps : List Step} (hhere : .here ∉ steps) (hup : .up ∉ steps) :
    ∃ names : List String, steps = names.map .name := by
  induction steps with
  | nil => exact ⟨[], rfl⟩
  | cons step steps ih =>
    rw [List.mem_cons, not_or] at hhere hup
    obtain ⟨names, rfl⟩ := ih hhere.2 hup.2
    rcases step with - | - | name
    · exact absurd rfl hhere.1
    · exact absurd rfl hup.1
    · exact ⟨name :: names, rfl⟩

/-- Every beginning that exists was seen inside. -/
theorem prefix_of_checkComponents {root : Place} {checked components : List Step}
    (h : checkComponents tree root checked components = .ok ()) {front : List Step}
    (hfront : front <+: components) (hne : front ≠ []) {left : Nat} {goal : Place}
    (hwalks : Walks tree false maxLinks [] (checked ++ front) left goal) : root <+: goal := by
  induction components generalizing checked front with
  | nil => exact absurd (List.prefix_nil.mp hfront) hne
  | cons component components ih =>
    rcases front with - | ⟨step, front⟩
    · exact absurd rfl hne
    obtain ⟨rfl, hrest⟩ := List.cons_prefix_cons.mp hfront
    rw [List.append_cons] at hwalks
    rw [checkComponents] at h
    rcases hwalk : walk tree false maxLinks [] (checked ++ [step]) with failure | ⟨left', resolved⟩
    · rw [hwalk] at h
      rcases front with - | ⟨next, front⟩
      · rw [List.append_nil, ← Files.walk_eq_ok_iff, hwalk] at hwalks
        simp at hwalks
      · exact ih h hrest (List.cons_ne_nil _ _) hwalks
    · rw [hwalk] at h
      dsimp only at h
      split_ifs at h with hin
      rcases front with - | ⟨next, front⟩
      · rw [List.append_nil] at hwalks
        obtain ⟨-, rfl⟩ := (Files.walk_eq_ok_iff.mp hwalk).unique hwalks
        exact hin
      · exact ih h hrest (List.cons_ne_nil _ _) hwalks

/-- **A path that is accepted is confined** to the workspace, up to its `here`. -/
theorem confines_of_workspacePath {root target : List Step} {input : String} {left : Nat}
    (hroot : walk tree false maxLinks [] root = .ok (left, place))
    (hplace : tree.entry place = some .directory)
    (h : workspacePath tree root input = .ok target) :
    target = place.map .name ++ pathSteps input ∧ ∃ names : List String,
      target.filter (· ≠ .here) = place.map .name ++ names.map .name ∧
        tree.Confines place (names.map .name) := by
  rw [workspacePath] at h
  split_ifs at h with hrefused
  rw [hroot] at h
  dsimp only at h
  rcases hcheck :
      checkComponents tree place (place.map .name) (candidateComponents input) with error | _
  · rw [hcheck] at h
    cases h
  rw [hcheck] at h
  obtain rfl := Except.ok.inj h
  obtain ⟨names, hnames⟩ := @exists_names ((pathSteps input).filter (· ≠ .here)) (by simp)
    fun hup => hrefused (.inr (List.mem_append_right _ hup))
  refine ⟨rfl, names, ?_, fun front left' goal hfront hwalks => ?_⟩
  · have hroot' : (place.map Step.name).filter (· ≠ .here) = place.map Step.name :=
      List.filter_eq_self.mpr (by simp)
    rw [List.filter_append, hroot', hnames]
  rw [candidateComponents, hnames] at hcheck
  have hbase : Walks tree false maxLinks [] (place.map .name) maxLinks place :=
    Files.walks_names hplace
  rcases front with - | ⟨next, front⟩
  · rw [List.append_nil] at hwalks
    obtain ⟨-, rfl⟩ := hbase.unique hwalks
    exact List.prefix_refl place
  · split_ifs at hcheck with hdot
    · -- the check went through a leading dot, which leaves the walk where it is
      refine @prefix_of_checkComponents tree place _ _ hcheck (.here :: next :: front)
        (by simpa using hfront) (List.cons_ne_nil _ _) left' goal ?_
      obtain ⟨links, place', hfirst, hsecond⟩ := hwalks.split rfl (List.cons_ne_nil _ _)
      obtain ⟨rfl, rfl⟩ := hbase.unique hfirst
      exact hfirst.append (.here hplace hsecond)
    · exact prefix_of_checkComponents hcheck (by simpa using hfront) (List.cons_ne_nil _ _) hwalks

/-! ### The way out -/

/-- The path ends in a symbolic link to a missing name outside the place. -/
structure DanglesOutside (tree : Tree) (place : Place) (path front : List Step) (name : String)
    (goal : Place) : Prop where
  path_eq : path = front ++ [.name name]
  walks : ∃ links parent absolute target left,
    Walks tree false maxLinks [] front (links + 1) parent ∧
      tree.entry (parent ++ [name]) = some (.link absolute target) ∧
      Walks tree true links (if absolute then [] else parent) target left goal
  missing : tree.entry goal = none
  outside : ¬ place <+: goal

def Escapes (tree : Tree) (place : Place) (path : List Step) : Prop :=
  ∃ front name goal, DanglesOutside tree place path front name goal

/-- The path is the place followed by names, but for its `here`, and the names are confined. -/
structure Confined (tree : Tree) (place : Place) (path : List Step) (names : List String) :
    Prop where
  filter_eq : path.filter (· ≠ .here) = place.map .name ++ names.map .name
  confines : tree.Confines place (names.map .name)

/-- A path of the workspace, which ends in one of the names or in a `here`. -/
structure Target (tree : Tree) (place : Place) (path : List Step) (names : List String) : Prop
    extends Confined tree place path names where
  named : names = [] → ∃ front, path = front ++ [.here]

variable {names : List String}

theorem Target.ne_nil (h : Target tree place path names) : path ≠ [] := by
  rintro rfl
  have hnames : names = [] := by
    have heq := h.filter_eq
    rw [List.filter_nil] at heq
    exact List.map_eq_nil_iff.mp (List.append_eq_nil_iff.mp heq.symm).2
  obtain ⟨front, hfront⟩ := h.named hnames
  simp at hfront

theorem Confined.prunes (h : Confined tree place path names) :
    Files.Prunes path (place.map .name ++ names.map .name) :=
  h.filter_eq ▸ Files.prunes_filter path

theorem Confined.up_not_mem (h : Confined tree place path names) : .up ∉ path := by
  intro hup
  have hmem : Step.up ∈ place.map Step.name ++ names.map Step.name := by
    rw [← h.filter_eq]
    exact List.mem_filter.mpr ⟨hup, by simp⟩
  simp at hmem

/-- What a confined path leads to is inside. -/
theorem Confined.inside (h : Confined tree place path names) {left : Nat} {goal : Place}
    (hwalks : Walks tree false maxLinks [] path left goal) : place <+: goal :=
  h.confines _ left goal (List.prefix_refl _) (hwalks.prune h.prunes)

/-- A path that does not end in a name leads to a directory. -/
theorem directory_of_walks_here {front : List Step} {create : Bool} {left : Nat} {goal : Place}
    (hwalks : Walks tree create maxLinks [] (front ++ [.here]) left goal) :
    tree.entry goal = some .directory := by
  obtain ⟨links, place', -, hlast⟩ := hwalks.split rfl (List.cons_ne_nil _ _)
  rcases hlast with _ | ⟨hdir, hnil⟩ | _ | _ | _ | _
  rcases hnil with _ | _ | _ | _ | _ | _
  exact hdir

/-- Where a path ends in a name, so does its normal form. -/
theorem Confined.exists_last (h : Confined tree place path names) {front : List Step}
    {name : String}
    (hpath : path = front ++ [.name name]) (hnames : names ≠ []) :
    ∃ above, names = above ++ [name] ∧ Confined tree place front above := by
  obtain ⟨above, last, rfl⟩ := (List.eq_nil_or_concat' names).resolve_left hnames
  have hfilter := h.filter_eq
  rw [hpath, List.filter_append, List.map_append, ← List.append_assoc] at hfilter
  have hlast : [Step.name name].filter (· ≠ .here) = [Step.name name] := by simp
  rw [hlast, List.map_singleton] at hfilter
  obtain ⟨hfront, hname⟩ := List.append_inj' hfilter rfl
  obtain rfl : name = last := Step.name.inj (List.cons_eq_cons.mp hname).1
  refine ⟨above, rfl, hfront, fun front' left goal hfront' => ?_⟩
  refine h.confines front' left goal (hfront'.trans ?_)
  rw [List.map_append]
  exact List.prefix_append _ _

theorem Confined.destinationParent_eq {above : List String} {name : String}
    (h : Confined tree place path (above ++ [name])) :
    destinationParent path = place.map .name ++ above.map .name := by
  rw [destinationParent, h.filter_eq, List.map_append, ← List.append_assoc, List.map_singleton,
    List.dropLast_concat]

/-- The parents of a target are made inside. -/
theorem Target.made_inside (h : Target tree place path names)
    (hplace : tree.entry place = some .directory) :
    ∀ made ∈ (Files.createDirAll tree (destinationParent path)).made, place <+: made := by
  rcases List.eq_nil_or_concat' names with rfl | ⟨above, name, rfl⟩
  · have hparent : destinationParent path = place.dropLast.map .name := by
      rw [destinationParent, h.filter_eq, List.map_nil, List.append_nil, List.map_dropLast]
    have hdir := Tree.directory_dropLast hplace
    rw [hparent, Files.createDirAll_of_walks (Files.walks_names hdir) hdir]
    simp
  · rw [h.destinationParent_eq]
    refine (Files.createDirAll_spec hplace fun front left goal hfront => ?_).1
    refine h.confines front left goal (hfront.trans ?_)
    rw [List.map_append]
    exact List.prefix_append _ _

/-- In the tree after the creation of its parents, the parent of the path lies inside; and where
that is not the tree before, it is empty. -/
def ParentInside (tree after : Tree) (place : Place) (path : List Step) : Prop :=
  ∀ front name left parent, path = front ++ [.name name] →
    Walks after false maxLinks [] front left parent →
    place <+: parent ∧ (after = tree ∨ ∀ name, after.entry (parent ++ [name]) = none)

/-- **The parent of a target lies inside** once it is made. -/
theorem Target.parent_inside (h : Target tree place path names)
    (hplace : tree.entry place = some .directory)
    (hmade : (Files.createDirAll tree (destinationParent path)).outcome = .ok ()) :
    ParentInside tree (Files.createDirAll tree (destinationParent path)).tree place path := by
  intro front name left parent hpath hwalks
  have hnames : names ≠ [] := fun hnil => by
    obtain ⟨front', hhere⟩ := h.named hnil
    simpa using (List.append_inj' (hpath.symm.trans hhere) rfl).2
  obtain ⟨above, rfl, hfront⟩ := h.exists_last hpath hnames
  rw [h.destinationParent_eq] at hmade hwalks ⊢
  rcases (Files.createDirAll_spec hplace hfront.confines).2 hmade with ⟨hsame, -⟩ |
    ⟨-, left', place',
    hwalks', hin, -, hempty⟩
  · rw [hsame] at hwalks ⊢
    exact ⟨hfront.inside hwalks, .inl rfl⟩
  · obtain ⟨-, rfl⟩ := (hwalks.prune hfront.prunes).unique hwalks'
    exact ⟨hin, .inr hempty⟩

theorem openForWriting_eq_ok {goal : Place} (h : Files.openForWriting tree path = .ok goal) :
    tree.entry goal ≠ some .directory ∧ ∃ left, Walks tree true maxLinks [] path left goal := by
  rw [Files.openForWriting] at h
  rcases hwalk : walk tree true maxLinks [] path with failure | ⟨left, place⟩
  · rw [hwalk] at h
    cases h
  · rw [hwalk] at h
    change (if tree.entry place = some .directory then _ else _) = _ at h
    split_ifs at h with hdir
    obtain rfl := Except.ok.inj h
    exact ⟨hdir, left, Files.walk_eq_ok_iff.mp hwalk⟩

/-- **A file opened for writing lies inside**, unless the path dangles outside. -/
theorem Target.opened_inside (h : Target tree place path names) {after : Tree}
    (hparent : ParentInside tree after place path) {goal : Place}
    (hopen : Files.openForWriting after path = .ok goal) :
    place <+: goal ∨ Escapes tree place path := by
  obtain ⟨hdir, left, hwalks⟩ := openForWriting_eq_ok hopen
  obtain ⟨front, last, hpath⟩ := (List.eq_nil_or_concat' path).resolve_left h.ne_nil
  rcases last with - | - | name
  · exact absurd (directory_of_walks_here (hpath ▸ hwalks)) hdir
  · exact absurd (hpath ▸ List.mem_append_right _ List.mem_cons_self) h.up_not_mem
  · obtain ⟨links, parent, hfront, hlast⟩ := hwalks.split hpath (List.cons_ne_nil _ _)
    obtain ⟨hin, hfresh⟩ := hparent front name links parent hpath hfront
    have hchild : place <+: parent ++ [name] := hin.trans (List.prefix_append _ _)
    rcases hlast with _ | _ | _ | ⟨-, -, -, hnil⟩ | ⟨-, hentry, htarget⟩ | ⟨-, -, -⟩
    · rcases hnil with _ | _ | _ | _ | _ | _
      exact .inl hchild
    · rcases hfresh with rfl | hempty
      · rw [List.append_nil] at htarget
        by_cases hmissing : after.entry goal = none
        · by_cases hgoal : place <+: goal
          · exact .inl hgoal
          · exact .inr ⟨front, name, goal, hpath, ⟨_, parent, _, _, left, hfront, hentry, htarget⟩,
              hmissing, hgoal⟩
        · -- what is there was seen by the check
          exact .inl (h.inside (hwalks.of_create hmissing))
      · simp [hempty] at hentry
    · exact .inl hchild

theorem entryOf_eq_ok {goal : Place} (h : Files.entryOf tree path = .ok goal) :
    ∃ front name left parent, path = front ++ [.name name] ∧ goal = parent ++ [name] ∧
      Walks tree false maxLinks [] front left parent := by
  rw [Files.entryOf] at h
  obtain rfl | ⟨front, last, rfl⟩ := List.eq_nil_or_concat' path
  · simp at h
  rw [List.getLast?_concat, List.dropLast_concat] at h
  rcases last with - | - | name
  · simp at h
  · simp at h
  · dsimp only at h
    rcases hwalk : walk tree false maxLinks [] front with failure | ⟨left, parent⟩
    · rw [hwalk] at h
      cases h
    · rw [hwalk] at h
      change (if tree.entry parent = some .directory then _ else _) = _ at h
      split_ifs at h with hdir
      obtain rfl := Except.ok.inj h
      exact ⟨front, name, left, parent, rfl, rfl, Files.walk_eq_ok_iff.mp hwalk⟩

/-- **An entry lies inside** once its parent does. -/
theorem ParentInside.entry_inside {after : Tree} (h : ParentInside tree after place path)
    {goal : Place} (hentry : Files.entryOf after path = .ok goal) : place <+: goal := by
  obtain ⟨front, name, left, parent, hpath, rfl, hwalks⟩ := entryOf_eq_ok hentry
  exact (h front name left parent hpath hwalks).1.trans (List.prefix_append _ _)

theorem openForReading_eq_ok {goal : Place} (h : Files.openForReading tree path = .ok goal) :
    ∃ left, Walks tree false maxLinks [] path left goal := by
  rw [Files.openForReading] at h
  rcases hwalk : walk tree false maxLinks [] path with failure | ⟨left, place⟩
  · rw [hwalk] at h
    cases h
  · rw [hwalk] at h
    change (if tree.entry place = some .directory then _ else _) = _ at h
    split_ifs at h
    obtain rfl := Except.ok.inj h
    exact ⟨left, Files.walk_eq_ok_iff.mp hwalk⟩

/-- The entry of what was there before lies inside. -/
theorem Target.moved_inside (h : Target tree place path names) {after : Tree}
    (hbelow : tree.Below after) {left : Nat} {goal : Place}
    (hwalks : Walks tree false maxLinks [] path left goal) {moved : Place}
    (hmoved : Files.entryOf after path = .ok moved) : place <+: moved := by
  obtain ⟨front, name, left', parent, hpath, rfl, hwalks'⟩ := entryOf_eq_ok hmoved
  have hnames : names ≠ [] := fun hnil => by
    obtain ⟨front', hhere⟩ := h.named hnil
    simpa using (List.append_inj' (hpath.symm.trans hhere) rfl).2
  obtain ⟨above, -, hfront⟩ := h.exists_last hpath hnames
  obtain ⟨links, parent', hfirst, -⟩ := hwalks.split hpath (List.cons_ne_nil _ _)
  obtain ⟨-, rfl⟩ := (hfirst.mono hbelow).unique hwalks'
  exact (hfront.inside hfirst).trans (List.prefix_append _ _)

/-- **What dangles outside is created outside.** -/
theorem Target.escapes (h : Target tree place path names) (hescapes : Escapes tree place path) :
    Files.createDirAll tree (destinationParent path) = ⟨tree, [], .ok ()⟩ ∧
      ∃ goal, Files.openForWriting tree path = .ok goal ∧ ¬ place <+: goal := by
  obtain ⟨front, name, goal, rfl, ⟨links, parent, absolute, target, left, hwalks, hentry, htarget⟩,
    hmissing, hout⟩ := hescapes
  have hdir : tree.entry parent = some .directory := tree.parent parent name (by simp [hentry])
  have hparent : destinationParent (front ++ [.name name]) = front.filter (· ≠ .here) := by
    rw [destinationParent, List.filter_append]
    exact List.dropLast_concat
  have hopen : Walks tree true maxLinks [] (front ++ [.name name]) left goal := by
    have hlast : Walks tree true (links + 1) parent [.name name] left goal :=
      .follow hdir hentry (by rwa [List.append_nil])
    exact hwalks.append hlast
  refine ⟨?_, goal, ?_, hout⟩
  · rw [hparent]
    exact Files.createDirAll_of_walks (hwalks.prune (Files.prunes_filter front)) hdir
  · rw [Files.openForWriting, Files.walk_eq_ok_iff.mpr hopen]
    exact if_neg (by simp [hmissing])

end Confinement

/-! ### The nodes -/

namespace FsNode

/-- The ways out: a write, or a copy of an existing file, to a path that dangles outside. -/
def LeadsOut (tree : Tree) (place : Place) : FsNode → Prop
  | writeText path => Escapes tree place (place.map .name ++ pathSteps path)
  | readText _ => False
  | copy source destination =>
    Files.isFile tree (place.map .name ++ pathSteps source) = true ∧
      Escapes tree place (place.map .name ++ pathSteps destination)
  | move _ _ => False

section Run

variable {tree : Tree} {root : List Step} {left : Nat} {place : Place}

theorem pathSteps_ne_nil (input : String) : pathSteps input ≠ [] := by
  rw [pathSteps, Ne, List.map_eq_nil_iff]
  rcases input.toList with - | ⟨c, rest⟩
  · simp [splitChars]
  · rw [splitChars]
    split
    · simp
    · split_ifs <;> simp

theorem exists_target (hroot : walk tree false maxLinks [] root = .ok (left, place))
    (hplace : tree.entry place = some .directory) {path : String}
    (h : ∃ target, workspacePath tree root path = .ok target) :
    workspacePath tree root path = .ok (place.map .name ++ pathSteps path) ∧
      ∃ names, Target tree place (place.map .name ++ pathSteps path) names := by
  obtain ⟨target, htarget⟩ := h
  obtain ⟨rfl, names, hfilter, hconfines⟩ := confines_of_workspacePath hroot hplace htarget
  refine ⟨htarget, names, ⟨hfilter, hconfines⟩, fun hnil => ?_⟩
  obtain ⟨front, last, hlast⟩ :=
    (List.eq_nil_or_concat' (pathSteps path)).resolve_left (pathSteps_ne_nil path)
  have hroot' : (place.map Step.name).filter (· ≠ .here) = place.map Step.name :=
    List.filter_eq_self.mpr (by simp)
  rw [hnil, List.map_nil, List.filter_append, hroot', List.append_right_inj] at hfilter
  have hhere : last = .here := by
    have hmem := List.filter_eq_nil_iff.mp hfilter last (hlast ▸ by simp)
    simpa using hmem
  exact ⟨place.map .name ++ front, by rw [hlast, hhere, List.append_assoc]⟩

theorem afterParents_inside {names : List String} {target : List Step} {text : String}
    {next : Tree → List Place → List Place × Except String String}
    (h : Target tree place target names) (hplace : tree.entry place = some .directory)
    (hnext : tree.Below (Files.createDirAll tree (destinationParent target)).tree →
      ParentInside tree (Files.createDirAll tree (destinationParent target)).tree place target →
      ∀ made, (∀ touched ∈ made, place <+: touched) →
        ∀ touched ∈ (next (Files.createDirAll tree (destinationParent target)).tree made).1,
          place <+: touched) :
    ∀ touched ∈ (afterParents tree target text next).1, place <+: touched := by
  rw [afterParents]
  rcases houtcome : (Files.createDirAll tree (destinationParent target)).outcome with failure | _
  · exact h.made_inside hplace
  · exact hnext (Files.below_createDirAll tree _) (h.parent_inside hplace houtcome) _
      (h.made_inside hplace)

theorem step_inside {made : List Place} {text message : String}
    {touched : Except Failure (List Place)} (hmade : ∀ place' ∈ made, place <+: place')
    (htouched : ∀ places, touched = .ok places → ∀ place' ∈ places, place <+: place') :
    ∀ place' ∈ (step made text message touched).1, place <+: place' := by
  rcases touched with failure | places
  · exact hmade
  · intro place' hplace'
    rcases List.mem_append.mp hplace' with hmem | hmem
    · exact hmade place' hmem
    · exact htouched places rfl place' hmem

theorem afterParents_of_made {target : List Step} {text : String}
    {next : Tree → List Place → List Place × Except String String}
    (h : Files.createDirAll tree (destinationParent target) = ⟨tree, [], .ok ()⟩) :
    afterParents tree target text next = next tree [] := by
  rw [afterParents, h]

theorem exists_of_bind_eq_ok {opened : Except Failure Place} {places : List Place}
    (h : (do let place ← opened; .ok [place]) = (.ok places : Except Failure (List Place))) :
    ∃ goal, opened = .ok goal ∧ places = [goal] := by
  rcases opened with failure | goal
  · cases h
  · exact ⟨goal, rfl, (Except.ok.inj h).symm⟩

theorem exists_walks_of_isFile {path : List Step} (h : Files.isFile tree path = true) :
    ∃ left goal, Walks tree false maxLinks [] path left goal ∧ tree.entry goal = some .file := by
  rw [Files.isFile] at h
  rcases hwalk : walk tree false maxLinks [] path with failure | ⟨left, goal⟩
  · simp [hwalk] at h
  · rw [hwalk] at h
    exact ⟨left, goal, Files.walk_eq_ok_iff.mp hwalk, of_decide_eq_true h⟩

/-- A file that is there is opened. -/
theorem openForReading_of_isFile {path : List Step} {left : Nat} {goal : Place}
    (hwalks : Walks tree false maxLinks [] path left goal) (hfile : tree.entry goal = some .file) :
    Files.openForReading tree path = .ok goal := by
  rw [Files.openForReading, Files.walk_eq_ok_iff.mpr hwalks]
  exact if_neg (by simp [hfile])

/-- A write touches the outside when its path dangles outside, and only then. -/
theorem writeText_inside_iff {path : String} {names : List String}
    (hpath : workspacePath tree root path = .ok (place.map .name ++ pathSteps path))
    (htarget : Target tree place (place.map .name ++ pathSteps path) names)
    (hplace : tree.entry place = some .directory) :
    (∀ touched ∈ ((writeText path).run tree root).1, place <+: touched) ↔
      ¬ Escapes tree place (place.map .name ++ pathSteps path) := by
  rw [run, hpath]
  dsimp only
  constructor
  · intro hinside hescapes
    obtain ⟨hcreate, goal, hopen, hout⟩ := htarget.escapes hescapes
    rw [afterParents_of_made hcreate, hopen] at hinside
    exact hout (hinside goal List.mem_cons_self)
  · intro hno
    refine afterParents_inside htarget hplace fun _ hparent made hmade => step_inside hmade ?_
    intro places hplaces
    obtain ⟨goal, hopen, rfl⟩ := exists_of_bind_eq_ok hplaces
    exact List.forall_mem_singleton.mpr ((htarget.opened_inside hparent hopen).resolve_right hno)

theorem copy_inside_iff {source destination : String} {names names' : List String}
    (hsource : workspacePath tree root source = .ok (place.map .name ++ pathSteps source))
    (hpath : workspacePath tree root destination = .ok (place.map .name ++ pathSteps destination))
    (hfrom : Target tree place (place.map .name ++ pathSteps source) names)
    (htarget : Target tree place (place.map .name ++ pathSteps destination) names')
    (hplace : tree.entry place = some .directory) :
    (∀ touched ∈ ((copy source destination).run tree root).1, place <+: touched) ↔
      ¬ (Files.isFile tree (place.map .name ++ pathSteps source) = true ∧
        Escapes tree place (place.map .name ++ pathSteps destination)) := by
  rw [run, hsource, hpath]
  dsimp only
  by_cases hfile : Files.isFile tree (place.map .name ++ pathSteps source) = true
  swap
  · rw [if_neg hfile]
    simp [hfile]
  rw [if_pos hfile]
  obtain ⟨left, goal, hwalks, hentry⟩ := exists_walks_of_isFile hfile
  constructor
  · rintro hinside ⟨-, hescapes⟩
    obtain ⟨hcreate, goal', hopen, hout⟩ := htarget.escapes hescapes
    rw [afterParents_of_made hcreate, openForReading_of_isFile hwalks hentry, hopen] at hinside
    exact hout (hinside goal' (List.mem_cons_of_mem goal List.mem_cons_self))
  · intro hno
    have hno' := fun hescapes => hno ⟨hfile, hescapes⟩
    refine afterParents_inside htarget hplace fun hbelow hparent made hmade => ?_
    rw [openForReading_of_isFile (hwalks.mono hbelow) (hbelow _ _ hentry)]
    refine step_inside ?_ ?_
    · intro place' hplace'
      rcases List.mem_append.mp hplace' with hmem | hmem
      · exact hmade place' hmem
      · rw [List.mem_singleton.mp hmem]
        exact hfrom.inside hwalks
    · intro places hplaces
      obtain ⟨goal', hopen, rfl⟩ := exists_of_bind_eq_ok hplaces
      exact List.forall_mem_singleton.mpr ((htarget.opened_inside hparent hopen).resolve_right hno')

/-- A move touches two entries inside. -/
theorem move_inside {source destination : String} {names names' : List String}
    (hsource : workspacePath tree root source = .ok (place.map .name ++ pathSteps source))
    (hpath : workspacePath tree root destination = .ok (place.map .name ++ pathSteps destination))
    (hfrom : Target tree place (place.map .name ++ pathSteps source) names)
    (htarget : Target tree place (place.map .name ++ pathSteps destination) names')
    (hplace : tree.entry place = some .directory) :
    ∀ touched ∈ ((move source destination).run tree root).1, place <+: touched := by
  rw [run, hsource, hpath]
  dsimp only
  by_cases hfile : Files.isFile tree (place.map .name ++ pathSteps source) = true
  swap
  · rw [if_neg hfile]
    simp
  rw [if_pos hfile]
  obtain ⟨left, goal, hwalks, -⟩ := exists_walks_of_isFile hfile
  refine afterParents_inside htarget hplace fun hbelow hparent made hmade => step_inside hmade ?_
  generalize (Files.createDirAll tree _).tree = after at hbelow hparent ⊢
  intro places hplaces
  rcases hmoved : Files.entryOf after (place.map .name ++ pathSteps source) with failure | moved
  · rw [hmoved] at hplaces
    cases hplaces
  rcases hgoal : Files.entryOf after (place.map .name ++ pathSteps destination) with failure | goal'
  · rw [hmoved, hgoal] at hplaces
    cases hplaces
  rw [hmoved, hgoal] at hplaces
  change (if after.entry goal' = some .directory then _ else _) = _ at hplaces
  split_ifs at hplaces
  obtain rfl := Except.ok.inj hplaces
  intro touched htouched
  rcases List.mem_cons.mp htouched with rfl | hmem
  · exact hfrom.moved_inside hbelow hwalks hmoved
  · rw [List.mem_singleton.mp hmem]
    exact hparent.entry_inside hgoal

theorem readText_inside {path : String} {names : List String}
    (hpath : workspacePath tree root path = .ok (place.map .name ++ pathSteps path))
    (htarget : Target tree place (place.map .name ++ pathSteps path) names) :
    ∀ touched ∈ ((readText path).run tree root).1, place <+: touched := by
  rw [run, hpath]
  refine step_inside (by simp) fun places hplaces => ?_
  obtain ⟨goal, hopen, rfl⟩ := exists_of_bind_eq_ok hplaces
  obtain ⟨left, hwalks⟩ := openForReading_eq_ok hopen
  exact List.forall_mem_singleton.mpr (htarget.inside hwalks)

end Run

/-- **Workspace confinement**: what a filesystem node touches, on paths that are accepted, lies in
the workspace unless a write, or a copy of an existing file, goes to a link to a missing name
outside. -/
theorem confinement_iff (tree : Tree) (root : List Step) (left : Nat) (place : Place)
    (hroot : walk tree false maxLinks [] root = .ok (left, place))
    (hplace : tree.entry place = some .directory) (node : FsNode)
    (haccepted : ∀ path ∈ node.paths, ∃ target, workspacePath tree root path = .ok target) :
    (∀ touched ∈ (node.run tree root).1, place <+: touched) ↔ ¬ node.LeadsOut tree place := by
  have hpaths := fun path hmem => exists_target hroot hplace (haccepted path hmem)
  rcases node with path | path | ⟨source, destination⟩ | ⟨source, destination⟩
  · obtain ⟨hpath, names, htarget⟩ := hpaths path List.mem_cons_self
    exact writeText_inside_iff hpath htarget hplace
  · obtain ⟨hpath, names, htarget⟩ := hpaths path List.mem_cons_self
    exact iff_of_true (readText_inside hpath htarget) not_false
  · obtain ⟨hsource, names, hfrom⟩ := hpaths source List.mem_cons_self
    obtain ⟨hpath, names', htarget⟩ :=
      hpaths destination (List.mem_cons_of_mem _ List.mem_cons_self)
    exact copy_inside_iff hsource hpath hfrom htarget hplace
  · obtain ⟨hsource, names, hfrom⟩ := hpaths source List.mem_cons_self
    obtain ⟨hpath, names', htarget⟩ :=
      hpaths destination (List.mem_cons_of_mem _ List.mem_cons_self)
    exact iff_of_true (move_inside hsource hpath hfrom htarget hplace) not_false

/-- A workspace with a directory, a link to it, and a link to a missing name outside. -/
def linkedWorkspace : Tree :=
  .ofEntries
    [([], .directory), (["data"], .directory), (["data", "workspace"], .directory),
      (["data", "workspace", "archive"], .directory),
      (["data", "workspace", "logs"], .link false [.name "archive"]),
      (["data", "workspace", "out"], .link false [.up, .name "stolen.txt"])]
    (by decide) (by decide)

/-- A new file behind the inner link. -/
theorem write_through_inner_link :
    ((writeText "logs/new/a.txt").run linkedWorkspace [.name "data", .name "workspace"]).1 =
        [["data", "workspace", "archive", "new"],
          ["data", "workspace", "archive", "new", "a.txt"]] ∧
      ∀ touched ∈ ((writeText "logs/new/a.txt").run linkedWorkspace
        [.name "data", .name "workspace"]).1, ["data", "workspace"] <+: touched := by
  have hmissing : walk linkedWorkspace false maxLinks []
      [.name "data", .name "workspace", .name "logs", .name "new"] = .error .missing := by
    decide +kernel
  refine ⟨by decide +kernel, (confinement_iff linkedWorkspace _ maxLinks ["data", "workspace"]
    (by decide +kernel) (by decide +kernel) (writeText "logs/new/a.txt") ?_).mpr ?_⟩
  · exact List.forall_mem_singleton.mpr
      ⟨[.name "data", .name "workspace", .name "logs", .name "new",
      .name "a.txt"], by decide +kernel⟩
  · rintro ⟨front, name, goal, hpath, ⟨links, parent, absolute, target, left, hwalks, -, -⟩, -, -⟩
    have hsteps : (["data", "workspace"] : Place).map Step.name ++ pathSteps "logs/new/a.txt" =
        [.name "data", .name "workspace", .name "logs", .name "new"] ++ [.name "a.txt"] := by
      decide +kernel
    obtain ⟨rfl, -⟩ := List.append_inj' (hsteps.symm.trans hpath) rfl
    rw [← Files.walk_eq_ok_iff, hmissing] at hwalks
    simp at hwalks

/-- A file written through the link to the outside. -/
theorem write_through_dangling_link :
    (∀ path ∈ (writeText "out").paths, ∃ target, workspacePath linkedWorkspace
        [.name "data", .name "workspace"] path = .ok target) ∧
      ((writeText "out").run linkedWorkspace [.name "data", .name "workspace"]).1 =
        [["data", "stolen.txt"]] ∧
      ¬ ["data", "workspace"] <+: ["data", "stolen.txt"] := by
  refine ⟨List.forall_mem_singleton.mpr ⟨[.name "data", .name "workspace", .name "out"],
    by decide +kernel⟩, by decide +kernel, by decide⟩

end FsNode

end KakuneCore
