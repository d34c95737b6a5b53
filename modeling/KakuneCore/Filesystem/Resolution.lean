import Mathlib.Data.List.Basic
import Mathlib.Data.List.Infix

/-!
# Path resolution

A tree of directories, files and symbolic links, and the walk along a path that follows the links as
an operating system does: a link is replaced by its target, and only so many links are followed. The
**place** a walk ends in is the list of names that leads there without links.

A walk is a function, for running it, and an inductive relation, for reasoning along it.
-/

namespace Files

/-- A piece of a path. A final slash is a `here`: what stands before it has to be a directory. -/
inductive Step
  | here
  | up
  | name (name : String)
  deriving DecidableEq, Repr

inductive Entry
  | directory
  | file
  | link (absolute : Bool) (target : List Step)
  deriving DecidableEq, Repr

def Entry.isLink : Entry → Bool
  | link _ _ => true
  | _ => false

/-- The names that lead from the root to an entry. -/
abbrev Place : Type := List String

/-- A tree with a root, whose other entries stand in directories. -/
structure Tree where
  entry : Place → Option Entry
  root : entry [] = some .directory
  parent : ∀ place name, entry (place ++ [name]) ≠ none → entry place = some .directory

/-- The tree with the listed entries. -/
def Tree.ofEntries (entries : List (Place × Entry)) (hroot : entries.lookup [] = some .directory)
    (hparent : ∀ entry ∈ entries, entries.lookup entry.1.dropLast = some .directory) : Tree where
  entry place := entries.lookup place
  root := hroot
  parent place name hname := by
    obtain ⟨entry, hentry⟩ := Option.ne_none_iff_exists'.mp hname
    obtain ⟨before, after, heq, -⟩ := List.lookup_eq_some_iff.mp hentry
    have hdir := hparent (place ++ [name], entry) (heq ▸ by simp)
    rwa [List.dropLast_concat] at hdir

inductive Failure
  | missing
  | notDirectory
  | isDirectory
  | alreadyExists
  | tooManyLinks
  | invalid
  deriving DecidableEq, Repr

/-! ### The walk -/

section Walk

variable (tree : Tree) (create : Bool)

/-- A walk from a directory, given how a link is followed. Where `create` is set, the last name may
be missing in its directory. The result has the links that may still be followed. -/
def walkFrom (follow : Place → List Step → Except Failure (Nat × Place)) (links : Nat) :
    Place → List Step → Except Failure (Nat × Place)
  | place, [] => .ok (links, place)
  | place, step :: rest =>
    if tree.entry place = some .directory then
      match step with
      | .here => walkFrom follow links place rest
      | .up => walkFrom follow links place.dropLast rest
      | .name name =>
        match tree.entry (place ++ [name]) with
        | some (.link absolute target) => follow (if absolute then [] else place) (target ++ rest)
        | some _ => walkFrom follow links (place ++ [name]) rest
        | none =>
          if create ∧ rest = [] then .ok (links, place ++ [name]) else .error .missing
    else .error .notDirectory

/-- A walk that follows at most `links` links. -/
def walk : (links : Nat) → Place → List Step → Except Failure (Nat × Place)
  | 0 => walkFrom tree create (fun _ _ => .error .tooManyLinks) 0
  | links + 1 => walkFrom tree create (walk links) (links + 1)

/-- `Walks links place path left goal`: the path leads from the place to the goal. -/
inductive Walks : Nat → Place → List Step → Nat → Place → Prop
  | done (links : Nat) (place : Place) : Walks links place [] links place
  | here {links left : Nat} {place goal : Place} {rest : List Step} :
      tree.entry place = some .directory → Walks links place rest left goal →
      Walks links place (.here :: rest) left goal
  | up {links left : Nat} {place goal : Place} {rest : List Step} :
      tree.entry place = some .directory → Walks links place.dropLast rest left goal →
      Walks links place (.up :: rest) left goal
  | enter {links left : Nat} {place goal : Place} {name : String} {entry : Entry}
      {rest : List Step} : tree.entry place = some .directory →
      tree.entry (place ++ [name]) = some entry → entry.isLink = false →
      Walks links (place ++ [name]) rest left goal →
        Walks links place (.name name :: rest) left goal
  | follow {links left : Nat} {place goal : Place} {name : String} {absolute : Bool}
      {target rest : List Step} : tree.entry place = some .directory →
      tree.entry (place ++ [name]) = some (.link absolute target) →
      Walks links (if absolute then [] else place) (target ++ rest) left goal →
      Walks (links + 1) place (.name name :: rest) left goal
  | fresh {links : Nat} {place : Place} {name : String} : create = true →
      tree.entry place = some .directory → tree.entry (place ++ [name]) = none →
      Walks links place [.name name] links (place ++ [name])

end Walk

variable {tree tree' : Tree} {create : Bool} {links left : Nat} {place goal : Place}
  {path rest : List Step}

theorem Walks.walkFrom_eq {follow : Place → List Step → Except Failure (Nat × Place)}
    (hfollow : ∀ links', links = links' + 1 → ∀ place path left goal,
      Walks tree create links' place path left goal → follow place path = .ok (left, goal))
    (h : Walks tree create links place path left goal) :
    walkFrom tree create follow links place path = .ok (left, goal) := by
  induction h with
  | done => rfl
  | here hdir _ ih => rw [walkFrom, if_pos hdir]; exact ih hfollow
  | up hdir _ ih => rw [walkFrom, if_pos hdir]; exact ih hfollow
  | @enter _ _ place _ name entry rest hdir hentry hlink _ ih =>
    rw [walkFrom, if_pos hdir]
    rcases entry with - | - | ⟨absolute, target⟩
    · simpa only [hentry] using ih hfollow
    · simpa only [hentry] using ih hfollow
    · simp [Entry.isLink] at hlink
  | follow hdir hentry hwalks _ =>
    rw [walkFrom, if_pos hdir]
    simpa only [hentry] using hfollow _ rfl _ _ _ _ hwalks
  | fresh hcreate hdir hentry =>
    rw [walkFrom, if_pos hdir]
    simp [hentry, hcreate]

theorem walks_of_walkFrom {follow : Place → List Step → Except Failure (Nat × Place)}
    (hfollow : ∀ place path left goal, follow place path = .ok (left, goal) →
      ∃ links', links = links' + 1 ∧ Walks tree create links' place path left goal)
    (h : walkFrom tree create follow links place path = .ok (left, goal)) :
    Walks tree create links place path left goal := by
  induction path generalizing place with
  | nil =>
    obtain ⟨rfl, rfl⟩ := Prod.mk.inj (Except.ok.inj h)
    exact .done _ _
  | cons step rest ih =>
    rcases step with - | - | name
    · rw [walkFrom] at h
      split_ifs at h with hdir
      exact .here hdir (ih h)
    · rw [walkFrom] at h
      split_ifs at h with hdir
      exact .up hdir (ih h)
    · rw [walkFrom] at h
      by_cases hdir : tree.entry place = some .directory
      swap
      · rw [if_neg hdir] at h
        simp at h
      rw [if_pos hdir] at h
      rcases hentry : tree.entry (place ++ [name]) with - | entry
      · simp only [hentry] at h
        split_ifs at h with hlast
        obtain ⟨hcreate, rfl⟩ := hlast
        obtain ⟨rfl, rfl⟩ := Prod.mk.inj (Except.ok.inj h)
        exact .fresh hcreate hdir hentry
      · rcases entry with - | - | ⟨absolute, target⟩
        · simp only [hentry] at h
          exact .enter hdir hentry rfl (ih h)
        · simp only [hentry] at h
          exact .enter hdir hentry rfl (ih h)
        · simp only [hentry] at h
          obtain ⟨links', rfl, hwalks⟩ := hfollow _ _ _ _ h
          exact .follow hdir hentry hwalks

/-- **The walk computes the relation.** -/
theorem walk_eq_ok_iff :
    walk tree create links place path = .ok (left, goal) ↔
      Walks tree create links place path left goal := by
  induction links generalizing place path left goal with
  | zero =>
    refine ⟨walks_of_walkFrom fun _ _ _ _ h => by simp at h, fun h => h.walkFrom_eq ?_⟩
    intro links' hlinks
    omega
  | succ links ih =>
    refine ⟨walks_of_walkFrom fun _ _ _ _ h => ⟨links, rfl, ih.mp h⟩, fun h => h.walkFrom_eq ?_⟩
    intro links' hlinks place path left goal hwalks
    obtain rfl : links = links' := Nat.succ_injective hlinks
    exact ih.mpr hwalks

theorem Walks.unique {left' : Nat} {goal' : Place}
    (h : Walks tree create links place path left goal)
    (h' : Walks tree create links place path left' goal') : left = left' ∧ goal = goal' := by
  have heq := (walk_eq_ok_iff.mpr h).symm.trans (walk_eq_ok_iff.mpr h')
  exact Prod.mk.inj (Except.ok.inj heq)

/-! ### Composition -/

/-- One path after another. -/
theorem Walks.append {links' left' : Nat} {place' : Place}
    (h : Walks tree false links place path links' place')
    (h' : Walks tree create links' place' rest left' goal) :
    Walks tree create links place (path ++ rest) left' goal := by
  induction h with
  | done => exact h'
  | here hdir _ ih => exact .here hdir (ih h')
  | up hdir _ ih => exact .up hdir (ih h')
  | enter hdir hentry hlink _ ih => exact .enter hdir hentry hlink (ih h')
  | follow hdir hentry _ ih =>
    have hwalks := ih h'
    rw [List.append_assoc] at hwalks
    exact .follow hdir hentry hwalks
  | fresh hcreate => simp at hcreate

/-- **A path is walked piece by piece**; what is not last has to be there. -/
theorem Walks.split {steps : List Step} (h : Walks tree create links place steps left goal)
    (hsteps : steps = path ++ rest) (hrest : rest ≠ []) :
    ∃ links' place', Walks tree false links place path links' place' ∧
      Walks tree create links' place' rest left goal := by
  induction h generalizing path with
  | done links place =>
    obtain ⟨-, rfl⟩ := List.append_eq_nil_iff.mp hsteps.symm
    exact absurd rfl hrest
  | @here links left place goal steps hdir hwalks ih =>
    rcases List.cons_eq_append_iff.mp hsteps with ⟨rfl, rfl⟩ | ⟨path, rfl, htail⟩
    · exact ⟨_, _, .done _ _, .here hdir hwalks⟩
    · obtain ⟨links', place', hfirst, hsecond⟩ := ih htail
      exact ⟨links', place', .here hdir hfirst, hsecond⟩
  | @up links left place goal steps hdir hwalks ih =>
    rcases List.cons_eq_append_iff.mp hsteps with ⟨rfl, rfl⟩ | ⟨path, rfl, htail⟩
    · exact ⟨_, _, .done _ _, .up hdir hwalks⟩
    · obtain ⟨links', place', hfirst, hsecond⟩ := ih htail
      exact ⟨links', place', .up hdir hfirst, hsecond⟩
  | @enter links left place goal name entry steps hdir hentry hlink hwalks ih =>
    rcases List.cons_eq_append_iff.mp hsteps with ⟨rfl, rfl⟩ | ⟨path, rfl, htail⟩
    · exact ⟨_, _, .done _ _, .enter hdir hentry hlink hwalks⟩
    · obtain ⟨links', place', hfirst, hsecond⟩ := ih htail
      exact ⟨links', place', .enter hdir hentry hlink hfirst, hsecond⟩
  | @follow links left place goal name absolute target steps hdir hentry hwalks ih =>
    rcases List.cons_eq_append_iff.mp hsteps with ⟨rfl, rfl⟩ | ⟨path, rfl, htail⟩
    · exact ⟨_, _, .done _ _, .follow hdir hentry hwalks⟩
    · subst htail
      obtain ⟨links', place', hfirst, hsecond⟩ := ih (List.append_assoc target path rest).symm
      exact ⟨links', place', .follow hdir hentry hfirst, hsecond⟩
  | @fresh links place name hcreate hdir hentry =>
    rcases List.cons_eq_append_iff.mp hsteps with ⟨rfl, rfl⟩ | ⟨path, rfl, htail⟩
    · exact ⟨_, _, .done _ _, .fresh hcreate hdir hentry⟩
    · obtain ⟨-, rfl⟩ := List.append_eq_nil_iff.mp htail.symm
      exact absurd rfl hrest

/-! ### What a walk ends in -/

theorem Tree.directory_dropLast (h : tree.entry place = some .directory) :
    tree.entry place.dropLast = some .directory := by
  rcases List.eq_nil_or_concat' place with rfl | ⟨front, name, rfl⟩
  · exact h
  · rw [List.dropLast_concat]
    exact tree.parent front name (by rw [h]; simp)

/-- What a walk may create it finds, if it is there. -/
theorem Walks.of_create (h : Walks tree create links place path left goal)
    (hgoal : tree.entry goal ≠ none) : Walks tree false links place path left goal := by
  induction h with
  | done => exact .done _ _
  | here hdir _ ih => exact .here hdir (ih hgoal)
  | up hdir _ ih => exact .up hdir (ih hgoal)
  | enter hdir hentry hlink _ ih => exact .enter hdir hentry hlink (ih hgoal)
  | follow hdir hentry _ ih => exact .follow hdir hentry (ih hgoal)
  | fresh _ _ hentry => exact absurd hentry hgoal

/-- The names of a place lead to it. -/
theorem walks_names (h : tree.entry place = some .directory) :
    Walks tree false links [] (place.map .name) links place := by
  induction place using List.reverseRecOn with
  | nil => exact .done _ _
  | append_singleton place name ih =>
    have hparent : tree.entry place = some .directory := tree.parent place name (by rw [h]; simp)
    rw [List.map_append, List.map_singleton]
    exact (ih hparent).append (.enter hparent h rfl (.done _ _))

/-! ### Paths that mean the same -/

/-- The second path is the first one without some of its `here`. -/
inductive Prunes : List Step → List Step → Prop
  | nil : Prunes [] []
  | keep (step : Step) {path path' : List Step} : Prunes path path' →
      Prunes (step :: path) (step :: path')
  | drop {path path' : List Step} : Prunes path path' → Prunes (.here :: path) path'

theorem Prunes.refl (path : List Step) : Prunes path path := by
  induction path with
  | nil => exact .nil
  | cons step path ih => exact .keep step ih

theorem Prunes.append {path path' rest rest' : List Step} (h : Prunes path path')
    (h' : Prunes rest rest') : Prunes (path ++ rest) (path' ++ rest') := by
  induction h with
  | nil => exact h'
  | keep step _ ih => exact .keep step ih
  | drop _ ih => exact .drop ih

theorem prunes_filter (path : List Step) : Prunes path (path.filter (· ≠ .here)) := by
  induction path with
  | nil => exact .nil
  | cons step path ih =>
    by_cases hstep : step = .here
    · subst hstep
      simpa using Prunes.drop ih
    · simpa [hstep] using Prunes.keep step ih

theorem Prunes.eq_nil (h : Prunes [] path) : path = [] := by
  rcases h with _ | _ | _
  rfl

/-- **A path may be walked without its `here`.** -/
theorem Walks.prune {path' : List Step} (h : Walks tree create links place path left goal)
    (hprunes : Prunes path path') : Walks tree create links place path' left goal := by
  induction h generalizing path' with
  | done =>
    rw [hprunes.eq_nil]
    exact .done _ _
  | here hdir _ ih =>
    rcases hprunes with - | ⟨-, hrest⟩ | hrest
    · exact .here hdir (ih hrest)
    · exact ih hrest
  | up hdir _ ih =>
    rcases hprunes with - | ⟨-, hrest⟩ | -
    exact .up hdir (ih hrest)
  | enter hdir hentry hlink _ ih =>
    rcases hprunes with - | ⟨-, hrest⟩ | -
    exact .enter hdir hentry hlink (ih hrest)
  | follow hdir hentry _ ih =>
    rcases hprunes with - | ⟨-, hrest⟩ | -
    exact .follow hdir hentry (ih (.append (.refl _) hrest))
  | fresh hcreate hdir hentry =>
    rcases hprunes with - | ⟨-, hrest⟩ | -
    rw [hrest.eq_nil]
    exact .fresh hcreate hdir hentry

/-! ### Growing trees -/

/-- The second tree has the entries of the first one. -/
def Tree.Below (tree tree' : Tree) : Prop :=
  ∀ place entry, tree.entry place = some entry → tree'.entry place = some entry

theorem Tree.Below.refl (tree : Tree) : tree.Below tree := fun _ _ h => h

theorem Walks.mono (hbelow : tree.Below tree') (h : Walks tree false links place path left goal) :
    Walks tree' false links place path left goal := by
  induction h with
  | done => exact .done _ _
  | here hdir _ ih => exact .here (hbelow _ _ hdir) ih
  | up hdir _ ih => exact .up (hbelow _ _ hdir) ih
  | enter hdir hentry hlink _ ih => exact .enter (hbelow _ _ hdir) (hbelow _ _ hentry) hlink ih
  | follow hdir hentry _ ih => exact .follow (hbelow _ _ hdir) (hbelow _ _ hentry) ih
  | fresh hcreate => simp at hcreate

/-- The tree with a new, empty directory. -/
def Tree.addDirectory (tree : Tree) (place : Place) (name : String)
    (hplace : tree.entry place = some .directory)
    (hnew : tree.entry (place ++ [name]) = none) : Tree where
  entry other := if other = place ++ [name] then some .directory else tree.entry other
  root := by
    rw [if_neg (by simp), tree.root]
  parent other name' hother := by
    by_cases hother' : other = place ++ [name]
    · rw [if_pos hother']
    · rw [if_neg hother']
      by_cases heq : other ++ [name'] = place ++ [name]
      · obtain ⟨rfl, -⟩ := List.append_inj' heq rfl
        exact hplace
      · rw [if_neg heq] at hother
        exact tree.parent other name' hother

section AddDirectory

variable {name : String} (hplace : tree.entry place = some .directory)
  (hnew : tree.entry (place ++ [name]) = none)

theorem Tree.below_addDirectory : tree.Below (tree.addDirectory place name hplace hnew) := by
  intro other entry hother
  have hne : other ≠ place ++ [name] := by
    rintro rfl
    rw [hnew] at hother
    simp at hother
  exact (if_neg hne).trans hother

theorem Tree.entry_addDirectory :
    (tree.addDirectory place name hplace hnew).entry (place ++ [name]) = some .directory :=
  if_pos rfl

/-- A new directory is empty. -/
theorem Tree.entry_below_addDirectory (name' : String) :
    (tree.addDirectory place name hplace hnew).entry (place ++ [name] ++ [name']) = none := by
  refine (if_neg (by simp)).trans ?_
  by_contra hentry
  have hparent := tree.parent _ _ hentry
  rw [hnew] at hparent
  simp at hparent

end AddDirectory

end Files
