import KakuneCore.Planner.PlanView
import KakuneCore.Services.Removal

/-!
# The reference scan

`workflow_references` walks a YAML tree without knowing the document format: every entry
`type: kind`, wherever it stands, counts as a node of that type, and a value below 128 levels makes
the scan fail. `places` lists what the walk meets, and `workflowReferences_exact_iff` says on which
accepted sources the answer is the one about the nodes of the document.
-/

namespace KakuneCore

/-! ### The nodes of a YAML tree -/

namespace YamlValue

/-- The value of a key of a mapping. -/
def get? (key : String) : YamlValue → Option YamlValue
  | mapping entries => (entries.find? fun entry => entry.1 = some key).map Prod.snd
  | _ => none

mutual

/-- The tree is a mapping with the nodes of the graph under `nodes`, as the typed decoder reads
them. -/
def HoldsGraph (tree : YamlValue) : WorkflowSubgraph → Prop
  | ⟨entry, nodes, _⟩ =>
    tree.get? "entry" = some (.string entry) ∧
      ∃ trees, tree.get? "nodes" = some (.sequence trees) ∧ HoldsNodes trees nodes

def HoldsNodes : List YamlValue → List WorkflowNode → Prop
  | [], [] => True
  | tree :: trees, node :: nodes => HoldsNode tree node ∧ HoldsNodes trees nodes
  | _, _ => False

def HoldsNode (tree : YamlValue) : WorkflowNode → Prop
  | ⟨id, nodeType, _, _, _, _, branches, body⟩ =>
    tree.get? "id" = some (.string id) ∧ tree.get? "type" = some (.string nodeType) ∧
      HoldsBranches (tree.get? "branches") branches ∧ HoldsBody (tree.get? "body") body

def HoldsBranches (tree : Option YamlValue) : List (String × WorkflowSubgraph) → Prop
  | [] => True
  | (name, graph) :: branches =>
    (∃ map branch, tree = some map ∧ map.get? name = some branch ∧ HoldsGraph branch graph) ∧
      HoldsBranches tree branches

def HoldsBody (tree : Option YamlValue) : Option WorkflowSubgraph → Prop
  | none => True
  | some graph => ∃ body, tree = some body ∧ HoldsGraph body graph

end

theorem mem_of_get? {key : String} {tree value : YamlValue} (h : tree.get? key = some value) :
    ∃ entries, tree = .mapping entries ∧ (some key, value) ∈ entries := by
  rcases tree with _ | _ | _ | entries | _
  · simp [get?] at h
  · simp [get?] at h
  · simp [get?] at h
  · obtain ⟨⟨key', value'⟩, hfind, rfl⟩ := Option.map_eq_some_iff.mp h
    have hkey := List.find?_some hfind
    simp only [decide_eq_true_eq] at hkey
    exact ⟨entries, rfl, hkey ▸ List.mem_of_find?_eq_some hfind⟩
  · simp [get?] at h

theorem HoldsNodes.exists_tree {trees : List YamlValue} {nodes : List WorkflowNode}
    (h : HoldsNodes trees nodes) {node : WorkflowNode} (hnode : node ∈ nodes) :
    ∃ tree ∈ trees, HoldsNode tree node := by
  induction nodes generalizing trees with
  | nil => simp at hnode
  | cons first nodes ih =>
    rcases trees with - | ⟨tree, trees⟩
    · simp [HoldsNodes] at h
    · obtain ⟨hfirst, hrest⟩ := h
      rcases List.mem_cons.mp hnode with rfl | hmem
      · exact ⟨tree, List.mem_cons_self, hfirst⟩
      · obtain ⟨tree', htree, hholds⟩ := ih hrest hmem
        exact ⟨tree', List.mem_cons_of_mem _ htree, hholds⟩

theorem HoldsBranches.exists_tree {tree : Option YamlValue}
    {branches : List (String × WorkflowSubgraph)} (h : HoldsBranches tree branches)
    {graph : WorkflowSubgraph} (hgraph : graph ∈ branches.map Prod.snd) :
    ∃ map name branch, tree = some map ∧ map.get? name = some branch ∧ HoldsGraph branch graph := by
  induction branches with
  | nil => simp at hgraph
  | cons entry branches ih =>
    obtain ⟨name, first⟩ := entry
    obtain ⟨⟨map, branch, hmap, hbranch, hholds⟩, hrest⟩ := h
    rcases List.mem_cons.mp hgraph with rfl | hmem
    · exact ⟨map, name, branch, hmap, hbranch, hholds⟩
    · exact ih hrest hmem

/-! ### What the scan meets -/

/-- What the scan looks at: an entry `type: kind`, or a value nested too deep. -/
inductive Place
  | typed (kind : String)
  | tooDeep
  deriving DecidableEq, Repr

mutual

/-- The places of a value at the given depth, in the order of the scan. -/
def places (depth : Nat) : YamlValue → List Place
  | mapping entries => if depth > 128 then [.tooDeep] else entryPlaces depth entries
  | sequence values => if depth > 128 then [.tooDeep] else itemPlaces depth values
  | _ => if depth > 128 then [.tooDeep] else []

def entryPlaces (depth : Nat) : List (Option String × YamlValue) → List Place
  | [] => []
  | (key, value) :: entries =>
    (if key = some "type" then value.asStr.toList.map .typed else []) ++
      (places (depth + 1) value ++ entryPlaces depth entries)

def itemPlaces (depth : Nat) : List YamlValue → List Place
  | [] => []
  | value :: values => places (depth + 1) value ++ itemPlaces depth values

end

/-- The answer a place forces, if it forces one. -/
def Place.answer (nodeTypes : List String) : Place → Option (Except String Bool)
  | typed kind => if kind ∈ nodeTypes then some (.ok true) else none
  | tooDeep => some (.error "workflow nesting exceeds the plugin reference scan limit")

/-- The answer of the first place that forces one. -/
def firstAnswer (nodeTypes : List String) (places : List Place) : Except String Bool :=
  (places.findSome? (Place.answer nodeTypes)).getD (.ok false)

@[simp] theorem firstAnswer_nil (nodeTypes : List String) : firstAnswer nodeTypes [] = .ok false :=
  rfl

theorem Place.answer_ne_ok_false {nodeTypes : List String} {place : Place} :
    place.answer nodeTypes ≠ some (.ok false) := by
  rcases place with kind | _
  · rw [answer]
    split_ifs <;> simp
  · simp [answer]

theorem firstAnswer_append (nodeTypes : List String) (first rest : List Place) :
    firstAnswer nodeTypes (first ++ rest) =
      match firstAnswer nodeTypes first with
      | .ok false => firstAnswer nodeTypes rest
      | found => found := by
  rw [firstAnswer, List.findSome?_append]
  rcases h : first.findSome? (Place.answer nodeTypes) with - | found
  · simp [firstAnswer, h]
  · obtain ⟨place, -, hplace⟩ := List.exists_of_findSome?_eq_some h
    have hne : found ≠ .ok false := fun hfound => Place.answer_ne_ok_false (hfound ▸ hplace)
    rcases found with error | _ | _
    · simp [firstAnswer, h]
    · exact absurd rfl hne
    · simp [firstAnswer, h]

theorem firstAnswer_typed (nodeTypes : List String) (key : Option String) (value : YamlValue) :
    firstAnswer nodeTypes (if key = some "type" then value.asStr.toList.map .typed else []) =
      .ok (key = some "type" && value.asStr.any fun kind => kind ∈ nodeTypes) := by
  by_cases hkey : key = some "type"
  · rcases value.asStr with - | kind
    · simp [hkey]
    · by_cases hkind : kind ∈ nodeTypes <;> simp [hkey, hkind, firstAnswer, Place.answer]
  · simp [hkey]

mutual

/-- **The scan** gives the answer of the first place that forces one. -/
theorem visit_eq (nodeTypes : List String) (depth : Nat) : ∀ value : YamlValue,
    value.visit nodeTypes depth = firstAnswer nodeTypes (value.places depth)
  | mapping entries => by
    rw [visit, places]
    split_ifs
    · rfl
    · exact visitEntries_eq nodeTypes depth entries
  | sequence values => by
    rw [visit, places]
    split_ifs
    · rfl
    · exact visitItems_eq nodeTypes depth values
  | string _ | tagged _ | other => by
    rw [visit, places]
    · split_ifs <;> rfl
    all_goals simp

theorem visitEntries_eq (nodeTypes : List String) (depth : Nat) :
    ∀ entries : List (Option String × YamlValue),
      visitEntries nodeTypes depth entries = firstAnswer nodeTypes (entryPlaces depth entries)
  | [] => by rw [visitEntries, entryPlaces, firstAnswer_nil]
  | (key, value) :: entries => by
    rw [visitEntries, entryPlaces, firstAnswer_append, firstAnswer_typed, firstAnswer_append,
      ← visit_eq nodeTypes (depth + 1) value, ← visitEntries_eq nodeTypes depth entries]
    rcases key = some "type" && value.asStr.any fun kind => kind ∈ nodeTypes with - | -
    · rfl
    · rfl

theorem visitItems_eq (nodeTypes : List String) (depth : Nat) : ∀ values : List YamlValue,
    visitItems nodeTypes depth values = firstAnswer nodeTypes (itemPlaces depth values)
  | [] => by rw [visitItems, itemPlaces, firstAnswer_nil]
  | value :: values => by
    rw [visitItems, visit_eq nodeTypes (depth + 1) value, visitItems_eq nodeTypes depth values,
      itemPlaces]
    exact (firstAnswer_append nodeTypes (value.places (depth + 1)) (itemPlaces depth values)).symm

end

/-- The answer is no when nothing is nested too deep and no type is listed. -/
theorem firstAnswer_eq_ok_false_iff {nodeTypes : List String} {places : List Place} :
    firstAnswer nodeTypes places = .ok false ↔
      .tooDeep ∉ places ∧ ∀ kind ∈ nodeTypes, .typed kind ∉ places := by
  rw [firstAnswer]
  rcases h : places.findSome? (Place.answer nodeTypes) with - | found
  · rw [List.findSome?_eq_none_iff] at h
    refine iff_of_true rfl ⟨fun hdeep => ?_, fun kind hkind htyped => ?_⟩
    · exact absurd (h _ hdeep) (by simp [Place.answer])
    · exact absurd (h _ htyped) (by simp [Place.answer, hkind])
  · obtain ⟨place, hplace, hanswer⟩ := List.exists_of_findSome?_eq_some h
    refine iff_of_false (fun hfound => ?_) ?_
    · rw [Option.getD_some] at hfound
      exact Place.answer_ne_ok_false (hfound ▸ hanswer)
    · rintro ⟨hdeep, htyped⟩
      rcases place with kind | _
      · by_cases hkind : kind ∈ nodeTypes
        · exact htyped kind hkind hplace
        · simp [Place.answer, hkind] at hanswer
      · exact hdeep hplace

/-- Whatever is nested too deep stands behind a listed type. -/
def ReachesListed (nodeTypes : List String) (places : List Place) : Prop :=
  ∀ before after, places = before ++ .tooDeep :: after → ∃ kind ∈ nodeTypes, .typed kind ∈ before

/-- The answer is yes when some type is listed, before everything that is nested too deep. -/
theorem firstAnswer_eq_ok_true_iff {nodeTypes : List String} {places : List Place} :
    firstAnswer nodeTypes places = .ok true ↔
      (∃ kind ∈ nodeTypes, .typed kind ∈ places) ∧ ReachesListed nodeTypes places := by
  rw [firstAnswer]
  rcases h : places.findSome? (Place.answer nodeTypes) with - | found
  · rw [List.findSome?_eq_none_iff] at h
    refine iff_of_false (by simp) ?_
    rintro ⟨⟨kind, hkind, htyped⟩, -⟩
    exact absurd (h _ htyped) (by simp [Place.answer, hkind])
  · obtain ⟨first, place, rest, rfl, hplace, hfirst⟩ := List.findSome?_eq_some_iff.mp h
    rw [Option.getD_some]
    rcases place with kind | _
    · have hkind : kind ∈ nodeTypes := by
        by_contra hkind
        simp [Place.answer, hkind] at hplace
      obtain rfl : .ok true = found := by simpa [Place.answer, hkind] using hplace
      refine iff_of_true rfl ⟨⟨kind, hkind, by simp⟩, fun before after hdeep => ?_⟩
      -- the two decisive places are different, and the first one is not the deep one
      rcases List.append_eq_append_iff.mp hdeep with ⟨between, rfl, hrest⟩ | ⟨between, rfl, hrest⟩
      · rcases between with - | ⟨next, between⟩
        · simp at hrest
        · obtain ⟨rfl, -⟩ := List.cons_eq_cons.mp hrest
          exact ⟨kind, hkind, by simp⟩
      · rcases between with - | ⟨next, between⟩
        · simp at hrest
        · obtain ⟨rfl, -⟩ := List.cons_eq_cons.mp hrest
          simpa [Place.answer] using hfirst .tooDeep (by simp)
    · refine iff_of_false (fun hfound => ?_) fun ⟨_, hreach⟩ => ?_
      · simp [Place.answer, hfound] at hplace
      · obtain ⟨kind, hkind, htyped⟩ := hreach first rest rfl
        simpa [Place.answer, hkind] using hfirst _ htyped

/-! ### The nodes are among the places -/

/-- The scan meets the place, or stops before for the depth. -/
def Meets (depth : Nat) (tree : YamlValue) (place : Place) : Prop :=
  place ∈ tree.places depth ∨ .tooDeep ∈ tree.places depth

theorem Meets.tooDeep {depth : Nat} {tree : YamlValue} {place : Place} (h : depth > 128) :
    tree.Meets depth place := by
  refine .inr ?_
  rcases tree with _ | _ | _ | _ | _ <;> simp [places, h]

theorem mem_entryPlaces {depth : Nat} {entries : List (Option String × YamlValue)}
    {entry : Option String × YamlValue} (h : entry ∈ entries) {place : Place}
    (hplace : place ∈ entry.2.places (depth + 1) ∨
      entry.1 = some "type" ∧ ∃ kind, entry.2.asStr = some kind ∧ place = .typed kind) :
    place ∈ entryPlaces depth entries := by
  induction entries with
  | nil => simp at h
  | cons first entries ih =>
    obtain ⟨key, value⟩ := first
    rw [entryPlaces, List.mem_append, List.mem_append]
    rcases List.mem_cons.mp h with rfl | hmem
    · rcases hplace with hinner | ⟨rfl, kind, hkind, rfl⟩
      · exact .inr (.inl hinner)
      · exact .inl (by simp [show value.asStr = some kind from hkind])
    · exact .inr (.inr (ih hmem))

theorem mem_itemPlaces {depth : Nat} {values : List YamlValue} {value : YamlValue}
    (h : value ∈ values) {place : Place} (hplace : place ∈ value.places (depth + 1)) :
    place ∈ itemPlaces depth values := by
  induction values with
  | nil => simp at h
  | cons first values ih =>
    rw [itemPlaces, List.mem_append]
    rcases List.mem_cons.mp h with rfl | hmem
    · exact .inl hplace
    · exact .inr (ih hmem)

/-- The scan goes from a mapping to its values. -/
theorem Meets.of_get? {depth : Nat} {key : String} {tree value : YamlValue} {place : Place}
    (hget : tree.get? key = some value) (h : value.Meets (depth + 1) place) :
    tree.Meets depth place := by
  by_cases hdepth : depth > 128
  · exact .tooDeep hdepth
  · obtain ⟨entries, rfl, hmem⟩ := mem_of_get? hget
    rw [Meets, places, if_neg hdepth]
    exact h.imp (fun hplace => mem_entryPlaces hmem (.inl hplace))
      fun hdeep => mem_entryPlaces hmem (.inl hdeep)

theorem Meets.of_mem {depth : Nat} {values : List YamlValue} {value : YamlValue} {place : Place}
    (hmem : value ∈ values) (h : value.Meets (depth + 1) place) :
    (sequence values).Meets depth place := by
  by_cases hdepth : depth > 128
  · exact .tooDeep hdepth
  · rw [Meets, places, if_neg hdepth]
    exact h.imp (mem_itemPlaces hmem) (mem_itemPlaces hmem)

theorem Meets.typed {depth : Nat} {kind : String} {tree : YamlValue}
    (hget : tree.get? "type" = some (.string kind)) : tree.Meets depth (.typed kind) := by
  by_cases hdepth : depth > 128
  · exact .tooDeep hdepth
  · obtain ⟨entries, rfl, hmem⟩ := mem_of_get? hget
    rw [Meets, places, if_neg hdepth]
    exact .inl (mem_entryPlaces hmem (.inr ⟨rfl, kind, rfl, rfl⟩))

theorem HoldsGraph.exists_node {graph : WorkflowSubgraph} {tree : YamlValue}
    (h : tree.HoldsGraph graph) {node : WorkflowNode} (hnode : node ∈ graph.nodes) :
    ∃ inner : YamlValue, inner.HoldsNode node ∧ ∀ depth place,
      inner.Meets (depth + 2) place → tree.Meets depth place := by
  obtain ⟨entry, nodes, outputs⟩ := graph
  obtain ⟨-, trees, hget, hnodes⟩ := h
  obtain ⟨inner, hmem, hholds⟩ := hnodes.exists_tree hnode
  exact ⟨inner, hholds, fun depth place hmeets => .of_get? hget (.of_mem hmem hmeets)⟩

theorem HoldsNode.exists_owned {node : WorkflowNode} {tree : YamlValue} (h : tree.HoldsNode node)
    {graph : WorkflowSubgraph} (hgraph : graph ∈ node.ownedGraphs) :
    ∃ (inner : YamlValue) (levels : Nat), inner.HoldsGraph graph ∧ ∀ depth place,
      inner.Meets (depth + levels) place → tree.Meets depth place := by
  obtain ⟨id, nodeType, config, inputs, on, retry, branches, body⟩ := node
  obtain ⟨-, -, hbranches, hbody⟩ := h
  rcases List.mem_append.mp hgraph with hbranch | hbody'
  · obtain ⟨map, name, branch, hmap, hget, hholds⟩ := hbranches.exists_tree hbranch
    exact ⟨branch, 2, hholds, fun depth place hmeets => .of_get? hmap (.of_get? hget hmeets)⟩
  · rcases body with - | graph'
    · simp at hbody'
    · obtain rfl : graph = graph' := by simpa using hbody'
      obtain ⟨inner, hget, hholds⟩ := hbody
      exact ⟨inner, 1, hholds, fun depth place hmeets => .of_get? hget hmeets⟩

theorem HoldsNode.typed {node : WorkflowNode} {tree : YamlValue} (h : tree.HoldsNode node)
    (depth : Nat) : tree.Meets depth (.typed node.nodeType) := by
  obtain ⟨id, nodeType, config, inputs, on, retry, branches, body⟩ := node
  exact .typed h.2.1

/-- **The scan meets every node**, at any nesting, unless it stops before for the depth. -/
theorem HoldsGraph.meets {g graph : WorkflowSubgraph} (hgraph : graph ∈ graphsOf g)
    {node : WorkflowNode} (hnode : node ∈ graph.nodes) {tree : YamlValue} (h : tree.HoldsGraph g)
    (depth : Nat) : tree.Meets depth (.typed node.nodeType) := by
  rw [mem_graphsOf_iff_owns] at hgraph
  induction hgraph using Relation.ReflTransGen.head_induction_on generalizing tree depth with
  | refl =>
    obtain ⟨inner, hholds, hmeets⟩ := h.exists_node hnode
    exact hmeets depth _ (hholds.typed (depth + 2))
  | head hstep _ ih =>
    obtain ⟨owner, howner, howned⟩ := hstep
    obtain ⟨inner, hholds, hmeets⟩ := h.exists_node howner
    obtain ⟨inner', levels, hholds', hmeets'⟩ := hholds.exists_owned howned
    exact hmeets depth _ (hmeets' (depth + 2) _ (ih hholds' _))

end YamlValue

/-! ### The scan of an accepted source -/

/-- Some node, at any nesting depth, has one of the types. -/
def WorkflowDocument.UsesTypes (doc : WorkflowDocument) (nodeTypes : List String) : Prop :=
  ∃ graph ∈ graphsOf doc.graph, ∃ node ∈ graph.nodes, node.nodeType ∈ nodeTypes

instance (doc : WorkflowDocument) (nodeTypes : List String) : Decidable (doc.UsesTypes nodeTypes) :=
  inferInstanceAs (Decidable (∃ graph ∈ graphsOf doc.graph, ∃ node ∈ graph.nodes,
    node.nodeType ∈ nodeTypes))

/-- A source that the planner accepts, and in which both YAML decoders find the same tree. -/
structure AcceptedSource (parse : String → Option YamlValue) (plugins : PluginRegistry)
    (source : String) (tree : YamlValue) (doc : WorkflowDocument) : Prop where
  size : source.utf8ByteSize ≤ 1048576
  parsed : parse source = some tree
  holds : tree.HoldsGraph doc.graph
  accepted : ∃ compiled, compile doc plugins = .ok compiled

/-- Nothing but nodes carries a listed type where no node does, and whatever is nested deeper than
128 levels stands behind a listed type. -/
structure PlainTypes (nodeTypes : List String) (tree : YamlValue) (doc : WorkflowDocument) :
    Prop where
  typed : (∃ kind ∈ nodeTypes, .typed kind ∈ tree.places 0) → doc.UsesTypes nodeTypes
  deep : YamlValue.ReachesListed nodeTypes (tree.places 0)

/-- **The reference scan is exact** on the sources whose listed types and depth are plain. -/
theorem workflowReferences_exact_iff (parse : String → Option YamlValue) (plugins : PluginRegistry)
    (source : String) (tree : YamlValue) (doc : WorkflowDocument) (nodeTypes : List String)
    (h : AcceptedSource parse plugins source tree doc) :
    workflowReferences parse source nodeTypes = .ok (decide (doc.UsesTypes nodeTypes)) ↔
      PlainTypes nodeTypes tree doc := by
  have hscan : workflowReferences parse source nodeTypes =
      YamlValue.firstAnswer nodeTypes (tree.places 0) := by
    rw [workflowReferences, if_neg (Nat.not_lt.mpr h.size), h.parsed]
    exact YamlValue.visit_eq nodeTypes 0 tree
  rw [hscan]
  by_cases huses : doc.UsesTypes nodeTypes
  · rw [decide_eq_true huses, YamlValue.firstAnswer_eq_ok_true_iff]
    refine ⟨fun ⟨_, hdeep⟩ => ⟨fun _ => huses, hdeep⟩, fun ⟨_, hdeep⟩ => ⟨?_, hdeep⟩⟩
    obtain ⟨graph, hgraph, node, hnode, hkind⟩ := huses
    rcases h.holds.meets hgraph hnode 0 with htyped | htoo
    · exact ⟨_, hkind, htyped⟩
    · obtain ⟨before, after, hsplit⟩ := List.append_of_mem htoo
      obtain ⟨kind, hlisted, htyped⟩ := hdeep before after hsplit
      exact ⟨kind, hlisted, hsplit ▸ List.mem_append_left _ htyped⟩
  · rw [decide_eq_false huses, YamlValue.firstAnswer_eq_ok_false_iff]
    constructor
    · rintro ⟨hdeep, htyped⟩
      refine ⟨fun ⟨kind, hkind, hmem⟩ => absurd hmem (htyped kind hkind), ?_⟩
      intro before after hsplit
      exact absurd (hsplit ▸ List.mem_append_right _ List.mem_cons_self) hdeep
    · rintro ⟨htyped, hdeep⟩
      have hnone : ∀ kind ∈ nodeTypes, .typed kind ∉ tree.places 0 := fun kind hkind hmem =>
        huses (htyped ⟨kind, hkind, hmem⟩)
      refine ⟨fun htoo => ?_, hnone⟩
      obtain ⟨before, after, hsplit⟩ := List.append_of_mem htoo
      obtain ⟨kind, hlisted, hmem⟩ := hdeep before after hsplit
      exact hnone kind hlisted (hsplit ▸ List.mem_append_left _ hmem)

/-- A document with one node that passes a literal on. -/
def passDocument (literal : Value) : WorkflowDocument :=
  sampleDocument "a"
    [{ id := "a", nodeType := "kakune.flow.pass@1", inputs := [("value", .literal literal)] }]

/-- Its YAML text, with the text of the literal. -/
def passSource (literal : String) : String :=
  "apiVersion: kakune/v1\nkind: Workflow\nmetadata:\n  id: sample\n  name: Sample\n" ++
  "triggers:\n  - id: manual\n    type: kakune.trigger.manual@1\nentry: a\nnodes:\n" ++
  "  - id: a\n    type: kakune.flow.pass@1\n    inputs:\n      value:\n        literal:" ++ literal

def passTree (literal : YamlValue) : YamlValue :=
  .mapping [(some "apiVersion", .string "kakune/v1"), (some "kind", .string "Workflow"),
    (some "metadata", .mapping [(some "id", .string "sample"), (some "name", .string "Sample")]),
    (some "triggers", .sequence [.mapping [(some "id", .string "manual"),
      (some "type", .string "kakune.trigger.manual@1")]]),
    (some "entry", .string "a"),
    (some "nodes", .sequence [
      .mapping [(some "id", .string "a"), (some "type", .string "kakune.flow.pass@1"),
        (some "inputs", .mapping [(some "value", .mapping [(some "literal", literal)])])]])]

/-- A decoder that knows one text. -/
def decodeOnly (source : String) (tree : YamlValue) (text : String) : Option YamlValue :=
  if text = source then some tree else none

theorem acceptedSource_pass (text : String) (tree : YamlValue) (literal : Value)
    (hsize : (passSource text).utf8ByteSize ≤ 1048576)
    (haccepted : ∃ compiled, compile (passDocument literal) [] = .ok compiled) :
    AcceptedSource (decodeOnly (passSource text) (passTree tree)) [] (passSource text)
      (passTree tree) (passDocument literal) where
  size := hsize
  parsed := if_pos rfl
  holds := ⟨rfl, _, rfl, ⟨rfl, rfl, trivial, trivial⟩, trivial⟩
  accepted := haccepted

/-- A literal text is no reference. -/
theorem literal_text_is_no_reference :
    workflowReferences (decodeOnly (passSource " hi\n") (passTree (.string "hi")))
      (passSource " hi\n") ["acme.tool.run@1"] =
      .ok (decide ((passDocument (.string "hi")).UsesTypes ["acme.tool.run@1"])) := by
  have haccepted := acceptedSource_pass " hi\n" (.string "hi") (.string "hi") (by decide +kernel)
    ⟨_, rfl⟩
  refine (workflowReferences_exact_iff _ [] _ _ _ _ haccepted).mpr ⟨by decide, ?_⟩
  intro before after hsplit
  have hdeep : .tooDeep ∉ (passTree (.string "hi")).places 0 := by decide
  exact absurd (hsplit ▸ List.mem_append_right _ List.mem_cons_self) hdeep

/-- A literal that looks like a node counts as one. -/
theorem literal_type_is_a_reference :
    AcceptedSource
        (decodeOnly (passSource "\n          type: acme.tool.run@1\n")
          (passTree (.mapping [(some "type", .string "acme.tool.run@1")]))) []
        (passSource "\n          type: acme.tool.run@1\n")
        (passTree (.mapping [(some "type", .string "acme.tool.run@1")]))
        (passDocument (.object [("type", .string "acme.tool.run@1")])) ∧
      workflowReferences
          (decodeOnly (passSource "\n          type: acme.tool.run@1\n")
            (passTree (.mapping [(some "type", .string "acme.tool.run@1")])))
          (passSource "\n          type: acme.tool.run@1\n") ["acme.tool.run@1"] ≠
        .ok (decide ((passDocument (.object [("type", .string "acme.tool.run@1")])).UsesTypes
          ["acme.tool.run@1"])) := by
  have haccepted := acceptedSource_pass "\n          type: acme.tool.run@1\n"
    (.mapping [(some "type", .string "acme.tool.run@1")])
    (.object [("type", .string "acme.tool.run@1")]) (by decide +kernel) ⟨_, rfl⟩
  refine ⟨haccepted, fun h => ?_⟩
  have hplain := (workflowReferences_exact_iff _ [] _ _ _ _ haccepted).mp h
  exact absurd (hplain.typed ⟨_, List.mem_cons_self, by decide⟩) (by decide)

end KakuneCore
