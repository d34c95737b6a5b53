import KakuneCore.Runtime.Environment
import KakuneCore.Runtime.Panics
import KakuneCore.Runtime.Scheduler

/-!
# Foreach nodes

`execute_foreach` as an ordered map. The items of a chunk run side by side and the chunks one after
another; where the body is deterministic per item (`DeterministicItems`, under what a run may assume
of its environment), what the node returns is a function of the items alone: `ForeachOutcome`.

The main result, `foreach_is_ordered_map`, is about **every finished run**, for any limit of the
concurrency, and a body of nested graphs of any depth.
-/

namespace KakuneCore

open Proc

section Items

variable (sub : SubgraphRunner) (ctx : ExecutionContext) (node : WorkflowNode)
  (body : WorkflowSubgraph) (locals : StrMap Value)

/-- The body on one item: with `$item` and `$index`, in the scope of the item. -/
def runItem (index : Nat) (item : Value) : RunM (StrMap Value) :=
  sub { ctx with scope := itemScope ctx.scope node.id index } body
    ((locals.insert "$item" item).insert "$index" (.number (.int index)))

/-- Where the events of a run satisfy `env` (no signal is raised, and whatever else the body relies
on), the body on item `index` ends with `f index item`. -/
def DeterministicItems (env : RunEvent → Prop)
    (f : Nat → Value → Except RunError (StrMap Value)) (items : List Value) : Prop :=
  ∀ index item, items[index]? = some item →
    ∀ t r, Runs (runItem sub ctx node body locals index item).run t (some r) →
      (∀ e ∈ t, env e) → r = f index item

/-- The results of the node: one element for each item, in the order of the items. -/
def foreachResults (f : Nat → Value → Except RunError (StrMap Value)) (items : List Value) :
    List Value :=
  items.zipIdx.map fun p => foreachElement p.2 p.1 (f p.2 p.1)

/-- What the node returns: the results when the policy is `continue` or no item has failed, and
otherwise the error of the failing item with the least index. -/
inductive ForeachOutcome (continueOnError : Bool)
    (f : Nat → Value → Except RunError (StrMap Value)) (items : List Value) :
    Except RunError NodeResult → Prop
  | results :
      (continueOnError = false → ∀ index item, items[index]? = some item →
        ∃ outputs, f index item = .ok outputs) →
      ForeachOutcome continueOnError f items
        (.ok { route := "success", outputs := [("results", .array (foreachResults f items))] })
  | failed {k : Nat} {item : Value} {e : RunError} : continueOnError = false →
      items[k]? = some item → f k item = .error e →
      (∀ index < k, ∀ item', items[index]? = some item' → ∃ outputs, f index item' = .ok outputs) →
      ForeachOutcome continueOnError f items (.error (.foreachItem k e))

variable {f : Nat → Value → Except RunError (StrMap Value)} {items : List Value}

@[simp]
theorem length_foreachResults : (foreachResults f items).length = items.length := by
  simp [foreachResults]

/-- **Element `index`** is about item `index`. -/
theorem getElem?_foreachResults (index : Nat) :
    (foreachResults f items)[index]? =
      items[index]?.map fun item => foreachElement index item (f index item) := by
  simp [foreachResults, List.getElem?_zipIdx, Function.comp_def]

/-- The outcome is one, whatever the chunks were. -/
theorem ForeachOutcome.unique {continueOnError : Bool} {r r' : Except RunError NodeResult}
    (h : ForeachOutcome continueOnError f items r)
    (h' : ForeachOutcome continueOnError f items r') : r = r' := by
  cases h with
  | results hall =>
    cases h' with
    | results => rfl
    | failed hfail hitem he _ =>
      obtain ⟨outputs, hok⟩ := hall hfail _ _ hitem
      rw [he] at hok
      cases hok
  | @failed k item e hfail hitem he hleast =>
    cases h' with
    | results hall =>
      obtain ⟨outputs, hok⟩ := hall hfail _ _ hitem
      rw [he] at hok
      cases hok
    | @failed k' item' e' _ hitem' he' hleast' =>
      -- neither index is before the other
      have hge : ¬ k < k' := by
        intro hlt
        obtain ⟨outputs, hok⟩ := hleast' k hlt item hitem
        rw [he] at hok
        cases hok
      have hle : ¬ k' < k := by
        intro hlt
        obtain ⟨outputs, hok⟩ := hleast k' hlt item' hitem'
        rw [he'] at hok
        cases hok
      obtain rfl : k = k' := by omega
      obtain rfl := Option.some.inj (hitem.symm.trans hitem')
      obtain rfl := Except.error.inj (he.symm.trans he')
      rfl

/-! ### Collecting outcomes -/

/-- The items with their outcomes, the first of them at index `start`. -/
def itemOutcomes (f : Nat → Value → Except RunError (StrMap Value)) (start : Nat)
    (items : List Value) : List (Value × Except RunError (StrMap Value)) :=
  (items.zipIdx start).map fun p => (p.1, f p.2 p.1)

theorem itemOutcomes_append (start : Nat) (items items' : List Value) :
    itemOutcomes f start (items ++ items') =
      itemOutcomes f start items ++ itemOutcomes f (start + items.length) items' := by
  simp [itemOutcomes, List.zipIdx_append]

theorem collectItems_append (continueOnError : Bool) (start : Nat)
    (xs ys : List (Value × Except RunError (StrMap Value))) :
    collectItems continueOnError start (xs ++ ys) = (do
      let elements ← collectItems continueOnError start xs
      let others ← collectItems continueOnError (start + xs.length) ys
      .ok (elements ++ others)) := by
  induction xs generalizing start with
  | nil =>
    simp only [List.nil_append, collectItems]
    cases collectItems continueOnError start ys with
    | ok others => rfl
    | error e => rfl
  | cons x xs ih =>
    obtain ⟨item, outcome⟩ := x
    have hlength : start + (xs.length + 1) = start + 1 + xs.length := by omega
    have hrest : (do
        let elements ← collectItems continueOnError (start + 1) (xs ++ ys)
        .ok (foreachElement start item outcome :: elements)) = (do
          let elements ← (do
            let elements ← collectItems continueOnError (start + 1) xs
            .ok (foreachElement start item outcome :: elements))
          let others ← collectItems continueOnError (start + (xs.length + 1)) ys
          .ok (elements ++ others) : Except RunError (List Value)) := by
      rw [ih, hlength]
      cases collectItems continueOnError (start + 1) xs with
      | error e => rfl
      | ok elements =>
        cases collectItems continueOnError (start + 1 + xs.length) ys with
        | error e => rfl
        | ok others => rfl
    cases outcome with
    | ok outputs => exact hrest
    | error e =>
      cases continueOnError with
      | true => exact hrest
      | false => rfl

/-- Where the policy lets every item pass, the elements are collected. -/
theorem collectItems_eq_ok {continueOnError : Bool} {start : Nat}
    (h : continueOnError = false → ∀ index item, items[index]? = some item →
      ∃ outputs, f (start + index) item = .ok outputs) :
    collectItems continueOnError start (itemOutcomes f start items) =
      .ok ((items.zipIdx start).map fun p => foreachElement p.2 p.1 (f p.2 p.1)) := by
  induction items generalizing start with
  | nil => rfl
  | cons item items ih =>
    have hrest := ih fun hfail index item' hitem' => by
      have hnext := h hfail (index + 1) item' hitem'
      rwa [← Nat.add_assoc, Nat.add_right_comm] at hnext
    rw [itemOutcomes] at hrest ⊢
    simp only [List.zipIdx_cons, List.map_cons]
    cases hf : f start item with
    | ok outputs =>
      rw [collectItems, hrest]
      · rfl
      · simp
    | error e =>
      cases continueOnError with
      | true =>
        rw [collectItems, hrest]
        · rfl
        · simp
      | false =>
        obtain ⟨outputs, hok⟩ := h rfl 0 item rfl
        rw [Nat.add_zero, hf] at hok
        cases hok

/-- Under the policy `fail` the first failing item ends the collection. -/
theorem collectItems_eq_error {before after : List Value} {item : Value} {e : RunError}
    (hbefore : ∀ index item', before[index]? = some item' →
      ∃ outputs, f index item' = .ok outputs)
    (he : f before.length item = .error e) :
    collectItems false 0 (itemOutcomes f 0 (before ++ item :: after)) =
      .error (.foreachItem before.length e) := by
  have hfirst : collectItems false 0 (itemOutcomes f 0 before) = .ok _ :=
    collectItems_eq_ok fun _ index item' hitem' => by
      rw [Nat.zero_add]
      exact hbefore index item' hitem'
  have hlast : collectItems false before.length
      (itemOutcomes f before.length (item :: after)) = .error (.foreachItem before.length e) := by
    rw [itemOutcomes, List.zipIdx_cons, List.map_cons, he]
    rfl
  have hlength : (itemOutcomes f 0 before).length = before.length := by simp [itemOutcomes]
  rw [itemOutcomes_append, collectItems_append, hfirst, hlength, Nat.zero_add, hlast]
  rfl

/-- **All items at once**: what is collected is the outcome of the node. -/
theorem foreachOutcome_collectItems (continueOnError : Bool)
    (f : Nat → Value → Except RunError (StrMap Value)) (items : List Value) :
    ForeachOutcome continueOnError f items
      ((collectItems continueOnError 0 (itemOutcomes f 0 items)).map fun results =>
        { route := "success", outputs := [("results", .array results)] }) := by
  by_cases hall : continueOnError = false → ∀ index item, items[index]? = some item →
      ∃ outputs, f index item = .ok outputs
  · rw [collectItems_eq_ok (by simpa only [Nat.zero_add] using hall)]
    exact .results hall
  · rw [Classical.not_imp] at hall
    obtain ⟨rfl, hfails⟩ := hall
    -- take the failing item with the least index
    have hexists : ∃ k, ∃ item, items[k]? = some item ∧ ∃ e, f k item = .error e := by
      by_contra hnone
      refine hfails fun index item hitem => ?_
      cases hf : f index item with
      | ok outputs => exact ⟨outputs, rfl⟩
      | error e => exact absurd ⟨index, item, hitem, e, hf⟩ hnone
    classical
    obtain ⟨item, hitem, e, he⟩ := Nat.find_spec hexists
    have hleast : ∀ index < Nat.find hexists, ∀ item', items[index]? = some item' →
        ∃ outputs, f index item' = .ok outputs := by
      intro index hlt item' hitem'
      cases hf : f index item' with
      | ok outputs => exact ⟨outputs, rfl⟩
      | error e' => exact absurd ⟨item', hitem', e', hf⟩ (Nat.find_min hexists hlt)
    generalize Nat.find hexists = k at hitem he hleast
    obtain ⟨hk, rfl⟩ := List.getElem?_eq_some_iff.mp hitem
    have hlength : (items.take k).length = k := List.length_take_of_le hk.le
    have hcollected : collectItems false 0 (itemOutcomes f 0
        (items.take k ++ items[k] :: items.drop (k + 1))) = .error (.foreachItem k e) := by
      rw [collectItems_eq_error (e := e) ?_ (by rw [hlength]; exact he), hlength]
      intro index item' hitem'
      obtain ⟨hlt, -⟩ := List.getElem?_eq_some_iff.mp hitem'
      rw [hlength] at hlt
      rw [List.getElem?_take_of_lt hlt] at hitem'
      exact hleast index hlt item' hitem'
    rw [← List.drop_eq_getElem_cons hk, List.take_append_drop] at hcollected
    rw [hcollected]
    exact .failed rfl hitem he hleast

/-! ### Running the chunks -/

variable {sub ctx node body locals} {env : RunEvent → Prop}

/-- The environment of a run is assumed; nothing is guaranteed or counted. -/
def givenEnvironment (env : RunEvent → Prop) : Contract Op Resp Nat where
  assume := env
  ensure := fun _ => True
  tally := fun _ => 0

theorem givenEnvironment_total (t : RunTrace) : (givenEnvironment env).total t = 0 := by
  simp [Contract.total, givenEnvironment]

/-- What is known of the body of a chunk whose first item has index `start`: it is deterministic per
item and does not panic. -/
structure ItemsRun (sub : SubgraphRunner) (ctx : ExecutionContext) (node : WorkflowNode)
    (body : WorkflowSubgraph) (locals : StrMap Value) (env : RunEvent → Prop)
    (f : Nat → Value → Except RunError (StrMap Value)) (start : Nat) (items : List Value) :
    Prop where
  neverPanics : ∀ index item, NeverPanics (runItem sub ctx node body locals index item)
  deterministic : ∀ p ∈ items.zipIdx start,
    ∀ t r, Runs (runItem sub ctx node body locals p.2 p.1).run t (some r) →
      (∀ e ∈ t, env e) → r = f p.2 p.1

theorem ItemsRun.append {start : Nat} {items items' : List Value}
    (h : ItemsRun sub ctx node body locals env f start (items ++ items')) :
    ItemsRun sub ctx node body locals env f start items ∧
      ItemsRun sub ctx node body locals env f (start + items.length) items' := by
  have hdet := h.deterministic
  rw [List.zipIdx_append, List.forall_mem_append] at hdet
  exact ⟨⟨h.neverPanics, hdet.1⟩, ⟨h.neverPanics, hdet.2⟩⟩

/-- A worker of an item delivers the outcome of the item. -/
theorem meets_itemWorker {start : Nat} (h : ItemsRun sub ctx node body locals env f start items)
    {p : Value × Nat} (hp : p ∈ items.zipIdx start) :
    Meets (givenEnvironment env) (itemWorker sub ctx node body locals p.2 p.1) fun m r =>
      m = 0 ∧ r = f p.2 p.1 ∧ isPanic r = false := by
  intro t r hrun henv
  refine ⟨fun _ _ => trivial, ?_⟩
  rintro result rfl
  refine ⟨givenEnvironment_total t, ?_⟩
  obtain ⟨h', -⟩ | ⟨outcome, u, v, rfl, hbody, hrest⟩ := runs_bind_iff.mp hrun
  · cases h'
  obtain ⟨h', -⟩ | ⟨_, _, _, _, -, hret⟩ := runs_bind_iff.mp hrest
  · cases h'
  obtain ⟨-, h' | h'⟩ := runs_ret_iff.mp hret
  · cases h'
  obtain rfl := Option.some.inj h'
  refine ⟨h.deterministic p hp u _ hbody fun e he => henv e (List.mem_append_left _ he), ?_⟩
  have hne := (h.neverPanics p.2 p.1).ne hbody
  cases result with
  | ok outputs => rfl
  | error e => cases e <;> first | rfl | exact absurd rfl hne

/-- The workers of a chunk deliver the outcomes of its items, in their order. -/
theorem meets_chunk {start : Nat} {chunk : List Value}
    (h : ItemsRun sub ctx node body locals env f start chunk) :
    Meets (givenEnvironment env)
      (Proc.parallel (chunk.zipIdx.map fun p =>
        itemWorker sub ctx node body locals (start + p.2) p.1))
      fun m outcomes => m = 0 ∧ chunk.zip outcomes = itemOutcomes f start chunk ∧
        joinItems outcomes = .ok () := by
  have hstart : (chunk.zipIdx.map fun p =>
      itemWorker sub ctx node body locals (start + p.2) p.1) =
      (chunk.zipIdx start).map fun p => itemWorker sub ctx node body locals p.2 p.1 := by
    conv_rhs => rw [List.zipIdx_eq_map_add, List.map_map]
    rfl
  rw [hstart]
  refine (Meets.parallel_map fun p hp => meets_itemWorker h hp).mono fun m outcomes hrs => ?_
  obtain ⟨hm, hall⟩ := hrs
  have houtcomes : (chunk.zipIdx start).map (fun p => f p.2 p.1) = outcomes := by
    have hmap : List.Forall₂ (· = ·) ((chunk.zipIdx start).map fun p => f p.2 p.1) outcomes := by
      rw [List.forall₂_map_left_iff]
      exact hall.imp fun _ _ hr => hr.1.symm
    rwa [List.forall₂_eq_eq_eq] at hmap
  subst houtcomes
  rw [List.forall₂_map_right_iff, List.forall₂_same] at hall
  refine ⟨hm, ?_, ?_⟩
  · have hchunk : (chunk.zipIdx start).map Prod.fst = chunk := List.zipIdx_map_fst start chunk
    calc chunk.zip ((chunk.zipIdx start).map fun p => f p.2 p.1)
        = ((chunk.zipIdx start).map Prod.fst).zip
          ((chunk.zipIdx start).map fun p => f p.2 p.1) := by
          rw [hchunk]
      _ = itemOutcomes f start chunk := List.zip_map' ..
  · have hany : ((chunk.zipIdx start).map fun p => f p.2 p.1).any isPanic = false := by
      rw [List.any_map, List.any_eq_false]
      intro p hp
      simp [(hall p hp).2]
    rw [joinItems, hany]
    rfl

/-- **The chunks together** collect the outcomes of all their items. -/
theorem foreachChunks_collects (continueOnError : Bool) {chunks : List (List Value)} {start : Nat}
    (h : ItemsRun sub ctx node body locals env f start chunks.flatten) :
    Quietly (givenEnvironment env)
      (foreachChunks sub ctx node body locals continueOnError start chunks)
      (fun elements => collectItems continueOnError start (itemOutcomes f start chunks.flatten) =
        .ok elements)
      fun e => collectItems continueOnError start (itemOutcomes f start chunks.flatten) =
        .error e := by
  induction chunks generalizing start with
  | nil => exact .pure rfl
  | cons chunk chunks ih =>
    rw [List.flatten_cons] at h ⊢
    obtain ⟨hchunk, hrest⟩ := h.append
    have hlength : (itemOutcomes f start chunk).length = chunk.length := by simp [itemOutcomes]
    rw [itemOutcomes_append, collectItems_append, hlength]
    refine .bind (Quietly.lift (meets_chunk hchunk)) fun outcomes houtcomes => ?_
    obtain ⟨hzip, hjoin⟩ := houtcomes
    rw [hjoin]
    refine .bind (quietly_liftExcept (Q := fun _ => True) trivial) fun _ _ => ?_
    rw [hzip]
    cases hcollect : collectItems continueOnError start (itemOutcomes f start chunk) with
    | error e => exact .bind (Q := fun _ => False) (quietly_liftExcept rfl) fun _ hf => hf.elim
    | ok elements =>
      refine .bind (Q := fun es => es = elements) (quietly_liftExcept rfl) fun es hes => ?_
      subst hes
      refine .bind
        ((ih hrest).mono (fun _ hok => hok) fun e he => ?_) fun others hothers => .pure ?_
      · rw [he]
        rfl
      · rw [hothers]
        rfl

/-! ### Accepted foreach nodes -/

variable {check : SubgraphCheck} {field : String} {lexical : List String}

/-- An accepted foreach node has a body and runs between one and 64 items side by side. -/
theorem exists_foreachConfig (hkind : node.kind = .foreach)
    (haccepted : validateStructuredNode check node field lexical = .ok ()) :
    ∃ maxConcurrency body, 1 ≤ maxConcurrency ∧ maxConcurrency ≤ 64 ∧
      (node.config.get? "maxConcurrency").bind Value.asU64 = some maxConcurrency ∧
      node.body = some body := by
  simp only [validateStructuredNode, hkind, validateForeach, check_bind_eq_ok,
    validateForeachConfig, ensure_eq_ok] at haccepted
  obtain ⟨-, -, -, ⟨hconfig, -⟩, hbody⟩ := haccepted
  obtain ⟨maxConcurrency, hmax, hrange⟩ := (Option.any_eq_true _ _).mp hconfig
  rw [Bool.and_eq_true, decide_eq_true_eq, decide_eq_true_eq] at hrange
  cases hnode : node.body with
  | none =>
    rw [hnode] at hbody
    cases hbody
  | some body => exact ⟨maxConcurrency, body, hrange.1, hrange.2, hmax, rfl⟩

/-- A finished run of an accepted foreach node has the outcome of its items. -/
theorem foreachOutcome_of_runs (hkind : node.kind = .foreach)
    (haccepted : validateStructuredNode check node field lexical = .ok ())
    (hbody : node.body = some body) {inputs : StrMap Value}
    (hitems : (inputs.get? "items").bind Value.asArray = some items)
    (hrun : ItemsRun sub ctx node body locals env f 0 items) {t : RunTrace}
    {r : Except RunError NodeResult}
    (h : Runs (executeForeach sub ctx node inputs locals).run t (some r))
    (henv : ∀ e ∈ t, env e) : ForeachOutcome node.continuesOnError f items r := by
  obtain ⟨maxConcurrency, body', hpos, -, hmax, hbody'⟩ := exists_foreachConfig hkind haccepted
  obtain rfl := Option.some.inj (hbody.symm.trans hbody')
  have hchunks : Quietly (givenEnvironment env) (executeForeach sub ctx node inputs locals)
      (fun result => ForeachOutcome node.continuesOnError f items (.ok result))
      fun e => ForeachOutcome node.continuesOnError f items (.error e) := by
    have houtcome := foreachOutcome_collectItems node.continuesOnError f items
    simp only [executeForeach, hitems, hmax, hbody]
    refine .bind (quietly_chunked fun hzero => absurd hzero (by omega)) fun batches hbatches => ?_
    subst hbatches
    have hflat : (chunks maxConcurrency items).flatten = items := flatten_chunks _ _
    have hcollects := foreachChunks_collects node.continuesOnError (hflat.symm ▸ hrun)
    rw [hflat] at hcollects
    refine .bind (hcollects.mono (fun _ hok => hok) fun e he => ?_) fun elements helements => ?_
    · rw [he] at houtcome
      exact houtcome
    · rw [helements] at houtcome
      exact .pure houtcome
  have hresult := ((hchunks t _ h henv).2 r rfl).2
  cases r with
  | ok result => exact hresult
  | error e => exact hresult

end Items

/-! ### The ordered map -/

section OrderedMap

variable {depth : Nat} {ctx : ExecutionContext} {node node' : WorkflowNode}
  {body : WorkflowSubgraph} {locals inputs : StrMap Value} {env : RunEvent → Prop}
  {f : Nat → Value → Except RunError (StrMap Value)} {items : List Value} {check : SubgraphCheck}
  {field : String} {lexical : List String}

/-- The body of a nested graph runs on the items, for every node with the id. -/
theorem itemsRun_executeSubgraph (hlimit : 1 ≤ ctx.maxParallelNodes) (hid : node'.id = node.id)
    (hdet : DeterministicItems (executeSubgraph (executeGraph depth)) ctx node body locals env f
      items) :
    ItemsRun (executeSubgraph (executeGraph depth)) ctx node' body locals env f 0 items := by
  have hrun (index : Nat) (item : Value) :
      runItem (executeSubgraph (executeGraph depth)) ctx node' body locals index item =
        runItem (executeSubgraph (executeGraph depth)) ctx node body locals index item := by
    rw [runItem, runItem, hid]
  constructor
  · intro index item
    exact @neverPanics_executeSubgraph { ctx with scope := itemScope ctx.scope node'.id index }
      hlimit depth body _
  · intro p hp t r h henv
    rw [hrun] at h
    exact hdet p.2 p.1 (List.mk_mem_zipIdx_iff_getElem?.mp hp) t r h henv

/-- **An ordered map**: an accepted foreach node whose body is deterministic per item returns the
outcome of its items in every run that finishes, and every environment finishes one. There is one
result for each item, in order, and the limit of the concurrency does not matter. -/
theorem foreach_is_ordered_map (hkind : node.kind = .foreach)
    (haccepted : validateStructuredNode check node field lexical = .ok ())
    (hbody : node.body = some body) (hlimit : 1 ≤ ctx.maxParallelNodes)
    (hitems : (inputs.get? "items").bind Value.asArray = some items)
    (hdet : DeterministicItems (executeSubgraph (executeGraph depth)) ctx node body locals env f
      items) :
    (∀ t r, Runs (executeForeach (executeSubgraph (executeGraph depth)) ctx node inputs
        locals).run t (some r) → (∀ e ∈ t, env e) →
      ForeachOutcome node.continuesOnError f items r) ∧
    (∀ answer : (o : Op) → Resp o, (∀ o, env ⟨o, answer o⟩) →
      ∃ t r, Runs (executeForeach (executeSubgraph (executeGraph depth)) ctx node inputs
        locals).run t (some r) ∧ ∀ e ∈ t, env e) ∧
    (foreachResults f items).length = items.length ∧
    (∀ index, (foreachResults f items)[index]? =
      items[index]?.map fun item => foreachElement index item (f index item)) ∧
    ∀ node', node'.kind = .foreach → validateStructuredNode check node' field lexical = .ok () →
      node'.id = node.id → node'.body = node.body →
      node'.continuesOnError = node.continuesOnError →
      ∀ t r t' r', Runs (executeForeach (executeSubgraph (executeGraph depth)) ctx node inputs
          locals).run t (some r) → (∀ e ∈ t, env e) →
        Runs (executeForeach (executeSubgraph (executeGraph depth)) ctx node' inputs
          locals).run t' (some r') → (∀ e ∈ t', env e) → r = r' := by
  have houtcome := fun t r => foreachOutcome_of_runs hkind haccepted hbody hitems
    (itemsRun_executeSubgraph hlimit rfl hdet) (t := t) (r := r)
  refine ⟨houtcome, fun answer hanswer => ?_, length_foreachResults, getElem?_foreachResults,
    fun node' hkind' haccepted' hid hbody' hcontinue t r t' r' hrun henv hrun' henv' => ?_⟩
  · obtain ⟨t, r, hrun, ht⟩ := Runs.complete (Runs.cut (executeForeach
      (executeSubgraph (executeGraph depth)) ctx node inputs locals).run) answer
    refine ⟨t, r, hrun, fun e he => ?_⟩
    have henv := hanswer e.1
    rwa [← ht e he] at henv
  · have houtcome' := foreachOutcome_of_runs hkind' haccepted' (hbody'.trans hbody) hitems
      (itemsRun_executeSubgraph hlimit hid hdet) hrun' henv'
    rw [hcontinue] at houtcome'
    exact (houtcome t r hrun henv).unique houtcome'

end OrderedMap

/-- A body that hands its item on. -/
def sampleBody : WorkflowSubgraph :=
  { entry := "stop", nodes := [{ id := "stop", nodeType := "kakune.flow.end@1" }]
    outputs := [("v", .from "$item")] }

/-- A foreach node that runs two items side by side. -/
def sampleForeach : WorkflowNode :=
  { id := "each", nodeType := "kakune.flow.foreach@1"
    config := [("maxConcurrency", .number (.int 2))], inputs := [("items", .from "$input.items")]
    body := some sampleBody }

/-- The answers of an environment in which nothing goes wrong. -/
def calmAnswer (o : Op) : Resp o := (undisturbed (fun _ _ => .ok { route := "success" }) () o).1

theorem sampleForeach_maps_its_items :
    validateStructuredNode (validateSubgraph 1) sampleForeach "node" ["$input"] = .ok () ∧
    ∀ t r, Runs (executeForeach (executeSubgraph (executeGraph 1)) { serde := emptySerde }
        sampleForeach [("items", .array [.string "a", .string "b", .string "c"])] []).run t
        (some r) → (∀ e ∈ t, e.2 = calmAnswer e.1) →
      r = .ok { route := "success", outputs := [("results", .array
        [foreachElement 0 (.string "a") (.ok [("v", .string "a")]),
          foreachElement 1 (.string "b") (.ok [("v", .string "b")]),
          foreachElement 2 (.string "c") (.ok [("v", .string "c")])])] } := by
  have hdet : DeterministicItems (executeSubgraph (executeGraph 1)) { serde := emptySerde }
      sampleForeach sampleBody [] (fun e => e.2 = calmAnswer e.1)
      (fun _ item => .ok [("v", item)]) [.string "a", .string "b", .string "c"] := by
    intro index item hitem t r hrun henv
    rw [hrun.eq_simulate henv rfl]
    rcases index with _ | _ | _ | index
    · obtain rfl := Option.some.inj hitem
      decide +kernel
    · obtain rfl := Option.some.inj hitem
      decide +kernel
    · obtain rfl := Option.some.inj hitem
      decide +kernel
    · cases hitem
  have haccepted : validateStructuredNode (validateSubgraph 1) sampleForeach "node" ["$input"] =
      .ok () := by rfl
  have hitems : (StrMap.get? [("items", Value.array [.string "a", .string "b", .string "c"])]
      "items").bind Value.asArray = some [.string "a", .string "b", .string "c"] := by rfl
  obtain ⟨houtcome, -⟩ := foreach_is_ordered_map rfl haccepted rfl (by decide) hitems hdet
  refine ⟨haccepted, fun t r hrun henv => ?_⟩
  exact (houtcome t r hrun henv).unique (.results fun _ index item _ => ⟨_, rfl⟩)

end KakuneCore
