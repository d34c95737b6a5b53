import KakuneCore.Runtime.GraphAgreement
import KakuneCore.Runtime.Progress

/-!
# Secrets and what is stored

Two successful runs of a plan of flow nodes under different secrets, taking the same routes. A plan
in which some input binding uses a secret has **all** its outcomes redacted and its results withheld
from the checkpoints, so they tell only routes; what is left is the result of the workflow, which is
redacted only where the output binding itself names a secret. `Tainted` follows the secrets through
outputs and variables.
-/

namespace KakuneCore

open Proc

/-! ### What is stored -/

/-- What a run stores. The events appended to the log carry the outcomes and the end of the
execution. -/
inductive Persisted
  | result (value : Value)
  | outcome (id : String) (outcome : NodeOutcome)
  | checkpoint (id : String) (result : Value)
  | finished (status : FinalStatus) (error : Option String)
  deriving DecidableEq

/-- What an event stores. A withheld checkpoint stores no result. -/
def persistedBy : RunEvent → Option Persisted
  | ⟨.setExecutionResult value, .ok ()⟩ => some (.result value)
  | ⟨.recordNodeOutcome id outcome, .ok ()⟩ => some (.outcome id outcome)
  | ⟨.completeCheckpoint id (some result), .ok ()⟩ => some (.checkpoint id result)
  | ⟨.finishExecution status error, .ok ()⟩ => some (.finished status error)
  | _ => none

/-- The route that a node instance takes. -/
def routeTaken : RunEvent → Option (String × Option Value)
  | ⟨.recordNodeOutcome id (.succeeded _ value), .ok ()⟩ => some (id, value.get? "route")
  | _ => none

/-- Two runs execute the same node instances, and each instance takes one route in both. -/
structure SameRoutes (t u : RunTrace) : Prop where
  instances : ((t.filterMap routeTaken).map Prod.fst).Perm ((u.filterMap routeTaken).map Prod.fst)
  route : ∃ routes : String → Option Value,
    (∀ e ∈ t, ∀ p, routeTaken e = some p → p.2 = routes p.1) ∧
      ∀ e ∈ u, ∀ p, routeTaken e = some p → p.2 = routes p.1

/-- The routes of two such runs are the same. -/
theorem SameRoutes.perm {t u : RunTrace} (h : SameRoutes t u) :
    (t.filterMap routeTaken).Perm (u.filterMap routeTaken) := by
  obtain ⟨routes, ht, hu⟩ := h.route
  have hmap : ∀ w : RunTrace, (∀ e ∈ w, ∀ p, routeTaken e = some p → p.2 = routes p.1) →
      w.filterMap routeTaken =
        ((w.filterMap routeTaken).map Prod.fst).map fun id => (id, routes id) := by
    intro w hw
    rw [List.map_map]
    refine (List.map_id _).symm.trans (List.map_congr_left fun p hp => ?_)
    obtain ⟨e, he, hroute⟩ := List.mem_filterMap.mp hp
    obtain ⟨id, route⟩ := p
    have := hw e he _ hroute
    dsimp only at this
    simp [this]
  rw [hmap t ht, hmap u hu]
  exact h.instances.map _

/-! ### Taint -/

/-- The bindings that are resolved while a node is run, its nested graphs included. -/
def WorkflowNode.Binds (node : WorkflowNode) (binding : WorkflowBinding) : Prop :=
  binding ∈ node.inputs.values ∨ ∃ g ∈ node.subgraphs, ∃ g', Nested g g' ∧
    ((∃ inner ∈ g'.nodes, binding ∈ inner.inputs.values) ∨ binding ∈ g'.outputs.values)

/-- A node of a graph is reached by a secret: it uses one itself, or reads the output of a node that
is, or a variable that such a node writes. -/
inductive Tainted (nodes : List WorkflowNode) : String → Prop
  | secret {node : WorkflowNode} {binding : WorkflowBinding} : node ∈ nodes → node.Binds binding →
      bindingUsesSecret binding = true → Tainted nodes node.id
  | output {node : WorkflowNode} {binding : WorkflowBinding} {source id name : String} :
      node ∈ nodes → binding ∈ node.inputs.values → binding.Reads source →
      startsWithDollar source = false → splitOnceDot source = some (id, name) →
      Tainted nodes id → Tainted nodes node.id
  | written {node writer : WorkflowNode} {binding : WorkflowBinding} {source name : String} :
      node ∈ nodes → node.Binds binding → binding.Reads source → startsWithDollar source = true →
      LooksUp source ("$" ++ name) → writer ∈ nodes → writer.kind = .setVariable →
      writer.variableName = some name → Tainted nodes writer.id → Tainted nodes node.id

/-- The local bindings that no tainted node writes. -/
def Untainted (nodes : List WorkflowNode) (key : String) : Prop :=
  ∀ writer ∈ nodes, writer.kind = .setVariable → ∀ name, writer.variableName = some name →
    Tainted nodes writer.id → key ≠ "$" ++ name

/-- What a node that is not tainted reads is not tainted. -/
theorem within_of_not_tainted {nodes : List WorkflowNode} {node : WorkflowNode} (hn : node ∈ nodes)
    (hclean : ¬ Tainted nodes node.id) {binding : WorkflowBinding} (hb : node.Binds binding)
    {N : String → Prop} (hN : ∀ source, binding.Reads source → startsWithDollar source = false →
      ∀ id name, splitOnceDot source = some (id, name) → N id) :
    binding.Within (Untainted nodes) N := by
  refine ⟨?_, fun source hreads => ⟨fun hd key hkey writer hw hk name hname htainted heq => ?_,
    hN source hreads⟩⟩
  · rw [← Bool.not_eq_true]
    exact fun hsecret => hclean (.secret hn hb hsecret)
  · subst heq
    exact hclean (.written hn hb hreads hd hkey hw hk hname htainted)

theorem cleanNodes_of_tainted {c : Comparison Op Resp} {nodes : List WorkflowNode}
    (hblind : (∃ node ∈ nodes, ¬ ¬ Tainted nodes node.id) → Blind c) :
    CleanNodes c (Untainted nodes) (fun id => ¬ Tainted nodes id) nodes := by
  refine ⟨fun node hn hclean binding hb => ?_, fun node hn htainted hk name hname huntainted => ?_,
    hblind⟩
  · refine within_of_not_tainted hn hclean
      (.inl hb) fun source hreads hd id name hdot htainted => ?_
    exact hclean (.output hn hb hreads hd hdot htainted)
  · exact huntainted node hn hk name hname (not_not.mp htainted) rfl

theorem graphWithin_of_not_tainted {nodes : List WorkflowNode} {node : WorkflowNode}
    (hn : node ∈ nodes) (hclean : ¬ Tainted nodes node.id) {g g' : WorkflowSubgraph}
    (hg : g ∈ node.subgraphs) (hg' : Nested g g') : GraphWithin (Untainted nodes) g' :=
  ⟨fun inner hinner _ hb => within_of_not_tainted hn hclean
      (.inr ⟨g, hg, g', hg', .inl ⟨inner, hinner, hb⟩⟩) fun _ _ _ _ _ _ => trivial,
    fun _ hb => within_of_not_tainted hn hclean (.inr ⟨g, hg, g', hg', .inr hb⟩)
      fun _ _ _ _ _ _ => trivial⟩

/-! ### Outputs -/

/-- Resolved outputs that differ at most where a binding uses a secret. -/
structure OutputsAlike (bindings : StrMap WorkflowBinding) (v v' : StrMap Value) : Prop where
  keys : v.keys = bindings.keys
  keys' : v'.keys = bindings.keys
  same : ∀ key, (∀ binding, (key, binding) ∈ bindings → bindingUsesSecret binding = false) →
    v.get? key = v'.get? key

theorem tracks_resolveOutputs {c : Comparison Op Resp} (hc : Compares c) (hfailing : c.failing)
    {V N : String → Prop} {outputs outputs' : StrMap (StrMap Value)} {locals locals' : StrMap Value}
    (ho : AgreeOn N outputs outputs') (hl : AgreeOn V locals locals') (serde : SerdeJson)
    {bindings : StrMap WorkflowBinding}
    (h : ∀ binding ∈ bindings.values, bindingUsesSecret binding = false → binding.Within V N) :
    Tracks c (resolveInputs serde outputs locals bindings)
      (resolveInputs serde outputs' locals' bindings) (OutputsAlike bindings) := by
  have hquiet : ∀ (o : StrMap (StrMap Value)) (l : StrMap Value) (binding : WorkflowBinding),
      (resolveBinding serde o l binding).run.Only Op.Minor := by
    intro o l binding
    cases binding with
    | literal literal => exact only_run_pure
    | «from» source => exact only_run_liftExcept
    | expr expression => exact only_evaluateExpression (fun _ ho => ho.minor) _ _ _ _ _
    | secret name => exact only_resolveSecret (fun _ ho => ho.minor) _
  induction bindings with
  | nil => exact .pure ⟨rfl, rfl, fun _ _ => rfl⟩
  | cons entry bindings ih =>
    obtain ⟨name, binding⟩ := entry
    have hfirst : Tracks c (resolveBinding serde outputs locals binding)
        (resolveBinding serde outputs' locals' binding) fun a b =>
          bindingUsesSecret binding = false → a = b := by
      cases hsecret : bindingUsesSecret binding with
      | false =>
        have hwithin := h binding List.mem_cons_self hsecret
        exact (coincide_resolveBinding serde ho hl hwithin).tracks.mono fun _ _ heq _ => heq
      | true =>
        refine (Tracks.of_quiet (hquiet _ _ _) (hquiet _ _ _) hc.quiet fun _ _ _ _ =>
          hfailing).mono fun _ _ _ => nofun
    refine .bind hfirst fun a b hab => ?_
    refine .bind (ih fun other hmem => h other (List.mem_cons_of_mem _ hmem)) fun v v' hv => ?_
    refine .pure ⟨congrArg (name :: ·) hv.keys, congrArg (name :: ·) hv.keys', fun key hkey => ?_⟩
    rw [StrMap.get?_cons, StrMap.get?_cons]
    split
    · next hname =>
      subst hname
      rw [hab (hkey binding List.mem_cons_self)]
    · exact hv.same key fun other hmem => hkey other (List.mem_cons_of_mem _ hmem)

theorem get?_redactOutputs_of_secret {bindings : StrMap WorkflowBinding} (outputs : StrMap Value)
    {key : String}
    (h : (∃ binding, (key, binding) ∈ bindings ∧ bindingUsesSecret binding = true) ∨
      outputs.get? key = some (.string "[redacted]")) :
    (redactOutputs bindings outputs).get? key = some (.string "[redacted]") := by
  induction bindings generalizing outputs with
  | nil =>
    obtain ⟨_, hmem, -⟩ | h := h
    · cases hmem
    · exact h
  | cons entry bindings ih =>
    obtain ⟨name, binding⟩ := entry
    rw [redactOutputs]
    refine ih _ ?_
    obtain ⟨other, hmem, hsecret⟩ | h := h
    · obtain heq | hmem := List.mem_cons.mp hmem
      · cases heq
        rw [if_pos hsecret]
        exact .inr (StrMap.get?_insert_self _ _ _)
      · exact .inl ⟨other, hmem, hsecret⟩
    · refine .inr ?_
      split
      · rw [StrMap.get?_insert]
        split
        · rfl
        · exact h
      · exact h

theorem get?_redactOutputs_of_not {bindings : StrMap WorkflowBinding} (outputs : StrMap Value)
    {key : String}
    (h : ∀ binding, (key, binding) ∈ bindings → bindingUsesSecret binding = false) :
    (redactOutputs bindings outputs).get? key = outputs.get? key := by
  induction bindings generalizing outputs with
  | nil => rfl
  | cons entry bindings ih =>
    obtain ⟨name, binding⟩ := entry
    rw [redactOutputs, ih _ fun other hmem => h other (List.mem_cons_of_mem _ hmem)]
    split
    · next hsecret =>
      have hne : name ≠ key := by
        rintro rfl
        rw [h binding List.mem_cons_self] at hsecret
        cases hsecret
      exact StrMap.get?_insert_ne _ hne _
    · rfl

theorem ordered_redactOutputs (bindings : StrMap WorkflowBinding) {outputs : StrMap Value}
    (h : StrMap.Ordered outputs) : StrMap.Ordered (redactOutputs bindings outputs) := by
  induction bindings generalizing outputs with
  | nil => exact h
  | cons entry bindings ih =>
    obtain ⟨name, binding⟩ := entry
    rw [redactOutputs]
    refine ih ?_
    split
    · exact h.insert _ _
    · exact h

/-- **Redaction hides what the secrets have made different.** -/
theorem OutputsAlike.redactOutputs_eq {bindings : StrMap WorkflowBinding} {v v' : StrMap Value}
    (h : OutputsAlike bindings v v') (hordered : StrMap.Ordered bindings) :
    redactOutputs bindings v = redactOutputs bindings v' := by
  have hv : StrMap.Ordered v := by
    rw [StrMap.Ordered, h.keys]
    exact hordered
  have hv' : StrMap.Ordered v' := by
    rw [StrMap.Ordered, h.keys']
    exact hordered
  refine (ordered_redactOutputs bindings hv).ext (ordered_redactOutputs bindings hv') fun key => ?_
  by_cases hsecret : ∃ binding, (key, binding) ∈ bindings ∧ bindingUsesSecret binding = true
  · rw [get?_redactOutputs_of_secret _ (.inl hsecret),
      get?_redactOutputs_of_secret _ (.inl hsecret)]
  · have hnot : ∀ binding, (key, binding) ∈ bindings → bindingUsesSecret binding = false := by
      intro binding hmem
      rw [← Bool.not_eq_true]
      exact fun huses => hsecret ⟨binding, hmem, huses⟩
    rw [get?_redactOutputs_of_not _ hnot, get?_redactOutputs_of_not _ hnot, h.same key hnot]

/-! ### The two comparisons -/

/-- What two runs store, as a whole. -/
def storedComparison : Comparison Op Resp where
  left e := Succeeding e ∧ Fresh e
  right e := Succeeding e ∧ Fresh e
  rel t u := (t.filterMap persistedBy).Perm (u.filterMap persistedBy)
  part _ _ := True
  quiet e := persistedBy e = none
  failing := True
  rel_quiet ht hu := by
    rw [List.filterMap_eq_nil_iff.mpr ht, List.filterMap_eq_nil_iff.mpr hu]
  rel_append h h' := by
    rw [List.filterMap_append, List.filterMap_append]
    exact h.append h'
  rel_perm ht hu h := (ht.filterMap _).symm.trans (h.trans (hu.filterMap _))
  part_nil _ := trivial
  part_of_rel _ := trivial
  part_append _ _ := trivial
  part_perm _ _ _ := trivial

/-- Nothing but the routes that nodes take, which are given. -/
def routeComparison (routes : String → Option Value) : Comparison Op Resp where
  left e := (Succeeding e ∧ Fresh e) ∧ ∀ p, routeTaken e = some p → p.2 = routes p.1
  right e := (Succeeding e ∧ Fresh e) ∧ ∀ p, routeTaken e = some p → p.2 = routes p.1
  rel _ _ := True
  part _ _ := True
  quiet _ := True
  failing := True
  rel_quiet _ _ := trivial
  rel_append _ _ := trivial
  rel_perm _ _ _ := trivial
  part_nil _ := trivial
  part_of_rel _ := trivial
  part_append _ _ := trivial
  part_perm _ _ _ := trivial

theorem persistedBy_eq_none_of_minor {e : RunEvent} (h : e.1.Minor) : persistedBy e = none := by
  unfold persistedBy
  split <;> first | rfl | exact h.elim

theorem persistedBy_eq_none_of_refused {e : RunEvent} (h : Refused e) : persistedBy e = none := by
  unfold persistedBy
  split
  all_goals first | rfl | (obtain ⟨_, h⟩ := h; cases h)

theorem compares_stored : Compares storedComparison where
  quiet _ := persistedBy_eq_none_of_minor
  quiet_refused _ := persistedBy_eq_none_of_refused
  same _ := List.Perm.refl _
  left _ h := h.1
  right _ h := h
  check _ _ _ _ _ := trivial
  refused _ _ _ := trivial
  restored _ _ h := absurd h.2 id

theorem compares_routes (routes : String → Option Value) : Compares (routeComparison routes) where
  quiet _ _ := trivial
  quiet_refused _ _ := trivial
  same _ := trivial
  left _ h := h.1.1
  right _ h := h.1
  check _ _ _ _ _ := trivial
  refused _ _ _ := trivial
  restored _ _ h := absurd h.1.2 id

theorem blind_routes (routes : String → Option Value) : Blind (routeComparison routes) where
  failing := trivial
  rel _ _ := trivial
  routes _ _ _ _ _ h h' := (h.2 _ rfl).trans (h'.2 _ rfl).symm

/-! ### Redacted runs -/

/-- What an operation of a sensitive graph stores is redacted. -/
def Op.StoresRedacted : Op → Prop
  | .recordNodeOutcome _ outcome => outcome.Redacted
  | .completeCheckpoint _ result => result = none
  | .setExecutionResult _ | .finishExecution _ _ => False
  | _ => True

/-- **A sensitive run** stores redacted outcomes and no results. -/
theorem graphFootprint_redacted :
    GraphFootprint Op.StoresRedacted fun ctx => ctx.sensitive = true := by
  have hanon : ∀ o : Op, o.Anonymous → o.StoresRedacted := by
    intro o ho
    cases o <;> trivial
  have hsensitive : ∀ (ctx : ExecutionContext) (node : WorkflowNode), ctx.sensitive = true →
      isSensitive ctx node = true := by
    intro ctx node h
    rw [isSensitive, h]
    rfl
  refine ⟨fun ctx node hctx => ⟨hanon, fun o ho => ?_, fun _ _ => hctx⟩, fun _ _ _ => trivial,
    fun ctx node hctx o ho => ?_⟩
  · cases o with
    | completeCheckpoint id result => exact ho.2 (hsensitive ctx.forked node hctx)
    | setExecutionResult result => exact ho.elim
    | finishExecution status error => exact ho.elim
    | recordNodeOutcome id outcome => exact ho.elim
    | _ => trivial
  · cases o with
    | recordNodeOutcome id outcome => exact ho.2 (hsensitive ctx node hctx)
    | completeCheckpoint id result => exact ho.elim
    | setExecutionResult result => exact ho.elim
    | finishExecution status error => exact ho.elim
    | _ => trivial

/-- What a redacted outcome says. -/
def redactedOutcome (p : String × Option Value) : Persisted :=
  .outcome p.1 (.succeeded (some "sensitive result redacted") (.object
    [("message", .string "sensitive result redacted"), ("outputs", .string "[redacted]"),
      ("route", p.2.getD .null)]))

/-- An event of a sensitive graph stores only the route that is taken. -/
theorem persistedBy_eq_redactedOutcome {e : RunEvent} (hredacted : e.1.StoresRedacted)
    (hs : Succeeding e) : persistedBy e = (routeTaken e).map redactedOutcome := by
  unfold persistedBy
  split
  · exact hredacted.elim
  · next id outcome =>
    cases outcome with
    | failed error => exact hs.elim
    | succeeded message value =>
      obtain ⟨rfl, route, rfl⟩ := hredacted
      rfl
  · cases hredacted
  · exact hredacted.elim
  · next hrecord _ _ =>
    unfold routeTaken
    split
    · exact absurd rfl (hrecord _ _)
    · rfl

/-! ### Successful runs -/

section Runs

variable (plan : ExecutionPlan) (plugins : PluginRegistry) (limits : ExecutionLimits)
  (serde : SerdeJson)

/-- The graph of a plan, with the outputs of the workflow before they are redacted. -/
def ExecutionPlan.resolvedOutputs : RunM (StrMap Value) := do
  let nodeOutputs ← executeGraph maxGraphDepth (plan.context plugins limits serde)
    plan.workflowNodes plan.entry plan.locals
  resolveInputs serde nodeOutputs [] plan.outputs

variable {plan plugins limits serde}

theorem eq_ok_of_ofOutcome {outcome : Except RunError Unit}
    (h : ExecutionEnd.ofOutcome outcome = .finished .succeeded none) : outcome = .ok () := by
  cases outcome with
  | ok u => rfl
  | error e =>
    simp only [ExecutionEnd.ofOutcome] at h
    split_ifs at h <;> cases h

/-- **A successful run** stores the redacted outputs and the end of the execution after its
graph. -/
theorem runs_succeeded {t : RunTrace}
    (h : Runs (executePreparedWorkflow plan plugins limits serde).run t
      (some (.ok (.finished .succeeded none)))) :
    ∃ v t₁, Runs (plan.resolvedOutputs plugins limits serde).run t₁ (some (.ok v)) ∧
      t = t₁ ++ [⟨.setExecutionResult (.object (redactOutputs plan.outputs v)), .ok ()⟩,
        ⟨.finishExecution .succeeded none, .ok ()⟩] := by
  have hok : ∀ {o : Op} {hr : Resp o = Except String Unit} {w : RunTrace} {a : Unit},
      Runs (request o hr).run w (some (.ok a)) → ∃ x, w = [⟨o, x⟩] ∧ cast hr x = .ok () := by
    intro o hr w a hrun
    obtain ⟨-, h⟩ | ⟨x, rfl, h | h⟩ := runs_request hrun
    · cases h
    · cases h
    · refine ⟨x, rfl, ?_⟩
      cases hx : cast hr x with
      | ok u => rfl
      | error text => rw [hx] at h; cases h
  obtain ⟨outcome, t₁, t₂, rfl, hnodes, h⟩ := runs_run_bind_ok h
  obtain ⟨h', -⟩ | ⟨outcome', h', hnodes⟩ := runs_run_lift hnodes
  · cases h'
  obtain rfl : outcome = outcome' := by simpa using h'
  -- only an outcome without an error is a success
  have hend :
      outcome = .ok () ∧ ∃ x, t₂ = [⟨.finishExecution .succeeded none, x⟩] ∧ x = .ok () := by
    dsimp only at h
    split at h
    · next status error hof =>
      obtain ⟨_, t₃, t₄, rfl, hfinish, h⟩ := runs_run_bind_ok h
      obtain ⟨rfl, h | h⟩ := runs_run_pure.mp h
      · cases h
      rw [hof] at h
      cases h
      obtain ⟨x, rfl, hx⟩ := hok hfinish
      exact ⟨eq_ok_of_ofOutcome hof, x, rfl, hx⟩
    · next error hof =>
      obtain ⟨-, h | h⟩ := runs_run_pure.mp h
      · cases h
      · rw [hof] at h
        cases h
  obtain ⟨rfl, x, rfl, rfl⟩ := hend
  rw [executeNodes_eq] at hnodes
  obtain ⟨nodeOutputs, u₁, u₂, rfl, hgraph, hrest⟩ := runs_run_bind_ok hnodes
  obtain ⟨v, u₃, u₄, rfl, hresolve, hstore⟩ := runs_run_bind_ok hrest
  refine ⟨v, u₁ ++ u₃, ?_, ?_⟩
  · exact runs_bind_iff.mpr (.inr ⟨.ok nodeOutputs, u₁, u₃, rfl, hgraph, hresolve⟩)
  · unfold ExecutionPlan.storeResult at hstore
    dsimp only at hstore
    split at hstore
    · exact absurd hstore not_runs_run_throw_ok
    · obtain ⟨x, rfl, hx⟩ := hok hstore
      obtain rfl : x = .ok () := hx
      simp

end Runs

/-! ### Plans without secrets -/

theorem secretFree_of_branches {plugins : PluginRegistry}
    {branches : List (String × WorkflowSubgraph)} (h : branchesUseSecret plugins branches = false)
    {g : WorkflowSubgraph} (hg : g ∈ branches.map Prod.snd) :
    nodesUseSecret plugins g.nodes = false := by
  induction branches with
  | nil => cases hg
  | cons branch branches ih =>
    obtain ⟨name, ⟨entry, nodes, outputs⟩⟩ := branch
    rw [branchesUseSecret, Bool.or_eq_false_iff] at h
    obtain rfl | hg := List.mem_cons.mp hg
    · exact h.1
    · exact ih h.2 hg

/-- `graph_uses_secret` finds every input binding of the graphs that are run. -/
theorem secretFree_of_nodesUseSecret {plugins : PluginRegistry} {nodes : List WorkflowNode}
    (h : nodesUseSecret plugins nodes = false) {node : WorkflowNode} (hn : node ∈ nodes) :
    (∀ binding ∈ node.inputs.values, bindingUsesSecret binding = false) ∧
      ∀ g ∈ node.subgraphs, nodesUseSecret plugins g.nodes = false := by
  induction nodes with
  | nil => cases hn
  | cons first nodes ih =>
    rw [nodesUseSecret, Bool.or_eq_false_iff] at h
    obtain rfl | hn := List.mem_cons.mp hn
    · obtain ⟨id, nodeType, config, inputs, on, retry, branches, body⟩ := node
      rw [nodeUsesSecret] at h
      simp only [Bool.or_eq_false_iff] at h
      obtain ⟨⟨⟨⟨hinputs, -⟩, hbody⟩, hbranches⟩, -⟩ := h
      refine ⟨fun binding hb => by simpa using List.any_eq_false.mp hinputs binding hb,
        fun g hg => ?_⟩
      obtain hg | hg := List.mem_append.mp (WorkflowNode.subgraphs_subset _ hg)
      · exact secretFree_of_branches hbranches hg
      · obtain rfl : body = some g := by simpa using hg
        exact hbody
    · exact ih h.2 hn

theorem nodesUseSecret_of_nested {plugins : PluginRegistry} {g g' : WorkflowSubgraph}
    (h : nodesUseSecret plugins g.nodes = false) (hg : Nested g g') :
    nodesUseSecret plugins g'.nodes = false := by
  induction hg with
  | refl => exact h
  | tail _ hstep ih =>
    obtain ⟨node, hn, hmem⟩ := hstep
    exact (secretFree_of_nodesUseSecret ih hn).2 _ hmem

/-! ### Non-interference -/

/-- The node types whose results are functions of their inputs. -/
def NodeKind.IsFlow : NodeKind → Prop
  | .pass | .setVariable | .join | .merge | .if | .switch | .foreach | .loop | .end => True
  | _ => False

/-- Every node of a plan, at any depth, is a flow node. -/
def ExecutionPlan.FlowOnly (plan : ExecutionPlan) : Prop :=
  ∀ g, Nested plan.graph g → ∀ node ∈ g.nodes, node.kind.IsFlow

/-- No secret gets past the redaction: an output of the workflow that is not redacted refers to no
tainted node, and a plan without a secret in its input bindings has none in the outputs of its
nested graphs. -/
structure ExecutionPlan.ContainsSecrets (plan : ExecutionPlan) (plugins : PluginRegistry) :
    Prop where
  outputs : ∀ binding ∈ plan.outputs.values, bindingUsesSecret binding = false →
    ∀ source, binding.Reads source → startsWithDollar source = false →
      ∀ id name, splitOnceDot source = some (id, name) → ¬ Tainted plan.workflowNodes id
  nested : nodesUseSecret plugins plan.workflowNodes = false → ∀ node ∈ plan.workflowNodes,
    ∀ g ∈ node.subgraphs, ∀ g', Nested g g' → ∀ binding ∈ g'.outputs.values,
      bindingUsesSecret binding = false

/-- A fresh run of a plan that succeeds, with the secrets of a store. -/
structure SuccessfulRun (plan : ExecutionPlan) (plugins : PluginRegistry)
    (limits : ExecutionLimits) (serde : SerdeJson) (secrets : String → Option String)
    (t : RunTrace) : Prop where
  runs : Runs (executePreparedWorkflow plan plugins limits serde).run t
    (some (.ok (.finished .succeeded none)))
  fresh : ∀ e ∈ t, Fresh e
  secrets : ∀ name value, (⟨.resolveSecret name, .ok value⟩ : RunEvent) ∈ t →
    secrets name = some value

theorem NodeKind.IsFlow.not_isExternal {kind : NodeKind} (h : kind.IsFlow) : ¬ kind.IsExternal := by
  cases kind <;> first | exact id | exact h.elim

section Interference

variable {plan : ExecutionPlan} {plugins : PluginRegistry} {limits : ExecutionLimits}
  {serde : SerdeJson}

/-- Without a secret anywhere, no node is tainted. -/
theorem not_tainted_of_secretFree (hcontained : plan.ContainsSecrets plugins)
    (hfree : nodesUseSecret plugins plan.workflowNodes = false) (id : String) :
    ¬ Tainted plan.workflowNodes id := by
  intro h
  induction h with
  | @secret node binding hn hb hsecret =>
    have hnode := secretFree_of_nodesUseSecret hfree hn
    have hnone : bindingUsesSecret binding = false := by
      obtain hb | ⟨g, hg, g', hg', ⟨inner, hinner, hb⟩ | hb⟩ := hb
      · exact hnode.1 binding hb
      · have hinside := nodesUseSecret_of_nested (hnode.2 g hg) hg'
        exact (secretFree_of_nodesUseSecret hinside hinner).1 binding hb
      · exact hcontained.nested hfree node hn g hg g' hg' binding hb
    rw [hnone] at hsecret
    cases hsecret
  | output _ _ _ _ _ _ ih => exact ih
  | written _ _ _ _ _ _ _ _ _ ih => exact ih

/-- The graph of a plan and its outputs, run under two stores of secrets. -/
theorem tracks_resolvedOutputs {c : Comparison Op Resp} (hc : Compares c) (hfailing : c.failing)
    (hblind : (∃ node ∈ plan.workflowNodes, ¬ ¬ Tainted plan.workflowNodes node.id) → Blind c)
    (hflow : plan.FlowOnly) (hcontained : plan.ContainsSecrets plugins) :
    Tracks c (plan.resolvedOutputs plugins limits serde) (plan.resolvedOutputs plugins limits serde)
      (OutputsAlike plan.outputs) := by
  have hgraph := tracks_executeGraph hc maxGraphDepth (cleanNodes_of_tainted hblind)
    (fun node hn hclean g hg g' hg' => graphWithin_of_not_tainted hn hclean hg hg')
    (fun node hn _ => ⟨fun h => absurd h (hflow plan.graph .refl node hn).not_isExternal,
      fun g hg g' hg' inner hinner h => absurd h
        (hflow g' (.head ⟨node, hn, hg⟩ hg') inner hinner).not_isExternal⟩)
    (plan.context plugins limits serde) plan.entry (AgreeOn.refl _ plan.locals)
  refine .bind hgraph fun outputs outputs' ho => ?_
  refine tracks_resolveOutputs hc hfailing ho (AgreeOn.refl (fun _ => True) []) serde
    fun binding hb hfree => ⟨hfree,
      fun source hreads => ⟨fun _ _ _ => trivial, fun hd id name hdot => ?_⟩⟩
  exact hcontained.outputs binding hb hfree source hreads hd id name hdot

/-- What a sensitive plan stores before its result. -/
theorem filterMap_persistedBy_of_sensitive
    (hsensitive : nodesUseSecret plugins plan.workflowNodes = true) {t : RunTrace}
    {r : Option (Except RunError (StrMap Value))}
    (h : Runs (plan.resolvedOutputs plugins limits serde).run t r) (hs : ∀ e ∈ t, Succeeding e) :
    t.filterMap persistedBy = (t.filterMap routeTaken).map redactedOutcome := by
  have honly : (plan.resolvedOutputs plugins limits serde).run.Only Op.StoresRedacted := by
    refine only_run_bind
      (only_executeGraph graphFootprint_redacted _ _ _ _ _ hsensitive) fun _ => ?_
    refine only_resolveInputs (fun o ho => ?_) _ _ _ _
    cases o <;> trivial
  rw [List.map_filterMap]
  exact List.filterMap_congr fun e he =>
    persistedBy_eq_redactedOutcome (h.mem_only honly e he) (hs e he)

/-- **Non-interference**: two successful runs under different secrets that take the same routes
store the same, when no secret gets past the redaction and nothing fails on the way. -/
theorem secrets_are_not_stored (hflow : plan.FlowOnly) (hordered : StrMap.Ordered plan.outputs)
    (hcontained : plan.ContainsSecrets plugins) {secrets secrets' : String → Option String}
    {t u : RunTrace} (ht : SuccessfulRun plan plugins limits serde secrets t)
    (hu : SuccessfulRun plan plugins limits serde secrets' u) (hsucceed : ∀ e ∈ t, Succeeding e)
    (hsucceed' : ∀ e ∈ u, Succeeding e) (hroutes : SameRoutes t u) :
    (t.filterMap persistedBy).Perm (u.filterMap persistedBy) := by
  obtain ⟨v, t₁, hrun, rfl⟩ := runs_succeeded ht.runs
  obtain ⟨v', u₁, hrun', rfl⟩ := runs_succeeded hu.runs
  have hperm := hroutes.perm
  have htail : ∀ v : StrMap Value, List.filterMap routeTaken
      ([⟨.setExecutionResult (.object (redactOutputs plan.outputs v)), .ok ()⟩,
        ⟨.finishExecution .succeeded none, .ok ()⟩] : RunTrace) = [] := fun _ => rfl
  rw [List.filterMap_append, List.filterMap_append, htail, htail, List.append_nil,
    List.append_nil] at hperm
  have hfirst : ∀ e ∈ t₁, Succeeding e ∧ Fresh e := by
    intro e he
    exact ⟨hsucceed e (List.mem_append_left _ he), ht.fresh e (List.mem_append_left _ he)⟩
  have hfirst' : ∀ e ∈ u₁, Succeeding e ∧ Fresh e := by
    intro e he
    exact ⟨hsucceed' e (List.mem_append_left _ he), hu.fresh e (List.mem_append_left _ he)⟩
  suffices h : redactOutputs plan.outputs v = redactOutputs plan.outputs v' ∧
      (t₁.filterMap persistedBy).Perm (u₁.filterMap persistedBy) by
    rw [List.filterMap_append, List.filterMap_append, h.1]
    exact h.2.append_right _
  cases hsensitive : nodesUseSecret plugins plan.workflowNodes with
  | false =>
    -- nothing is tainted, and the runs are compared step by step
    have hnone := not_tainted_of_secretFree hcontained hsensitive
    have htracks : Tracks storedComparison (plan.resolvedOutputs plugins limits serde)
        (plan.resolvedOutputs plugins limits serde) (OutputsAlike plan.outputs) :=
      tracks_resolvedOutputs compares_stored trivial
        (fun ⟨node, _, h⟩ => absurd (hnone node.id) h) hflow hcontained
    obtain ⟨hrel, hsame⟩ := htracks t₁ _ u₁ v' hrun hrun' hfirst hfirst'
    exact ⟨hsame.redactOutputs_eq hordered, hrel⟩
  | true =>
    -- what is stored tells only the routes
    obtain ⟨routes, hr, hr'⟩ := hroutes.route
    have htracks : Tracks (routeComparison routes) (plan.resolvedOutputs plugins limits serde)
        (plan.resolvedOutputs plugins limits serde) (OutputsAlike plan.outputs) :=
      tracks_resolvedOutputs (compares_routes routes) trivial (fun _ => blind_routes routes) hflow
        hcontained
    obtain ⟨-, hsame⟩ := htracks t₁ _ u₁ v' hrun hrun'
      (fun e he => ⟨hfirst e he, hr e (List.mem_append_left _ he)⟩)
      (fun e he => ⟨hfirst' e he, hr' e (List.mem_append_left _ he)⟩)
    refine ⟨hsame.redactOutputs_eq hordered, ?_⟩
    rw [filterMap_persistedBy_of_sensitive hsensitive hrun fun e he => (hfirst e he).1,
      filterMap_persistedBy_of_sensitive hsensitive hrun' fun e he => (hfirst' e he).1]
    exact hperm.map _

end Interference

/-! ### Concrete plans -/

/-- An undisturbed run with a store in which every secret has one value. -/
def withSecret (value : String) (o : Op) : Resp o :=
  match o with
  | .resolveSecret _ => .ok value
  | o => (undisturbed (fun _ _ => .ok { route := "success" }) () o).1

/-- The run of a plan with such a store. -/
def secretRun (plan : ExecutionPlan) (value : String) :
    RunTrace × Except RunError ExecutionEnd × Unit :=
  (executePreparedWorkflow plan [] {} emptySerde).run.simulate (stateless (withSecret value)) ()

theorem successfulRun_secretRun {plan : ExecutionPlan} {value : String}
    (h : (secretRun plan value).2.1 = .ok (.finished .succeeded none)) :
    SuccessfulRun plan [] {} emptySerde (fun _ => some value) (secretRun plan value).1 := by
  have hanswer : ∀ e ∈ (secretRun plan value).1, e.2 = withSecret value e.1 :=
    simulate_stateless (withSecret value) _
  refine ⟨?_, fun e he => ?_, fun name answer hmem => ?_⟩
  · rw [← h]
    exact runs_simulate _ _ _
  · have hans := hanswer e he
    obtain ⟨o, answer⟩ := e
    dsimp only at hans
    subst hans
    cases o <;> trivial
  · have hans := hanswer _ hmem
    dsimp only [withSecret] at hans
    cases hans
    rfl

/-- Whether nothing fails in an event. -/
def nothingFails : RunEvent → Bool
  | ⟨.observe (.finished _ _ (.error _)), _⟩ => false
  | ⟨.observe (.itemFinished _ _ _ (.error _)), _⟩ => false
  | ⟨.recordNodeOutcome _ (.failed _), _⟩ => false
  | ⟨.finishTraceSpan _ status _, _⟩ => status = .succeeded
  | _ => true

theorem succeeding_of_all {t : RunTrace} (h : t.all nothingFails = true) :
    ∀ e ∈ t, Succeeding e := by
  intro e he
  have hs := List.all_eq_true.mp h e he
  unfold Succeeding
  split
  · cases hs
  · cases hs
  · cases hs
  · exact of_decide_eq_true hs
  · trivial

theorem sameRoutes_of_eq {t u : RunTrace} (routes : String → Option Value)
    (h : t.filterMap routeTaken = u.filterMap routeTaken)
    (hr : (t.filterMap routeTaken).all (fun p => p.2 = routes p.1) = true) : SameRoutes t u := by
  have hall : ∀ p ∈ t.filterMap routeTaken, p.2 = routes p.1 := fun p hp =>
    of_decide_eq_true (List.all_eq_true.mp hr p hp)
  refine ⟨by rw [h], routes, fun e he p hp => ?_, fun e he p hp => ?_⟩
  · exact hall p (List.mem_filterMap.mpr ⟨e, he, hp⟩)
  · exact hall p (h ▸ List.mem_filterMap.mpr ⟨e, he, hp⟩)

/-- A secret that is handed to a node and given as an output, beside an output without secrets. -/
def containedSecretDocument : WorkflowDocument :=
  sampleDocument "a"
    [{ id := "a", nodeType := "kakune.flow.pass@1", inputs := [("v", .secret "token")],
       on := [("success", .one "b")] },
     { id := "b", nodeType := "kakune.flow.pass@1", inputs := [("v", .literal (.bool true))] }]
    [("plain", .from "b.v"), ("token", .secret "token")]

theorem flowOnly_of_pass {doc : WorkflowDocument}
    (h : ∀ node ∈ doc.nodes, node.nodeType = "kakune.flow.pass@1") : (planOf doc).FlowOnly := by
  have hnodes : (planOf doc).workflowNodes = doc.nodes := by
    rw [ExecutionPlan.workflowNodes, planOf, List.map_map]
    exact List.map_id _
  have hkind : ∀ node ∈ (planOf doc).graph.nodes, node.kind = .pass := by
    intro node hn
    rw [WorkflowNode.kind, h node (hnodes ▸ hn)]
    rfl
  intro g hg node hn
  obtain rfl := hg.eq_of_flat fun node hn => by rw [WorkflowNode.subgraphs, hkind node hn]
  rw [hkind node hn]
  trivial

/-- The second node of `containedSecretDocument` reads nothing. -/
theorem containedSecretDocument_not_tainted : ¬ Tainted containedSecretDocument.nodes "b" := by
  have hbinds : ∀ node ∈ containedSecretDocument.nodes, node.id = "b" → ∀ binding,
      node.Binds binding → binding = .literal (.bool true) := by
    intro node hn hid binding hb
    simp only [containedSecretDocument, sampleDocument, List.mem_cons, List.not_mem_nil,
      or_false] at hn
    obtain rfl | rfl := hn
    · exact absurd hid (by decide)
    · obtain hb | ⟨g, hg, -⟩ := hb
      · simpa [StrMap.values] using hb
      · cases hg
  intro h
  generalize hid : "b" = id at h
  cases h with
  | secret hn hb hsecret =>
    rw [hbinds _ hn hid.symm _ hb] at hsecret
    cases hsecret
  | output hn hb hreads =>
    rw [hbinds _ hn hid.symm _ (.inl hb)] at hreads
    exact hreads
  | written hn hb hreads =>
    rw [hbinds _ hn hid.symm _ hb] at hreads
    exact hreads

theorem containedSecretDocument_containsSecrets :
    (planOf containedSecretDocument).ContainsSecrets [] := by
  refine ⟨fun binding hb hfree source hreads hd id name hdot => ?_, fun hfree => ?_⟩
  · simp only [planOf, containedSecretDocument, sampleDocument, StrMap.values, List.map_cons,
      List.map_nil, List.mem_cons, List.not_mem_nil, or_false] at hb
    obtain rfl | rfl := hb
    · obtain rfl : "b.v" = source := hreads
      obtain rfl : id = "b" := by
        have hsplit : splitOnceDot "b.v" = some ("b", "v") := by decide
        rw [hsplit] at hdot
        cases hdot
        rfl
      exact containedSecretDocument_not_tainted
    · cases hfree
  · exact absurd hfree (by decide)

theorem containedSecretDocument_stores_no_secret :
    compile containedSecretDocument [] =
      .ok ⟨containedSecretDocument, planOf containedSecretDocument⟩ ∧
    ((secretRun (planOf containedSecretDocument) "x").1.filterMap persistedBy).Perm
      ((secretRun (planOf containedSecretDocument) "y").1.filterMap persistedBy) := by
  refine ⟨by rfl, ?_⟩
  have hflow : (planOf containedSecretDocument).FlowOnly := flowOnly_of_pass (by decide)
  have hordered : StrMap.Ordered (planOf containedSecretDocument).outputs :=
    List.pairwise_pair.mpr (by decide)
  have hx := successfulRun_secretRun (by decide +kernel :
    (secretRun (planOf containedSecretDocument) "x").2.1 = .ok (.finished .succeeded none))
  have hy := successfulRun_secretRun (by decide +kernel :
    (secretRun (planOf containedSecretDocument) "y").2.1 = .ok (.finished .succeeded none))
  have hroutes : SameRoutes (secretRun (planOf containedSecretDocument) "x").1
      (secretRun (planOf containedSecretDocument) "y").1 :=
    sameRoutes_of_eq (fun _ => some (.string "success")) (by decide +kernel)
      (by decide +kernel)
  exact secrets_are_not_stored hflow hordered containedSecretDocument_containsSecrets hx hy
    (succeeding_of_all (by decide +kernel)) (succeeding_of_all (by decide +kernel)) hroutes

/-- A secret that is handed to a node and given as an output of that node. -/
def leakedSecretDocument : WorkflowDocument :=
  sampleDocument "a"
    [{ id := "a", nodeType := "kakune.flow.pass@1", inputs := [("v", .secret "token")] }]
    [("v", .from "a.v")]

/-- The planner accepts an output that refers to a node with a secret, and the secret is stored with
the result. -/
theorem secret_is_stored_through_output :
    let t := (secretRun (planOf leakedSecretDocument) "x").1
    let u := (secretRun (planOf leakedSecretDocument) "y").1
    compile leakedSecretDocument [] = .ok ⟨leakedSecretDocument, planOf leakedSecretDocument⟩ ∧
    (planOf leakedSecretDocument).FlowOnly ∧
    SuccessfulRun (planOf leakedSecretDocument) [] {} emptySerde (fun _ => some "x") t ∧
    SuccessfulRun (planOf leakedSecretDocument) [] {} emptySerde (fun _ => some "y") u ∧
    SameRoutes t u ∧
    Persisted.result (.object [("v", .string "x")]) ∈ t.filterMap persistedBy ∧
    Persisted.result (.object [("v", .string "x")]) ∉ u.filterMap persistedBy := by
  intro t u
  refine ⟨by rfl, flowOnly_of_pass (by decide), successfulRun_secretRun (by decide +kernel),
    successfulRun_secretRun (by decide +kernel), ?_, by decide +kernel, by decide +kernel⟩
  exact sameRoutes_of_eq (fun _ => some (.string "success")) (by decide +kernel)
    (by decide +kernel)

end KakuneCore
