import KakuneCore.Runtime.Environment
import KakuneCore.Runtime.NodeContract

/-!
# The outputs of a graph

At the end of a graph its output bindings are resolved. `execute_subgraph` resolves them with the
local bindings the graph was **entered** with, not with those its set-variable nodes left behind,
and `execute_nodes` resolves those of the workflow with no local bindings at all, whatever the
analysis has accepted. `Evaluates` lists the references a binding makes the runtime resolve.
-/

namespace KakuneCore

open Proc

/-! ### References that are resolved -/

/-- The evaluation of an expression resolves a reference: it is an argument, at some depth. -/
inductive Evaluates : Value → String → Prop
  | argument {expression argument : Value} {operation source : String} {args : List Value} :
      expressionParts expression = .ok (operation, args) → argument ∈ args →
      Argument.ofValue argument = .source source → Evaluates expression source
  | nested {expression argument inner : Value} {operation source : String} {args : List Value} :
      expressionParts expression = .ok (operation, args) → argument ∈ args →
      Argument.ofValue argument = .expression inner → Evaluates inner source →
      Evaluates expression source

/-- A binding makes the runtime resolve a reference, plainly or inside an expression. -/
def WorkflowBinding.Reads (binding : WorkflowBinding) (source : String) : Prop :=
  match binding with
  | .from source' => source' = source
  | .expr expression => Evaluates expression source
  | .literal _ | .secret _ => False

/-- A reference is given a value, as a `from` binding and as an argument of an expression. -/
def Resolves (serde : SerdeJson) (outputs : StrMap (StrMap Value)) (locals : StrMap Value)
    (source : String) : Prop :=
  (∀ t r, Runs (resolveBinding serde outputs locals (.from source)).run t (some r) →
    ∃ value, r = .ok value) ∧
  ∀ nested t r, Runs (evaluateExpressionArgument outputs locals nested
    (.object [("from", .string source)])).run t (some r) → ∃ value, r = .ok value

/-- Every local reference of some output bindings is given a value. -/
def LocalsResolve (serde : SerdeJson) (outputs : StrMap (StrMap Value)) (locals : StrMap Value)
    (bindings : StrMap WorkflowBinding) : Prop :=
  ∀ binding ∈ bindings.values, ∀ source, binding.Reads source → startsWithDollar source = true →
    Resolves serde outputs locals source

theorem resolves_iff {serde : SerdeJson} {outputs : StrMap (StrMap Value)}
    {locals : StrMap Value} {source : String} :
    Resolves serde outputs locals source ↔
      ∃ value, resolveFrom outputs locals source = .ok value := by
  constructor
  · intro h
    exact h.1 [] _ (runs_ret_iff.mpr ⟨rfl, .inr rfl⟩)
  · rintro ⟨value, hvalue⟩
    refine ⟨fun t r hrun => ?_, fun nested t r hrun => ?_⟩
    all_goals
      obtain ⟨-, hr | hr⟩ := runs_ret_iff.mp hrun
      · cases hr
      · exact ⟨value, Option.some.inj (hr.trans (congrArg some hvalue))⟩

theorem resolveFrom_of_dollar {outputs : StrMap (StrMap Value)} {locals : StrMap Value}
    {source : String} (hd : startsWithDollar source = true) :
    resolveFrom outputs locals source = resolveLocal locals source := by
  rw [resolveFrom, if_pos hd]

/-- Without local bindings no local reference is given a value. -/
theorem resolveLocal_nil (source : String) :
    resolveLocal [] source = .error (.localUnavailable source) := by
  unfold resolveLocal
  rw [StrMap.get?_nil]
  cases splitOnceDot source with
  | none => rfl
  | some parts => rfl

/-! ### A resolution that ends with values -/

section Values

variable {serde : SerdeJson} {outputs : StrMap (StrMap Value)} {locals : StrMap Value}

theorem runs_argument_of_runs_arguments {nested : Value → RunM Value} {args : List Value}
    {t : RunTrace} {values : List Value}
    (h : Runs (evaluateArguments outputs locals nested args).run t (some (.ok values)))
    {argument : Value} (hmem : argument ∈ args) :
    ∃ t value, Runs (evaluateExpressionArgument outputs locals nested argument).run t
      (some (.ok value)) := by
  induction args generalizing t values with
  | nil => cases hmem
  | cons first args ih =>
    obtain ⟨h, -⟩ | ⟨e, h, -⟩ | ⟨value, u, v, -, hfirst, h⟩ := runs_run_bind h
    · cases h
    · cases h
    obtain ⟨h, -⟩ | ⟨e, h, -⟩ | ⟨rest, u', v', -, hrest, -⟩ := runs_run_bind h
    · cases h
    · cases h
    rcases List.mem_cons.mp hmem with rfl | hmem
    · exact ⟨u, value, hfirst⟩
    · exact ih hrest hmem

/-- The arguments of an expression that has a value have values. -/
theorem runs_argument_of_runs_expression {depth : Nat} {expression value : Value} {t : RunTrace}
    (h : Runs (evaluateExpression serde outputs locals depth expression).run t
      (some (.ok value))) {operation : String} {args : List Value}
    (hparts : expressionParts expression = .ok (operation, args)) {argument : Value}
    (hmem : argument ∈ args) :
    ∃ depth t value, Runs (evaluateExpressionArgument outputs locals
      (evaluateExpression serde outputs locals depth) argument).run t (some (.ok value)) := by
  cases depth with
  | zero =>
    obtain ⟨-, h | h⟩ := runs_run_throw.mp h
    · cases h
    · cases h
  | succ depth =>
    obtain ⟨h, -⟩ | ⟨e, h, -⟩ | ⟨parts, u, v, -, hrun, h⟩ := runs_run_bind h
    · cases h
    · cases h
    rw [hparts] at hrun
    obtain ⟨-, hr | hr⟩ := runs_ret_iff.mp hrun
    · cases hr
    cases hr
    obtain ⟨h, -⟩ | ⟨e, h, -⟩ | ⟨values, u', v', -, hargs, -⟩ := runs_run_bind h
    · cases h
    · cases h
    exact ⟨depth, runs_argument_of_runs_arguments hargs hmem⟩

/-- An expression has a value only if every reference in it has one. -/
theorem resolveFrom_of_runs_expression {depth : Nat} {expression value : Value} {t : RunTrace}
    (h : Runs (evaluateExpression serde outputs locals depth expression).run t
      (some (.ok value))) {source : String} (hreads : Evaluates expression source) :
    ∃ value, resolveFrom outputs locals source = .ok value := by
  induction hreads generalizing depth t value with
  | argument hparts hmem hsource =>
    obtain ⟨depth', t', value', hrun⟩ := runs_argument_of_runs_expression h hparts hmem
    rw [evaluateExpressionArgument, hsource] at hrun
    obtain ⟨-, hr | hr⟩ := runs_ret_iff.mp hrun
    · cases hr
    · exact ⟨value', (Option.some.inj hr).symm⟩
  | nested hparts hmem hinner _ ih =>
    obtain ⟨depth', t', value', hrun⟩ := runs_argument_of_runs_expression h hparts hmem
    rw [evaluateExpressionArgument, hinner] at hrun
    exact ih hrun

/-- **Bindings have values only if their references have.** -/
theorem resolveFrom_of_runs_resolveInputs {bindings : StrMap WorkflowBinding} {t : RunTrace}
    {values : StrMap Value}
    (h : Runs (resolveInputs serde outputs locals bindings).run t (some (.ok values)))
    {binding : WorkflowBinding} (hmem : binding ∈ bindings.values) {source : String}
    (hreads : binding.Reads source) :
    ∃ value, resolveFrom outputs locals source = .ok value := by
  induction bindings generalizing t values with
  | nil => cases hmem
  | cons first bindings ih =>
    obtain ⟨name, first⟩ := first
    obtain ⟨h, -⟩ | ⟨e, h, -⟩ | ⟨value, u, v, -, hfirst, h⟩ := runs_run_bind h
    · cases h
    · cases h
    obtain ⟨h, -⟩ | ⟨e, h, -⟩ | ⟨rest, u', v', -, hrest, -⟩ := runs_run_bind h
    · cases h
    · cases h
    rcases List.mem_cons.mp hmem with rfl | hmem
    · cases binding with
      | literal literal => exact hreads.elim
      | secret secret => exact hreads.elim
      | «from» source' =>
        obtain rfl : source' = source := hreads
        obtain ⟨-, hr | hr⟩ := runs_ret_iff.mp hfirst
        · cases hr
        · exact ⟨value, (Option.some.inj hr).symm⟩
      | expr expr => exact resolveFrom_of_runs_expression hfirst hreads
    · exact ih hrest hmem

end Values

/-! ### A resolution that fails -/

/-- The error of a local reference that leads to no value. -/
def RunError.IsLocal (e : RunError) : Prop := ∃ source, e = .localUnavailable source

theorem RunError.IsExpression.not_isLocal {e : RunError} (h : e.IsExpression) : ¬ e.IsLocal := by
  obtain ⟨text, rfl⟩ := h
  rintro ⟨source, hsource⟩
  cases hsource

section Errors

variable {serde : SerdeJson} {outputs : StrMap (StrMap Value)} {locals : StrMap Value}
  {c : Contract Op Resp Nat} (hc : ∀ o, c.Quiet o)
include hc

theorem quietly_local_secret (name : String) :
    Quietly c (resolveSecret name) (fun _ => True) fun e => ¬ e.IsLocal := by
  refine .bind (quietly_request (hc _) fun text => ?_) fun _ _ => .pure trivial
  rintro ⟨source, hsource⟩
  cases hsource

omit hc in
theorem quietly_local_from {source : String}
    (h : startsWithDollar source = true → ∃ value, resolveFrom outputs locals source = .ok value) :
    Quietly c (liftExcept (resolveFrom outputs locals source)) (fun _ => True)
      fun e => ¬ e.IsLocal := by
  refine quietly_liftExcept_of ?_
  rintro e he ⟨source', rfl⟩
  by_cases hd : startsWithDollar source = true
  · obtain ⟨value, hvalue⟩ := h hd
    rw [hvalue] at he
    cases he
  · -- a reference to a node raises the errors of node outputs only
    rw [resolveFrom, if_neg hd] at he
    split at he
    · cases he
    · split at he <;> cases he

theorem quietly_local_arguments {nested : Value → RunM Value} {args : List Value}
    (hsources : ∀ argument ∈ args, ∀ source, Argument.ofValue argument = .source source →
      startsWithDollar source = true → ∃ value, resolveFrom outputs locals source = .ok value)
    (hnested : ∀ argument ∈ args, ∀ inner, Argument.ofValue argument = .expression inner →
      Quietly c (nested inner) (fun _ => True) fun e => ¬ e.IsLocal) :
    Quietly c (evaluateArguments outputs locals nested args) (fun _ => True)
      fun e => ¬ e.IsLocal := by
  induction args with
  | nil => exact .pure trivial
  | cons argument args ih =>
    rw [List.forall_mem_cons] at hsources hnested
    refine .bind (Q := fun _ => True) ?_ fun _ _ =>
      .bind (ih hsources.2 hnested.2) fun _ _ => .pure trivial
    unfold evaluateExpressionArgument
    split
    · exact .pure trivial
    · next hsource => exact quietly_local_from (hsources.1 _ hsource)
    · exact quietly_local_secret hc _
    · next hinner => exact hnested.1 _ hinner

theorem quietly_local_expression (depth : Nat) {expression : Value}
    (h : ∀ source, Evaluates expression source → startsWithDollar source = true →
      ∃ value, resolveFrom outputs locals source = .ok value) :
    Quietly c (evaluateExpression serde outputs locals depth expression) (fun _ => True)
      fun e => ¬ e.IsLocal := by
  induction depth generalizing expression with
  | zero =>
    refine .throw ?_
    rintro ⟨source, hsource⟩
    cases hsource
  | succ depth ih =>
    cases hparts : expressionParts expression with
    | error e =>
      rw [evaluateExpression, hparts]
      refine .bind (Q := fun _ => False) (quietly_liftExcept ?_) fun _ hf => hf.elim
      exact (raises_expressionParts expression e hparts).not_isLocal
    | ok parts =>
      obtain ⟨operation, args⟩ := parts
      rw [evaluateExpression, hparts]
      refine .bind (Q := fun result => result = (operation, args)) (quietly_liftExcept rfl) ?_
      rintro _ rfl
      refine .bind (quietly_local_arguments hc (fun argument hmem source hsource => ?_)
        fun argument hmem inner hinner => ?_) fun values _ => ?_
      · exact h source (.argument hparts hmem hsource)
      · exact ih fun source hreads => h source (.nested hparts hmem hinner hreads)
      · exact quietly_liftExcept_of fun e he => (raises_applyOperation _ _ _ e he).not_isLocal

/-- **Bindings whose local references have values** never fail for a local reference. -/
theorem quietly_local_resolveInputs {bindings : StrMap WorkflowBinding}
    (h : LocalsResolve serde outputs locals bindings) :
    Quietly c (resolveInputs serde outputs locals bindings) (fun _ => True)
      fun e => ¬ e.IsLocal := by
  induction bindings with
  | nil => exact .pure trivial
  | cons first bindings ih =>
    obtain ⟨name, binding⟩ := first
    have hrest : LocalsResolve serde outputs locals bindings := fun b hb =>
      h b (List.mem_cons_of_mem _ hb)
    have hfirst : ∀ source, binding.Reads source → startsWithDollar source = true →
        ∃ value, resolveFrom outputs locals source = .ok value :=
      fun source hreads hd => resolves_iff.mp (h binding List.mem_cons_self source hreads hd)
    refine .bind (Q := fun _ => True) ?_ fun _ _ => .bind (ih hrest) fun _ _ => .pure trivial
    cases binding with
    | literal literal => exact .pure trivial
    | secret secret => exact quietly_local_secret hc _
    | «from» source => exact quietly_local_from (hfirst source rfl)
    | expr expr => exact quietly_local_expression hc _ hfirst

end Errors

/-! ### The end of a graph -/

/-- No output makes the runtime resolve a local reference. -/
def NoLocalReference (bindings : StrMap WorkflowBinding) : Prop :=
  ∀ binding ∈ bindings.values, ∀ source, binding.Reads source → startsWithDollar source = false

/-- Every local reference of the outputs leads to a value in some local bindings. -/
def LeadsToValues (locals : StrMap Value) (bindings : StrMap WorkflowBinding) : Prop :=
  ∀ binding ∈ bindings.values, ∀ source, binding.Reads source → startsWithDollar source = true →
    ∃ value, resolveLocal locals source = .ok value

theorem localsResolve_iff (serde : SerdeJson) (outputs : StrMap (StrMap Value))
    {locals : StrMap Value} {bindings : StrMap WorkflowBinding} :
    LocalsResolve serde outputs locals bindings ↔ LeadsToValues locals bindings := by
  refine forall₄_congr fun binding _ source _ => forall_congr' fun hd => ?_
  rw [resolves_iff, resolveFrom_of_dollar hd]

theorem leadsToValues_nil {bindings : StrMap WorkflowBinding} :
    LeadsToValues [] bindings ↔ NoLocalReference bindings := by
  refine forall₄_congr fun binding _ source _ => ?_
  rw [resolveLocal_nil]
  cases hd : startsWithDollar source <;> simp

/-- What the end of a graph owes its outputs, once all nodes of the graph have succeeded with
`outputs`: their local references have values, and none of them makes the graph fail. -/
structure OutputsResolve (serde : SerdeJson) (outputs : StrMap (StrMap Value))
    (locals : StrMap Value) (bindings : StrMap WorkflowBinding) : Prop where
  resolve : LocalsResolve serde outputs locals bindings
  available : ∀ t e, Runs (resolveInputs serde outputs locals bindings).run t (some (.error e)) →
    ¬ e.IsLocal

theorem outputsResolve_iff {serde : SerdeJson} {outputs : StrMap (StrMap Value)}
    {locals : StrMap Value} {bindings : StrMap WorkflowBinding} :
    OutputsResolve serde outputs locals bindings ↔ LeadsToValues locals bindings := by
  rw [← localsResolve_iff serde outputs]
  refine ⟨OutputsResolve.resolve, fun h => ⟨h, fun t e hrun => ?_⟩⟩
  -- a contract that asks for nothing
  have hquiet := quietly_local_resolveInputs (c := ⟨fun _ => True, fun _ => True, fun _ => 0⟩)
    (fun _ _ _ => ⟨trivial, rfl⟩) h
  exact ((hquiet t _ hrun fun _ _ => trivial).2 _ rfl).2

/-- **Output bindings resolve**, at the top level exactly when no output of the workflow refers to
`$input`, `$trigger` or a variable, and in a nested graph exactly when the local references of its
outputs lead to values in the bindings the graph was entered with. Where they do not, the graph
never ends with outputs: a workflow with such an output never succeeds. That the planner accepted
the references makes no difference. -/
theorem output_references_resolve_iff (plan : ExecutionPlan) (plugins : PluginRegistry)
    (limits : ExecutionLimits) (serde : SerdeJson) :
    ((∀ {t nodeOutputs}, Runs (executeGraph maxGraphDepth (plan.context plugins limits serde)
          plan.workflowNodes plan.entry plan.locals).run t (some (.ok nodeOutputs)) →
        (OutputsResolve serde nodeOutputs [] plan.outputs ↔ NoLocalReference plan.outputs)) ∧
      ∀ t, Runs (executeNodes plan plugins limits serde).run t (some (.ok ())) →
        NoLocalReference plan.outputs) ∧
    ∀ (depth : Nat) (ctx : ExecutionContext) (g : WorkflowSubgraph) (locals : StrMap Value),
      (∀ {t nodeOutputs}, Runs (executeGraph depth ctx g.nodes g.entry locals).run t
          (some (.ok nodeOutputs)) →
        (OutputsResolve ctx.serde nodeOutputs locals g.outputs ↔ LeadsToValues locals g.outputs)) ∧
      ∀ t outputs, Runs (executeSubgraph (executeGraph depth) ctx g locals).run t
          (some (.ok outputs)) → LeadsToValues locals g.outputs := by
  have hvalues : ∀ {serde nodeOutputs locals bindings t values},
      Runs (resolveInputs serde nodeOutputs locals bindings).run t (some (.ok values)) →
        LeadsToValues locals bindings := by
    intro serde nodeOutputs locals bindings t values hrun
    refine (localsResolve_iff serde nodeOutputs).mp ?_
    exact fun binding hmem source hreads _ =>
      resolves_iff.mpr (resolveFrom_of_runs_resolveInputs hrun hmem hreads)
  refine ⟨⟨fun _ => ?_, fun t hrun => ?_⟩, fun depth ctx g locals => ⟨fun _ => ?_, ?_⟩⟩
  · rw [outputsResolve_iff, leadsToValues_nil]
  · rw [executeNodes_eq] at hrun
    obtain ⟨h, -⟩ | ⟨e, h, -⟩ | ⟨nodeOutputs, u, v, -, -, hrun⟩ := runs_run_bind hrun
    · cases h
    · cases h
    obtain ⟨h, -⟩ | ⟨e, h, -⟩ | ⟨values, u', v', -, hrun, -⟩ := runs_run_bind hrun
    · cases h
    · cases h
    exact leadsToValues_nil.mp (hvalues hrun)
  · exact outputsResolve_iff
  · intro t outputs hrun
    obtain ⟨h, -⟩ | ⟨e, h, -⟩ | ⟨nodeOutputs, u, v, -, -, hrun⟩ := runs_run_bind hrun
    · cases h
    · cases h
    exact hvalues hrun

/-- A node whose output is the output of the workflow. -/
def nodeOutputDocument : WorkflowDocument :=
  sampleDocument "a"
    [{ id := "a", nodeType := "kakune.flow.pass@1", inputs := [("v", .from "$input")] }]
    [("v", .from "a.v")]

theorem nodeOutputDocument_resolves :
    compile nodeOutputDocument [] = .ok ⟨nodeOutputDocument, planOf nodeOutputDocument⟩ ∧
    (simulatePlan (planOf nodeOutputDocument) fun _ _ => .ok { route := "success" }).2.1 = .ok () ∧
    NoLocalReference (planOf nodeOutputDocument).outputs := by
  have hresult : (simulatePlan (planOf nodeOutputDocument)
      fun _ _ => .ok { route := "success" }).2.1 = .ok () := by decide +kernel
  have hrun := runs_simulatePlan (planOf nodeOutputDocument) fun _ _ => .ok { route := "success" }
  rw [hresult] at hrun
  exact ⟨by rfl, hresult,
    (output_references_resolve_iff (planOf nodeOutputDocument) [] {} emptySerde).1.2 _ hrun⟩

/-- The input of the workflow, handed on as its output. -/
def inputOutputDocument : WorkflowDocument :=
  sampleDocument "a" [{ id := "a", nodeType := "kakune.flow.pass@1" }] [("v", .from "$input")]

/-- The planner accepts an output that refers to the input, all nodes succeed, and the execution
fails for the reference. -/
theorem input_output_is_unavailable :
    ∃ compiled nodeOutputs, compile inputOutputDocument [] = .ok compiled ∧
      Runs (executeGraph maxGraphDepth (compiled.plan.context [] {} emptySerde)
        compiled.plan.workflowNodes compiled.plan.entry compiled.plan.locals).run
        ((executeGraph maxGraphDepth (compiled.plan.context [] {} emptySerde)
          compiled.plan.workflowNodes compiled.plan.entry compiled.plan.locals).run.simulate
            (undisturbed fun _ _ => .ok { route := "success" }) ()).1
        (some (.ok nodeOutputs)) ∧
      ¬ OutputsResolve emptySerde nodeOutputs [] compiled.plan.outputs ∧
      Runs (executeNodes compiled.plan [] {} emptySerde).run
        (simulatePlan compiled.plan fun _ _ => .ok { route := "success" }).1
        (some (.error (.localUnavailable "$input"))) := by
  have hgraph : ((executeGraph maxGraphDepth ((planOf inputOutputDocument).context [] {} emptySerde)
      (planOf inputOutputDocument).workflowNodes (planOf inputOutputDocument).entry
      (planOf inputOutputDocument).locals).run.simulate
        (undisturbed fun _ _ => .ok { route := "success" }) ()).2.1 = .ok [("a", [])] := by
    decide +kernel
  have hresult : (simulatePlan (planOf inputOutputDocument)
      fun _ _ => .ok { route := "success" }).2.1 = .error (.localUnavailable "$input") := by
    decide +kernel
  refine ⟨⟨inputOutputDocument, planOf inputOutputDocument⟩, [("a", [])], by rfl, ?_, ?_, ?_⟩
  · rw [← hgraph]
    exact runs_simulate _ _ _
  · rw [outputsResolve_iff, leadsToValues_nil]
    intro hnone
    have hdollar := hnone (.from "$input") List.mem_cons_self "$input" rfl
    revert hdollar
    decide
  · rw [← hresult]
    exact runs_simulatePlan _ _

end KakuneCore
