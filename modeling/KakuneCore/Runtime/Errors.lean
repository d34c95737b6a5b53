import KakuneCore.Runtime.Nodes

/-!
# Which errors a pure step can raise

The expression language raises only its own errors, a reference only the reference errors, and
the typed inputs of a node only node errors. None of them can be mistaken for an error of the
scheduler.
-/

namespace KakuneCore

/-- Every error of a pure step satisfies `P`. -/
def Raises {α : Type} (P : RunError → Prop) (x : Except RunError α) : Prop :=
  ∀ e, x = .error e → P e

/-- An error of the expression language. -/
def RunError.IsExpression (e : RunError) : Prop := ∃ text, e = .expression text

/-- An error of a node body. -/
def RunError.IsNode (e : RunError) : Prop := ∃ text, e = .node text

section Raises

variable {α β : Type} {P : RunError → Prop}

@[simp]
theorem raises_ok {a : α} : Raises P (.ok a : Except RunError α) ↔ True := by simp [Raises]

@[simp]
theorem raises_error {e : RunError} : Raises P (.error e : Except RunError α) ↔ P e := by
  simp [Raises]

theorem Raises.bind {x : Except RunError α} {f : α → Except RunError β} (hx : Raises P x)
    (hf : ∀ a, Raises P (f a)) : Raises P (x >>= f) := by
  intro e he
  cases x with
  | error e' => cases he; exact hx _ rfl
  | ok a => exact hf a e he

theorem Raises.mono {Q : RunError → Prop} {x : Except RunError α} (hx : Raises P x)
    (h : ∀ e, P e → Q e) : Raises Q x :=
  fun e he => h e (hx e he)

end Raises

@[simp]
theorem isExpression_expression (text : String) : (RunError.expression text).IsExpression :=
  ⟨text, rfl⟩

@[simp]
theorem isNode_node (text : String) : (RunError.node text).IsNode := ⟨text, rfl⟩

/-! ### The expression language -/

theorem raises_numberArgument (operation : String) (value : Value) :
    Raises RunError.IsExpression (numberArgument operation value) := by
  unfold numberArgument
  split
  · split <;> simp
  · simp

theorem raises_numberValue (x : Binary64) : Raises RunError.IsExpression (numberValue x) := by
  unfold numberValue
  split
  · split <;> simp
  · simp

theorem raises_binaryArguments (args : List Value) (operation : String) :
    Raises RunError.IsExpression (binaryArguments args operation) := by
  unfold binaryArguments
  split <;> simp

theorem raises_binaryCompare (args : List Value) (operation : String)
    (predicate : Value → Value → Bool) :
    Raises RunError.IsExpression (binaryCompare args operation predicate) :=
  (raises_binaryArguments args operation).bind fun _ => by simp

theorem raises_orderedCompare (args : List Value) (operation : String)
    (predicate : Rat → Rat → Bool) :
    Raises RunError.IsExpression (orderedCompare args operation predicate) := by
  refine (raises_binaryArguments args operation).bind fun p => ?_
  refine (raises_numberArgument operation p.1).bind fun a => ?_
  refine (raises_numberArgument operation p.2).bind fun b => ?_
  split <;> simp

theorem raises_foldNumbers (operation : String) (f : Binary64 → Binary64 → Binary64)
    (total : Binary64) (values : List Value) :
    Raises RunError.IsExpression (foldNumbers operation f total values) := by
  induction values generalizing total with
  | nil => simp [foldNumbers]
  | cons value values ih => exact (raises_numberArgument operation value).bind fun _ => ih _

theorem raises_numericFold (args : List Value) (operation : String) (initial : Rat)
    (f : Binary64 → Binary64 → Binary64) :
    Raises RunError.IsExpression (numericFold args operation initial f) := by
  unfold numericFold
  split
  · simp
  · exact (raises_foldNumbers operation f _ args).bind fun x => raises_numberValue x

theorem raises_numericSubtract (args : List Value) (operation : String) :
    Raises RunError.IsExpression (numericSubtract args operation) := by
  unfold numericSubtract
  split
  · simp
  · next first rest =>
    refine (raises_numberArgument operation first).bind fun x => ?_
    exact (raises_foldNumbers operation _ x rest).bind fun y => raises_numberValue y

theorem raises_numericQuotient (args : List Value) (operation : String)
    (f : Binary64 → Binary64 → Binary64) :
    Raises RunError.IsExpression (numericQuotient args operation f) := by
  refine (raises_binaryArguments args operation).bind fun p => ?_
  refine (raises_numberArgument operation p.2).bind fun divisor => ?_
  split
  · simp
  · exact (raises_numberArgument operation p.1).bind fun x => raises_numberValue _

theorem raises_booleanArguments (values : List Value) :
    Raises RunError.IsExpression (booleanArguments values) := by
  induction values with
  | nil => simp [booleanArguments]
  | cons value values ih =>
    refine Raises.bind ?_ fun b => ih.bind fun _ => by simp
    unfold booleanArgument
    split <;> simp

theorem raises_concatText (serde : SerdeJson) (values : List Value) :
    Raises RunError.IsExpression (concatText serde values) := by
  induction values with
  | nil => simp [concatText]
  | cons value values ih =>
    refine Raises.bind ?_ fun b => ih.bind fun _ => by simp
    unfold valueToText
    split <;> simp

theorem raises_expressionObject (fields : StrMap Value) (values : List Value) :
    Raises RunError.IsExpression (expressionObject fields values) := by
  fun_induction expressionObject fields values with
  | case1 => simp
  | case2 _ _ _ _ ih => exact ih
  | case3 => simp
  | case4 => simp

theorem raises_getMember (args : List Value) :
    Raises RunError.IsExpression (getMember args) := by
  refine (raises_binaryArguments args "get").bind fun p => ?_
  dsimp only
  repeat' split
  all_goals simp

theorem raises_containsMember (args : List Value) :
    Raises RunError.IsExpression (containsMember args) := by
  refine (raises_binaryArguments args "contains").bind fun p => ?_
  dsimp only
  repeat' split
  all_goals simp

/-- An operation of the expression language raises only expression errors. -/
theorem raises_applyOperation (serde : SerdeJson) (operation : String) (args : List Value) :
    Raises RunError.IsExpression (applyOperation serde operation args) := by
  unfold applyOperation
  split
  · exact raises_binaryCompare _ _ _
  · exact raises_binaryCompare _ _ _
  · exact raises_orderedCompare _ _ _
  · exact raises_orderedCompare _ _ _
  · exact raises_orderedCompare _ _ _
  · exact raises_orderedCompare _ _ _
  · exact (raises_booleanArguments args).bind fun _ => by simp
  · exact (raises_booleanArguments args).bind fun _ => by simp
  · refine Raises.bind ?_ fun _ => (raises_booleanArguments args).bind fun _ => by simp
    unfold requireArity
    split <;> simp
  · exact raises_numericFold _ _ _ _
  · exact raises_numericSubtract _ _
  · exact raises_numericFold _ _ _ _
  · exact raises_numericQuotient _ _ _
  · exact raises_numericQuotient _ _ _
  · exact (raises_concatText serde args).bind fun _ => by simp
  · simp
  · split
    · exact raises_expressionObject _ _
    · simp
  · exact raises_getMember _
  · simp
  · exact raises_containsMember _
  · simp

theorem raises_expressionParts (expression : Value) :
    Raises RunError.IsExpression (expressionParts expression) := by
  unfold expressionParts
  repeat' split
  all_goals simp

/-! ### References and typed inputs -/

/-- An error of a reference. -/
inductive RunError.IsReference : RunError → Prop
  | bindingFormat (source : String) : IsReference (.bindingFormat source)
  | bindingUnavailable (source : String) : IsReference (.bindingUnavailable source)
  | localUnavailable (source : String) : IsReference (.localUnavailable source)

theorem raises_resolveFrom (outputs : StrMap (StrMap Value)) (locals : StrMap Value)
    (source : String) : Raises RunError.IsReference (resolveFrom outputs locals source) := by
  unfold resolveFrom resolveLocal
  repeat' split
  all_goals simp [RunError.IsReference.bindingFormat, RunError.IsReference.bindingUnavailable,
    RunError.IsReference.localUnavailable]

theorem raises_inputString (inputs : StrMap Value) (name : String) :
    Raises RunError.IsNode (inputString inputs name) := by
  unfold inputString
  split <;> simp

theorem raises_inputBoolean (inputs : StrMap Value) (name : String) :
    Raises RunError.IsNode (inputBoolean inputs name) := by
  unfold inputBoolean
  split <;> simp

theorem raises_inputU64 (inputs : StrMap Value) (name : String) :
    Raises RunError.IsNode (inputU64 inputs name) := by
  unfold inputU64
  dsimp only
  split <;> simp

theorem raises_switchSelector (serde : SerdeJson) (value : Value) :
    Raises RunError.IsNode (switchSelector serde value) := by
  unfold switchSelector
  split <;> simp

theorem raises_switchBranch (node : WorkflowNode) (selector : String) :
    Raises RunError.IsNode (switchBranch node selector) := by
  unfold switchBranch
  dsimp only
  split <;> simp

theorem raises_joinItems (outcomes : List (Except RunError (StrMap Value))) :
    Raises RunError.IsNode (joinItems outcomes) := by
  unfold joinItems
  split <;> simp

/-- A failed item of a foreach node is always wrapped. -/
theorem raises_collectItems (continueOnError : Bool) (index : Nat)
    (items : List (Value × Except RunError (StrMap Value))) :
    Raises (fun e => ∃ i e', e = .foreachItem i e' ∧ ∃ item, (item, .error e') ∈ items)
      (collectItems continueOnError index items) := by
  induction items generalizing index with
  | nil => simp [collectItems]
  | cons first rest ih =>
    obtain ⟨item, outcome⟩ := first
    have hrest : Raises (fun e => ∃ i e', e = .foreachItem i e' ∧
        ∃ item', (item', .error e') ∈ (item, outcome) :: rest) (do
          let elements ← collectItems continueOnError (index + 1) rest
          .ok (foreachElement index item outcome :: elements)) := by
      refine Raises.bind ((ih (index + 1)).mono ?_) fun _ => by simp
      rintro e ⟨i, e', rfl, item', hmem⟩
      exact ⟨i, e', rfl, item', List.mem_cons_of_mem _ hmem⟩
    cases outcome with
    | ok outputs => simpa only [collectItems] using hrest
    | error error =>
      cases continueOnError with
      | true => simpa only [collectItems] using hrest
      | false =>
        simp only [collectItems, raises_error]
        exact ⟨index, error, rfl, item, by simp⟩

end KakuneCore
