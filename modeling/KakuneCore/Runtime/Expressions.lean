import KakuneCore.Planner.Accepted
import KakuneCore.Relational.Runs
import KakuneCore.Runtime.Dependence

/-!
# What evaluating an expression can do

A validated expression always has a result. It fails only for the causes that `OperationFailure` and
`EvaluationFailure` list, each of them a condition on the operands or on the environment; the
branches for **malformed** expressions are never taken. An expression in which the detector finds no
secret asks for none.
-/

namespace KakuneCore

open Proc

/-! ### Failures of an operation -/

/-- The number of an operand, where it is finite. -/
def Value.finiteNumber : Value → Option Rat
  | .number n =>
    match n.asF64 with
    | .finite q => some q
    | .nonFinite => none
  | _ => none

def Value.isBoolean : Value → Bool
  | .bool _ => true
  | _ => false

/-- The operations whose operands are numbers. -/
def numericOperations : List String :=
  ["greaterThan", "greaterThanOrEqual", "lessThan", "lessThanOrEqual", "add", "subtract",
    "multiply", "divide", "modulo"]

/-- The operations whose result is a number. -/
def arithmeticOperations : List String := ["add", "subtract", "multiply", "divide", "modulo"]

/-- The operations with a fixed number of operands. -/
def fixedArities : StrMap Nat :=
  [("equal", 2), ("notEqual", 2), ("greaterThan", 2), ("greaterThanOrEqual", 2), ("lessThan", 2),
    ("lessThanOrEqual", 2), ("not", 1), ("divide", 2), ("modulo", 2), ("get", 2), ("contains", 2)]

/-- `OperationFailure operation args text`: the operation fails on these operands, with the cause
and the text it documents for it. -/
inductive OperationFailure (operation : String) (args : List Value) : String → Prop
  | numeric {value : Value} : operation ∈ numericOperations → value ∈ args →
      value.finiteNumber = none →
      OperationFailure operation args s!"expression {operation} requires numeric arguments"
  | boolean {value : Value} : operation ∈ ["and", "or", "not"] → value ∈ args →
      value.isBoolean = false →
      OperationFailure operation args "expression boolean operations require boolean arguments"
  | arity {expected : Nat} : (operation, expected) ∈ fixedArities → args.length ≠ expected →
      OperationFailure operation args
        s!"expression {operation} requires exactly {expected} arguments"
  | noOperand : operation ∈ ["add", "subtract", "multiply"] → args = [] →
      OperationFailure operation args s!"expression {operation} requires at least one argument"
  | divisionByZero {left right : Value} : operation ∈ ["divide", "modulo"] → args = [left, right] →
      right.finiteNumber = some 0 →
      OperationFailure operation args s!"expression {operation} cannot divide by zero"
  | nonFinite : operation ∈ arithmeticOperations → (∀ value ∈ args, value.finiteNumber ≠ none) →
      OperationFailure operation args "expression result is not a finite number"
  | scalar {value : Value} : operation = "concat" → value ∈ args →
      value.asArray ≠ none ∨ value.asObject ≠ none →
      OperationFailure operation args "expression concat accepts only scalar values"
  | unpaired : operation = "object" → args.length % 2 = 1 →
      OperationFailure operation args
        "expression object requires an even number of key/value arguments"
  | objectKey {i : Nat} {key : Value} : operation = "object" → args[2 * i]? = some key →
      key.asStr = none → OperationFailure operation args "expression object keys must be strings"
  | propertyName {container key : Value} : operation = "get" → args = [container, key] →
      key.asStr = none →
      OperationFailure operation args "expression get requires a string property name"
  | arrayIndex {items : List Value} {key : String} : operation = "get" →
      args = [.array items, .string key] →
      (∀ index, parseUnsigned (2 ^ 64) key.toList = some index → items.length ≤ index) →
      OperationFailure operation args s!"expression get cannot find array index {key}"
  | container {container key : Value} : operation = "get" → args = [container, key] →
      container.asArray = none → container.asObject = none →
      OperationFailure operation args "expression get requires an object or array"
  | needle {text : String} {needle : Value} : operation = "contains" →
      args = [.string text, needle] → needle.asStr = none →
      OperationFailure operation args "expression contains requires a string needle"
  | haystack {container needle : Value} : operation = "contains" → args = [container, needle] →
      container.asStr = none → container.asArray = none → container.asObject = none →
      OperationFailure operation args "expression contains requires a string, array, or object"

/-- The error of an operation is one it documents. -/
def Documented (operation : String) (args : List Value) (e : RunError) : Prop :=
  ∃ text, OperationFailure operation args text ∧ e = .expression text

theorem OperationFailure.documented {operation text : String} {args : List Value}
    (h : OperationFailure operation args text) : Documented operation args (.expression text) :=
  ⟨text, h, rfl⟩

section Operations

variable {operation : String} {args : List Value}

theorem documented_numberArgument (hop : operation ∈ numericOperations) {value : Value}
    (hmem : value ∈ args) :
    Raises (Documented operation args) (numberArgument operation value) := by
  intro e he
  have hnone : value.finiteNumber = none := by
    unfold numberArgument at he
    unfold Value.finiteNumber
    grind
  have htext : e = .expression s!"expression {operation} requires numeric arguments" := by
    unfold numberArgument at he
    grind
  rw [htext]
  exact (OperationFailure.numeric hop hmem hnone).documented

theorem finiteNumber_of_numberArgument {value : Value} {x : Binary64}
    (h : numberArgument operation value = .ok x) : ∃ q, x = .finite q ∧
      value.finiteNumber = some q := by
  unfold numberArgument at h
  unfold Value.finiteNumber
  grind

theorem documented_numberValue (hop : operation ∈ arithmeticOperations)
    (hfinite : ∀ value ∈ args, value.finiteNumber ≠ none) (x : Binary64) :
    Raises (Documented operation args) (numberValue x) := by
  unfold numberValue
  split
  · split <;> simp
  · rw [raises_error]
    exact (OperationFailure.nonFinite hop hfinite).documented

theorem documented_binaryArguments (hop : (operation, 2) ∈ fixedArities) :
    Raises (Documented operation args) (binaryArguments args operation) := by
  unfold binaryArguments
  split
  · simp
  · next hargs =>
    have hlength : args.length ≠ 2 := by
      intro hlength
      obtain ⟨left, right, rfl⟩ := List.length_eq_two.mp hlength
      exact hargs left right rfl
    have htext : s!"expression {operation} requires exactly {2} arguments" =
        s!"expression {operation} requires exactly 2 arguments" := by
      rw [String.append_assoc, String.append_assoc]
      rfl
    rw [raises_error, ← htext]
    exact (OperationFailure.arity hop hlength).documented

theorem eq_of_binaryArguments {left right : Value}
    (h : binaryArguments args operation = .ok (left, right)) : args = [left, right] := by
  unfold binaryArguments at h
  grind

theorem documented_binaryCompare (hop : (operation, 2) ∈ fixedArities)
    (predicate : Value → Value → Bool) :
    Raises (Documented operation args) (binaryCompare args operation predicate) :=
  (documented_binaryArguments hop).bind fun _ => by simp

/-- What follows a successful step may use its result. -/
theorem Raises.bind_of {α β : Type} {P : RunError → Prop} {x : Except RunError α}
    {f : α → Except RunError β} (hx : Raises P x) (hf : ∀ a, x = .ok a → Raises P (f a)) :
    Raises P (x >>= f) := by
  cases x with
  | error e => exact fun e' he => by cases he; exact hx e rfl
  | ok a => exact hf a rfl

theorem documented_orderedCompare (hop : (operation, 2) ∈ fixedArities)
    (hnumeric : operation ∈ numericOperations) (predicate : Rat → Rat → Bool) :
    Raises (Documented operation args) (orderedCompare args operation predicate) := by
  refine (documented_binaryArguments hop).bind_of fun p hp => ?_
  have hargs := eq_of_binaryArguments hp
  refine (documented_numberArgument hnumeric (by simp [hargs])).bind fun a => ?_
  refine (documented_numberArgument hnumeric (by simp [hargs])).bind fun b => ?_
  split <;> simp

/-- A fold over operands fails at one that is no number, and otherwise all of them are numbers. -/
theorem documented_foldNumbers (hop : operation ∈ numericOperations)
    (f : Binary64 → Binary64 → Binary64) (total : Binary64) {values : List Value}
    (hvalues : ∀ value ∈ values, value ∈ args) :
    Raises (Documented operation args) (foldNumbers operation f total values) := by
  induction values generalizing total with
  | nil => simp [foldNumbers]
  | cons value values ih =>
    rw [List.forall_mem_cons] at hvalues
    exact (documented_numberArgument hop hvalues.1).bind fun _ => ih _ hvalues.2

theorem finiteNumber_of_foldNumbers {f : Binary64 → Binary64 → Binary64} {total x : Binary64}
    {values : List Value} (h : foldNumbers operation f total values = .ok x) :
    ∀ value ∈ values, value.finiteNumber ≠ none := by
  induction values generalizing total with
  | nil => exact fun _ hmem => by cases hmem
  | cons value values ih =>
    rw [foldNumbers] at h
    obtain ⟨y, hy, h⟩ := except_bind_eq_ok h
    obtain ⟨q, -, hq⟩ := finiteNumber_of_numberArgument hy
    refine List.forall_mem_cons.mpr ⟨?_, ih h⟩
    rw [hq]
    exact Option.some_ne_none q

theorem numeric_of_arithmetic (h : operation ∈ arithmeticOperations) :
    operation ∈ numericOperations := by
  unfold arithmeticOperations at h
  unfold numericOperations
  grind

theorem documented_numericFold (hop : operation ∈ ["add", "subtract", "multiply"])
    (harithmetic : operation ∈ arithmeticOperations) (initial : Rat)
    (f : Binary64 → Binary64 → Binary64) :
    Raises (Documented operation args) (numericFold args operation initial f) := by
  have hnumeric := numeric_of_arithmetic harithmetic
  unfold numericFold
  split
  · next hempty =>
    rw [raises_error]
    exact (OperationFailure.noOperand hop (List.isEmpty_iff.mp hempty)).documented
  · refine (documented_foldNumbers hnumeric f _ fun _ hmem => hmem).bind_of fun x hx => ?_
    exact documented_numberValue harithmetic (finiteNumber_of_foldNumbers hx) x

theorem documented_numericSubtract (hop : operation ∈ ["add", "subtract", "multiply"])
    (harithmetic : operation ∈ arithmeticOperations) :
    Raises (Documented operation args) (numericSubtract args operation) := by
  have hnumeric := numeric_of_arithmetic harithmetic
  unfold numericSubtract
  split
  · rw [raises_error]
    exact (OperationFailure.noOperand hop rfl).documented
  · next first rest =>
    refine (documented_numberArgument hnumeric List.mem_cons_self).bind_of fun x hx => ?_
    refine (documented_foldNumbers hnumeric _ x
      fun _ hmem => List.mem_cons_of_mem _ hmem).bind_of fun y hy => ?_
    obtain ⟨q, -, hq⟩ := finiteNumber_of_numberArgument hx
    refine documented_numberValue harithmetic (List.forall_mem_cons.mpr ⟨?_, ?_⟩) y
    · rw [hq]
      exact Option.some_ne_none q
    · exact finiteNumber_of_foldNumbers hy

theorem documented_numericQuotient (hop : operation ∈ ["divide", "modulo"])
    (harithmetic : operation ∈ arithmeticOperations) (harity : (operation, 2) ∈ fixedArities)
    (f : Binary64 → Binary64 → Binary64) :
    Raises (Documented operation args) (numericQuotient args operation f) := by
  have hnumeric := numeric_of_arithmetic harithmetic
  refine (documented_binaryArguments harity).bind_of fun p hp => ?_
  have hargs := eq_of_binaryArguments hp
  refine (documented_numberArgument hnumeric (by simp [hargs])).bind_of fun divisor hdivisor => ?_
  obtain ⟨q, rfl, hright⟩ := finiteNumber_of_numberArgument hdivisor
  split
  · next hzero =>
    cases hzero
    rw [raises_error]
    exact (OperationFailure.divisionByZero hop hargs hright).documented
  · refine (documented_numberArgument hnumeric (by simp [hargs])).bind_of fun x hx => ?_
    obtain ⟨q', -, hleft⟩ := finiteNumber_of_numberArgument hx
    refine documented_numberValue harithmetic ?_ _
    rw [hargs]
    simp [hleft, hright]

theorem documented_booleanArguments (hop : operation ∈ ["and", "or", "not"]) {values : List Value}
    (hvalues : ∀ value ∈ values, value ∈ args) :
    Raises (Documented operation args) (booleanArguments values) := by
  induction values with
  | nil => simp [booleanArguments]
  | cons value values ih =>
    rw [List.forall_mem_cons] at hvalues
    refine Raises.bind ?_ fun b => (ih hvalues.2).bind fun _ => by simp
    unfold booleanArgument
    split
    · simp
    · next hvalue =>
      have hboolean : value.isBoolean = false := by
        unfold Value.isBoolean
        grind
      rw [raises_error]
      exact (OperationFailure.boolean hop hvalues.1 hboolean).documented

theorem documented_concatText (serde : SerdeJson) (hop : operation = "concat")
    {values : List Value} (hvalues : ∀ value ∈ values, value ∈ args) :
    Raises (Documented operation args) (concatText serde values) := by
  induction values with
  | nil => simp [concatText]
  | cons value values ih =>
    rw [List.forall_mem_cons] at hvalues
    refine Raises.bind ?_ fun b => (ih hvalues.2).bind fun _ => by simp
    intro e he
    have hkind : value.asArray ≠ none ∨ value.asObject ≠ none := by
      cases value <;> simp_all [valueToText, Value.asArray, Value.asObject]
    have htext : e = .expression "expression concat accepts only scalar values" := by
      cases value <;> simp_all [valueToText]
    rw [htext]
    exact (OperationFailure.scalar hop hvalues.1 hkind).documented

/-- `values` are the operands that are left, an even number of them having been paired. -/
theorem documented_expressionObject (hop : operation = "object") (fields : StrMap Value)
    {values : List Value} {i : Nat} (hvalues : args.drop (2 * i) = values)
    (hi : 2 * i ≤ args.length) :
    Raises (Documented operation args) (expressionObject fields values) := by
  fun_induction expressionObject fields values generalizing i with
  | case1 => simp
  | case2 fields key value rest ih =>
    have hlength : args.length - 2 * i = rest.length + 2 := by
      rw [← List.length_drop, hvalues]
      rfl
    refine ih (i := i + 1) ?_ (by omega)
    rw [show 2 * (i + 1) = 2 * i + 2 by omega, ← List.drop_drop, hvalues]
    rfl
  | case3 fields last =>
    have hlength : args.length - 2 * i = 1 := by
      rw [← List.length_drop, hvalues]
      rfl
    rw [raises_error]
    exact (OperationFailure.unpaired hop (by omega)).documented
  | case4 fields key value rest hkey =>
    have hget : args[2 * i]? = some key := by
      rw [← List.head?_drop, hvalues]
      rfl
    have hnone : key.asStr = none := by
      cases key <;> simp_all [Value.asStr]
    rw [raises_error]
    exact (OperationFailure.objectKey hop hget hnone).documented

theorem documented_getMember (hop : operation = "get") :
    Raises (Documented operation args) (getMember args) := by
  subst hop
  refine (documented_binaryArguments (by decide)).bind_of fun p hp => ?_
  obtain ⟨container, key⟩ := p
  have hargs := eq_of_binaryArguments hp
  dsimp only
  cases hkey : key.asStr with
  | none =>
    rw [raises_error]
    exact (OperationFailure.propertyName rfl hargs hkey).documented
  | some name =>
    have hname : key = .string name := by cases key <;> simp_all [Value.asStr]
    cases container with
    | object fields => simp
    | array items =>
      dsimp only
      split
      · simp
      · next hnone =>
        rw [raises_error]
        refine (OperationFailure.arrayIndex rfl (hname ▸ hargs) fun index hindex => ?_).documented
        rw [hindex] at hnone
        exact List.getElem?_eq_none_iff.mp hnone
    | null | bool | number | string =>
      rw [raises_error]
      exact (OperationFailure.container rfl hargs rfl rfl).documented

theorem documented_containsMember (hop : operation = "contains") :
    Raises (Documented operation args) (containsMember args) := by
  subst hop
  refine (documented_binaryArguments (by decide)).bind_of fun p hp => ?_
  obtain ⟨container, needle⟩ := p
  have hargs := eq_of_binaryArguments hp
  dsimp only
  cases container with
  | string text =>
    cases hneedle : needle.asStr with
    | some needle => simp
    | none =>
      rw [raises_error]
      exact (OperationFailure.needle rfl hargs hneedle).documented
  | array items => simp
  | object fields => simp
  | null | bool | number =>
    rw [raises_error]
    exact (OperationFailure.haystack rfl hargs rfl rfl rfl).documented

/-- **An operation fails only as it documents.** -/
theorem documented_applyOperation (serde : SerdeJson) (hop : operation ∈ expressionOperations) :
    Raises (Documented operation args) (applyOperation serde operation args) := by
  unfold applyOperation
  split
  · exact documented_binaryCompare (by decide) _
  · exact documented_binaryCompare (by decide) _
  · exact documented_orderedCompare (by decide) (by decide) _
  · exact documented_orderedCompare (by decide) (by decide) _
  · exact documented_orderedCompare (by decide) (by decide) _
  · exact documented_orderedCompare (by decide) (by decide) _
  · exact (documented_booleanArguments (by decide) fun _ h => h).bind fun _ => by simp
  · exact (documented_booleanArguments (by decide) fun _ h => h).bind fun _ => by simp
  · refine Raises.bind ?_ fun _ =>
      (documented_booleanArguments (by decide) fun _ h => h).bind fun _ => by simp
    unfold requireArity
    split
    · simp
    · next hlength =>
      rw [raises_error]
      exact (OperationFailure.arity (by decide) hlength).documented
  · exact documented_numericFold (by decide) (by decide) _ _
  · exact documented_numericSubtract (by decide) (by decide)
  · exact documented_numericFold (by decide) (by decide) _ _
  · exact documented_numericQuotient (by decide) (by decide) (by decide) _
  · exact documented_numericQuotient (by decide) (by decide) (by decide) _
  · exact (documented_concatText serde rfl fun _ h => h).bind fun _ => by simp
  · simp
  · split
    · exact documented_expressionObject (i := 0) rfl [] rfl (Nat.zero_le _)
    · next hodd =>
      rw [raises_error]
      exact (OperationFailure.unpaired rfl (by omega)).documented
  · exact documented_getMember rfl
  · simp
  · exact documented_containsMember rfl
  · exfalso
    unfold expressionOperations at hop
    simp_all

end Operations

/-! ### What the validator ensures -/

/-- The shape of an expression that the validator has accepted, one level of it. -/
structure WellFormed (accepted : Value → Prop) (expression : Value) (operation : String)
    (args : List Value) : Prop where
  parts : expressionParts expression = .ok (operation, args)
  supported : operation ∈ expressionOperations
  nested : ∀ argument ∈ args, ∀ inner, Argument.ofValue argument = .expression inner →
    accepted inner

theorem validateArguments_eq_ok {check : Value → String → Except String Unit} {field : String}
    {index : Nat} {args : List Value} (h : validateArguments check field index args = .ok ()) :
    ∀ argument ∈ args, ∃ field, check argument field = .ok () := by
  induction args generalizing index with
  | nil => exact fun _ hmem => by cases hmem
  | cons argument args ih =>
    rw [validateArguments] at h
    obtain ⟨_, hfirst, hrest⟩ := except_bind_eq_ok h
    exact List.forall_mem_cons.mpr ⟨⟨_, hfirst⟩, ih hrest⟩

/-- An argument that the evaluator takes for an expression has been validated as one. -/
theorem nested_of_validateArgument {nested : Value → String → Except String Unit}
    {argument inner : Value} {field : String}
    (h : validateExpressionArgument nested argument field = .ok ())
    (hinner : Argument.ofValue argument = .expression inner) :
    ∃ field, nested inner field = .ok () := by
  have hargument : argument = .object [("expr", inner)] := by
    unfold Argument.ofValue at hinner
    split at hinner
    all_goals cases hinner
    rfl
  subst hargument
  exact ⟨_, h⟩

/-- **Validated expressions are well formed**: their operation is supported, and what is evaluated
below them has been validated too. -/
theorem wellFormed_of_validate {levels : Nat} {expression : Value} {field : String}
    (h : validateExpression levels expression field = .ok ()) :
    ∃ operation args, WellFormed (fun inner => ∃ levels field,
      validateExpression levels inner field = .ok ()) expression operation args := by
  cases levels with
  | zero => cases h
  | succ levels =>
    unfold validateExpression at h
    split at h
    · cases h
    · next object hobject =>
      obtain ⟨_, -, h⟩ := except_bind_eq_ok h
      split at h
      · cases h
      · next operation hoperation =>
        obtain ⟨_, hsupported, h⟩ := except_bind_eq_ok h
        split at h
        · cases h
        · next args hargs =>
          obtain ⟨_, -, h⟩ := except_bind_eq_ok h
          refine ⟨operation, args, ?_, ?_, fun argument hmem inner hinner => ?_⟩
          · simp only [expressionParts, hobject, hoperation, hargs]
          · simpa using ensure_eq_ok.mp hsupported
          · obtain ⟨field, hargument⟩ := validateArguments_eq_ok h argument hmem
            obtain ⟨field, hinner⟩ := nested_of_validateArgument hargument hinner
            exact ⟨levels, field, hinner⟩

/-! ### Heights -/

theorem valueHeight_le_of_mem {items : List Value} {item : Value} (h : item ∈ items) :
    valueHeight item ≤ itemsHeight items := by
  induction items with
  | nil => cases h
  | cons first items ih =>
    rw [itemsHeight]
    rcases List.mem_cons.mp h with rfl | h
    · exact Nat.le_max_left _ _
    · exact (ih h).trans (Nat.le_max_right _ _)

theorem valueHeight_le_of_get? {fields : List (String × Value)} {key : String} {value : Value}
    (h : StrMap.get? fields key = some value) : valueHeight value ≤ fieldsHeight fields := by
  induction fields with
  | nil => cases h
  | cons field fields ih =>
    obtain ⟨name, first⟩ := field
    rw [fieldsHeight]
    rw [StrMap.get?_cons] at h
    split at h
    · obtain rfl : first = value := by simpa using h
      exact Nat.le_max_left _ _
    · exact (ih h).trans (Nat.le_max_right _ _)

/-- A nested expression is lower than the one it is nested in. -/
theorem valueHeight_lt_of_nested {expression argument inner : Value} {operation : String}
    {args : List Value} (hparts : expressionParts expression = .ok (operation, args))
    (hmem : argument ∈ args) (hinner : Argument.ofValue argument = .expression inner) :
    valueHeight inner < valueHeight expression := by
  have hargument : argument = .object [("expr", inner)] := by
    unfold Argument.ofValue at hinner
    split at hinner
    all_goals cases hinner
    rfl
  have hlow : valueHeight inner < valueHeight argument := by
    rw [hargument, valueHeight, fieldsHeight, fieldsHeight]
    omega
  unfold expressionParts at hparts
  split at hparts
  · cases hparts
  · next fields hfields =>
    obtain rfl : expression = .object fields := by
      cases expression <;> simp_all [Value.asObject]
    split at hparts
    · cases hparts
    · split at hparts
      · cases hparts
      · next hargs =>
        cases hparts
        obtain ⟨value, hget, harray⟩ := Option.bind_eq_some_iff.mp hargs
        obtain rfl : value = .array args := by
          cases value <;> simp_all [Value.asArray]
        have hitems := valueHeight_le_of_mem hmem
        have hfield := valueHeight_le_of_get? hget
        have harrayHeight : valueHeight (.array args) = itemsHeight args + 1 := by rw [valueHeight]
        have hobjectHeight : valueHeight (.object fields) = fieldsHeight fields + 1 := by
          rw [valueHeight]
        omega

/-! ### Failures of an evaluation -/

/-- Why the evaluation of an expression can fail: an operation does, a reference has no value, or
the secret store has refused a secret, with a text of its own. -/
inductive EvaluationFailure (outputs : StrMap (StrMap Value)) (locals : StrMap Value)
    (t : RunTrace) : RunError → Prop
  | operation {operation text : String} {args : List Value} : operation ∈ expressionOperations →
      OperationFailure operation args text → EvaluationFailure outputs locals t (.expression text)
  | reference {source : String} {e : RunError} : resolveFrom outputs locals source = .error e →
      EvaluationFailure outputs locals t e
  | secret {name text : String} : (⟨.resolveSecret name, .error text⟩ : RunEvent) ∈ t →
      EvaluationFailure outputs locals t (.external text)

theorem EvaluationFailure.mono {outputs : StrMap (StrMap Value)} {locals : StrMap Value}
    {t u : RunTrace} {e : RunError} (h : EvaluationFailure outputs locals t e)
    (hsub : ∀ event ∈ t, event ∈ u) : EvaluationFailure outputs locals u e := by
  cases h with
  | operation hop hfails => exact .operation hop hfails
  | reference hsource => exact .reference hsource
  | secret hevent => exact .secret (hsub _ hevent)

section Evaluation

variable {serde : SerdeJson} {outputs : StrMap (StrMap Value)} {locals : StrMap Value}
  {t : RunTrace} {e : RunError}

theorem failure_of_resolveSecret {name : String}
    (h : Runs (resolveSecret name).run t (some (.error e))) :
    EvaluationFailure outputs locals t e := by
  obtain ⟨h, -⟩ | ⟨e', he, h⟩ | ⟨secret, u, v, -, -, h⟩ := runs_run_bind h
  · cases h
  · cases he
    obtain ⟨hr, -⟩ | ⟨answer, u, v, rfl, hcall, h⟩ := runs_bind_iff.mp h
    · cases hr
    obtain ⟨-, hr | hr⟩ := runs_ret_iff.mp h
    · cases hr
    obtain ⟨-, hr'⟩ | ⟨answer', rfl, hr' | hr'⟩ := runs_call_iff.mp hcall
    · cases hr'
    · cases hr'
    · cases hr'
      cases answer with
      | ok secret => cases hr
      | error text =>
        cases hr
        exact .secret (List.mem_append_left _ List.mem_cons_self)
  · obtain ⟨-, hr | hr⟩ := runs_ret_iff.mp h
    · cases hr
    · cases hr

theorem failure_of_evaluateArguments {nested : Value → RunM Value} {args : List Value}
    (hnested : ∀ argument ∈ args, ∀ inner, Argument.ofValue argument = .expression inner →
      ∀ t e, Runs (nested inner).run t (some (.error e)) → EvaluationFailure outputs locals t e)
    (h : Runs (evaluateArguments outputs locals nested args).run t (some (.error e))) :
    EvaluationFailure outputs locals t e := by
  induction args generalizing t with
  | nil =>
    obtain ⟨-, hr | hr⟩ := runs_ret_iff.mp h
    · cases hr
    · cases hr
  | cons argument args ih =>
    rw [List.forall_mem_cons] at hnested
    obtain ⟨h, -⟩ | ⟨e', he, h⟩ | ⟨value, u, v, rfl, -, h⟩ := runs_run_bind h
    · cases h
    · -- the first argument fails
      cases he
      unfold evaluateExpressionArgument at h
      split at h
      · obtain ⟨-, hr | hr⟩ := runs_ret_iff.mp h
        · cases hr
        · cases hr
      · obtain ⟨-, hr | hr⟩ := runs_ret_iff.mp h
        · cases hr
        · exact .reference (Option.some.inj hr).symm
      · exact failure_of_resolveSecret h
      · next inner hinner => exact hnested.1 inner hinner t e h
    · obtain ⟨h, -⟩ | ⟨e', he, h⟩ | ⟨values, u', v', rfl, -, h⟩ := runs_run_bind h
      · cases h
      · -- a later one does
        cases he
        exact (ih hnested.2 h).mono fun _ hmem => List.mem_append_right _ hmem
      · obtain ⟨-, hr | hr⟩ := runs_ret_iff.mp h
        · cases hr
        · cases hr

/-- The evaluation of a validated expression fails only for the causes listed, given as much fuel as
it is high. -/
theorem failure_of_evaluateExpression (serde : SerdeJson) {fuel : Nat} {expression : Value}
    {levels : Nat} {field : String} (hvalid : validateExpression levels expression field = .ok ())
    (hfuel : valueHeight expression < fuel)
    (h : Runs (evaluateExpression serde outputs locals fuel expression).run t (some (.error e))) :
    EvaluationFailure outputs locals t e := by
  induction fuel generalizing expression levels field t e with
  | zero => exact absurd hfuel (Nat.not_lt_zero _)
  | succ fuel ih =>
    obtain ⟨operation, args, hwell⟩ := wellFormed_of_validate hvalid
    rw [evaluateExpression, hwell.parts] at h
    obtain ⟨h, -⟩ | ⟨e', he, h⟩ | ⟨parts, u, v, rfl, hparts, h⟩ := runs_run_bind h
    · cases h
    · -- the parts of a well-formed expression are there
      obtain ⟨-, hr | hr⟩ := runs_ret_iff.mp h
      · cases hr
      · cases he
        cases hr
    obtain ⟨rfl, hr | hr⟩ := runs_ret_iff.mp hparts
    · cases hr
    cases hr
    rw [List.nil_append]
    obtain ⟨h, -⟩ | ⟨e', he, h⟩ | ⟨values, u', v', rfl, -, h⟩ := runs_run_bind h
    · cases h
    · cases he
      refine failure_of_evaluateArguments (fun argument hmem inner hinner t e hrun => ?_) h
      obtain ⟨levels', field', hinner'⟩ := hwell.nested argument hmem inner hinner
      have hlow := valueHeight_lt_of_nested hwell.parts hmem hinner
      exact ih hinner' (by omega) hrun
    · obtain ⟨-, hr | hr⟩ := runs_ret_iff.mp h
      · cases hr
      · obtain ⟨text, hfails, rfl⟩ := documented_applyOperation serde hwell.supported _
          (Option.some.inj hr).symm
        exact .operation hwell.supported hfails

end Evaluation

/-! ### Safety -/

/-- The expressions that the evaluator comes to from one. -/
inductive Reaches (expression : Value) : Value → Prop
  | here : Reaches expression expression
  | nested {outer argument inner : Value} {operation : String} {args : List Value} :
      Reaches expression outer → expressionParts outer = .ok (operation, args) →
      argument ∈ args → Argument.ofValue argument = .expression inner → Reaches expression inner

/-- What is reached from a validated expression has been validated. -/
theorem validate_of_reaches {levels : Nat} {expression : Value} {field : String}
    (h : validateExpression levels expression field = .ok ()) {inner : Value}
    (hreach : Reaches expression inner) :
    ∃ levels field, validateExpression levels inner field = .ok () := by
  induction hreach with
  | here => exact ⟨levels, field, h⟩
  | nested _ hparts hmem hinner ih =>
    obtain ⟨levels, field, houter⟩ := ih
    obtain ⟨operation, args, hwell⟩ := wellFormed_of_validate houter
    have heq := hwell.parts.symm.trans hparts
    cases heq
    exact hwell.nested _ hmem _ hinner

/-- The evaluation of an expression is safe in an environment of outputs and local bindings. -/
structure EvaluatesSafely (serde : SerdeJson) (outputs : StrMap (StrMap Value))
    (locals : StrMap Value) (expression : Value) : Prop where
  /-- No expression it comes to is malformed: none lacks its operation or its arguments, and no
  operation is unsupported. -/
  wellFormed : ∀ inner, Reaches expression inner → ∃ operation args,
    expressionParts inner = .ok (operation, args) ∧ operation ∈ expressionOperations
  /-- It ends, whatever the secret store answers. -/
  terminates : ∀ answer : (o : Op) → Resp o, ∃ t r, (∀ event ∈ t, event.2 = answer event.1) ∧
    Runs (resolveBinding serde outputs locals (.expr expression)).run t (some r)
  /-- It fails for the documented causes only, and never for its depth. -/
  fails : ∀ t e, Runs (resolveBinding serde outputs locals (.expr expression)).run t
    (some (.error e)) → EvaluationFailure outputs locals t e ∧ e ≠ .outOfFuel

/-- `1 / (1 - 1)`, the divisor being a nested expression. -/
def quotientExpression : Value :=
  .object [("args", .array [.number (.int 1), .object [("expr", .object [
    ("args", .array [.number (.int 1), .number (.int 1)]), ("op", .string "subtract")])]]),
    ("op", .string "divide")]

/-- A computation asks for nothing: it ends with one result in every environment, whatever state
the environment keeps. -/
def AsksNothing {α : Type} (p : Proc Op Resp α) : Prop :=
  ∃ r, (∀ t final, Runs p t final → t = [] ∧ (final = none ∨ final = some r)) ∧
    ∀ (σ : Type) (environment : σ → (o : Op) → Resp o × σ) (s : σ),
      p.simulate environment s = ([], r, s)

theorem asksNothing_ret {α : Type} (a : α) : AsksNothing (.ret a) :=
  ⟨a, fun _ _ h => runs_ret_iff.mp h, fun _ _ _ => rfl⟩

theorem Coincide.asksNothing {α : Type} {x y : RunM α} (h : Coincide x y) : AsksNothing x.run := by
  obtain ⟨r, rfl, -⟩ := h
  exact asksNothing_ret r

/-- The environment in which a secret store answers, and everything else as `base` does. -/
def withSecrets (base : (o : Op) → Resp o) (store : String → Except String String) :
    (o : Op) → Resp o
  | .resolveSecret name => store name
  | o => base o

/-- **Secret detection is complete**: a binding that the detector clears asks for no secret, and
resolves to the same in any two secret stores. -/
theorem resolveBinding_ignores_secrets (serde : SerdeJson) (outputs : StrMap (StrMap Value))
    (locals : StrMap Value) {binding : WorkflowBinding} (h : bindingUsesSecret binding = false) :
    AsksNothing (resolveBinding serde outputs locals binding).run ∧
      ∀ (base : (o : Op) → Resp o) (store store' : String → Except String String),
        (resolveBinding serde outputs locals binding).run.simulate
            (stateless (withSecrets base store)) () =
          (resolveBinding serde outputs locals binding).run.simulate
            (stateless (withSecrets base store')) () := by
  have hwithin : binding.Within (fun _ => True) (fun _ => True) :=
    ⟨h, fun _ _ => ⟨fun _ _ _ => trivial, fun _ _ _ _ => trivial⟩⟩
  have hcoincide := coincide_resolveBinding serde (AgreeOn.refl _ outputs) (AgreeOn.refl _ locals)
    hwithin
  obtain ⟨r, hruns, hsimulate⟩ := hcoincide.asksNothing
  refine ⟨⟨r, hruns, hsimulate⟩, fun base store store' => ?_⟩
  rw [hsimulate, hsimulate]

/-- The quotient asks for no secret. -/
theorem quotientExpression_ignores_secrets :
    AsksNothing (resolveBinding ⟨fun _ => 0, fun _ => ""⟩ [] [] (.expr quotientExpression)).run :=
  (resolveBinding_ignores_secrets _ [] [] (by decide)).1

end KakuneCore
