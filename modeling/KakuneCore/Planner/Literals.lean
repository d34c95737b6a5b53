import KakuneCore.Planner.Skeletons

/-!
# Literals inside expressions

An argument `{"literal": value}` of an expression evaluates to `value`, whatever that is. The parser
and the runtime's `binding_dependencies` stop there as well; `validate_expression_references`, the
plan view's `collect_expression_dependencies` and `expression_uses_secret` visit every member of an
expression, and so take a `from` or `secret` member **inside the data** for a reference.

An expression with a hole for such a literal is a function of the value. The lemmas of `LiteralHole`
say which of the traversals tell two fillings apart, and by what.
-/

namespace KakuneCore

/-! ### Holes of an expression -/

/-- An expression: its arguments and its operation, in key order. -/
def expressionOf (arguments : List Value) (operation : Value) : Value :=
  .object [("args", .array arguments), ("op", operation)]

/-- An expression with a hole for the value of a `literal` argument, in the expression itself or in
one nested in its arguments. -/
inductive LiteralHole : (Value → Value) → Prop
  | here (before after : List Value) (operation : Value) :
      LiteralHole fun value =>
        expressionOf (before ++ .object [("literal", value)] :: after) operation
  | deeper {hole : Value → Value} (before after : List Value) (operation : Value) :
      LiteralHole hole →
      LiteralHole fun value =>
        expressionOf (before ++ .object [("expr", hole value)] :: after) operation

/-- Evaluation returns a literal as it is. -/
theorem evaluateExpressionArgument_literal (outputs : StrMap (StrMap Value)) (locals : StrMap Value)
    (nested : Value → RunM Value) (value : Value) :
    evaluateExpressionArgument outputs locals nested (.object [("literal", value)]) = pure value :=
  rfl

/-- Some object at any depth of the value has a member `secret`. -/
inductive NamesSecret : Value → Prop
  | here {fields : List (String × Value)} :
      StrMap.contains fields "secret" = true → NamesSecret (.object fields)
  | member {fields : List (String × Value)} {key : String} {value : Value} :
      (key, value) ∈ fields → NamesSecret value → NamesSecret (.object fields)
  | item {items : List Value} {value : Value} :
      value ∈ items → NamesSecret value → NamesSecret (.array items)

theorem itemsUseSecret_iff {items : List Value} :
    itemsUseSecret items = true ↔ ∃ item ∈ items, expressionUsesSecret item = true := by
  induction items with
  | nil => simp [itemsUseSecret]
  | cons item items ih => simp [itemsUseSecret, ih]

theorem fieldsUseSecret_iff {fields : List (String × Value)} :
    fieldsUseSecret fields = true ↔
      ∃ key value, (key, value) ∈ fields ∧ expressionUsesSecret value = true := by
  induction fields with
  | nil => simp [fieldsUseSecret]
  | cons entry fields ih =>
    obtain ⟨key, value⟩ := entry
    simp only [fieldsUseSecret, Bool.or_eq_true, ih, List.mem_cons, Prod.mk.injEq]
    constructor
    · rintro (hvalue | ⟨key', value', hmem, hvalue⟩)
      · exact ⟨key, value, .inl ⟨rfl, rfl⟩, hvalue⟩
      · exact ⟨key', value', .inr hmem, hvalue⟩
    · rintro ⟨key', value', ⟨rfl, rfl⟩ | hmem, hvalue⟩
      · exact .inl hvalue
      · exact .inr ⟨key', value', hmem, hvalue⟩

mutual

theorem namesSecret_of_expressionUsesSecret : ∀ value : Value,
    expressionUsesSecret value = true → NamesSecret value
  | .object fields, h => by
    rw [expressionUsesSecret, Bool.or_eq_true] at h
    rcases h with hkey | hmember
    · exact .here hkey
    · obtain ⟨key, value, hmem, hvalue⟩ := namesSecret_of_fieldsUseSecret fields hmember
      exact .member hmem hvalue
  | .array items, h => by
    rw [expressionUsesSecret] at h
    obtain ⟨value, hmem, hvalue⟩ := namesSecret_of_itemsUseSecret items h
    exact .item hmem hvalue
  | .null, h | .bool _, h | .number _, h | .string _, h => by simp [expressionUsesSecret] at h

theorem namesSecret_of_fieldsUseSecret : ∀ fields : List (String × Value),
    fieldsUseSecret fields = true → ∃ key value, (key, value) ∈ fields ∧ NamesSecret value
  | [], h => by simp [fieldsUseSecret] at h
  | (key, value) :: fields, h => by
    rw [fieldsUseSecret, Bool.or_eq_true] at h
    rcases h with hvalue | hrest
    · exact ⟨key, value, List.mem_cons_self, namesSecret_of_expressionUsesSecret value hvalue⟩
    · obtain ⟨key', value', hmem, hnames⟩ := namesSecret_of_fieldsUseSecret fields hrest
      exact ⟨key', value', List.mem_cons_of_mem _ hmem, hnames⟩

theorem namesSecret_of_itemsUseSecret : ∀ items : List Value,
    itemsUseSecret items = true → ∃ value ∈ items, NamesSecret value
  | [], h => by simp [itemsUseSecret] at h
  | item :: items, h => by
    rw [itemsUseSecret, Bool.or_eq_true] at h
    rcases h with hitem | hrest
    · exact ⟨item, List.mem_cons_self, namesSecret_of_expressionUsesSecret item hitem⟩
    · obtain ⟨value, hmem, hnames⟩ := namesSecret_of_itemsUseSecret items hrest
      exact ⟨value, List.mem_cons_of_mem _ hmem, hnames⟩

end

/-- **The secret detector** answers whether some member at any depth is called `secret`. -/
theorem expressionUsesSecret_iff {value : Value} :
    expressionUsesSecret value = true ↔ NamesSecret value := by
  refine ⟨namesSecret_of_expressionUsesSecret value, fun h => ?_⟩
  induction h with
  | here hkey => rw [expressionUsesSecret, hkey, Bool.true_or]
  | member hmem _ ih =>
    rw [expressionUsesSecret, fieldsUseSecret_iff.mpr ⟨_, _, hmem, ih⟩, Bool.or_true]
  | item hmem _ ih => rw [expressionUsesSecret, itemsUseSecret_iff.mpr ⟨_, hmem, ih⟩]

theorem validateArguments_around {check : Value → String → Except String Unit} {field : String}
    (before after : List Value) {argument argument' : Value}
    (h : ∀ field, check argument field = check argument' field) (index : Nat) :
    validateArguments check field index (before ++ argument :: after) =
      validateArguments check field index (before ++ argument' :: after) := by
  induction before generalizing index with
  | nil => rw [List.nil_append, List.nil_append, validateArguments, validateArguments, h]
  | cons first before ih =>
    rw [List.cons_append, List.cons_append, validateArguments, validateArguments, ih]

/-- An argument is replaced by one that is checked alike. -/
theorem validateExpression_around (before after : List Value) (operation : Value)
    {argument argument' : Value}
    (h : ∀ levels field, validateExpressionArgument (validateExpression levels) argument field =
      validateExpressionArgument (validateExpression levels) argument' field)
    (levels : Nat) (field : String) :
    validateExpression levels (expressionOf (before ++ argument :: after) operation) field =
      validateExpression levels (expressionOf (before ++ argument' :: after) operation) field := by
  cases levels with
  | zero => rfl
  | succ levels =>
    have harguments := @validateArguments_around _ field before after _ _ (h levels) 0
    simp [validateExpression, expressionOf, StrMap.contains, Value.asObject, Value.asArray,
      harguments]

theorem mentions_expressionOf {arguments : List Value} {operation : Value} {source : String} :
    Mentions (expressionOf arguments operation) source ↔
      (∃ argument ∈ arguments, Mentions argument source) ∨ Mentions operation source := by
  simp only [← mem_expressionSources_iff, expressionOf, expressionSources, expressionSourcesFields,
    List.mem_append, mem_expressionSourcesItems]
  simp

theorem namesSecret_expressionOf {arguments : List Value} {operation : Value} :
    NamesSecret (expressionOf arguments operation) ↔
      (∃ argument ∈ arguments, NamesSecret argument) ∨ NamesSecret operation := by
  have hkey : StrMap.contains [("args", .array arguments), ("op", operation)] "secret" = false :=
    rfl
  simp only [← expressionUsesSecret_iff, expressionOf, expressionUsesSecret, fieldsUseSecret,
    Bool.or_eq_true, itemsUseSecret_iff, hkey]
  simp

theorem mentions_member {key : String} (hkey : key ≠ "from") {value : Value} {source : String} :
    Mentions (.object [(key, value)]) source ↔ Mentions value source := by
  simp only [← mem_expressionSources_iff, expressionSources, expressionSourcesFields,
    StrMap.get?_cons, if_neg hkey]
  simp

theorem namesSecret_member {key : String} (hkey : key ≠ "secret") {value : Value} :
    NamesSecret (.object [(key, value)]) ↔ NamesSecret value := by
  simp only [← expressionUsesSecret_iff, expressionUsesSecret, fieldsUseSecret, StrMap.contains,
    StrMap.get?_cons, if_neg hkey]
  simp

theorem itemsReferences_append (items items' : List Value) :
    itemsReferences (items ++ items') = itemsReferences items ++ itemsReferences items' := by
  induction items with
  | nil => rfl
  | cons item items ih => simp [itemsReferences, ih]

theorem expressionReferences_expressionOf (arguments : List Value) (operation : Value) :
    expressionReferences (expressionOf arguments operation) = itemsReferences arguments := by
  simp [expressionOf, expressionReferences, exprReferences, argsReferences, arrayReferences]

theorem expressionReferences_expr (value : Value) :
    expressionReferences (.object [("expr", value)]) = expressionReferences value := by
  simp [expressionReferences, exprReferences, argsReferences]

namespace LiteralHole

variable {hole : Value → Value}

/-- The parser does not look into a literal. -/
theorem validateExpression (h : LiteralHole hole) (value value' : Value) (levels : Nat)
    (field : String) :
    KakuneCore.validateExpression levels (hole value) field =
      KakuneCore.validateExpression levels (hole value') field := by
  induction h generalizing levels field with
  | here before after operation =>
    refine validateExpression_around before after operation (fun levels field => ?_) levels field
    rfl
  | deeper before after operation _ ih =>
    refine validateExpression_around before after operation (fun levels field => ?_) levels field
    exact ih levels s!"{field}.expr"

/-- The checks of the planner look into it. -/
theorem mentions (h : LiteralHole hole) (value : Value) (source : String) :
    Mentions (hole value) source ↔ Mentions (hole .null) source ∨ Mentions value source := by
  have hnull : ¬ Mentions .null source := by rintro ⟨⟩
  induction h with
  | here before after operation =>
    simp only [mentions_expressionOf, List.mem_append, List.mem_cons, or_and_right, exists_or,
      exists_eq_left, mentions_member (show "literal" ≠ "from" by decide), hnull]
    grind
  | deeper before after operation _ ih =>
    simp only [mentions_expressionOf, List.mem_append, List.mem_cons, or_and_right, exists_or,
      exists_eq_left, mentions_member (show "expr" ≠ "from" by decide), ih]
    grind

/-- The secret detector looks into it. -/
theorem namesSecret (h : LiteralHole hole) (value : Value) :
    NamesSecret (hole value) ↔ NamesSecret (hole .null) ∨ NamesSecret value := by
  have hnull : ¬ NamesSecret .null := by rintro ⟨⟩
  induction h with
  | here before after operation =>
    simp only [namesSecret_expressionOf, List.mem_append, List.mem_cons, or_and_right, exists_or,
      exists_eq_left, namesSecret_member (show "literal" ≠ "secret" by decide), hnull]
    grind
  | deeper before after operation _ ih =>
    simp only [namesSecret_expressionOf, List.mem_append, List.mem_cons, or_and_right, exists_or,
      exists_eq_left, namesSecret_member (show "expr" ≠ "secret" by decide), ih]
    grind

/-- The runtime does not look into a literal. -/
theorem expressionReferences (h : LiteralHole hole) (value value' : Value) :
    KakuneCore.expressionReferences (hole value) =
      KakuneCore.expressionReferences (hole value') := by
  induction h with
  | here before after operation =>
    simp only [expressionReferences_expressionOf, itemsReferences_append, itemsReferences]
    rfl
  | deeper before after operation _ ih =>
    simp only [expressionReferences_expressionOf, itemsReferences_append, itemsReferences,
      expressionReferences_expr, ih]

end LiteralHole

end KakuneCore
