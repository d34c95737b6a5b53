import KakuneCore.Numeric.Integers
import KakuneCore.Runtime.Environment

/-!
# Integers in expressions

`equal` compares JSON numbers; the order and the arithmetic of expressions go through binary64 and
back by a saturating conversion. Two different integers are in order exactly when they are rounded
differently, and a result is the exact one when nothing on the way to it is rounded.
-/

namespace KakuneCore

open Binary64 (Representable)

/-- The integers of `serde_json::Number`. -/
def IsJsonInteger (z : Int) : Prop := -(2 ^ 63) ≤ z ∧ z < 2 ^ 64

def integerValue (z : Int) : Value := .number (.int z)

/-- An operation on integers. -/
def integerExpression (operation : String) (zs : List Int) : Value :=
  .object [("args", .array (zs.map integerValue)), ("op", .string operation)]

section Evaluation

variable (serde : SerdeJson) (outputs : StrMap (StrMap Value)) (locals : StrMap Value)

/-- The expression evaluates to the result, without asking for anything. -/
def EvaluatesTo (expression : Value) (result : Except RunError Value) : Prop :=
  evaluateExpression serde outputs locals (valueHeight expression + 1) expression =
    liftExcept result

theorem liftExcept_injective {α : Type} {x y : Except RunError α}
    (h : liftExcept x = liftExcept y) : x = y := by
  have hpure : (Proc.ret x : Proc Op Resp (Except RunError α)) = Proc.ret y := h
  exact Proc.ret.inj hpure

theorem evaluateArguments_integers (nested : Value → RunM Value) (zs : List Int) :
    evaluateArguments outputs locals nested (zs.map integerValue) =
      pure (zs.map integerValue) := by
  induction zs with
  | nil => rfl
  | cons z zs ih =>
    rw [List.map_cons, evaluateArguments, ih]
    rfl

/-- Integers are arguments as they stand. -/
theorem evaluatesTo_integerExpression_iff {operation : String} {zs : List Int}
    {result : Except RunError Value} :
    EvaluatesTo serde outputs locals (integerExpression operation zs) result ↔
      applyOperation serde operation (zs.map integerValue) = result := by
  have hparts : expressionParts (integerExpression operation zs) =
      .ok (operation, zs.map integerValue) := by
    simp [expressionParts, integerExpression, Value.asObject, Value.asStr, Value.asArray]
  have heval : evaluateExpression serde outputs locals
      (valueHeight (integerExpression operation zs) + 1) (integerExpression operation zs) =
        liftExcept (applyOperation serde operation (zs.map integerValue)) := by
    rw [evaluateExpression, hparts]
    have hargs := evaluateArguments_integers outputs locals (evaluateExpression serde outputs locals
      (valueHeight (integerExpression operation zs))) zs
    change (evaluateArguments outputs locals _ (zs.map integerValue) >>= fun values =>
      liftExcept (applyOperation serde operation values)) = _
    rw [hargs]
    rfl
  rw [EvaluatesTo, heval]
  exact ⟨liftExcept_injective, congrArg liftExcept⟩

end Evaluation

/-! ### Rounding of arguments -/

theorem IsJsonInteger.abs_lt {z : Int} (h : IsJsonInteger z) : |z| < 2 ^ 1023 := by
  obtain ⟨hlow, hhigh⟩ := h
  have hle : |z| ≤ 2 ^ 64 := by
    rw [Int.abs_eq_natAbs]
    omega
  exact lt_of_le_of_lt hle (pow_lt_pow_right₀ (by norm_num) (by norm_num))

theorem numberArgument_integer (operation : String) {z : Int} (h : IsJsonInteger z) :
    numberArgument operation (integerValue z) = .ok (Binary64.round z) := by
  obtain ⟨q, hq⟩ := Binary64.exists_round_intCast h.abs_lt
  simp only [numberArgument, integerValue, Number.asF64, hq]

/-- **The order of two integers** is that of their nearest binary64 numbers. -/
theorem orderedCompare_integers (operation : String) (predicate : Rat → Rat → Bool) {a b : Int}
    {p q : Rat} (ha : IsJsonInteger a) (hb : IsJsonInteger b) (hp : Binary64.round a = .finite p)
    (hq : Binary64.round b = .finite q) :
    orderedCompare [integerValue a, integerValue b] operation predicate =
      .ok (.bool (predicate p q)) := by
  have hleft := numberArgument_integer operation ha
  have hright := numberArgument_integer operation hb
  rw [hp] at hleft
  rw [hq] at hright
  have hparts : binaryArguments [integerValue a, integerValue b] operation =
      .ok (integerValue a, integerValue b) := rfl
  simp only [orderedCompare, hparts, bind, Except.bind, hleft, hright]

/-- The three comparisons of which exactly one should hold. -/
def comparisons : List String := ["lessThan", "equal", "greaterThan"]

/-- **Exactly one comparison holds** of equal integers, and of others when they are rounded
differently. -/
theorem existsUnique_comparison_iff (serde : SerdeJson) {a b : Int} (ha : IsJsonInteger a)
    (hb : IsJsonInteger b) :
    (∃! operation, operation ∈ comparisons ∧
        applyOperation serde operation [integerValue a, integerValue b] = .ok (.bool true)) ↔
      a = b ∨ Binary64.round a ≠ Binary64.round b := by
  obtain ⟨p, hp⟩ := Binary64.exists_round_intCast ha.abs_lt
  obtain ⟨q, hq⟩ := Binary64.exists_round_intCast hb.abs_lt
  have hless : applyOperation serde "lessThan" [integerValue a, integerValue b] =
      .ok (.bool (p < q)) := orderedCompare_integers _ _ ha hb hp hq
  have hgreater : applyOperation serde "greaterThan" [integerValue a, integerValue b] =
      .ok (.bool (q < p)) := orderedCompare_integers _ _ ha hb hp hq
  have hequal : applyOperation serde "equal" [integerValue a, integerValue b] =
      .ok (.bool (a = b)) := by
    have hvalues : (integerValue a = integerValue b) = (a = b) := by simp [integerValue]
    change Except.ok (Value.bool (decide (integerValue a = integerValue b))) = _
    simp only [hvalues]
  have hround : a = b → p = q := by
    rintro rfl
    rw [hp] at hq
    exact Binary64.finite.inj hq
  have hholds : ∀ operation, (operation ∈ comparisons ∧
      applyOperation serde operation [integerValue a, integerValue b] = .ok (.bool true)) ↔
        (operation = "lessThan" ∧ p < q) ∨ (operation = "equal" ∧ a = b) ∨
          (operation = "greaterThan" ∧ q < p) := by
    intro operation
    simp only [comparisons, List.mem_cons, List.not_mem_nil, or_false]
    constructor
    · rintro ⟨rfl | rfl | rfl, happly⟩
      · rw [hless] at happly
        exact .inl ⟨rfl, by simpa using happly⟩
      · rw [hequal] at happly
        exact .inr (.inl ⟨rfl, by simpa using happly⟩)
      · rw [hgreater] at happly
        exact .inr (.inr ⟨rfl, by simpa using happly⟩)
    · rintro (⟨rfl, h⟩ | ⟨rfl, h⟩ | ⟨rfl, h⟩)
      · exact ⟨.inl rfl, by rw [hless]; simp [h]⟩
      · exact ⟨.inr (.inl rfl), by rw [hequal]; simp [h]⟩
      · exact ⟨.inr (.inr rfl), by rw [hgreater]; simp [h]⟩
  simp only [hholds]
  rw [hp, hq, ne_eq, Binary64.finite.injEq]
  constructor
  · rintro ⟨operation, hoperation, -⟩
    rcases hoperation with ⟨-, h⟩ | ⟨-, h⟩ | ⟨-, h⟩
    · exact .inr h.ne
    · exact .inl h
    · exact .inr h.ne'
  · rintro (heq | hne)
    · have hpq := hround heq
      refine ⟨"equal", .inr (.inl ⟨rfl, heq⟩), ?_⟩
      rintro operation (⟨-, h⟩ | ⟨rfl, -⟩ | ⟨-, h⟩)
      · exact absurd hpq h.ne
      · rfl
      · exact absurd hpq h.ne'
    · have hab : a ≠ b := fun heq => hne (hround heq)
      rcases lt_or_gt_of_ne hne with hlt | hgt
      · refine ⟨"lessThan", .inl ⟨rfl, hlt⟩, ?_⟩
        rintro operation (⟨rfl, -⟩ | ⟨-, h⟩ | ⟨-, h⟩)
        · rfl
        · exact absurd h hab
        · exact absurd h hlt.not_gt
      · refine ⟨"greaterThan", .inr (.inr ⟨rfl, hgt⟩), ?_⟩
        rintro operation (⟨-, h⟩ | ⟨-, h⟩ | ⟨rfl, -⟩)
        · exact absurd h hgt.not_gt
        · exact absurd h hab
        · rfl

/-! ### Arithmetic -/

inductive IntegerOperation
  | add | subtract | multiply
  deriving DecidableEq, Repr

namespace IntegerOperation

def name : IntegerOperation → String
  | add => "add"
  | subtract => "subtract"
  | multiply => "multiply"

/-- The exact operation. -/
def exact : IntegerOperation → Int → Int → Int
  | add => (· + ·)
  | subtract => (· - ·)
  | multiply => (· * ·)

/-- The operation on binary64 numbers. -/
def rounded : IntegerOperation → Binary64 → Binary64 → Binary64
  | add => .add
  | subtract => .sub
  | multiply => .mul

theorem rounded_finite (operation : IntegerOperation) (a b : Int) :
    operation.rounded (.finite a) (.finite b) = Binary64.round (operation.exact a b) := by
  rcases operation with - | - | -
  · exact congrArg Binary64.round (Int.cast_add a b).symm
  · exact congrArg Binary64.round (Int.cast_sub a b).symm
  · exact congrArg Binary64.round (Int.cast_mul a b).symm

end IntegerOperation

/-- Rounding keeps the integer. -/
def Kept (z : Int) : Prop := Binary64.round z = .finite z

instance (z : Int) : Decidable (Kept z) :=
  inferInstanceAs (Decidable (Binary64.round z = .finite z))

/-- **Nothing is rounded on the way**: the arguments are kept, and so is what the operation makes
of the first ones, up to the result itself. -/
structure KeptSteps (operation : IntegerOperation) (z : Int) (zs : List Int) : Prop where
  first : Kept z
  arguments : ∀ y ∈ zs, Kept y
  partials : ∀ i < zs.length, Kept ((zs.take i).foldl operation.exact z)

/-- A fold over integers that are kept rounds the exact result once. -/
theorem foldNumbers_integers {operation : IntegerOperation} {z : Int} {zs : List Int}
    (hrange : ∀ y ∈ zs, IsJsonInteger y) (h : KeptSteps operation z zs) :
    foldNumbers operation.name operation.rounded (.finite z) (zs.map integerValue) =
      .ok (Binary64.round (zs.foldl operation.exact z : Int)) := by
  induction zs generalizing z with
  | nil => rw [List.map_nil, foldNumbers, List.foldl_nil, h.first]
  | cons y ys ih =>
    have hy : Binary64.round y = .finite y := h.arguments y List.mem_cons_self
    rw [List.map_cons, foldNumbers, numberArgument_integer _ (hrange y List.mem_cons_self), hy]
    change foldNumbers _ _ (operation.rounded (.finite z) (.finite y)) _ = _
    rw [operation.rounded_finite, List.foldl_cons]
    rcases ys with - | ⟨y', ys⟩
    · rw [List.map_nil, foldNumbers, List.foldl_nil]
    · have hstep : Kept (operation.exact z y) := by
        simpa using h.partials 1 (by simp)
      rw [show Binary64.round (operation.exact z y) = .finite (operation.exact z y) from hstep]
      refine ih (fun w hw => hrange w (List.mem_cons_of_mem _ hw)) ⟨hstep,
        fun w hw => h.arguments w (List.mem_cons_of_mem _ hw), fun i hi => ?_⟩
      simpa using h.partials (i + 1) (by simpa using hi)

/-- Folding from the neutral element begins with the first argument. -/
theorem numericFold_integers {operation : IntegerOperation} {z : Int} {zs : List Int}
    (initial : Rat) (hinitial : operation.rounded (.finite initial) (.finite z) = Binary64.round z)
    (hz : IsJsonInteger z) (hrange : ∀ y ∈ zs, IsJsonInteger y) (h : KeptSteps operation z zs) :
    numericFold ((z :: zs).map integerValue) operation.name initial operation.rounded =
      numberValue (Binary64.round (zs.foldl operation.exact z : Int)) := by
  have hfirst : Binary64.round z = .finite z := h.first
  have hnonempty : ((z :: zs).map integerValue).isEmpty = false := rfl
  have hfold : foldNumbers operation.name operation.rounded (.finite initial)
      ((z :: zs).map integerValue) = .ok (Binary64.round (zs.foldl operation.exact z : Int)) := by
    rw [List.map_cons, foldNumbers, numberArgument_integer _ hz, hfirst]
    change foldNumbers _ _ (operation.rounded (.finite initial) (.finite z)) _ = _
    rw [hinitial, hfirst]
    exact foldNumbers_integers hrange h
  simp only [numericFold, hnonempty, Bool.false_eq_true, if_false, hfold, bind, Except.bind]

/-- **When nothing is rounded on the way, the exact result is rounded once.** -/
theorem applyOperation_integers (serde : SerdeJson) {operation : IntegerOperation} {z : Int}
    {zs : List Int} (hz : IsJsonInteger z) (hrange : ∀ y ∈ zs, IsJsonInteger y)
    (h : KeptSteps operation z zs) :
    applyOperation serde operation.name ((z :: zs).map integerValue) =
      numberValue (Binary64.round (zs.foldl operation.exact z : Int)) := by
  rcases operation with - | - | -
  · refine numericFold_integers 0 ?_ hz hrange h
    exact congrArg Binary64.round (zero_add (z : Rat))
  · have hfirst : Binary64.round z = .finite z := h.first
    have hfold := foldNumbers_integers hrange h
    have hsubtract : applyOperation serde "subtract" ((z :: zs).map integerValue) =
        numericSubtract ((z :: zs).map integerValue) "subtract" := rfl
    simp only [IntegerOperation.name, IntegerOperation.rounded] at hfold ⊢
    rw [hsubtract]
    simp only [numericSubtract, List.map_cons, numberArgument_integer _ hz, hfirst, hfold, bind,
      Except.bind]
  · refine numericFold_integers 1 ?_ hz hrange h
    exact congrArg Binary64.round (one_mul (z : Rat))

/-- The largest `i64` is not a binary64 number; the one next to it is converted back to it. -/
theorem round_maxI64 : Binary64.round ((2 ^ 63 - 1 : Int) : Rat) = .finite (2 ^ 63) := by
  decide +kernel

/-- **The conversion back** gives a result in the `i64` range exactly if rounding keeps it, or if it
is the largest one. -/
theorem numberValue_round_iff {s : Int} (hlow : -(2 ^ 63) ≤ s) (hhigh : s < 2 ^ 63) :
    (numberValue (Binary64.round s) = .ok (integerValue s) ∨
        ∃ error, numberValue (Binary64.round s) = .error error) ↔
      Representable s ∨ s = 2 ^ 63 - 1 := by
  have hsize : |s| < 2 ^ 1023 := IsJsonInteger.abs_lt ⟨hlow, by omega⟩
  obtain ⟨q, hq⟩ := Binary64.exists_round_intCast hsize
  rw [← Binary64.round_intCast_eq_iff hsize, hq, Binary64.finite.injEq]
  constructor
  · intro h
    rw [numberValue] at h
    split_ifs at h with hint
    · -- an integer came out: it is the rounded one, or the largest
      obtain ⟨hden, -, -⟩ := hint
      rcases h with h | ⟨error, h⟩
      · have hmin : min q.num (2 ^ 63 - 1) = s := by
          simpa [integerValue] using h
        have hqnum : (q.num : Rat) = q := Rat.den_eq_one_iff q |>.mp hden
        rcases eq_or_ne q.num s with hs | hs
        · left
          rw [← hqnum, hs]
        · right
          omega
      · cases h
    · rcases h with h | ⟨error, h⟩
      · simp [integerValue] at h
      · cases h
  · rintro (rfl | rfl)
    · left
      rw [numberValue, if_pos ⟨Rat.den_intCast s, by simpa using hlow, by simpa using hhigh.le⟩,
        Rat.num_intCast, min_eq_left (by omega)]
      rfl
    · left
      rw [round_maxI64, Binary64.finite.injEq] at hq
      subst hq
      decide +kernel

/-- **Where integer expressions are exact.** Exactly one of the comparisons holds of two integers
that are equal or rounded differently, and of no others. When nothing is rounded on the way, a
result in the `i64` range is the exact one if it is representable or the largest, and only then. -/
theorem integer_expressions_exact_iff (serde : SerdeJson) (outputs : StrMap (StrMap Value))
    (locals : StrMap Value) :
    (∀ a b, IsJsonInteger a → IsJsonInteger b →
      ((∃! operation, operation ∈ comparisons ∧ EvaluatesTo serde outputs locals
          (integerExpression operation [a, b]) (.ok (.bool true))) ↔
        a = b ∨ Binary64.round a ≠ Binary64.round b)) ∧
    ∀ (operation : IntegerOperation) (z : Int) (zs : List Int),
      IsJsonInteger z → (∀ y ∈ zs, IsJsonInteger y) → KeptSteps operation z zs →
      -(2 ^ 63) ≤ zs.foldl operation.exact z → zs.foldl operation.exact z < 2 ^ 63 →
      ((EvaluatesTo serde outputs locals (integerExpression operation.name (z :: zs))
            (.ok (integerValue (zs.foldl operation.exact z))) ∨
          ∃ error, EvaluatesTo serde outputs locals (integerExpression operation.name (z :: zs))
            (.error error)) ↔
        Representable (zs.foldl operation.exact z) ∨ zs.foldl operation.exact z = 2 ^ 63 - 1) := by
  constructor
  · intro a b ha hb
    simp only [evaluatesTo_integerExpression_iff]
    exact existsUnique_comparison_iff serde ha hb
  · intro operation z zs hz hrange hkept hlow hhigh
    simp only [evaluatesTo_integerExpression_iff, applyOperation_integers serde hz hrange hkept]
    exact numberValue_round_iff hlow hhigh

/-- Two timestamps in nanoseconds and their difference. -/
theorem timestamps_are_compared_and_subtracted :
    (∃! operation, operation ∈ comparisons ∧ EvaluatesTo emptySerde [] []
      (integerExpression operation [1700000000000000000, 1600000000000000000])
        (.ok (.bool true))) ∧
    (EvaluatesTo emptySerde [] []
      (integerExpression "subtract" [1700000000000000000, 1600000000000000000])
        (.ok (integerValue 100000000000000000)) ∨
      ∃ error, EvaluatesTo emptySerde [] []
        (integerExpression "subtract" [1700000000000000000, 1600000000000000000])
          (.error error)) := by
  have hexact := integer_expressions_exact_iff emptySerde [] []
  refine ⟨(hexact.1 1700000000000000000 1600000000000000000 ⟨by decide, by decide⟩
    ⟨by decide, by decide⟩).mpr (.inr (by decide +kernel)), ?_⟩
  refine (hexact.2 .subtract 1700000000000000000 [1600000000000000000] ⟨by decide, by decide⟩
    (List.forall_mem_singleton.mpr ⟨by decide, by decide⟩) ⟨by decide +kernel, ?_, ?_⟩
    (by decide) (by decide)).mpr (.inl ⟨390625000000000, 8, by decide, by decide⟩)
  · exact List.forall_mem_singleton.mpr (by decide +kernel)
  · intro i hi
    obtain rfl : i = 0 := by simpa using hi
    decide +kernel

/-- Beyond `2 ^ 53` no comparison holds of neighbours, and a sum with one loses it. -/
theorem large_integers_are_rounded :
    (¬ ∃! operation, operation ∈ comparisons ∧ EvaluatesTo emptySerde [] []
      (integerExpression operation [2 ^ 53, 2 ^ 53 + 1]) (.ok (.bool true))) ∧
    ¬ (EvaluatesTo emptySerde [] [] (integerExpression "add" [2 ^ 53, 1])
        (.ok (integerValue (2 ^ 53 + 1))) ∨
      ∃ error, EvaluatesTo emptySerde [] [] (integerExpression "add" [2 ^ 53, 1])
        (.error error)) := by
  constructor
  · simp only [evaluatesTo_integerExpression_iff]
    rw [List.map_cons, List.map_cons, List.map_nil,
      existsUnique_comparison_iff emptySerde ⟨by decide, by decide⟩ ⟨by decide, by decide⟩]
    decide +kernel
  · simp only [evaluatesTo_integerExpression_iff]
    have hsum : applyOperation emptySerde "add" ([2 ^ 53, 1].map integerValue) =
        .ok (integerValue (2 ^ 53)) := by
      change numericFold _ _ _ _ = _
      decide +kernel
    rw [hsum]
    rintro (h | ⟨error, h⟩)
    · simp [integerValue] at h
    · cases h

end KakuneCore
