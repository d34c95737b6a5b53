import KakuneCore.Relational.Runs

/-!
# Provider token budgets

`reserve_provider_tokens`: before a provider request is sent, its output tokens are reserved in
`provider_token_reservations`. Amounts and budgets are `u64`, the column is an `i64` that must be
positive, the sum is taken by SQLite and compared after a saturating addition.

The main result, `token_budget_is_kept_iff`, compares every decision of a run with the **unbounded**
sum: the two agree on every call exactly when the amounts are positive and, for a budget at which
the conversions clamp, the amount and the sum fit into an `i64` just when the reservation fits.
Rows of other executions and providers may come in between. The clock and the row ids are left out.
-/

namespace KakuneCore

namespace TokenBudget

/-! ### Counts in an `i64` -/

/-- The largest `i64`. -/
def maxI64 : Nat := 2 ^ 63 - 1

/-- A count that an `i64` holds. -/
abbrev I64Count : Type := { n : Nat // n ≤ maxI64 }

/-- `i64::try_from(tokens)`. -/
def tokenCount (tokens : UInt64) : Except String I64Count :=
  if h : tokens.toNat ≤ maxI64 then .ok ⟨tokens.toNat, h⟩
  else .error "AI token reservation exceeds SQLite integer range"

/-- `i64::try_from(limit).unwrap_or(i64::MAX)`. -/
def limitCount (limit : UInt64) : I64Count := ⟨min limit.toNat maxI64, Nat.min_le_right _ _⟩

/-- `i64::saturating_add`. -/
def saturatingAdd (a b : I64Count) : I64Count := ⟨min (a.1 + b.1) maxI64, Nat.min_le_right _ _⟩

/-! ### The table -/

/-- A row of `provider_token_reservations`. -/
structure ReservationRow where
  executionId : String
  provider : String
  reservedTokens : I64Count
  /-- `CHECK(reserved_tokens > 0)`. -/
  positive : 0 < reservedTokens.1
  deriving DecidableEq

structure ReservationTables where
  executions : List String
  reservations : List ReservationRow := []
  deriving DecidableEq

namespace ReservationTables

/-- The amounts reserved by an execution from a provider. -/
def reserved (tables : ReservationTables) (executionId provider : String) : List Nat :=
  (tables.reservations.filter fun row =>
    row.executionId = executionId && row.provider = provider).map fun row => row.reservedTokens.1

/-- The reserved amounts as an unbounded integer. -/
def total (tables : ReservationTables) (executionId provider : String) : Nat :=
  (tables.reserved executionId provider).sum

/-- `SUM` over an integer column: it fails where an intermediate sum is no `i64`. -/
def sumIntegers : I64Count → List Nat → Except String I64Count
  | sum, [] => .ok sum
  | sum, n :: ns =>
    if h : sum.1 + n ≤ maxI64 then sumIntegers ⟨sum.1 + n, h⟩ ns
    else .error "Kakune database error: integer overflow"

/-- `SELECT COALESCE(SUM(reserved_tokens), 0) …`. -/
def usedTokens (tables : ReservationTables) (executionId provider : String) :
    Except String I64Count :=
  sumIntegers ⟨0, Nat.zero_le _⟩ (tables.reserved executionId provider)

/-- `INSERT INTO provider_token_reservations …`. -/
def insertReservation (tables : ReservationTables) (executionId provider : String)
    (tokens : I64Count) : Except String ReservationTables :=
  if h : 0 < tokens.1 then
    if executionId ∈ tables.executions then
      .ok { tables with
        reservations := tables.reservations ++ [⟨executionId, provider, tokens, h⟩] }
    else .error "Kakune database error: FOREIGN KEY constraint failed"
  else .error "Kakune database error: CHECK constraint failed: reserved_tokens > 0"

/-- `budget.is_some_and(|limit| used.saturating_add(tokens) > …)`. -/
def exceeds (used tokens : I64Count) (budget : Option UInt64) : Bool :=
  budget.any fun limit => (limitCount limit).1 < (saturatingAdd used tokens).1

/-- `reserve_provider_tokens`. -/
def reserveProviderTokens (tables : ReservationTables) (executionId provider : String)
    (tokens : UInt64) (budget : Option UInt64) : Except String ReservationTables := do
  let tokens ← tokenCount tokens
  let used ← tables.usedTokens executionId provider
  if exceeds used tokens budget then
    .error s!"AI token budget for provider {provider} would be exceeded before the provider request"
  else tables.insertReservation executionId provider tokens

end ReservationTables

/-- A call of `reserve_provider_tokens`. -/
structure ReservationCall where
  executionId : String
  provider : String
  tokens : UInt64
  budget : Option UInt64

namespace ReservationCall

def answer (call : ReservationCall) (tables : ReservationTables) :
    Except String ReservationTables :=
  tables.reserveProviderTokens call.executionId call.provider call.tokens call.budget

/-- The call reserves for this execution from this provider. -/
def Concerns (call : ReservationCall) (executionId provider : String) : Prop :=
  call.executionId = executionId ∧ call.provider = provider

instance (call : ReservationCall) (executionId provider : String) :
    Decidable (call.Concerns executionId provider) :=
  inferInstanceAs (Decidable (_ ∧ _))

end ReservationCall

/-- The tables after a call: one transaction, rolled back when it fails. -/
def step (tables : ReservationTables) (call : ReservationCall) : ReservationTables :=
  match call.answer tables with
  | .ok tables => tables
  | .error _ => tables

/-! ### What a call does -/

section Calls

variable {tables tables' : ReservationTables} {executionId provider : String} {tokens : UInt64}
  {budget : Option UInt64}

theorem sumIntegers_eq_ok_iff {start : I64Count} {amounts : List Nat} {sum : I64Count} :
    ReservationTables.sumIntegers start amounts = .ok sum ↔ start.1 + amounts.sum = sum.1 := by
  induction amounts generalizing start with
  | nil => simp [ReservationTables.sumIntegers, Subtype.ext_iff]
  | cons n ns ih =>
    rw [ReservationTables.sumIntegers, List.sum_cons]
    split
    · rw [ih, Nat.add_assoc]
    · next h =>
      refine ⟨nofun, fun heq => ?_⟩
      have := sum.2
      omega

/-- **The sum is answered** exactly when it is an `i64`. -/
theorem usedTokens_eq_ok_iff {sum : I64Count} :
    tables.usedTokens executionId provider = .ok sum ↔
      tables.total executionId provider = sum.1 := by
  rw [ReservationTables.usedTokens, sumIntegers_eq_ok_iff, Nat.zero_add]
  rfl

theorem tokenCount_eq_ok_iff {count : I64Count} :
    tokenCount tokens = .ok count ↔ tokens.toNat = count.1 := by
  rw [tokenCount]
  split
  · simp [Subtype.ext_iff]
  · next h =>
    refine ⟨nofun, fun heq => ?_⟩
    exact absurd (heq ▸ count.2) h

theorem exceeds_eq_false_iff {used count : I64Count} :
    ReservationTables.exceeds used count budget = false ↔
      ∀ limit ∈ budget, min (used.1 + count.1) maxI64 ≤ min limit.toNat maxI64 := by
  cases budget with
  | none => simp [ReservationTables.exceeds]
  | some limit =>
    simp only [ReservationTables.exceeds, Option.any_some, decide_eq_false_iff_not, Nat.not_lt,
      Option.mem_some_iff, forall_eq']
    rfl

/-- **What an accepted reservation met, and what it recorded.** -/
theorem reserveProviderTokens_eq_ok_iff :
    tables.reserveProviderTokens executionId provider tokens budget = .ok tables' ↔
      executionId ∈ tables.executions ∧ tables.total executionId provider ≤ maxI64 ∧
        (∀ limit ∈ budget, min (tables.total executionId provider + tokens.toNat) maxI64 ≤
          min limit.toNat maxI64) ∧
        ∃ row : ReservationRow, row.executionId = executionId ∧ row.provider = provider ∧
          row.reservedTokens.1 = tokens.toNat ∧
          tables' = { tables with reservations := tables.reservations ++ [row] } := by
  rw [ReservationTables.reserveProviderTokens]
  constructor
  · intro h
    obtain ⟨count, hcount, h⟩ := except_bind_eq_ok h
    obtain ⟨used, hused, h⟩ := except_bind_eq_ok h
    rw [tokenCount_eq_ok_iff] at hcount
    rw [usedTokens_eq_ok_iff] at hused
    split at h
    · cases h
    next hexceeds =>
      rw [Bool.not_eq_true, exceeds_eq_false_iff, ← hused, ← hcount] at hexceeds
      rw [ReservationTables.insertReservation] at h
      split at h
      · next hpos =>
        split at h
        · next hmem =>
          obtain rfl := Except.ok.inj h
          exact ⟨hmem, hused ▸ used.2, hexceeds, _, rfl, rfl, hcount.symm, rfl⟩
        · cases h
      · cases h
  · rintro ⟨hmem, htotal, hbudget, ⟨e, p, count, hpos⟩, rfl, rfl, hcount, rfl⟩
    have hused : tables.usedTokens e p = .ok ⟨tables.total e p, htotal⟩ :=
      usedTokens_eq_ok_iff.mpr rfl
    have hexceeds : ReservationTables.exceeds ⟨tables.total e p, htotal⟩ count budget = false := by
      rw [exceeds_eq_false_iff]
      intro limit hlimit
      have hcap := hbudget limit hlimit
      rwa [← hcount] at hcap
    rw [tokenCount_eq_ok_iff.mpr hcount.symm, hused]
    change (if ReservationTables.exceeds _ count budget = true then _ else _) = _
    rw [hexceeds, if_neg Bool.false_ne_true, ReservationTables.insertReservation, dif_pos hpos,
      if_pos hmem]

theorem total_concat (row : ReservationRow) :
    ({ tables with reservations := tables.reservations ++ [row] } : ReservationTables).total
        executionId provider =
      tables.total executionId provider +
        if row.executionId = executionId ∧ row.provider = provider then row.reservedTokens.1
        else 0 := by
  by_cases hrow : row.executionId = executionId ∧ row.provider = provider
  · simp [ReservationTables.total, ReservationTables.reserved, hrow]
  · simp [ReservationTables.total, ReservationTables.reserved, hrow]

end Calls

/-! ### Decisions and the budget -/

section Budget

variable (executionId provider : String) (limit : UInt64)

/-- The reservation fits into the budget, as unbounded integers. -/
def Fits (tables : ReservationTables) (call : ReservationCall) : Prop :=
  tables.total executionId provider + call.tokens.toNat ≤ limit.toNat

/-- The call is decided as the budget asks: what fits is recorded, and what does not is refused and
leaves the tables as they were. -/
def DecidedByBudget (tables : ReservationTables) (call : ReservationCall) : Prop :=
  call.Concerns executionId provider →
    (Fits executionId provider limit tables call →
      ∃ row : ReservationRow, row.executionId = executionId ∧ row.provider = provider ∧
        row.reservedTokens.1 = call.tokens.toNat ∧
        call.answer tables = .ok { tables with reservations := tables.reservations ++ [row] }) ∧
    (¬ Fits executionId provider limit tables call →
      (∃ text, call.answer tables = .error text) ∧ step tables call = tables)

/-- The conversions do not change the decision: the amount is positive, and at a budget from
`i64::MAX` on the amount and the sum are `i64`s just when the reservation fits. -/
def WithinI64 (tables : ReservationTables) (call : ReservationCall) : Prop :=
  call.Concerns executionId provider →
    0 < call.tokens.toNat ∧ (maxI64 ≤ limit.toNat →
      (call.tokens.toNat ≤ maxI64 ∧ tables.total executionId provider ≤ maxI64 ↔
        Fits executionId provider limit tables call))

instance (tables : ReservationTables) (call : ReservationCall) :
    Decidable (Fits executionId provider limit tables call) :=
  inferInstanceAs (Decidable (_ ≤ _))

instance (tables : ReservationTables) (call : ReservationCall) :
    Decidable (WithinI64 executionId provider limit tables call) :=
  inferInstanceAs (Decidable (_ → _))

/-- The execution is there and its reservations keep within the budget. -/
structure Kept (tables : ReservationTables) : Prop where
  exists_execution : executionId ∈ tables.executions
  total_le : tables.total executionId provider ≤ limit.toNat

variable {executionId provider limit} {tables : ReservationTables} {call : ReservationCall}

/-- Whether the code accepts a call, in terms of unbounded integers. -/
theorem exists_answer_iff (h : Kept executionId provider limit tables)
    (hcall : call.Concerns executionId provider) (hbudget : call.budget = some limit) :
    (∃ row : ReservationRow, row.executionId = executionId ∧ row.provider = provider ∧
        row.reservedTokens.1 = call.tokens.toNat ∧
        call.answer tables = .ok { tables with reservations := tables.reservations ++ [row] }) ↔
      0 < call.tokens.toNat ∧ call.tokens.toNat ≤ maxI64 ∧
        tables.total executionId provider ≤ maxI64 ∧
        (limit.toNat < maxI64 → Fits executionId provider limit tables call) := by
  obtain ⟨rfl, rfl⟩ := hcall
  have hcap : limit.toNat < maxI64 →
      (min (tables.total call.executionId call.provider + call.tokens.toNat) maxI64 ≤
        min limit.toNat maxI64 ↔ Fits call.executionId call.provider limit tables call) := by
    intro hlt
    rw [Fits]
    omega
  constructor
  · rintro ⟨row, -, -, htokens, hanswer⟩
    rw [ReservationCall.answer, reserveProviderTokens_eq_ok_iff, hbudget] at hanswer
    obtain ⟨-, htotal, hlimit, -⟩ := hanswer
    have hlimit := hlimit limit rfl
    exact ⟨htokens ▸ row.positive, htokens ▸ row.reservedTokens.2, htotal,
      fun hlt => (hcap hlt).mp hlimit⟩
  · rintro ⟨hpos, htokens, htotal, hfits⟩
    refine ⟨⟨call.executionId, call.provider, ⟨call.tokens.toNat, htokens⟩, hpos⟩, rfl, rfl, rfl,
      ?_⟩
    rw [ReservationCall.answer, reserveProviderTokens_eq_ok_iff, hbudget]
    refine ⟨h.exists_execution, htotal, fun limit' hlimit => ?_, _, rfl, rfl, rfl, rfl⟩
    obtain rfl := Option.some.inj hlimit
    by_cases hlt : limit.toNat < maxI64
    · exact (hcap hlt).mpr (hfits hlt)
    · omega

/-- A call that is not answered with new tables is refused. -/
theorem answer_cases (tables : ReservationTables) (call : ReservationCall) :
    (∃ row : ReservationRow, row.executionId = call.executionId ∧ row.provider = call.provider ∧
        row.reservedTokens.1 = call.tokens.toNat ∧
        call.answer tables = .ok { tables with reservations := tables.reservations ++ [row] }) ∨
      ∃ text, call.answer tables = .error text := by
  cases hanswer : call.answer tables with
  | error text => exact .inr ⟨text, rfl⟩
  | ok tables' =>
    obtain ⟨-, -, -, row, he, hp, ht, rfl⟩ := reserveProviderTokens_eq_ok_iff.mp hanswer
    exact .inl ⟨row, he, hp, ht, rfl⟩

/-- **One call**: its decision is the one of the budget exactly within the range of the
conversions. -/
theorem decidedByBudget_iff (h : Kept executionId provider limit tables)
    (hbudget : call.Concerns executionId provider → call.budget = some limit) :
    DecidedByBudget executionId provider limit tables call ↔
      WithinI64 executionId provider limit tables call := by
  refine forall_congr' fun hcall => ?_
  have haccept := exists_answer_iff h hcall (hbudget hcall)
  have hrefuse : ((∃ text, call.answer tables = .error text) ∧ step tables call = tables) ↔
      ¬ ∃ row : ReservationRow, row.executionId = executionId ∧ row.provider = provider ∧
        row.reservedTokens.1 = call.tokens.toNat ∧
        call.answer tables = .ok { tables with reservations := tables.reservations ++ [row] } := by
    constructor
    · rintro ⟨⟨text, htext⟩, -⟩ ⟨row, -, -, -, hok⟩
      rw [htext] at hok
      cases hok
    · intro hnot
      obtain ⟨rfl, rfl⟩ := hcall
      obtain hrow | ⟨text, htext⟩ := answer_cases tables call
      · exact absurd hrow hnot
      · exact ⟨⟨text, htext⟩, by rw [step, htext]⟩
  rw [hrefuse, haccept]
  have htotal := h.total_le
  simp only [Fits] at *
  -- both sides are now statements about unbounded integers
  constructor
  · rintro ⟨hfit, hover⟩
    refine ⟨?_, fun hlimit => ⟨fun hrange => ?_, fun hfits => ?_⟩⟩
    · by_contra hzero
      exact hzero (hfit (by omega)).1
    · by_contra hnot
      refine hover hnot ⟨?_, hrange.1, hrange.2, fun hlt => absurd hlt (by omega)⟩
      omega
    · exact ⟨(hfit hfits).2.1, (hfit hfits).2.2.1⟩
  · rintro ⟨hpos, hrange⟩
    refine ⟨fun hfits => ⟨hpos, ?_, ?_, fun _ => hfits⟩, ?_⟩
    · by_cases hlt : limit.toNat < maxI64
      · omega
      · exact ((hrange (by omega)).mpr hfits).1
    · by_cases hlt : limit.toNat < maxI64
      · omega
      · exact ((hrange (by omega)).mpr hfits).2
    · rintro hnot ⟨-, htokens, htotal', hcap⟩
      by_cases hlt : limit.toNat < maxI64
      · exact hnot (hcap hlt)
      · exact hnot ((hrange (by omega)).mp ⟨htokens, htotal'⟩)

/-- A call that is decided as the budget asks keeps the budget; a call for others does not touch
it. -/
theorem Kept.step (h : Kept executionId provider limit tables)
    (hdecided : DecidedByBudget executionId provider limit tables call) :
    Kept executionId provider limit (step tables call) := by
  obtain ⟨row, he, hp, ht, hok⟩ | ⟨text, htext⟩ := answer_cases tables call
  · have hstep : TokenBudget.step tables call =
        { tables with reservations := tables.reservations ++ [row] } := by
      rw [TokenBudget.step, hok]
    by_cases hfits :
        call.Concerns executionId provider → Fits executionId provider limit tables call
    · rw [hstep]
      refine ⟨h.exists_execution, ?_⟩
      rw [total_concat]
      split
      · next hrow =>
        have hroom : tables.total executionId provider + call.tokens.toNat ≤ limit.toNat :=
          hfits ⟨he ▸ hrow.1, hp ▸ hrow.2⟩
        omega
      · exact h.total_le
    · obtain ⟨hcall, hnot⟩ := Classical.not_imp.mp hfits
      rw [((hdecided hcall).2 hnot).2]
      exact h
  · have hstep : TokenBudget.step tables call = tables := by rw [TokenBudget.step, htext]
    rwa [hstep]

/-- **The token budget is kept**, in every run with a constant budget: every reservation is decided
as the unbounded sum asks, and the recorded sum never exceeds the budget, exactly when the
conversions to `i64` change no decision. -/
theorem token_budget_is_kept_iff (h : Kept executionId provider limit tables)
    {calls : List ReservationCall}
    (hbudget : ∀ call ∈ calls, call.Concerns executionId provider → call.budget = some limit) :
    (Runs.Meets TokenBudget.step (DecidedByBudget executionId provider limit) tables calls ∧
        ∀ n, (Runs.run TokenBudget.step tables (calls.take n)).total executionId provider ≤
          limit.toNat) ↔
      Runs.Meets TokenBudget.step (WithinI64 executionId provider limit) tables calls := by
  have hiff :
      Runs.Meets TokenBudget.step (DecidedByBudget executionId provider limit) tables calls ↔
      Runs.Meets TokenBudget.step (WithinI64 executionId provider limit) tables calls :=
        Runs.meets_congr h
    (fun tables call hmem hkept => decidedByBudget_iff hkept (hbudget call hmem))
    fun tables call _ hkept hdecided => hkept.step hdecided
  rw [hiff, and_iff_left_iff_imp]
  intro hmeets n
  have hdecided := (hiff.mpr hmeets).take n
  exact (hdecided.invariant h fun _ _ hkept hcall => hkept.step hcall).total_le

end Budget

/-! ### Two budgets -/

/-- An execution that has reserved nothing. -/
def freshTables : ReservationTables := { executions := ["run"] }

theorem kept_freshTables (limit : UInt64) : Kept "run" "codex" limit freshTables where
  exists_execution := List.mem_singleton_self _
  total_le := Nat.zero_le _

/-- Of 60, 50, 2⁶⁴ - 1 and 40 tokens, the first and the last fit into 100. -/
def smallCalls : List ReservationCall :=
  [60, 50, 18446744073709551615, 40].map fun tokens => ⟨"run", "codex", tokens, some 100⟩

theorem smallCalls_keep_the_budget :
    Runs.Meets step (DecidedByBudget "run" "codex" 100) freshTables smallCalls ∧
      ∀ n, (Runs.run step freshTables (smallCalls.take n)).total "run" "codex" ≤
        (100 : UInt64).toNat :=
  (token_budget_is_kept_iff (kept_freshTables 100) (by decide)).mpr (by decide)

/-- A budget of `i64::MAX`, used up by the first reservation. -/
def clampedCalls : List ReservationCall :=
  [9223372036854775807, 1].map fun tokens => ⟨"run", "codex", tokens, some 9223372036854775807⟩

/-- **The second reservation is accepted** although nothing is left: the saturated sum equals the
clamped budget. -/
theorem clampedCalls_exceed_the_budget :
    (∀ call ∈ clampedCalls, call.Concerns "run" "codex" →
      call.budget = some 9223372036854775807) ∧
    (Runs.run step freshTables clampedCalls).total "run" "codex" = 2 ^ 63 ∧
    ¬ (Runs.Meets step (DecidedByBudget "run" "codex" 9223372036854775807) freshTables
          clampedCalls ∧
        ∀ n, (Runs.run step freshTables (clampedCalls.take n)).total "run" "codex" ≤
          (9223372036854775807 : UInt64).toNat) := by
  refine ⟨by decide, by decide, fun h => ?_⟩
  have hsecond := h.2 2
  revert hsecond
  decide

end TokenBudget

end KakuneCore
