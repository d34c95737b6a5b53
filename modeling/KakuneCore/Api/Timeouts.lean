import KakuneCore.Api.Preparation

/-!
# Timeouts from analysis to admission

The little language of durations is read twice: `valid_duration` decides it in the analysis, and
`parse_duration` evaluates it at admission. Both are compared with one description of the language,
`DurationText`, in which a duration is an **unbounded** number of milliseconds.

They accept the same texts up to the limits that admission adds on purpose: the product of amount
and unit must be a `u64`, and a run may take one hour at most.
-/

namespace KakuneCore

/-! ### The language of durations -/

/-- A duration of so many milliseconds: after trimming, a positive `u64` in decimal digits and a
unit. -/
def DurationText (text : String) (millis : Nat) : Prop :=
  ∃ digits unit multiplier, (trimText text).toList = digits ++ unit ∧
    digits.all isAsciiDigit = true ∧ 0 < digitsValue digits ∧ digitsValue digits < 2 ^ 64 ∧
    durationUnit (.ofList unit) = some multiplier ∧ millis = digitsValue digits * multiplier

section Durations

variable {text : String} {millis multiplier : Nat} {digits unit value : List Char}

theorem durationUnit_eq_some_iff :
    durationUnit (.ofList unit) = some multiplier ↔
      (unit = ['m', 's'] ∧ multiplier = 1) ∨ (unit = ['s'] ∧ multiplier = 1000) ∨
        (unit = ['m'] ∧ multiplier = 60000) ∨ (unit = ['h'] ∧ multiplier = 3600000) := by
  constructor
  · intro h
    unfold durationUnit at h
    have htext : unit = (String.ofList unit).toList := String.toList_ofList.symm
    split at h
    · next heq => exact .inl ⟨by rw [htext, heq]; rfl, (Option.some.inj h).symm⟩
    · next heq => exact .inr (.inl ⟨by rw [htext, heq]; rfl, (Option.some.inj h).symm⟩)
    · next heq => exact .inr (.inr (.inl ⟨by rw [htext, heq]; rfl, (Option.some.inj h).symm⟩))
    · next heq => exact .inr (.inr (.inr ⟨by rw [htext, heq]; rfl, (Option.some.inj h).symm⟩))
    · cases h
  · rintro (⟨rfl, rfl⟩ | ⟨rfl, rfl⟩ | ⟨rfl, rfl⟩ | ⟨rfl, rfl⟩)
    · rfl
    · rfl
    · rfl
    · rfl

/-- A unit begins with a letter, and counts at least one millisecond. -/
theorem unit_facts (h : durationUnit (.ofList unit) = some multiplier) :
    0 < multiplier ∧ ∃ c rest, unit = c :: rest ∧ isAsciiDigit c = false := by
  obtain ⟨rfl, rfl⟩ | ⟨rfl, rfl⟩ | ⟨rfl, rfl⟩ | ⟨rfl, rfl⟩ := durationUnit_eq_some_iff.mp h
  · exact ⟨by decide, 'm', ['s'], rfl, by decide⟩
  · exact ⟨by decide, 's', [], rfl, by decide⟩
  · exact ⟨by decide, 'm', [], rfl, by decide⟩
  · exact ⟨by decide, 'h', [], rfl, by decide⟩

/-- Where the digits end. -/
theorem span_digits {c : Char} (rest : List Char) (hdigits : digits.all isAsciiDigit = true)
    (hc : isAsciiDigit c = false) :
    (digits ++ c :: rest).takeWhile isAsciiDigit = digits ∧
      (digits ++ c :: rest).dropWhile isAsciiDigit = c :: rest := by
  have hall : ∀ d ∈ digits, isAsciiDigit d = true := List.all_eq_true.mp hdigits
  constructor
  · rw [List.takeWhile_append_of_pos hall, List.takeWhile_cons_of_neg (by simp [hc]),
      List.append_nil]
  · rw [List.dropWhile_append_of_pos hall, List.dropWhile_cons_of_neg (by simp [hc])]

/-- A duration, by the place where its digits end. -/
theorem durationText_iff :
    DurationText text millis ↔
      ∃ multiplier,
        durationUnit (.ofList ((trimText text).toList.dropWhile isAsciiDigit)) = some multiplier ∧
        0 < digitsValue ((trimText text).toList.takeWhile isAsciiDigit) ∧
        digitsValue ((trimText text).toList.takeWhile isAsciiDigit) < 2 ^ 64 ∧
        millis = digitsValue ((trimText text).toList.takeWhile isAsciiDigit) * multiplier := by
  constructor
  · rintro ⟨digits, unit, multiplier, htext, hdigits, hpos, hbound, hunit, hmillis⟩
    obtain ⟨-, c, rest, rfl, hc⟩ := unit_facts hunit
    obtain ⟨htake, hdrop⟩ := span_digits rest hdigits hc
    rw [htext, htake, hdrop]
    exact ⟨multiplier, hunit, hpos, hbound, hmillis⟩
  · rintro ⟨multiplier, hunit, hpos, hbound, hmillis⟩
    refine ⟨_, _, multiplier, List.takeWhile_append_dropWhile.symm, ?_, hpos, hbound, hunit,
      hmillis⟩
    exact List.all_eq_true.mpr fun c hc => List.mem_takeWhile_imp hc

theorem DurationText.pos (h : DurationText text millis) : 0 < millis := by
  obtain ⟨digits, unit, multiplier, -, -, hpos, -, hunit, rfl⟩ := h
  exact Nat.mul_pos hpos (unit_facts hunit).1

theorem DurationText.unique {millis' : Nat} (h : DurationText text millis)
    (h' : DurationText text millis') : millis = millis' := by
  obtain ⟨multiplier, hunit, -, -, rfl⟩ := durationText_iff.mp h
  obtain ⟨multiplier', hunit', -, -, rfl⟩ := durationText_iff.mp h'
  rw [hunit] at hunit'
  rw [Option.some.inj hunit']

/-! ### The two readers -/

/-- **The analysis accepts the language.** -/
theorem validDuration_iff : validDuration text = true ↔ ∃ millis, DurationText text millis := by
  have hchars : ((text.toList.dropWhile isWhitespace).reverse.dropWhile isWhitespace).reverse =
      (trimText text).toList := String.toList_ofList.symm
  have hunit : ∀ unit : List Char,
      (unit = ['m', 's'] ∨ unit = ['s'] ∨ unit = ['m'] ∨ unit = ['h']) ↔
        ∃ multiplier, durationUnit (.ofList unit) = some multiplier := by
    intro unit
    simp only [durationUnit_eq_some_iff, exists_or, exists_and_left, exists_eq, and_true]
  -- an amount in digits has no plus sign, and a positive one is not empty
  have hamount : ∀ digits : List Char, (∀ c ∈ digits, isAsciiDigit c = true) →
      ((parseUnsigned (2 ^ 64) digits).any (0 < ·) = true ↔
        0 < digitsValue digits ∧ digitsValue digits < 2 ^ 64) := by
    intro digits hdigits
    have hsign : ¬ digits.head? = some '+' := by
      intro hplus
      exact absurd (hdigits '+' (List.mem_of_head? hplus)) (by decide)
    have hall : digits.all isAsciiDigit = true := List.all_eq_true.mpr hdigits
    rw [parseUnsigned]
    simp only [hsign, if_false, hall, true_and]
    by_cases hnil : digits = []
    · simp [hnil, digitsValue]
    · by_cases hbound : digitsValue digits < 2 ^ 64
      · simp only [ne_eq, hnil, not_false_eq_true, hbound, and_self, if_true, Option.any_some,
          decide_eq_true_eq, and_true]
      · simp only [hbound, and_false, if_false, Option.any_none, Bool.false_eq_true]
  rw [validDuration, hchars]
  simp only [Bool.and_eq_true, Bool.or_eq_true, decide_eq_true_eq, or_assoc, hunit,
    hamount _ fun c hc => List.mem_takeWhile_imp hc]
  simp only [durationText_iff]
  constructor
  · rintro ⟨⟨multiplier, hm⟩, hpos, hbound⟩
    exact ⟨_, multiplier, hm, hpos, hbound, rfl⟩
  · rintro ⟨millis, multiplier, hm, hpos, hbound, -⟩
    exact ⟨⟨multiplier, hm⟩, hpos, hbound⟩

/-- **Admission evaluates it**, where the product is a `u64`. -/
theorem DurationText.parseDuration (h : DurationText text millis) :
    parseDuration text =
      if millis < 2 ^ 64 then .ok millis else .error "workflow policy.timeout is too large" := by
  obtain ⟨multiplier, hunit, hpos, hbound, rfl⟩ := durationText_iff.mp h
  have hdigits : (trimText text).toList.all isAsciiDigit = false := by
    rw [Bool.eq_false_iff]
    intro hall
    -- nothing is left for the unit
    have hnil : (trimText text).toList.dropWhile isAsciiDigit = [] :=
      List.dropWhile_eq_nil_iff.mpr (List.all_eq_true.mp hall)
    rw [hnil] at hunit
    obtain ⟨-, c, rest, hcons, -⟩ := unit_facts hunit
    cases hcons
  rw [KakuneCore.parseDuration]
  split
  · next hall => exact absurd (hall.symm.trans hdigits) (by decide)
  split
  · next hamount =>
    rw [Bool.or_eq_true, decide_eq_true_eq, decide_eq_true_eq] at hamount
    rcases hamount with hzero | hlarge
    · exact absurd hzero (Nat.pos_iff_ne_zero.mp hpos)
    · exact absurd hlarge (Nat.not_le_of_lt hbound)
  split
  · next hnone => cases hunit.symm.trans hnone
  next multiplier' hunit' =>
    obtain rfl := Option.some.inj (hunit.symm.trans hunit')
    rfl

/-- A text that is evaluated is a duration. -/
theorem durationText_of_parseDuration (h : parseDuration text = .ok millis) :
    DurationText text millis ∧ millis < 2 ^ 64 := by
  rw [parseDuration] at h
  split at h
  · cases h
  split at h
  · cases h
  next hamount =>
    split at h
    · cases h
    next multiplier hunit =>
      split at h
      · next hbound =>
        obtain rfl := Except.ok.inj h
        rw [Bool.or_eq_true, decide_eq_true_eq, decide_eq_true_eq] at hamount
        refine ⟨durationText_iff.mpr ⟨multiplier, hunit, ?_, ?_, rfl⟩, hbound⟩
        · exact Nat.pos_of_ne_zero fun hzero => hamount (.inl hzero)
        · exact Nat.lt_of_not_le fun hle => hamount (.inr hle)
      · cases h

end Durations

/-! ### Admission -/

section Admission

variable {policy policy' : WorkflowPolicy} {millis : Nat}

/-- The text that admission evaluates. -/
def WorkflowPolicy.timeoutText (policy : WorkflowPolicy) : String := policy.timeout.getD "300s"

/-- **What admission makes of a duration**: one hour is the limit. -/
theorem ensureFiniteExecutionTimeout_of_durationText
    (h : DurationText policy.timeoutText millis) :
    ensureFiniteExecutionTimeout policy =
      if 2 ^ 64 ≤ millis then .error "workflow policy.timeout is too large"
      else if 3600000 < millis then .error "workflow timeout must not exceed 3,600 seconds"
      else .ok { policy with timeout := some policy.timeoutText } := by
  rw [ensureFiniteExecutionTimeout]
  have hparsed := h.parseDuration
  rw [WorkflowPolicy.timeoutText] at hparsed
  by_cases hlarge : 2 ^ 64 ≤ millis
  · rw [if_pos hlarge]
    rw [if_neg (Nat.not_lt.mpr hlarge)] at hparsed
    rw [hparsed]
    rfl
  · rw [if_neg hlarge]
    rw [if_pos (Nat.lt_of_not_le hlarge)] at hparsed
    rw [hparsed]
    by_cases hlimit : 3600000 < millis
    · rw [if_pos hlimit]
      exact if_pos hlimit
    · rw [if_neg hlimit]
      exact if_neg hlimit

/-- A timeout that admission lets through. -/
theorem durationText_of_ensureFiniteExecutionTimeout
    (h : ensureFiniteExecutionTimeout policy = .ok policy') :
    ∃ millis, DurationText policy.timeoutText millis ∧ millis ≤ 3600000 ∧
      policy'.timeout = some policy.timeoutText := by
  rw [ensureFiniteExecutionTimeout] at h
  obtain ⟨millis, hparsed, h⟩ := except_bind_eq_ok h
  refine ⟨millis, (durationText_of_parseDuration hparsed).1, ?_⟩
  split at h
  · cases h
  · next hlimit =>
    obtain rfl := Except.ok.inj h
    exact ⟨Nat.le_of_not_lt hlimit, rfl⟩

/-- The default is a duration, and so is every timeout that passes the analysis. -/
theorem exists_durationText_of_compile {doc : WorkflowDocument} {plugins : PluginRegistry}
    {compiled : CompiledWorkflow} (h : compile doc plugins = .ok compiled) :
    ∃ millis, DurationText compiled.plan.policy.timeoutText millis := by
  obtain ⟨-, hsemantics, rfl⟩ := compile_eq_ok h
  rw [validateSemantics, List.append_eq_nil_iff] at hsemantics
  have htimeout : timeoutDiagnostics doc.policy = [] := by
    have hscope := hsemantics.2
    rw [WorkflowDocument.graph, validateScopeSemantics, List.append_eq_nil_iff, graphDiagnostics,
      List.append_eq_nil_iff, List.append_eq_nil_iff] at hscope
    exact hscope.1.1.1
  rw [timeoutDiagnostics] at htimeout
  split at htimeout
  · next hvalid =>
    rw [← validDuration_iff]
    show validDuration (doc.policy.timeout.getD "300s") = true
    cases htext : doc.policy.timeout with
    | none => decide
    | some text =>
      rw [htext] at hvalid
      exact hvalid
  · cases htimeout

/-- **Durations from analysis to admission.** Both readers know one language: the analysis accepts
it, and `parse_duration` evaluates a text of it, when the product is a `u64`, to a positive number
of milliseconds. A plan that passed the analysis is refused for its timeout only above one hour,
and what admission lets through is positive and at most one hour. -/
theorem analysed_timeouts_are_admitted_up_to_one_hour :
    (∀ text, validDuration text = true ↔ ∃ millis, DurationText text millis) ∧
    (∀ text millis, DurationText text millis → 0 < millis ∧ parseDuration text =
      if millis < 2 ^ 64 then .ok millis else .error "workflow policy.timeout is too large") ∧
    (∀ text millis, parseDuration text = .ok millis → validDuration text = true) ∧
    (∀ doc plugins compiled, compile doc plugins = .ok compiled →
      ∃ millis, DurationText compiled.plan.policy.timeoutText millis ∧
        ensureFiniteExecutionTimeout compiled.plan.policy =
          if 2 ^ 64 ≤ millis then .error "workflow policy.timeout is too large"
          else if 3600000 < millis then .error "workflow timeout must not exceed 3,600 seconds"
          else .ok { compiled.plan.policy with
            timeout := some compiled.plan.policy.timeoutText }) ∧
    ∀ policy policy', ensureFiniteExecutionTimeout policy = .ok policy' →
      ∃ text millis, policy'.timeout = some text ∧ parseDuration text = .ok millis ∧
        0 < millis ∧ millis ≤ 3600000 := by
  refine ⟨fun text => validDuration_iff, fun text millis h => ⟨h.pos, h.parseDuration⟩, ?_, ?_, ?_⟩
  · intro text millis h
    exact validDuration_iff.mpr ⟨millis, (durationText_of_parseDuration h).1⟩
  · intro doc plugins compiled h
    obtain ⟨millis, htext⟩ := exists_durationText_of_compile h
    exact ⟨millis, htext, ensureFiniteExecutionTimeout_of_durationText htext⟩
  · intro policy policy' h
    obtain ⟨millis, htext, hlimit, htimeout⟩ := durationText_of_ensureFiniteExecutionTimeout h
    refine ⟨policy.timeoutText, millis, htimeout, ?_, htext.pos, hlimit⟩
    rw [htext.parseDuration, if_pos (by omega)]

/-- A workflow of one plugin node with a timeout. -/
def timedDocument (timeout : String) : WorkflowDocument :=
  sampleDocument "b" [pluginNode] [] { timeout := some timeout }

/-- A timeout of ninety seconds is evaluated, admitted, and kept. -/
theorem ninety_seconds_are_admitted :
    validDuration "90s" = true ∧
    (∃ millis, DurationText (planOf (timedDocument "90s")).policy.timeoutText millis ∧
      ensureFiniteExecutionTimeout (planOf (timedDocument "90s")).policy =
        if 2 ^ 64 ≤ millis then .error "workflow policy.timeout is too large"
        else if 3600000 < millis then .error "workflow timeout must not exceed 3,600 seconds"
        else .ok { (planOf (timedDocument "90s")).policy with
          timeout := some (planOf (timedDocument "90s")).policy.timeoutText }) ∧
    ∃ text millis, (some "90s" : Option String) = some text ∧ parseDuration text = .ok millis ∧
      0 < millis ∧ millis ≤ 3600000 := by
  obtain ⟨-, -, hvalid, hadmit, hfinite⟩ := analysed_timeouts_are_admitted_up_to_one_hour
  have htext : DurationText "90s" 90000 :=
    ⟨['9', '0'], ['s'], 1000, rfl, rfl, by decide, by decide, rfl, rfl⟩
  have hparsed : parseDuration "90s" = .ok 90000 :=
    htext.parseDuration.trans (if_pos (by norm_num))
  have hcompile : compile (timedDocument "90s") samplePreparation.catalog.registry =
      .ok ⟨timedDocument "90s", planOf (timedDocument "90s")⟩ := rfl
  have hadmitted := hadmit (timedDocument "90s") samplePreparation.catalog.registry
    ⟨timedDocument "90s", planOf (timedDocument "90s")⟩ hcompile
  refine ⟨hvalid "90s" 90000 hparsed, hadmitted, ?_⟩
  refine hfinite { timeout := some "90s" } { timeout := some "90s" } ?_
  rw [@ensureFiniteExecutionTimeout_of_durationText { timeout := some "90s" } _ htext,
    if_neg (by norm_num), if_neg (by norm_num)]
  rfl

/-- **Two texts that pass the analysis and are refused at admission**: two hours, and an amount
whose product with its unit is no `u64`. -/
theorem two_hours_are_refused :
    validDuration "2h" = true ∧
    compile (timedDocument "2h") samplePreparation.catalog.registry =
      .ok ⟨timedDocument "2h", planOf (timedDocument "2h")⟩ ∧
    ensureFiniteExecutionTimeout (planOf (timedDocument "2h")).policy =
      .error "workflow timeout must not exceed 3,600 seconds" ∧
    validDuration "18446744073709551615h" = true ∧
    parseDuration "18446744073709551615h" = .error "workflow policy.timeout is too large" ∧
    ¬ ∀ text, validDuration text = true ↔
      ∃ millis, 0 < millis ∧ parseDuration text = .ok millis := by
  have hlarge : parseDuration "18446744073709551615h" =
      .error "workflow policy.timeout is too large" := by
    have hdigits : digitsValue "18446744073709551615".toList = 18446744073709551615 := by decide
    have htext : DurationText "18446744073709551615h" (18446744073709551615 * 3600000) := by
      refine ⟨"18446744073709551615".toList, ['h'], 3600000, rfl, rfl, ?_, ?_, rfl, ?_⟩
      · rw [hdigits]; norm_num
      · rw [hdigits]; norm_num
      · rw [hdigits]
    exact htext.parseDuration.trans (if_neg (by norm_num))
  refine ⟨by decide, rfl, ?_, by decide, hlarge, fun h => ?_⟩
  · have htext : DurationText "2h" 7200000 :=
      ⟨['2'], ['h'], 3600000, rfl, rfl, by decide, by decide, rfl, rfl⟩
    rw [@ensureFiniteExecutionTimeout_of_durationText (planOf (timedDocument "2h")).policy _ htext,
      if_neg (by norm_num),
      if_pos (by norm_num)]
  obtain ⟨millis, -, hok⟩ := (h "18446744073709551615h").mp (by decide)
  cases hlarge.symm.trans hok

end Admission

end KakuneCore
