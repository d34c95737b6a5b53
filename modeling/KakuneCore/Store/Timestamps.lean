import KakuneCore.Numeric.Decimal
import KakuneCore.Scheduling.Triggers

/-!
# Timestamps

`now`: the time columns of the store hold RFC 3339 texts, and SQL compares them as texts. The
fraction of a second is written without trailing zeros, and not at all when it is zero, so a text
with a shorter fraction ends in `Z` where a longer one still has digits: two moments of **one
second** are in the wrong order when the digits of the earlier one are a prefix of those of the
later one, and all others are in order.
-/

namespace KakuneCore

open Decimal

/-! ### The calendar -/

/-- `time::util::is_leap_year`. -/
def isLeapYear (year : Nat) : Bool := year % 4 = 0 && (year % 25 != 0 || year % 16 = 0)

/-- `Month::length`. -/
def monthLength (leap : Bool) : Nat → Nat
  | 1 | 3 | 5 | 7 | 8 | 10 | 12 => 31
  | 4 | 6 | 9 | 11 => 30
  | 2 => if leap then 29 else 28
  | _ => 0

/-- The days of a year before a month. -/
def daysBeforeMonth (leap : Bool) : Nat → Nat
  | 0 => 0
  | month + 1 => daysBeforeMonth leap month + monthLength leap month

/-- The days before a year, from the year zero on. -/
def daysBeforeYear : Nat → Nat
  | 0 => 0
  | year + 1 => daysBeforeYear year + daysBeforeMonth (isLeapYear year) 13

/-- An `OffsetDateTime` at the offset UTC, in the years that have an RFC 3339 text. -/
structure UtcDateTime where
  year : Nat
  month : Nat
  day : Nat
  hour : Nat
  minute : Nat
  second : Nat
  nanosecond : Nat
  year_lt : year < 10000
  month_pos : 1 ≤ month
  month_le : month ≤ 12
  day_pos : 1 ≤ day
  day_le : day ≤ monthLength (isLeapYear year) month
  hour_lt : hour < 24
  minute_lt : minute < 60
  second_lt : second < 60
  nanosecond_lt : nanosecond < 10 ^ 9

namespace UtcDateTime

/-- The days from the first day of the year zero on. -/
def days (t : UtcDateTime) : Nat :=
  daysBeforeYear t.year + daysBeforeMonth (isLeapYear t.year) t.month + (t.day - 1)

/-- The seconds from the year zero to the Unix epoch. -/
def epochSeconds : Nat := daysBeforeYear 1970 * 86400

/-- `OffsetDateTime::unix_timestamp`. -/
def unixTimestamp (t : UtcDateTime) : Int :=
  (((t.days * 24 + t.hour) * 60 + t.minute) * 60 + t.second : Nat) - (epochSeconds : Nat)

/-- The moment that is denoted. -/
def instant (t : UtcDateTime) : Instant := t.unixTimestamp * 10 ^ 9 + t.nanosecond

/-! ### The text -/

/-- The text of a moment up to its second. -/
def upToSecond (t : UtcDateTime) : List Char :=
  digits 4 t.year ++ '-' :: (digits 2 t.month ++ '-' :: (digits 2 t.day ++ 'T' ::
    (digits 2 t.hour ++ ':' :: (digits 2 t.minute ++ ':' :: digits 2 t.second))))

/-- The digits of the fraction of a second. -/
def fractionDigits (t : UtcDateTime) : List Char := fraction 9 t.nanosecond

/-- `format(&Rfc3339)`, as it is documented. -/
def rfc3339 (t : UtcDateTime) : String :=
  .ofList (t.upToSecond ++ (if t.nanosecond = 0 then ['Z'] else '.' :: (t.fractionDigits ++ ['Z'])))

end UtcDateTime

/-- `now`, at a moment, over the formatting function of the library. -/
def now (format : UtcDateTime → Except String String) (t : UtcDateTime) : Except String String :=
  (format t).mapError fun error => s!"cannot format current time: {error}"

/-! ### Chronological order -/

theorem daysBeforeMonth_mono {leap : Bool} {m n : Nat} (h : m < n) :
    daysBeforeMonth leap m + monthLength leap m ≤ daysBeforeMonth leap n := by
  induction n with
  | zero => omega
  | succ n ih =>
    obtain rfl | hlt := Nat.lt_succ_iff_lt_or_eq.mp h |>.symm
    · exact le_rfl
    · have := ih hlt
      rw [daysBeforeMonth]
      omega

theorem daysBeforeYear_mono {m n : Nat} (h : m < n) :
    daysBeforeYear m + daysBeforeMonth (isLeapYear m) 13 ≤ daysBeforeYear n := by
  induction n with
  | zero => omega
  | succ n ih =>
    obtain rfl | hlt := Nat.lt_succ_iff_lt_or_eq.mp h |>.symm
    · exact le_rfl
    · have := ih hlt
      rw [daysBeforeYear]
      omega

namespace UtcDateTime

/-- The fields of a date decide in turn. -/
theorem days_lt_of_fields {t u : UtcDateTime}
    (h : t.year < u.year ∨ t.year = u.year ∧
      (t.month < u.month ∨ t.month = u.month ∧ t.day < u.day)) : t.days < u.days := by
  have hday := t.day_le
  have hpos := t.day_pos
  have hpos' := u.day_pos
  obtain hyear | ⟨hyear, hmonth | ⟨hmonth, hlt⟩⟩ := h
  · have hnext := daysBeforeYear_mono hyear
    have hmonth := @daysBeforeMonth_mono (isLeapYear t.year) _ _
      (Nat.lt_of_le_of_lt t.month_le (by decide : 12 < 13))
    unfold days
    omega
  · have hnext := @daysBeforeMonth_mono (isLeapYear t.year) _ _ hmonth
    unfold days
    rw [← hyear]
    omega
  · unfold days
    rw [← hyear, ← hmonth]
    omega

/-- Days are the same only for one date. -/
theorem days_eq_iff {t u : UtcDateTime} :
    t.days = u.days ↔ t.year = u.year ∧ t.month = u.month ∧ t.day = u.day := by
  constructor
  · intro h
    have hlt := days_lt_of_fields (t := t) (u := u)
    have hgt := days_lt_of_fields (t := u) (u := t)
    by_contra hne
    have hfields : (t.year < u.year ∨ t.year = u.year ∧
        (t.month < u.month ∨ t.month = u.month ∧ t.day < u.day)) ∨
      (u.year < t.year ∨ u.year = t.year ∧
        (u.month < t.month ∨ u.month = t.month ∧ u.day < t.day)) := by omega
    obtain hfields | hfields := hfields
    · have := hlt hfields
      omega
    · have := hgt hfields
      omega
  · rintro ⟨hyear, hmonth, hday⟩
    unfold days
    rw [hyear, hmonth, hday]

theorem days_lt_iff {t u : UtcDateTime} :
    t.days < u.days ↔ t.year < u.year ∨ t.year = u.year ∧
      (t.month < u.month ∨ t.month = u.month ∧ t.day < u.day) := by
  refine ⟨fun h => ?_, days_lt_of_fields⟩
  have hgt := days_lt_of_fields (t := u) (u := t)
  have heq := days_eq_iff (t := t) (u := u)
  by_contra hne
  have hfields : (t.year = u.year ∧ t.month = u.month ∧ t.day = u.day) ∨
    (u.year < t.year ∨ u.year = t.year ∧
      (u.month < t.month ∨ u.month = t.month ∧ u.day < t.day)) := by omega
  obtain hfields | hfields := hfields
  · have := heq.mpr hfields
    omega
  · have := hgt hfields
    omega

theorem day_lt (t : UtcDateTime) : t.day < 32 := by
  have hday := t.day_le
  have hmonth : ∀ leap m, monthLength leap m ≤ 31 := by
    intro leap m
    unfold monthLength
    split <;> first | omega | (split <;> omega)
  have := hmonth (isLeapYear t.year) t.month
  omega

theorem unixTimestamp_congr {t u : UtcDateTime} (hdays : t.days = u.days) (hhour : t.hour = u.hour)
    (hminute : t.minute = u.minute) (hsecond : t.second = u.second) :
    t.unixTimestamp = u.unixTimestamp := by
  rw [unixTimestamp, unixTimestamp, hdays, hhour, hminute, hsecond]

theorem unixTimestamp_lt_iff {t u : UtcDateTime} :
    t.unixTimestamp < u.unixTimestamp ↔ t.days < u.days ∨ t.days = u.days ∧
      (t.hour < u.hour ∨ t.hour = u.hour ∧
        (t.minute < u.minute ∨ t.minute = u.minute ∧ t.second < u.second)) := by
  have hhour := t.hour_lt
  have hhour' := u.hour_lt
  have hminute := t.minute_lt
  have hminute' := u.minute_lt
  have hsecond := t.second_lt
  have hsecond' := u.second_lt
  unfold unixTimestamp
  omega

theorem instant_lt_iff {t u : UtcDateTime} :
    t.instant < u.instant ↔ t.unixTimestamp < u.unixTimestamp ∨
      t.unixTimestamp = u.unixTimestamp ∧ t.nanosecond < u.nanosecond := by
  have hnano := t.nanosecond_lt
  have hnano' := u.nanosecond_lt
  have hpow : (10 : Int) ^ 9 = 1000000000 := by norm_num
  have hinstant : ∀ v : UtcDateTime, v.instant = v.unixTimestamp * 1000000000 + v.nanosecond := by
    intro v
    rw [instant, hpow]
  rw [hinstant, hinstant]
  change (_ : Int) < (_ : Int) ↔ _
  omega

/-! ### The order of the texts -/

theorem length_upToSecond (t : UtcDateTime) : t.upToSecond.length = 19 := by
  simp [upToSecond]

/-- Up to the second, the texts sort as the moments do. -/
theorem upToSecond_lt_iff {t u : UtcDateTime} :
    t.upToSecond < u.upToSecond ↔ t.unixTimestamp < u.unixTimestamp := by
  have hfour := @digits_lt_digits_iff 4 _ _ t.year_lt u.year_lt
  have hfour' := @digits_inj 4 _ _ t.year_lt u.year_lt
  have htwo : ∀ {m n : Nat}, m < 100 → n < 100 → (digits 2 m < digits 2 n ↔ m < n) :=
    fun hm hn => digits_lt_digits_iff hm hn
  have htwo' : ∀ {m n : Nat}, m < 100 → n < 100 → (digits 2 m = digits 2 n ↔ m = n) :=
    fun hm hn => digits_inj hm hn
  have hmonth := t.month_le
  have hmonth' := u.month_le
  have hday := t.day_lt
  have hday' := u.day_lt
  have hhour := t.hour_lt
  have hhour' := u.hour_lt
  have hminute := t.minute_lt
  have hminute' := u.minute_lt
  have hsecond := t.second_lt
  have hsecond' := u.second_lt
  unfold upToSecond
  simp only [append_lt_append_iff (length_digits_eq _ _ _), List.cons_lt_cons_self, hfour, hfour']
  rw [htwo (by omega) (by omega), htwo' (by omega) (by omega), htwo (by omega) (by omega),
    htwo' (by omega) (by omega), htwo (by omega) (by omega), htwo' (by omega) (by omega),
    htwo (by omega) (by omega), htwo' (by omega) (by omega), htwo (by omega) (by omega),
    unixTimestamp_lt_iff, days_lt_iff, days_eq_iff]
  omega

theorem upToSecond_eq_iff {t u : UtcDateTime} :
    t.upToSecond = u.upToSecond ↔ t.unixTimestamp = u.unixTimestamp := by
  have hlt := upToSecond_lt_iff (t := t) (u := u)
  have hgt := upToSecond_lt_iff (t := u) (u := t)
  constructor
  · intro h
    rw [h] at hlt hgt
    have h₁ := hlt.not.mp (List.lt_irrefl _)
    have h₂ := hgt.not.mp (List.lt_irrefl _)
    omega
  · intro h
    rw [h] at hlt hgt
    have h₁ := hlt.not.mpr (lt_irrefl _)
    have h₂ := hgt.not.mpr (lt_irrefl _)
    exact le_antisymm (not_lt.mp h₂) (not_lt.mp h₁)

theorem digit_lt_Z (d : Nat) (h : d < 10) : digit d < 'Z' := by
  interval_cases d <;> decide

/-- The texts of two moments, the earlier first. -/
theorem rfc3339_lt_iff {t u : UtcDateTime} (h : t.instant < u.instant) :
    t.rfc3339 < u.rfc3339 ↔
      ¬ (t.unixTimestamp = u.unixTimestamp ∧ t.fractionDigits <+: u.fractionDigits) := by
  have hlen : t.upToSecond.length = u.upToSecond.length := by
    rw [length_upToSecond, length_upToSecond]
  rw [instant_lt_iff] at h
  rw [String.lt_iff, rfc3339, rfc3339, String.toList_ofList, String.toList_ofList,
    append_lt_append_iff hlen, upToSecond_lt_iff, upToSecond_eq_iff]
  obtain hsecond | ⟨hsecond, hnano⟩ := h
  · have hne : t.unixTimestamp ≠ u.unixTimestamp := by omega
    simp [hsecond, hne]
  · have hpos : u.nanosecond ≠ 0 := by omega
    simp only [hsecond, lt_irrefl, false_or, true_and, if_neg hpos]
    by_cases hzero : t.nanosecond = 0
    · -- the earlier text has no fraction: its `Z` meets the point of the later one
      have hpoint : ¬ ('Z' < '.') := by decide
      have hnil : t.fractionDigits = [] := by rw [fractionDigits, hzero]; rfl
      rw [if_pos hzero, hnil, List.cons_lt_cons_iff]
      simp [hpoint]
    · rw [if_neg hzero, List.cons_lt_cons_self]
      exact fraction_append_lt_iff t.nanosecond_lt u.nanosecond_lt hnano digit_lt_Z [] []

end UtcDateTime

/-- **The order of timestamps.** Of two moments the earlier one has the smaller text, exactly when
they do not share their second or the digits of its fraction do not begin those of the later one. -/
theorem timestamps_sort_iff {format : UtcDateTime → Except String String}
    (hformat : ∀ t, format t = .ok t.rfc3339) {t u : UtcDateTime} (h : t.instant < u.instant) :
    (∃ a b, now format t = .ok a ∧ now format u = .ok b ∧ a < b) ↔
      ¬ (t.unixTimestamp = u.unixTimestamp ∧ t.fractionDigits <+: u.fractionDigits) := by
  have hnow : ∀ t, now format t = .ok t.rfc3339 := fun t => by rw [now, hformat]; rfl
  rw [hnow, hnow, ← UtcDateTime.rfc3339_lt_iff h]
  constructor
  · rintro ⟨a, b, ha, hb, hlt⟩
    rw [Except.ok.injEq] at ha hb
    rwa [ha, hb]
  · exact fun hlt => ⟨_, _, rfl, rfl, hlt⟩

/-- A moment of the last second of February 2026. -/
def lateFebruary (nanosecond : Nat) (h : nanosecond < 10 ^ 9) : UtcDateTime where
  year := 2026
  month := 2
  day := 28
  hour := 23
  minute := 59
  second := 59
  nanosecond := nanosecond
  year_lt := by decide
  month_pos := by decide
  month_le := by decide
  day_pos := by decide
  day_le := by decide
  hour_lt := by decide
  minute_lt := by decide
  second_lt := by decide
  nanosecond_lt := h

/-- They differ in their fraction. -/
theorem lateFebruary_lt {m n : Nat} {hm : m < 10 ^ 9} {hn : n < 10 ^ 9} (h : m < n) :
    (lateFebruary m hm).instant < (lateFebruary n hn).instant := by
  have hdays : (lateFebruary m hm).days = (lateFebruary n hn).days :=
    UtcDateTime.days_eq_iff.mpr ⟨rfl, rfl, rfl⟩
  have hsecond := UtcDateTime.unixTimestamp_congr hdays rfl rfl rfl
  exact UtcDateTime.instant_lt_iff.mpr (.inr ⟨hsecond, h⟩)

/-- Half a second sorts before three quarters of it. -/
theorem halves_sort :
    ∃ a b, now (fun t => .ok t.rfc3339) (lateFebruary 500000000 (by decide)) = .ok a ∧
      now (fun t => .ok t.rfc3339) (lateFebruary 750000000 (by decide)) = .ok b ∧ a < b := by
  have hlt : (lateFebruary 500000000 (by decide)).instant <
      (lateFebruary 750000000 (by decide)).instant := lateFebruary_lt (by decide)
  refine (timestamps_sort_iff (fun _ => rfl) hlt).mpr fun h => ?_
  have hpre : ¬ fraction 9 500000000 <+: fraction 9 750000000 := by decide
  exact hpre h.2

/-- The text of a whole second sorts after those of the rest of the second. -/
theorem whole_second_sorts_last :
    (lateFebruary 0 (by decide)).instant < (lateFebruary 500000000 (by decide)).instant ∧
      now (fun t => .ok t.rfc3339) (lateFebruary 0 (by decide)) = .ok "2026-02-28T23:59:59Z" ∧
      now (fun t => .ok t.rfc3339) (lateFebruary 500000000 (by decide)) =
        .ok "2026-02-28T23:59:59.5Z" ∧
      ¬ "2026-02-28T23:59:59Z" < "2026-02-28T23:59:59.5Z" := by
  exact ⟨lateFebruary_lt (by decide), by rfl, by rfl, by decide⟩

end KakuneCore
