import Mathlib

/-!
# Binary64 arithmetic over the rationals

A finite binary64 number is represented by the rational it denotes. Every operation is the exact
rational operation followed by one rounding to nearest, ties to even, with gradual underflow;
overflow and invalid operations give `nonFinite`, which absorbs. The sign of zero is not kept.
-/

namespace KakuneCore

/-- A binary64 value: finite, or one of the infinities and NaNs. -/
inductive Binary64
  | finite (q : Rat)
  | nonFinite
  deriving DecidableEq, Repr

namespace Binary64

/-- `2 ^ e` for an integer exponent. -/
def pow2 (e : Int) : Rat := if 0 ≤ e then (2 : Rat) ^ e.toNat else 1 / (2 : Rat) ^ (-e).toNat

/-- The exponent `e` with `2 ^ e ≤ |q| < 2 ^ (e + 1)`, for `q ≠ 0`. -/
def exponent (q : Rat) : Int :=
  let e : Int := (Nat.log2 q.num.natAbs : Int) - (Nat.log2 q.den : Int)
  if pow2 e ≤ |q| then e else e - 1

/-- The nearest integer, ties to even. -/
def roundHalfEven (q : Rat) : Int :=
  let f := q.floor
  let d := q - f
  if d < 1 / 2 then f else if 1 / 2 < d then f + 1 else if f % 2 = 0 then f else f + 1

/-- Round a rational to binary64. -/
def round (q : Rat) : Binary64 :=
  if q = 0 then finite 0
  else
    let quantum := pow2 (max (exponent q - 52) (-1074))
    let r := roundHalfEven (q / quantum) * quantum
    if |r| < pow2 1024 then finite r else nonFinite

/-- Apply an exact binary operation and round. -/
def lift₂ (f : Rat → Rat → Rat) : Binary64 → Binary64 → Binary64
  | finite a, finite b => round (f a b)
  | _, _ => nonFinite

def add : Binary64 → Binary64 → Binary64 := lift₂ (· + ·)

def sub : Binary64 → Binary64 → Binary64 := lift₂ (· - ·)

def mul : Binary64 → Binary64 → Binary64 := lift₂ (· * ·)

/-- Quotient by a nonzero divisor. -/
def div : Binary64 → Binary64 → Binary64 := lift₂ (· / ·)

/-- The quotient of two rationals rounded towards zero. -/
def truncDiv (a b : Rat) : Int := if 0 ≤ a / b then (a / b).floor else (a / b).ceil

/-- The remainder with the sign of the dividend, for a nonzero divisor; it is exact. -/
def rem : Binary64 → Binary64 → Binary64
  | finite a, finite b => finite (a - b * truncDiv a b)
  | _, _ => nonFinite

end Binary64

end KakuneCore
