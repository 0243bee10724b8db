import Runbook.Number.Power

set_option autoImplicit false

/-! # Binary floating point with 64 bits

A number of a document with a fraction is a binary64 number: a sign, a mantissa below 2^53 and a
power of two. The type keeps these three in the open, so that equality of values can be decided and
the arithmetic reduces to natural numbers. Every result is the exact one rounded to the nearest
number of the format, a tie going to the even mantissa. -/

namespace Runbook

/-- A binary64 number. A finite one is `mantissa * 2 ^ exponent`; the constructors of this file give
    the mantissa its 53 bits unless the exponent is already the least one. -/
inductive Binary64 where
  | finite (negative : Bool) (mantissa : Nat) (exponent : Int)
  | infinite (negative : Bool)
  | nan
deriving DecidableEq, Repr, Inhabited

namespace Binary64

/-- The exponent of the smallest numbers. -/
def leastExponent : Int := -1074

/-- The exponent of the largest numbers. -/
def greatestExponent : Int := 971

/-- Zero of either sign. -/
def zero (negative : Bool) : Binary64 := finite negative 0 leastExponent

/-- A quotient as the numerator and denominator that remain when a power of two is taken out. -/
def scaled (num den : Nat) (exponent : Int) : Nat × Nat :=
  if 0 ≤ exponent then (num, den * twoPow exponent.toNat)
  else (num * twoPow (-exponent).toNat, den)

/-- The natural number nearest to a quotient, a tie going to the even one. -/
def roundQuotient (num den : Nat) : Nat :=
  let whole := num / den
  let twice := 2 * (num % den)
  if den < twice || (twice == den && whole % 2 == 1) then whole + 1 else whole

/-- The number nearest to a quotient of natural numbers. -/
def ofRatio (negative : Bool) (num den : Nat) : Binary64 :=
  if num = 0 then zero negative
  else
    let guess : Int := (num.log2 : Int) - den.log2 - 52
    let (n, d) := scaled num den guess
    let fitted := if n < d * twoPow 52 then guess - 1 else guess
    let exponent := max fitted leastExponent
    let (n, d) := scaled num den exponent
    let mantissa := roundQuotient n d
    let (mantissa, exponent) :=
      if mantissa = twoPow 53 then (twoPow 52, exponent + 1) else (mantissa, exponent)
    if greatestExponent < exponent then infinite negative
    else finite negative mantissa exponent

/-- The number nearest to an integer times a power of two. -/
def ofScaled (n : Int) (exponent : Int) : Binary64 :=
  let (num, den) := if 0 ≤ exponent then (n.natAbs * twoPow exponent.toNat, 1)
    else (n.natAbs, twoPow (-exponent).toNat)
  ofRatio (n < 0) num den

/-- The number nearest to a decimal `digits * 10 ^ exponent`. Far beyond either end of the format
    the power of ten is not formed. -/
def ofDecimal (negative : Bool) (digits : Nat) (exponent : Int) : Binary64 :=
  let magnitude := (Nat.toDigits 10 digits).length + exponent
  if digits = 0 || magnitude < -330 then zero negative
  else if 310 < magnitude then infinite negative
  else if 0 ≤ exponent then ofRatio negative (digits * tenPow exponent.toNat) 1
  else ofRatio negative digits (tenPow (-exponent).toNat)

/-- The number nearest to a natural number. -/
def ofNat (n : Nat) : Binary64 := ofRatio false n 1

/-- The number with the other sign. -/
def neg : Binary64 → Binary64
  | finite negative m e => finite (!negative) m e
  | infinite negative => infinite (!negative)
  | nan => nan

/-- A mantissa with its sign. -/
def signed (negative : Bool) (m : Nat) : Int := if negative then -(m : Int) else m

/-- The sum of two numbers. Zeros of opposite signs have the sum zero without a sign. -/
def add : Binary64 → Binary64 → Binary64
  | nan, _ => nan
  | _, nan => nan
  | infinite s, infinite t => if s = t then infinite s else nan
  | infinite s, finite .. => infinite s
  | finite .., infinite t => infinite t
  | finite s m e, finite t n f =>
    let least := min e f
    let sum := signed s m * twoPow (e - least).toNat + signed t n * twoPow (f - least).toNat
    if sum = 0 then zero (s && t) else ofScaled sum least

/-- The product of two numbers. -/
def mul : Binary64 → Binary64 → Binary64
  | nan, _ => nan
  | _, nan => nan
  | infinite s, infinite t => infinite (s != t)
  | infinite s, finite t n _ => if n = 0 then nan else infinite (s != t)
  | finite s m _, infinite t => if m = 0 then nan else infinite (s != t)
  | finite s m e, finite t n f =>
    if m = 0 || n = 0 then zero (s != t)
    else ofScaled (signed (s != t) (m * n)) (e + f)

/-- The integer that a number equals, if it equals one. -/
def toInt? : Binary64 → Option Int
  | finite s m e =>
    if 0 ≤ e then some (signed s (m * twoPow e.toNat))
    else
      let unit := twoPow (-e).toNat
      if m % unit = 0 then some (signed s (m / unit)) else none
  | _ => none

/-- Whether two numbers have the same value. The zeros have, and not-a-number has none. -/
def sameValue : Binary64 → Binary64 → Bool
  | finite s m e, finite t n f => (m == 0 && n == 0) || (s == t && m == n && e == f)
  | infinite s, infinite t => s == t
  | _, _ => false

end Binary64
end Runbook
