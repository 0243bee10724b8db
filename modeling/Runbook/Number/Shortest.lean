import Runbook.Number.Binary64

set_option autoImplicit false

/-! # The shortest decimal of a binary number

A finite number is written with the fewest decimal digits that read back as the same number, and of
the decimals with that many digits with the nearest one. The numbers that read back form an interval
around the value, which reaches half way to its neighbours and holds its ends when the mantissa is
even. For each count of digits the decimals with that many digits form a grid; if any point of the
grid lies in the interval, then one of the two around the value does.

The layout of the digits is a record of its own: where the positional notation ends, and how an
exponent is written. -/

namespace Runbook.Binary64

/-- A positive value as a fraction, and the interval of the fractions that round to it, all four
    over one denominator. -/
structure Rounding where
  low : Nat
  value : Nat
  high : Nat
  den : Nat
  closed : Bool

/-- The interval of a mantissa and an exponent, in quarters of the last binary place. Below a power
    of two the neighbour is nearer, unless the exponent is the least. -/
def rounding (mantissa : Nat) (exponent : Int) : Rounding :=
  let below := if mantissa = twoPow 52 && leastExponent < exponent then 1 else 2
  let unit := if 2 ≤ exponent then twoPow (exponent - 2).toNat else 1
  { low := (4 * mantissa - below) * unit
    value := 4 * mantissa * unit
    high := (4 * mantissa + 2) * unit
    den := if 2 ≤ exponent then 1 else twoPow (2 - exponent).toNat
    closed := mantissa % 2 == 0 }

/-- A fraction compared with a decimal: both are brought over one denominator. -/
def decimalOver (num den digits : Nat) (power : Int) : Nat × Nat :=
  if 0 ≤ power then (num, digits * tenPow power.toNat * den)
  else (num * tenPow (-power).toNat, digits * den)

/-- Whether a decimal lies in the interval. -/
def Rounding.holds (r : Rounding) (digits : Nat) (power : Int) : Bool :=
  let (low, d) := decimalOver r.low r.den digits power
  let (high, d') := decimalOver r.high r.den digits power
  if r.closed then low ≤ d && d' ≤ high else low < d && d' < high

/-- The number of the grid point at or below the value, and whether the point above is nearer. A tie
    goes to the even point. -/
def Rounding.below (r : Rounding) (power : Int) : Nat × Bool :=
  let (n, d) := decimalOver r.value r.den 1 power
  let q := n / d
  let twice := 2 * (n % d)
  (q, d < twice || (twice == d && q % 2 == 1))

/-- The decimal of the interval on one grid: the neighbour of the value that is nearer, or the other
    one if only that lies in the interval. -/
def Rounding.onGrid? (r : Rounding) (power : Int) : Option (Nat × Int) :=
  let (q, upper) := r.below power
  let first := if upper then q + 1 else q
  let second := if upper then q else q + 1
  if r.holds first power then some (first, power)
  else if r.holds second power then some (second, power)
  else none

/-- The exponent `p` with `10 ^ p ≤ value < 10 ^ (p + 1)`, sought downwards from an upper bound. -/
def Rounding.leading (r : Rounding) : Nat → Int → Int
  | 0, p => p
  | fuel + 1, p =>
    let (n, d) := decimalOver r.value r.den 1 p
    if d ≤ n then p else r.leading fuel (p - 1)

/-- The first hit on the grids of 1, 2, … digits. -/
def Rounding.firstHit (r : Rounding) (lead : Int) : Nat → Nat → Nat × Int
  | 0, count => ((r.below (lead + 1 - count)).1, lead + 1 - count)
  | more + 1, count =>
    match r.onGrid? (lead + 1 - count) with
    | some hit => hit
    | none => r.firstHit lead more (count + 1)

/-- Moves trailing zeros of the digits into the power. -/
def withoutZeros : Nat → Nat → Int → Nat × Int
  | 0, digits, power => (digits, power)
  | fuel + 1, digits, power =>
    if digits % 10 = 0 && digits ≠ 0 then withoutZeros fuel (digits / 10) (power + 1)
    else (digits, power)

/-- The shortest decimal `digits * 10 ^ power` of a mantissa that is not zero. An upper bound of the
    leading exponent comes from the bit length: 0.302 exceeds the logarithm of two. -/
def shortest (mantissa : Nat) (exponent : Int) : Nat × Int :=
  let r := rounding mantissa exponent
  let bits : Int := mantissa.log2 + 1 + exponent
  let bound := Int.fdiv (bits * 302) 1000 + 2
  let lead := r.leading 16 bound
  let (digits, power) := r.firstHit lead 17 1
  withoutZeros 20 digits power

/-- How the digits of a decimal are laid out. -/
structure Layout where
  /-- The least exponent of the leading digit that is written positionally. -/
  leastPositional : Int
  /-- The first exponent of the leading digit that is not written positionally any more. -/
  endPositional : Int
  /-- The least count of digits of an exponent. -/
  exponentWidth : Nat

/-- Numbers of a document are positional from a ten-thousandth up to ten to the sixteenth. -/
def Layout.document : Layout := ⟨-4, 16, 2⟩

/-- Digits with zeros before them up to a count. -/
def padded (width : Nat) (n : Nat) : String :=
  let digits := Nat.toDigits 10 n
  String.ofList (List.replicate (width - digits.length) '0' ++ digits)

/-- The text of a decimal that is not zero. -/
def Layout.write (layout : Layout) (digits : Nat) (power : Int) : String :=
  let ds := Nat.toDigits 10 digits
  let lead := power + ds.length - 1
  if layout.leastPositional ≤ lead && lead < layout.endPositional then
    if 0 ≤ power then String.ofList (ds ++ List.replicate power.toNat '0') ++ ".0"
    else if 0 ≤ lead then
      String.ofList (ds.take (lead.toNat + 1)) ++ "." ++ String.ofList (ds.drop (lead.toNat + 1))
    else "0." ++ String.ofList (List.replicate (-lead - 1).toNat '0' ++ ds)
  else
    let fraction := if ds.length = 1 then "" else "." ++ String.ofList (ds.drop 1)
    let sign := if lead < 0 then "-" else "+"
    String.ofList (ds.take 1) ++ fraction ++ "e" ++ sign ++ padded layout.exponentWidth lead.natAbs

/-- The text of a number. -/
def render : Binary64 → String
  | finite negative m e =>
    let sign := if negative then "-" else ""
    if m = 0 then sign ++ "0.0"
    else
      let (digits, power) := shortest m e
      sign ++ Layout.document.write digits power
  | infinite negative => if negative then "-inf" else "inf"
  | nan => "nan"

end Runbook.Binary64
