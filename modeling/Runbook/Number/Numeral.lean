import Runbook.Number.Binary64
import Runbook.Text.Digits
import Runbook.Text.Quoted

set_option autoImplicit false

/-! # Numerals

Reads integers and decimals as an operator or a document may write them: blanks around the numeral
do not count, digits of every script do, and a single underscore may stand between two digits. An
integer in a base that is a power of two may repeat the mark of its base.

An integer of more than 4300 decimal digits is neither read from decimal digits nor written in them,
as either takes time that grows with the square of their number. The digits at the start of a
numeral are counted before what follows them is looked at. -/

namespace Runbook

/-- Why a text is not read as a number, or an integer not written. -/
inductive NumeralFault where
  | notInteger (base : Nat) (text : String)
  | notDecimal (text : String)
  | tooLong (digits : Nat)
  | unwritable
deriving DecidableEq, Repr

/-- How many characters of the quotation of a text are shown when it is no integer. -/
def NumeralFault.shownLength : Nat := 200

/-- The report of a numeral that is not read, or of an integer that is not written. -/
def NumeralFault.message : NumeralFault → String
  | notInteger base text =>
    s!"invalid literal for int() with base {base}: "
      ++ String.ofList ((Text.quoted text).toList.take shownLength)
  | notDecimal text => "could not convert string to float: " ++ Text.quoted text
  | tooLong digits =>
    s!"Exceeds the limit (4300 digits) for integer string conversion: value has {digits} digits; "
      ++ "use sys.set_int_max_str_digits() to increase the limit"
  | unwritable =>
    "Exceeds the limit (4300 digits) for integer string conversion; "
      ++ "use sys.set_int_max_str_digits() to increase the limit"

namespace Numeral

/-- The most digits of a decimal integer. -/
def digitLimit : Nat := 4300

/-- Whether a character counts as a blank around a numeral. -/
def isSpace (c : Char) : Bool := (9 ≤ c.toNat && c.toNat ≤ 13) || c = ' '

/-- The characters of a numeral without the blanks around it. -/
def core (s : String) : List Char :=
  Text.dropEndWhile isSpace ((s.toList.map Text.numeralChar).dropWhile isSpace)

/-- A sign, if there is one, and the rest. -/
def sign : List Char → Bool × List Char
  | '-' :: rest => (true, rest)
  | '+' :: rest => (false, rest)
  | cs => (false, cs)

/-- The value of a digit in bases up to sixteen. -/
def digitValue? (base : Nat) (c : Char) : Option Nat :=
  let value? : Option Nat :=
    if '0' ≤ c ∧ c ≤ '9' then some (c.toNat - 48)
    else if 'a' ≤ c ∧ c ≤ 'f' then some (c.toNat - 87)
    else if 'A' ≤ c ∧ c ≤ 'F' then some (c.toNat - 55)
    else none
  value?.filter (· < base)

/-- Digits of a base with single underscores between them: their value after a value already read,
    and how many there are. -/
def digits? (base : Nat) (afterDigit : Bool) (value count : Nat) : List Char → Option (Nat × Nat)
  | [] => if afterDigit then some (value, count) else none
  | c :: rest =>
    if c = '_' then if afterDigit then digits? base false value count rest else none
    else match digitValue? base c with
      | some d => digits? base true (value * base + d) (count + 1) rest
      | none => none

/-- Drops the mark of a base, and one underscore after it. -/
def dropMark (base : Nat) : List Char → List Char
  | '0' :: c :: rest =>
    let mark := if base = 16 then 'x' else if base = 8 then 'o' else if base = 2 then 'b' else ' '
    if c.toLower = mark && mark ≠ ' ' then
      match rest with
      | '_' :: rest => rest
      | rest => rest
    else '0' :: c :: rest
  | cs => cs

/-- Whether a character may stand inside a numeral of a base. -/
def isInside (base : Nat) (c : Char) : Bool := c = '_' || (digitValue? base c).isSome

/-- Reads an integer in a base. -/
def readInt (base : Nat) (s : String) : Except NumeralFault Int :=
  let (negative, cs) := sign (core s)
  let cs := dropMark base cs
  match digits? base false 0 0 (cs.takeWhile (isInside base)) with
  | none => .error (.notInteger base s)
  | some (value, count) =>
    if base = 10 && digitLimit < count then .error (.tooLong count)
    else if cs.dropWhile (isInside base) ≠ [] then .error (.notInteger base s)
    else .ok (if negative then -(value : Int) else value)

/-- Whether an integer is written, which it is if its decimal digits are not too many. -/
def isWritable (n : Int) : Bool := n.natAbs < tenPow digitLimit

/-- Removes underscores if each of them stands between two digits. -/
def joinDigits? (before : Char) : List Char → Option (List Char)
  | [] => if before = '_' then none else some []
  | c :: rest =>
    if c = '_' then if before.isDigit then joinDigits? c rest else none
    else if before = '_' && !c.isDigit then none
    else (joinDigits? c rest).map (c :: ·)

/-- The value of some ASCII digits. -/
def natOf (ds : List Char) : Nat := ds.foldl (fun n c => n * 10 + (c.toNat - 48)) 0

/-- The value of some ASCII digits, if they are not too many. -/
def limitedNatOf (ds : List Char) : Except NumeralFault Nat :=
  if digitLimit < ds.length then .error (.tooLong ds.length) else .ok (natOf ds)

/-- An exponent after its mark. -/
def exponent? (cs : List Char) : Option Int :=
  let (negative, ds) := sign cs
  if ds ≠ [] && ds.all Char.isDigit then
    some (if negative then -(natOf ds : Int) else natOf ds)
  else none

/-- A decimal without its sign. -/
def unsigned? (negative : Bool) (cs : List Char) : Option Binary64 :=
  let word := String.ofList (cs.map Char.toLower)
  if word = "inf" || word = "infinity" then some (.infinite negative)
  else if word = "nan" then some .nan
  else
    let whole := cs.takeWhile Char.isDigit
    let rest := cs.dropWhile Char.isDigit
    let (fraction, rest) := match rest with
      | '.' :: rest => (rest.takeWhile Char.isDigit, rest.dropWhile Char.isDigit)
      | rest => ([], rest)
    if whole = [] && fraction = [] then none
    else
      let power? : Option Int := match rest with
        | [] => some 0
        | c :: rest => if c = 'e' || c = 'E' then exponent? rest else none
      power?.map fun power =>
        Binary64.ofDecimal negative (natOf (whole ++ fraction)) (power - fraction.length)

/-- Reads a decimal. -/
def readDecimal (s : String) : Except NumeralFault Binary64 :=
  match joinDigits? ' ' (core s) with
  | none => .error (.notDecimal s)
  | some cs =>
    let (negative, cs) := sign cs
    match unsigned? negative cs with
    | some x => .ok x
    | none => .error (.notDecimal s)

end Numeral
end Runbook
