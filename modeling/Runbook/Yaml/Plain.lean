import Runbook.Yaml.Tree

set_option autoImplicit false

/-! # What a plain scalar means

A scalar that is not quoted and has no tag is a truth value, a number, a date, the null, a merge key
or a text, as its characters say. The forms are those of YAML 1.1: words for truth values, octal
numerals that start with a zero, numbers to the base sixty with colons, digits grouped by
underscores, and fractions that need a point. The three signs of tags, anchors and aliases are of a
kind of their own, which no document has values for. The first form that fits counts, in the order
of this file. -/

namespace Runbook.Yaml

/-- The forms of plain scalars. Each takes the characters of the scalar. -/
abbrev Form := List Char → Bool

namespace Form

/-- Removes a sign. -/
def unsigned : List Char → List Char
  | '-' :: rest => rest
  | '+' :: rest => rest
  | cs => cs

/-- One of some words. -/
def word (ws : List String) : Form := fun cs => ws.contains (String.ofList cs)

/-- A truth value. -/
def truth : Form := word
  ["yes", "Yes", "YES", "no", "No", "NO", "true", "True", "TRUE", "false", "False", "FALSE",
    "on", "On", "ON", "off", "Off", "OFF"]

/-- A digit or an underscore. -/
def isGrouped (c : Char) : Bool := c.isDigit || c = '_'

/-- At least one character, all of a class. -/
def many (p : Char → Bool) : Form := fun cs => cs ≠ [] && cs.all p

/-- A digit and then digits and underscores. -/
def digits : Form
  | [] => false
  | c :: rest => c.isDigit && rest.all isGrouped

/-- The groups of a number to the base sixty after the first, before the text that follows them.
    Each is a colon and one or two digits, the first of two below six. -/
def sixties (seen : Bool) : List Char → Option (List Char)
  | ':' :: a :: b :: rest =>
    if '0' ≤ a && a ≤ '5' && b.isDigit then sixties true rest
    else if a.isDigit then if b = ':' then sixties true (b :: rest) else some (b :: rest)
    else none
  | [':', a] => if a.isDigit then some [] else none
  | [':'] => none
  | cs => if seen then some cs else none

/-- An exponent: a mark, a sign and digits. -/
def exponent : Form
  | c :: sign :: rest =>
    (c = 'e' || c = 'E') && (sign = '-' || sign = '+') && many Char.isDigit rest
  | _ => false

/-- Nothing, or an exponent. -/
def exponentOrNothing : Form := fun cs => cs = [] || exponent cs

/-- A number with a point. Without a digit before the point there is no sign. -/
def fraction : Form := fun cs =>
  let body := unsigned cs
  let whole := body.takeWhile isGrouped
  match body.dropWhile isGrouped with
  | '.' :: rest =>
    let tail := rest.dropWhile isGrouped
    if whole = [] then body = cs && digits (rest.takeWhile isGrouped) && exponentOrNothing tail
    else digits whole && exponentOrNothing tail
  | _ => false

/-- A number to the base sixty with a point. -/
def sixtiesFraction : Form := fun cs =>
  let body := unsigned cs
  digits (body.takeWhile isGrouped) &&
    match sixties false (body.dropWhile isGrouped) with
    | some ('.' :: rest) => rest.all isGrouped
    | _ => false

/-- A number with a point, an infinity or not-a-number. -/
def float : Form := fun cs =>
  fraction cs || sixtiesFraction cs || word [".inf", ".Inf", ".INF"] (unsigned cs)
    || word [".nan", ".NaN", ".NAN"] cs

/-- An integer. -/
def integer : Form := fun cs =>
  match unsigned cs with
  | ['0'] => true
  | '0' :: 'b' :: rest => many (fun c => c = '0' || c = '1' || c = '_') rest
  | '0' :: 'x' :: rest => many (fun c => isHexDigit c || c = '_') rest
  | '0' :: rest => many (fun c => ('0' ≤ c && c ≤ '7') || c = '_') rest
  | body =>
    digits (body.takeWhile isGrouped) &&
      (body.dropWhile isGrouped = [] || sixties false (body.dropWhile isGrouped) = some [])

/-- The null, by one of its words or by no character at all. -/
def null : Form := word ["", "~", "null", "Null", "NULL"]

/-- Between one and two digits, and the rest. -/
def oneOrTwo (cs : List Char) : Option (List Char × List Char) :=
  match cs with
  | a :: b :: rest =>
    if a.isDigit then if b.isDigit then some ([a, b], rest) else some ([a], b :: rest) else none
  | [a] => if a.isDigit then some ([a], []) else none
  | [] => none

/-- Exactly some count of digits, and the rest. -/
def exactly (n : Nat) (cs : List Char) : Option (List Char × List Char) :=
  let ds := cs.take n
  if ds.length = n && ds.all Char.isDigit then some (ds, cs.drop n) else none

/-- A character, and the rest. -/
def char (c : Char) : List Char → Option (List Char)
  | [] => none
  | d :: rest => if d = c then some rest else none

end Form

/-- The parts of a date or a moment, as digits. -/
structure TimeParts where
  year : List Char
  month : List Char
  day : List Char
  /-- Hour, minute, second and fraction, if there is a time. -/
  time : Option (List Char × List Char × List Char × List Char)
  /-- The sign, hours and minutes of an offset, or no sign for universal time. -/
  zone : Option (Option Char × List Char × List Char)

namespace TimeParts

open Form

/-- An offset at the end of a moment. -/
def readZone : List Char → Option (Option (Option Char × List Char × List Char))
  | [] => some none
  | cs =>
    match cs.dropWhile fun c => c = ' ' || c = '\t' with
    | [] => none
    | c :: rest =>
      if c = 'Z' then if rest = [] then some (some (none, [], [])) else none
      else if c = '+' || c = '-' then do
        let (hours, rest) ← oneOrTwo rest
        match rest with
        | [] => some (some (some c, hours, []))
        | rest =>
          let rest ← char ':' rest
          let (minutes, rest) ← exactly 2 rest
          if rest = [] then some (some (some c, hours, minutes)) else none
      else none

/-- A time after its date: hour, minute, second, fraction and offset. -/
def readTime (cs : List Char) :
    Option ((List Char × List Char × List Char × List Char)
      × Option (Option Char × List Char × List Char)) := do
  let rest ← match cs with
    | c :: rest =>
      if c = 'T' || c = 't' then some rest
      else if c = ' ' || c = '\t' then some (rest.dropWhile fun c => c = ' ' || c = '\t')
      else none
    | [] => none
  let (hour, rest) ← oneOrTwo rest
  let rest ← char ':' rest
  let (minute, rest) ← exactly 2 rest
  let rest ← char ':' rest
  let (second, rest) ← exactly 2 rest
  let (fraction, rest) := match rest with
    | '.' :: rest => (rest.takeWhile Char.isDigit, rest.dropWhile Char.isDigit)
    | rest => ([], rest)
  let zone ← readZone rest
  return ((hour, minute, second, fraction), zone)

/-- The parts of a date, in which month and day may have one digit, or of a moment. -/
def read (cs : List Char) : Option TimeParts := do
  let (year, rest) ← exactly 4 cs
  let rest ← char '-' rest
  let (month, rest) ← oneOrTwo rest
  let rest ← char '-' rest
  let (day, rest) ← oneOrTwo rest
  if rest = [] then return ⟨year, month, day, none, none⟩
  else
    let (time, zone) ← readTime rest
    return ⟨year, month, day, some time, zone⟩

/-- Whether some characters are a date or a moment without a tag: a date alone has two digits for
    month and day. -/
def isPlain (cs : List Char) : Bool :=
  match read cs with
  | some parts => parts.time.isSome || cs.length = 10
  | none => false

end TimeParts

/-- The forms and the tags they stand for, in order. -/
def forms : List (Form × String) :=
  [(Form.truth, "bool"), (Form.float, "float"), (Form.integer, "int"), (Form.word ["<<"], "merge"),
    (Form.null, "null"), (TimeParts.isPlain, "timestamp"), (Form.word ["="], "value"),
    (Form.word ["!", "&", "*"], "yaml")]

/-- The characters that count for the form of a scalar: one line feed at the end does not. -/
def formChars (cs : List Char) : List Char :=
  match cs.reverse with
  | '\n' :: rest => if rest = [] then cs else rest.reverse
  | _ => cs

/-- The tag of a plain scalar. -/
def plainTag (text : String) : String :=
  let cs := formChars text.toList
  match forms.find? fun (form, _) => form cs with
  | some (_, name) => coreTag name
  | none => coreTag "str"

end Runbook.Yaml
