import Runbook.Calendar
import Runbook.Number.Numeral
import Runbook.Number.Shortest

set_option autoImplicit false

/-! # Scalars

The values of a document that hold no other values. They also are the keys of its mappings. Two keys
are the same when their values are equal, whatever their kinds: the truth values equal one and zero,
and a number with a fraction equals an integer if that is its value. -/

namespace Runbook

/-- A value without parts. -/
inductive Scalar where
  | null
  | bool (b : Bool)
  | int (n : Int)
  | float (x : Binary64)
  | text (s : String)
  | bytes (bs : Bytes)
  | date (d : Date)
  | moment (m : Moment)
deriving DecidableEq, Repr, Inhabited

namespace Scalar

/-- The integer that a scalar counts as among keys. -/
def asInt? : Scalar → Option Int
  | bool b => some (if b then 1 else 0)
  | int n => some n
  | float x => x.toInt?
  | _ => none

/-- Whether two scalars are one key. Not-a-number is no key but its own. -/
def sameKey (a b : Scalar) : Bool :=
  match a.asInt?, b.asInt? with
  | some m, some n => m == n
  | some _, none => false
  | none, some _ => false
  | none, none =>
    match a, b with
    | float x, float y => x.sameValue y
    | moment m, moment n => m.same n
    | a, b => a == b

/-- Whether a scalar is the text `s`, as a key of a document. -/
def isText (s : String) : Scalar → Bool
  | text t => t == s
  | _ => false

/-- The text that shows a scalar in messages: texts and bytes in quotes, the other values by the
    words that build them. -/
def shown : Scalar → String
  | null => "None"
  | bool b => if b then "True" else "False"
  | int n => toString n
  | float x => x.render
  | text s => Text.quoted s
  | bytes bs => Text.quotedBytes bs
  | date d => d.source
  | moment m => m.source

/-- Whether a scalar is written, which an integer of too many digits is not. -/
def isWritable : Scalar → Bool
  | int n => Numeral.isWritable n
  | _ => true

/-- The name of the type of a scalar. -/
def typeName : Scalar → String
  | null => "NoneType"
  | bool _ => "bool"
  | int _ => "int"
  | float _ => "float"
  | text _ => "str"
  | bytes _ => "bytes"
  | date _ => "datetime.date"
  | moment _ => "datetime.datetime"

/-- The text of a scalar as a title: a text as it is, a day or moment as it is written in data. -/
def title : Scalar → String
  | text s => s
  | date d => d.iso
  | moment m => m.isoWith " "
  | other => other.shown

end Scalar
end Runbook
