import Runbook.Calendar
import Runbook.Number.Numeral

set_option autoImplicit false

/-! # Tokens of a document text

A document text is YAML 1.1. Its tokens are the indicators, the scalars and the marks that
indentation stands for. A text that breaks off with a fault still has the tokens that were settled
before the fault, followed by the fault itself, so that the reader of the tokens meets whichever is
wrong first. -/

namespace Runbook.Yaml

/-- What can be wrong with a document text. All violations of the language are one fault; the others
    come from values that the language admits and the calendar or the number formats do not. An escape
    that names a half of a surrogate pair is in order, but no text here can hold it: reading ends with a
    fault of its own, which stands for no error. -/
inductive Fault where
  | malformed
  | surrogate
  | calendar (fault : CalendarFault)
  | numeral (fault : NumeralFault)
  | emptyNumeral
  | notTruth (word : String)
  | notTimestamp
  | timestampFromMapping
  | pastLastCodePoint
  | codePointOverflow
  | numberOverflow
deriving DecidableEq, Repr

/-- A token. -/
inductive Token where
  | version (major : Nat)
  | tagHandle (handle lead : String)
  | directive
  | documentStart
  | documentEnd
  | blockSequenceStart
  | blockMappingStart
  | blockEnd
  | flowSequenceStart
  | flowSequenceEnd
  | flowMappingStart
  | flowMappingEnd
  | flowEntry
  | blockEntry
  | key
  | value
  | alias (name : String)
  | anchor (name : String)
  | tag (handle : Option String) (suffix : String)
  | scalar (text : String) (plain : Bool)
  | streamEnd
  | broken (fault : Fault)
deriving DecidableEq, Repr

end Runbook.Yaml
