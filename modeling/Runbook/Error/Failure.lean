import Runbook.Error.Problem
import Runbook.Text.Blank
import Runbook.Yaml.Token

set_option autoImplicit false

/-! # Failures

A failure is what stops an activity: an error, and the errors behind it, down to the first one. Each
layer that an error passes puts an error of its own in front, so that the whole reads from the
outermost context to the root. An error that strikes while a clean-up for another one is under way
stands in front of that one too. -/

namespace Runbook

/-- An error without the errors behind it. -/
inductive Cause where
  | badYaml
  | yaml
  | badValue (fault : Yaml.Fault)
  | badNumber (fault : NumeralFault)
  | undecodable (fault : Text.Utf8Fault)
  | tag (problem : TagProblem)
  | grammar (problem : GrammarProblem)
  | resolveFile (path : String)
  | parseFile (path : String)
  | jobNotFound (name : String) (known : List String)
  | onHost (problem : LocalProblem)
  | onPeer (problem : RemoteProblem)
  | job (owner : String) (index : Int) (task : Option String)
  | parallelTask (index total : Int) (pending : List Int)
  | shellCommand (command : List String) (exitCode : Int) (allowed : List Int) (stderr : String)
  | remoteCommand (command : String) (exitCode : Int) (output : String)
  | system (errno : Int) (text : String) (path : Option String)
  | nullInPath
  | aborted
  | reported (kind : Kind) (message : Option String)
deriving DecidableEq, Repr

namespace Cause

/-- The kind of a value that a document admits and its type does not. -/
def faultKind : Yaml.Fault → Kind
  | .malformed => .yaml
  | .calendar _ | .numeral _ | .surrogate | .pastLastCodePoint => .value
  | .emptyNumeral => .index
  | .notTruth _ => .key
  | .notTimestamp => .member
  | .timestampFromMapping => .type
  | .codePointOverflow | .numberOverflow => .overflow

/-- The message of a value that a document admits and its type does not. -/
def faultMessage : Yaml.Fault → String
  | .malformed => "<yaml>"
  | .calendar fault => fault.message
  | .numeral fault => fault.message
  | .emptyNumeral => "string index out of range"
  | .notTruth word => Text.quoted word
  | .notTimestamp => "'NoneType' object has no attribute 'groupdict'"
  | .timestampFromMapping => "expected string or bytes-like object, got 'list'"
  | .surrogate => "surrogates not allowed"
  | .pastLastCodePoint => "chr() arg not in range(0x110000)"
  | .codePointOverflow => "Python int too large to convert to C int"
  | .numberOverflow => "int too large to convert to float"

/-- Why bytes are not UTF-8, in words. -/
def utf8Reason : Text.Utf8Reason → String
  | .invalidStart => "invalid start byte"
  | .invalidContinuation => "invalid continuation byte"
  | .unexpectedEnd => "unexpected end of data"

/-- Where and why bytes are not UTF-8, in words. -/
def utf8Message (f : Text.Utf8Fault) : String :=
  let place :=
    if f.size = 1 then
      "byte 0x" ++ String.ofList (Text.hexDigits 2 f.first.toNat)
        ++ " in position " ++ toString f.position
    else "bytes in position " ++ toString f.position ++ "-" ++ toString (f.position + f.size - 1)
  "'utf-8' codec can't decode " ++ place ++ ": " ++ utf8Reason f.reason

/-- The kind of an error. -/
def kind : Cause → Kind
  | badYaml => .shape
  | yaml => .yaml
  | badValue fault => faultKind fault
  | badNumber _ => .value
  | undecodable _ => .undecodable
  | tag problem => problem.kind
  | grammar problem => problem.kind
  | resolveFile _ => .resolve
  | parseFile _ => .parse
  | jobNotFound _ _ => .notFound
  | onHost problem => problem.kind
  | onPeer problem => problem.kind
  | job _ _ _ => .job
  | parallelTask _ _ _ => .parallelTask
  | shellCommand _ _ _ _ => .shellCommand
  | remoteCommand _ _ _ => .remoteCommand
  | system errno _ _ => .ofErrno errno
  | nullInPath => .value
  | aborted => .aborted
  | reported kind _ => kind

/-- The message of an error. The name of a key that was sought is quoted, if there is one. -/
def message : Cause → String
  | badYaml => "Incorrect YAML: <yaml>"
  | yaml => "<yaml>"
  | badValue fault => faultMessage fault
  | badNumber fault => fault.message
  | undecodable fault => utf8Message fault
  | tag problem => problem.message
  | grammar problem => problem.message
  | resolveFile path => "resolving yaml error in " ++ path
  | parseFile path => "failed to parse jobs in file " ++ path
  | jobNotFound name known =>
    let names := ", ".intercalate known
    "Job " ++ name ++ " not found. Known jobs: " ++ (if names = "" then "none" else names)
  | onHost problem => problem.message
  | onPeer problem => problem.message
  | job owner index _ => "Job '" ++ owner ++ "' failed at task " ++ toString index
  | parallelTask index total pending =>
    "Parallel task " ++ toString index ++ " of " ++ toString total ++ " failed"
      ++ (if pending = [] then ""
        else " (detached without waiting: " ++ Text.shownInts pending ++ ")")
  | shellCommand command exitCode allowed stderr =>
    Text.quotedWords command ++ " did not succeed (exit=" ++ toString exitCode ++ ", allowed="
      ++ Text.shownInts allowed ++ ")" ++ (if stderr = "" then "" else "\n" ++ Text.trimEnd stderr)
  | remoteCommand command exitCode _ =>
    "Something went wrong while executing a command (\x60" ++ command ++ "\x60). Exit code "
      ++ toString exitCode ++ "."
  | system errno text path =>
    "[Errno " ++ toString errno ++ "] " ++ text
      ++ (match path with | some p => ": " ++ Text.quoted p | none => "")
  | nullInPath => "embedded null byte"
  | aborted => ""
  | reported _ none => ""
  | reported kind (some text) => if kind = .key then Text.quoted text else text

/-- Whether the message of an error is written, which it is if every integer in it is. -/
def isWritable : Cause → Bool
  | shellCommand _ exitCode allowed _ =>
    Numeral.isWritable exitCode && allowed.all Numeral.isWritable
  | remoteCommand _ exitCode _ => Numeral.isWritable exitCode
  | _ => true

/-- Whether an error is of a kind. -/
def isA (c : Cause) (k : Kind) : Bool := c.kind.isA k

end Cause

/-- An error and the errors behind it, the root last. -/
structure Failure where
  head : Cause
  behind : List Cause
deriving DecidableEq, Repr

namespace Failure

/-- A failure with no other behind it. -/
def of (c : Cause) : Failure := ⟨c, []⟩

/-- The failure to write a text that would show an integer of too many digits. -/
def unwritable : Failure := of (.badNumber .unwritable)

/-- The errors of a failure, the outermost first. -/
def links (f : Failure) : List Cause := f.head :: f.behind

/-- The failure that an error in front of another makes. -/
def because (c : Cause) (f : Failure) : Failure := ⟨c, f.links⟩

/-- A failure that strikes during the clean-up for another one. -/
def during (f earlier : Failure) : Failure := ⟨f.head, f.behind ++ earlier.links⟩

/-- The root of a failure. -/
def root (f : Failure) : Cause := f.links.getLast (by simp [links])

/-- The first error of a failure that is of a kind. -/
def find? (f : Failure) (k : Kind) : Option Cause := f.links.find? (·.isA k)

/-- Whether the outermost error is of a kind. -/
def isA (f : Failure) (k : Kind) : Bool := f.head.isA k

/-- Whether a failure is one that a workflow reports itself. -/
def isWorkflow (f : Failure) : Bool := f.isA .workflow

/-- Whether a failure is an exception, which all but an interrupt from the keyboard are. -/
def isException (f : Failure) : Bool := f.isA .exception

@[simp] theorem links_of (c : Cause) : (of c).links = [c] := rfl

@[simp] theorem links_because (c : Cause) (f : Failure) : (f.because c).links = c :: f.links := rfl

@[simp] theorem links_during (f earlier : Failure) :
    (f.during earlier).links = f.links ++ earlier.links := rfl

end Failure
end Runbook
