import Runbook.Document.Node
import Runbook.Error.Problem

set_option autoImplicit false

/-! # What tags are applied to

The rules on the payload of a tag: what asks a question, and what names an id. Each accepts a short
form, a list, and a long form, a mapping. -/

namespace Runbook

/-- A question to the operator, and the answer that an empty one stands for. -/
structure Question where
  prompt : String
  default : Option String
deriving DecidableEq, Repr

namespace Question

/-- The question in a list: the prompt, and then perhaps the default. -/
def ofItems : List Node → Except TagProblem Question
  | [.scalar (.text prompt)] => .ok ⟨prompt, none⟩
  | [.scalar (.text prompt), .scalar (.text default)] => .ok ⟨prompt, some default⟩
  | [.scalar (.text _), _] => .error .promptDefaultNotText
  | [_] | [_, _] => .error .promptNotText
  | items => .error (.promptArity items.length)

/-- The question in a mapping. A null stands for no default. -/
def ofEntries (entries : Entries) : Except TagProblem Question :=
  match Entries.get? entries "prompt" with
  | none => .error .promptMissing
  | some (.scalar (.text prompt)) =>
    match Entries.get? entries "default" with
    | none | some (.scalar .null) => .ok ⟨prompt, none⟩
    | some (.scalar (.text default)) => .ok ⟨prompt, some default⟩
    | some _ => .error .defaultFieldNotText
  | some _ => .error .promptFieldNotText

/-- The question that a payload without tags asks. -/
def ofNode : Node → Except TagProblem Question
  | .scalar (.text prompt) => .ok ⟨prompt, none⟩
  | .list _ items => ofItems items
  | .map _ entries => ofEntries entries
  | _ => .error .promptShape

/-- The answer to a question: the default stands for an empty one. -/
def answer (q : Question) (typed : String) : String :=
  match q.default with
  | none => typed
  | some default => if typed = "" then default else typed

end Question

namespace Node

/-- The id of a text. -/
def asIdent : Node → Except TagProblem String
  | .scalar (.text id) => .ok id
  | other => .error (other.showing .identNotText .unwritable)

/-- The id that a payload names: the first item of a list, or the entry for it in a mapping. -/
def ident : Node → Except TagProblem String
  | .map _ entries =>
    match Entries.get? entries "id" with
    | none => .error .identFieldMissing
    | some id => id.asIdent
  | .list _ [] => .error .identMissing
  | .list _ (id :: _) => id.asIdent
  | _ => .error .identShape

/-- The parts of a node that has them one after the other: the items of a list, the characters of a
    text, the numbers of bytes. -/
def parts? : Node → Option (List Node)
  | .list _ items => some items
  | .pair key value => some [key, value]
  | .scalar (.text s) => some (s.toList.map fun c => .text (String.singleton c))
  | .scalar (.bytes bs) => some (bs.map fun b => .scalar (.int b.toNat))
  | _ => none

/-- The value beside the id of a payload: the entry for it in a mapping, or the second of two parts.
    -/
def identValue : Node → Except TagProblem Node
  | .map _ entries =>
    match Entries.get? entries "value" with
    | none => .error .identValueMissing
    | some value => .ok value
  | other =>
    match other.parts? with
    | some [_, value] => .ok value
    | some parts => .error (.identArity parts.length)
    | none => .error (.misuse (.noParts other.typeName))

/-- The text of an answer without the line end it was typed with. -/
def answerText : Node → Except TagProblem String
  | .scalar (.text s) => .ok (Text.stripLineEnd s)
  | .scalar (.bytes _) => .error (.misuse .bytesLineEnd)
  | other => .error (.misuse (.noLineEnd other.typeName))

end Node
end Runbook
