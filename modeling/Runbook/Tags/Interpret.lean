import Runbook.Host.Prompt
import Runbook.Tags.Memory
import Runbook.Tags.Payload

set_option autoImplicit false

/-! # The interpretation of tags

One pass over a document replaces every tagged node by what its tag stands for: a text joined from
parts, an answer of the operator, or the value of an id. The pass goes depth first, through the
values of a mapping and the items of a list in their order, so that questions are asked in the order
of the text. The first occurrence of an id gives it its value. Pairs and sets are left as they are.

A container with a place is worked through at its first occurrence. What the pass has made of it so
far is kept in memory, as it can be seen wherever the container is held, also after a failure. -/

namespace Runbook

/-- An effect on the world and on what is remembered about a document. -/
abbrev Interpretation := Effect (World × TagMemory)

namespace Interpretation

/-- Runs an action. -/
def ofAction {α : Type} (a : Action α) : Interpretation α := fun e s =>
  let (r, w) := a e s.1
  (r, (w, s.2))

/-- What is remembered. -/
def memory : Interpretation TagMemory := fun _ s => (.ok s.2, s)

/-- Changes what is remembered. -/
def remember (f : TagMemory → TagMemory) : Interpretation Unit := fun _ s => (.ok (), (s.1, f s.2))

/-- Yields a value, or fails with a problem with a tag. -/
def check {α : Type} (r : Except TagProblem α) : Interpretation α :=
  Effect.ofExcept (r.mapError fun p => .of (.tag p))

/-- Notes what stands by now in a container that is being worked through. -/
def progress (place : Option Nat) (n : Node) : Interpretation Unit :=
  match place with
  | none => pure ()
  | some p => remember fun m => { m with pending := m.pending.set p n }

/-- Notes what a container holds after it has been worked through. -/
def settle (place : Option Nat) (n : Node) : Interpretation Unit :=
  match place with
  | none => pure ()
  | some p => remember fun m =>
    { m with pending := m.pending.without p, settled := m.settled.set p n }

/-- What a container holds, if it has been worked through. -/
def settled? (place : Option Nat) : Interpretation (Option Node) := do
  return (← memory).settled.at? place

/-- Asks a question and yields its answer. -/
def answer (hidden : Bool) (q : Question) : Interpretation String := do
  let line ← ofAction (if hidden then Action.askHidden q.prompt else Action.ask q.prompt)
  return q.answer (Text.stripLineEnd line)

/-- Asks the question of a payload whose tags have been interpreted. -/
def input (hidden : Bool) (payload : Node) : Interpretation Node := do
  let q ← check (Question.ofNode payload)
  return .text (← answer hidden q)

/-- The value of an id: the one that is known, or the one that an interpretation yields, which is
    remembered. What is handed out is a copy. -/
def identify (id : String) (first : Interpretation Node) : Interpretation Node := do
  match (← memory).ids.get? id with
  | some value => return (← memory).view value
  | none =>
    let value ← first
    remember fun m => { m with ids := m.ids.put id value }
    return (← memory).view value

/-- The text of an item of a text that is joined from parts. -/
def part (index : Nat) (item : Node) : Interpretation String :=
  match item with
  | .scalar (.text s) => pure s
  | other => do
    let seen := (← memory).view other
    check (.error (seen.showing (.joinElement index) .unwritable))

/-- Joins parts that have been interpreted before. -/
def joinSettled (index : Nat) : List Node → Interpretation String
  | [] => pure ""
  | item :: items => do
    let s ← part index item
    return s ++ (← joinSettled (index + 1) items)

/-- Says which tag could not be interpreted. Only what a workflow reports itself and errors of the
    operating system are put into this context. -/
def under {α : Type} (tag : String) (a : Interpretation α) : Interpretation α :=
  a.because (fun f => f.isWorkflow || f.isA .system) (.tag (.failed tag))

end Interpretation

namespace Node

open Interpretation

mutual

/-- Interprets the tags of a node. -/
def interpret : Node → Interpretation Node
  | scalar s => pure (scalar s)
  | pair key value => pure (pair key value)
  | set members => pure (set members)
  | list place items => do
    match ← settled? place with
    | some n => return n
    | none =>
      let items ← interpretItems place [] items
      settle place (list none items)
      return list none items
  | map place entries => do
    match ← settled? place with
    | some n => return n
    | none =>
      let entries ← interpretEntries place [] entries
      settle place (map none entries)
      return map none entries
  | tagged name payload =>
    if name = "StrF" then under name (interpretJoin payload)
    else if name = "Input" then under name (do input false (← interpret payload))
    else if name = "HiddenInput" then under name (do input true (← interpret payload))
    else if name = "Id" then under name (interpretIdent payload)
    else check (.error (.unknown name))

/-- Interprets the items of a list after some that are done. -/
def interpretItems (place : Option Nat) (done : List Node) :
    List Node → Interpretation (List Node)
  | [] => pure done
  | item :: items => do
    progress place (list none (done ++ item :: items))
    let new ← interpret item
    interpretItems place (done ++ [new]) items

/-- Interprets the values of a mapping after some that are done. -/
def interpretEntries (place : Option Nat) (done : List (Scalar × Node)) :
    List (Scalar × Node) → Interpretation (List (Scalar × Node))
  | [] => pure done
  | (key, value) :: entries => do
    progress place (map none (done ++ (key, value) :: entries))
    let new ← interpret value
    interpretEntries place (done ++ [(key, new)]) entries

/-- Joins the items of a list to a text. The list itself stays as it is. -/
def interpretJoin : Node → Interpretation Node
  | list place items => do
    match ← settled? place with
    | some (list _ items) => return text (← joinSettled 0 items)
    | _ => return text (← interpretParts 0 items)
  | _ => check (.error .joinNeedsList)

/-- Joins items to a text, from the one of a given index on. -/
def interpretParts (index : Nat) : List Node → Interpretation String
  | [] => pure ""
  | item :: items => do
    let s ← part index (← interpret item)
    return s ++ (← interpretParts (index + 1) items)

/-- The value of the id that a payload names. What stands beside the id is interpreted only if the
    id has no value yet. -/
def interpretIdent : Node → Interpretation Node
  | list place items => do
    match ← settled? place with
    | some payload =>
      let id ← check payload.ident
      identify id (check payload.identValue)
    | none =>
      let id ← check ((← memory).view (list none items)).ident
      identify id (interpretSecond items)
  | map place entries => do
    match ← settled? place with
    | some payload =>
      let id ← check payload.ident
      identify id (check payload.identValue)
    | none =>
      let id ← check ((← memory).view (map none entries)).ident
      identify id (interpretField "value" entries)
  | _ => check (.error .identShape)

/-- Interprets the second item of a list of two. -/
def interpretSecond : List Node → Interpretation Node
  | [_, value] => interpret value
  | items => check (.error (.identArity items.length))

/-- Interprets the entry for a key. -/
def interpretField (key : String) : List (Scalar × Node) → Interpretation Node
  | [] => check (.error .identValueMissing)
  | (k, value) :: entries =>
    if k.isText key then interpret value else interpretField key entries

end

/-- Interprets the tags of a whole document, knowing the values of some ids. The ids that are found
    are known afterwards, also if the interpretation fails. What is yielded shares nothing with the
    document. -/
def resolve (n : Node) : Effect (World × Idents) Node := fun e s =>
  let (r, (w, m)) := n.interpret e (s.1, TagMemory.start s.2)
  (r.map m.view, (w, m.viewIds))

/-- Interprets the tags of a whole document on its own. -/
def resolveAlone (n : Node) : Action Node := fun e w =>
  let (r, (w, _)) := n.resolve e (w, [])
  (r, w)

end Node
end Runbook
