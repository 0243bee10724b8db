import Runbook.Host.Action
import Runbook.Text.Blank

set_option autoImplicit false

/-! # Questions to the operator

A question is shown and one line is read as its answer. The answer to a hidden question is not shown
while it is typed. At a terminal both kinds read from the same lines; a scripted operator has a list
of answers for each kind and answers with an empty line when it is used up. -/

namespace Runbook.Action

/-- Removes the terminal's colour sequences: an escape, an opening bracket, digits and signs of a
    sequence, and a letter. -/
def plainFrom : Nat → List Char → List Char
  | 0, cs => cs
  | _ + 1, [] => []
  | fuel + 1, '\x1b' :: '[' :: cs =>
    match cs.dropWhile fun c => c = ';' || c = '?' || c.isDigit with
    | c :: rest => if c.isAlpha then plainFrom fuel rest else '\x1b' :: plainFrom fuel ('[' :: cs)
    | [] => '\x1b' :: plainFrom fuel ('[' :: cs)
  | fuel + 1, c :: cs => c :: plainFrom fuel cs

/-- A text without the terminal's colour sequences, which an output that is no terminal does not
    get. -/
def plain (s : String) : String := String.ofList (plainFrom (s.toList.length + 1) s.toList)

/-- Takes the next line that the operator types. After the last one it is empty. -/
def nextLine : Action String := fun _ w =>
  match w.lines with
  | [] => (.ok "", w)
  | line :: rest => (.ok line, { w with lines := rest })

/-- Takes the next hidden answer of a scripted operator. After the last one it is empty. -/
def nextHidden : Action String := fun _ w =>
  match w.hidden with
  | [] => (.ok "", w)
  | line :: rest => (.ok line, { w with hidden := rest })

/-- Asks a question at the terminal. -/
def askAtTerminal (question : String) : Action String := do
  write (plain question)
  nextLine

/-- Asks a hidden question at the terminal. It ends its own line, as the typed line end is not
    shown. Without an answer the run is aborted. -/
def askHiddenAtTerminal (question : String) : Action String := do
  write (plain (String.ofList (Text.dropEndWhile (· = ' ') question.toList)))
  writeLine " "
  let w ← Effect.get
  match w.lines with
  | [] =>
    writeLine ""
    Effect.failWith .aborted
  | line :: rest =>
    Effect.modify fun w => { w with lines := rest }
    pure (Text.stripLineEnd line)

/-- Asks a question and yields the line that answers it. -/
def ask (question : String) : Action String := do
  match (← Effect.setting).operator with
  | .terminal => askAtTerminal question
  | .scripted =>
    perform (.prompt question)
    nextLine

/-- Asks a hidden question and yields the line that answers it. -/
def askHidden (question : String) : Action String := do
  match (← Effect.setting).operator with
  | .terminal => askHiddenAtTerminal question
  | .scripted =>
    perform (.hiddenPrompt question)
    nextHidden

end Runbook.Action
