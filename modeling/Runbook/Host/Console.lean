import Runbook.Host.Action
import Runbook.Text.Lines

set_option autoImplicit false

/-! # The console

What the program tells its operator: results on the output, errors and the trace of a debugging run
on the error output. An error is shown with all errors behind it, one level deeper for each. -/

namespace Runbook

/-! ## The report of a failure -/

/-- The spaces before a line of some depth. -/
def indentation (depth : Nat) : String := String.ofList (List.replicate (2 * depth) ' ')

/-- The lines that report one error of a chain. An error behind another says so, and the lines of a
    message after its first one stand a step to the right. -/
def Cause.report (depth : Nat) (c : Cause) : List String :=
  let indent := indentation depth
  let lead := if depth = 0 then "" else "Caused by "
  let messageLines := Text.lines c.message
  (indent ++ lead ++ c.kind.label ++ ": " ++ messageLines.headD "")
    :: (messageLines.drop 1).map fun line => indent ++ "  " ++ line

/-- What stands in place of the trace of a failure. -/
def traceLine : String := "<traceback>"

namespace Console

open Runbook.Action

/-- Writes some lines to the error output. -/
def errorLines : List String → Action Unit
  | [] => pure ()
  | line :: rest => do
    writeErrorLine line
    errorLines rest

/-- Runs an action in a debugging run only. -/
def whenDebugging (a : Action Unit) : Action Unit := do
  if (← Effect.setting).debug then a

/-- Writes a message to the output. -/
def info (message : String) : Action Unit := writeLine message

/-- Writes a message of the trace. -/
def debug (message : String) : Action Unit := whenDebugging (writeErrorLine ("[DEBUG] " ++ message))

/-- Writes a header with a line below it. -/
def header (title : String) : Action Unit := do
  writeLine ("\n" ++ title)
  writeLine (String.ofList (List.replicate title.length '-'))

/-- Says that a job starts. -/
def jobStarted (name : String) (taskCount : Int) : Action Unit :=
  writeLine ("Executing Job " ++ name ++ " (" ++ toString taskCount ++ " task(s))")

/-- Says that a job has succeeded. -/
def success (name : String) : Action Unit := writeLine ("Job " ++ name ++ ": SUCCESS")

/-- Says in the trace that a task starts. -/
def taskStarted (owner : String) (index : Int) (task : String) : Action Unit :=
  debug ("[" ++ owner ++ "] #" ++ toString index ++ " " ++ task)

/-- Reports an error that has no other behind it. -/
def error (title message : String) : Action Unit := errorLines ["\nERROR: " ++ title, message]

/-- Reports some errors, the first at a given depth, up to one whose message cannot be written. -/
def errorsFrom (depth : Nat) : List Cause → Action Unit
  | [] => pure ()
  | c :: cs => do
    if !c.isWritable then Effect.fail .unwritable
    errorLines (c.report depth)
    errorsFrom (depth + 1) cs

/-- Reports some errors, the outermost first. -/
def errorChain (title : String) (links : List Cause) : Action Unit := do
  writeErrorLine ("\nERROR: " ++ title)
  errorsFrom 0 links
  whenDebugging (writeErrorLine traceLine)

/-- Reports an error that was not expected. -/
def unexpected (c : Cause) : Action Unit := do
  if (← Effect.setting).debug then writeErrorLine traceLine
  else if !c.isWritable then Effect.fail .unwritable
  else writeErrorLine ("Unexpected error: " ++ c.kind.name ++ ": " ++ c.message)

end Console
end Runbook
