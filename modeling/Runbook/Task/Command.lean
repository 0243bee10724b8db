import Runbook.Host.Console
import Runbook.Task.Basic

set_option autoImplicit false

/-! # Running local commands

A command is given to its shell and succeeds by its exit code, provided that all it has written is
text. When it fails, the last part of its error output is reported. -/

namespace Runbook

namespace Text

/-- The last characters of a text, as many as are asked for. None asked for means all; a count below
    zero says how many are left out at the front. -/
def tail (n : Int) (s : String) : String :=
  let cs := s.toList
  if n = 0 then s
  else if n < 0 then String.ofList (cs.drop n.natAbs)
  else String.ofList (cs.drop (cs.length - n.toNat))

end Text

namespace LocalCommand

/-- The program and the arguments that run a command. -/
def argv (c : LocalCommand) : List String :=
  match c.shell with
  | .bash => ["bash", "-c", Text.unwords c.words]
  | .cmd => "cmd" :: "/c" :: c.words

/-- The program that runs a command. -/
def program (c : LocalCommand) : String :=
  match c.shell with
  | .bash => "bash"
  | .cmd => "cmd"

/-- Whether an exit code is a success. -/
def isAllowed (c : LocalCommand) (code : Int) : Bool :=
  match c.allowed with
  | none => code = 0
  | some codes => codes.contains code

/-- The exit codes that a report names as successes. -/
def reportedCodes (c : LocalCommand) : List Int :=
  match c.allowed with
  | none | some [] => [0]
  | some codes => codes

/-- Runs the process of a command to its end and yields its exit code and the text on its error output.
    That fails if the process does not run to its end, or has written what is no text. -/
def spawn (c : LocalCommand) : Action (Int × String) := do
  let before := (← Effect.get).events
  Action.perform (.spawn c.argv c.workDir)
  let p := (← Effect.setting).process before c.argv
  match p.fault with
  | none => Effect.ofExcept (p.streams.errorText.map fun stderr => (p.code, stderr))
  | some f => Effect.fail f

/-- The directory that the trace names. -/
def shownDirectory (c : LocalCommand) : String :=
  match c.workDir with
  | none | some "" => "."
  | some d => d

/-- Runs a command. -/
def execute (c : LocalCommand) : Action Unit := do
  Console.debug ("spawn " ++ Text.quotedWords c.argv ++ " (cwd=" ++ c.shownDirectory ++ ")")
  let (code, stderr) ← c.spawn.because (·.isA .system) (.onHost (.runCommand c.program c.words))
  if c.isAllowed code then pure ()
  else
    let kept := Text.tail (← Effect.setting).stderrTail stderr
    Effect.failWith (.shellCommand c.words code c.reportedCodes kept)

end LocalCommand
end Runbook
