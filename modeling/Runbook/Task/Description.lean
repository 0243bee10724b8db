import Runbook.Host.Console
import Runbook.Task.Basic

set_option autoImplicit false

/-! # The text of tasks

A task has a description, which fits on one line, and a full text, which shows everything it holds.
They differ for tasks that hold other tasks only. Whatever talks to a remote host is shown with the
password taken out of the finished text. A text that would show an integer of too many digits cannot
be written, and asking for it is a failure. -/

namespace Runbook

/-- The text that shows a text or its absence. -/
def shownText? : Option String → String
  | none => "None"
  | some s => Text.quoted s

/-- The text that shows a list of numbers or its absence. -/
def shownInts? : Option (List Int) → String
  | none => "None"
  | some ns => Text.shownInts ns

/-- The text that shows a platform. -/
def Platform.shown : Platform → String
  | linux => "<OS.LINUX: 'linux'>"
  | windows => "<OS.WINDOWS: 'windows'>"

/-- The word for a shell in descriptions. -/
def Shell.shown : Shell → String
  | bash => "Bash"
  | cmd => "Cmd"

/-- The text that shows a local command. -/
def LocalCommand.shown (c : LocalCommand) : String :=
  c.shell.shown ++ "(args=" ++ Text.quotedWords c.words ++ ", work_dir=" ++ shownText? c.workDir
    ++ ", allowed_exit_codes=" ++ shownInts? c.allowed ++ ")"

/-- Whether a local command is written. -/
def LocalCommand.isWritable (c : LocalCommand) : Bool :=
  (c.allowed.getD []).all Numeral.isWritable

/-- The word for a way to transfer files in descriptions. -/
def TransferKind.shown : TransferKind → String
  | scpDownload => "ScpFileDownload"
  | scpUpload => "ScpFileUpload"
  | sftpDownload => "SftpDownload"
  | sftpUpload => "SftpUpload"

/-- The text that shows a transfer, with the password hidden. -/
def Transfer.shown (t : Transfer) : String :=
  t.target.redaction.scrub (t.kind.shown ++ "(target=" ++ t.target.shown ++ ", remote_path="
    ++ Text.quoted t.remotePath ++ ", local_path=" ++ Text.quoted t.localPath ++ ")")

/-- The text that shows a batch of remote commands, with the password hidden. -/
def shownBatch (target : Target) (commands : List RemoteCommand) : String :=
  target.redaction.scrub ("SshTask(target=" ++ target.shown ++ ", commands="
    ++ Text.bracketed (commands.map RemoteCommand.shown) ++ ")")

namespace Task

/-- The text that shows a message to print. -/
def shownPrint (message : String) : String := "PrintTask(prompt=" ++ Text.quoted message ++ ")"

/-- The description of a task. -/
def describe : Task → String
  | job name _ => "Job " ++ Text.quoted name
  | onPlatform platform _ => "OSDependent " ++ Text.quoted platform.name
  | parallel tasks threads =>
    "ParallelTask (threads=" ++ toString threads ++ ", tasks=" ++ toString tasks.length ++ ")"
  | print message => shownPrint message
  | run command => command.shown
  | ssh target commands => shownBatch target commands
  | transfer t => t.shown
  | probe name _ => "Fake " ++ name

mutual

/-- The full text of a task. -/
def shown : Task → String
  | job name tasks =>
    "Job(name=" ++ Text.quoted name ++ ", tasks=" ++ Text.bracketed (shownAll tasks) ++ ")"
  | onPlatform platform tasks =>
    "OSDependent(os=" ++ platform.shown ++ ", tasks=" ++ Text.bracketed (shownAll tasks) ++ ")"
  | parallel tasks threads =>
    "ParallelTask(tasks=" ++ Text.bracketed (shownAll tasks) ++ ", threads=" ++ toString threads
      ++ ")"
  | print message => shownPrint message
  | run command => command.shown
  | ssh target commands => shownBatch target commands
  | transfer t => t.shown
  | probe name _ => "Fake " ++ name

/-- The full texts of some tasks. -/
def shownAll : List Task → List String
  | [] => []
  | t :: ts => shown t :: shownAll ts

end

/-! ## What is written -/

/-- Whether the description of a task is written. -/
def hasWritableDescription : Task → Bool
  | job _ _ | onPlatform _ _ | print _ | probe _ _ => true
  | parallel _ threads => Numeral.isWritable threads
  | run command => command.isWritable
  | ssh target commands => target.isWritable && commands.all RemoteCommand.isWritable
  | transfer t => t.target.isWritable

mutual

/-- Whether the full text of a task is written. -/
def isWritable : Task → Bool
  | job _ tasks => areWritable tasks
  | onPlatform _ tasks => areWritable tasks
  | parallel tasks threads => Numeral.isWritable threads && areWritable tasks
  | t => t.hasWritableDescription

/-- Whether the full texts of some tasks are written. -/
def areWritable : List Task → Bool
  | [] => true
  | t :: ts => isWritable t && areWritable ts

end

/-- The description of a task, if it can be written. -/
def describe? (t : Task) : Except Failure String :=
  if t.hasWritableDescription then .ok t.describe else .error .unwritable

/-- The full text of a task, if it can be written. -/
def shown? (t : Task) : Except Failure String :=
  if t.isWritable then .ok t.shown else .error .unwritable

/-! ## The tree of a task -/

mutual

/-- A task and everything below it, each task before what it holds and one level above it. -/
def levels (depth : Int) : Task → List (Int × Task)
  | t@(job _ tasks) => (depth, t) :: levelsOf (depth + 1) tasks
  | t@(onPlatform _ tasks) => (depth, t) :: levelsOf (depth + 1) tasks
  | t@(parallel tasks _) => (depth, t) :: levelsOf (depth + 1) tasks
  | t => [(depth, t)]

/-- Some tasks and everything below them, with their levels. -/
def levelsOf (depth : Int) : List Task → List (Int × Task)
  | [] => []
  | t :: ts => levels depth t ++ levelsOf depth ts

end

/-- The line that shows a task at a level. -/
def treeLine (depth : Int) (t : Task) : String := indentation depth.toNat ++ t.describe

/-- The lines that show a task and everything below it. -/
def tree (depth : Int) (t : Task) : List String := (t.levels depth).map fun (d, u) => u.treeLine d

end Task

namespace Console

/-- Writes some lines to the output. -/
def lines : List String → Action Unit
  | [] => pure ()
  | line :: rest => do
    Action.writeLine line
    lines rest

/-- Shows some tasks at their levels, up to the first that cannot be described. -/
def taskLines : List (Int × Task) → Action Unit
  | [] => pure ()
  | (depth, t) :: rest => do
    let _ ← Effect.ofExcept t.describe?
    Action.writeLine (t.treeLine depth)
    taskLines rest

/-- Shows a task and everything below it. -/
def taskTree (t : Task) (depth : Int) : Action Unit := taskLines (t.levels depth)

end Console
end Runbook
