import Runbook.Error.Failure
import Runbook.Remote.Target
import Runbook.Text.Words

set_option autoImplicit false

/-! # Tasks

What a job can do. A task either holds other tasks, as jobs, platform branches and parallel groups
do, or does one thing: print a line, run a local command, run commands on a remote host, or transfer
files to or from one. -/

namespace Runbook

/-- A platform on which a workflow runs. -/
inductive Platform where
  | linux
  | windows
deriving DecidableEq, Repr, Inhabited

namespace Platform

/-- The name of a platform. -/
def name : Platform → String
  | linux => "linux"
  | windows => "windows"

/-- The platform that the name of a host system belongs to. -/
def ofHost? (host : String) : Option Platform :=
  if "win".toList.isPrefixOf host.toList then some windows
  else if "linux".toList.isPrefixOf host.toList then some linux
  else none

end Platform

/-- A program that interprets local commands. -/
inductive Shell where
  | bash
  | cmd
deriving DecidableEq, Repr, Inhabited

/-- A local command: its words, the directory it runs in, and the exit codes with which it succeeds.
    Without a list of codes only zero is a success. -/
structure LocalCommand where
  shell : Shell
  words : List String
  workDir : Option String
  allowed : Option (List Int)
deriving DecidableEq, Repr, Inhabited

/-- The ways to transfer files. -/
inductive TransferKind where
  | scpDownload
  | scpUpload
  | sftpDownload
  | sftpUpload
deriving DecidableEq, Repr, Inhabited

/-- A transfer between a path of a remote host and a local path. -/
structure Transfer where
  kind : TransferKind
  target : Target
  remotePath : String
  localPath : String
deriving DecidableEq, Repr, Inhabited

/-- A task. A probe leaves a mark and may then fail; runs are observed by it. -/
inductive Task where
  | job (name : String) (tasks : List Task)
  | onPlatform (platform : Platform) (tasks : List Task)
  | parallel (tasks : List Task) (threads : Int)
  | print (message : String)
  | run (command : LocalCommand)
  | ssh (target : Target) (commands : List RemoteCommand)
  | transfer (t : Transfer)
  | probe (name : String) (failure : Option Failure)
deriving Repr, Inhabited

namespace Task

/-- The tasks that a task holds. -/
def children : Task → List Task
  | job _ tasks => tasks
  | onPlatform _ tasks => tasks
  | parallel tasks _ => tasks
  | _ => []

/-- The remote host that a task talks to. -/
def target? : Task → Option Target
  | ssh target _ => some target
  | transfer t => some t.target
  | _ => none

end Task

/-- A job: a name, and the tasks that are run in order under it. -/
structure Job where
  name : String
  tasks : List Task
deriving Repr, Inhabited

namespace Job

/-- A job as a task. -/
def task (j : Job) : Task := .job j.name j.tasks

end Job
end Runbook
