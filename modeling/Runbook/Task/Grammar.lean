import Runbook.Document.Node
import Runbook.Host.Action
import Runbook.Task.Basic

set_option autoImplicit false

/-! # The grammar of workflows

A document without tags becomes jobs. Its root maps the names of jobs to their bodies, which are
lists of tasks. A task is a mapping whose first entry names its kind, or a text, which refers to
another job of the document; the tasks of that job are found anew at each reference. A name that
occurs again on its own chain of references is refused. Each failure says where it occurred, from
the job inwards. -/

namespace Runbook

/-- What a workflow may leave out: the number of workers of a parallel group, and the port of a
    remote host. -/
structure TaskDefaults where
  threads : Int
  port : Int
deriving DecidableEq, Repr, Inhabited

/-- The number of workers that some processors allow. One processor is left to the program itself;
    an unknown number counts as two. -/
def defaultThreads (cpus : Option Int) : Int :=
  match cpus with
  | none | some 0 => 1
  | some n => max 1 (n - 1)

/-- What a workflow may leave out in a setting. -/
def Setting.taskDefaults (e : Setting) : TaskDefaults := ⟨defaultThreads e.cpus, e.sshPort⟩

/-- What a part of a workflow stands for, or why it is refused. -/
abbrev Parsed (α : Type) := Except Failure α

namespace Parsed

/-- Refuses. -/
def refuse {α : Type} (p : GrammarProblem) : Parsed α := .error (.of (.grammar p))

/-- Says where a refusal took place, if it is one that a workflow reports itself. -/
def inside {α : Type} (p : GrammarProblem) (r : Parsed α) : Parsed α :=
  r.mapError fun f => if f.isWorkflow then f.because (.grammar p) else f

/-- Accepts the parts of a list one after the other. -/
def all {α β : Type} (f : α → Parsed β) : List α → Parsed (List β)
  | [] => .ok []
  | a :: as => do
    let b ← f a
    return b :: (← all f as)

end Parsed

/-! ## Fields -/

namespace Node

open Parsed

/-- The entries of a mapping. -/
def requireEntries (what : String) : Node → Parsed Entries
  | map _ entries => .ok entries
  | _ => refuse (.notMapping what)

/-- The items of a list. -/
def requireItems (what : String) : Node → Parsed (List Node)
  | list _ items => .ok items
  | _ => refuse (.notSequence what)

/-- An exit code. A truth value is none. -/
def exitCode : Node → Parsed Int
  | scalar (.int n) => .ok n
  | other => refuse (other.showing .exitCodeNotNumber .unwritable)

/-- Why a node cannot be asked for a field. A mapping can, and a list or a text can if it does not
    hold the name of the field. -/
def fieldMisuse? (field : String) : Node → Option Misuse
  | map _ _ => none
  | list _ items => if items.any (·.asText? = some field) then some .listByName else none
  | scalar (.text s) => if Text.holds field.toList s.toList then some .textByName else none
  | scalar (.bytes _) => some .bytesSearched
  | other => some (.notSearched other.typeName)

/-- Asks a node without fields for one. -/
def lacks (n : Node) (field : String) : Parsed Unit :=
  match n.fieldMisuse? field with
  | some m => refuse (.misuse m)
  | none => .ok ()

end Node

namespace Entries

open Parsed

/-- A field that may be missing and is a text. -/
def text? (es : Entries) (field : String) : Parsed (Option String) :=
  match es.get? field with
  | none => .ok none
  | some (.scalar (.text s)) => .ok (some s)
  | some _ => refuse (.fieldNotText field)

/-- A field that is a text. -/
def text (es : Entries) (field : String) : Parsed String := do
  match ← es.text? field with
  | some s => return s
  | none => refuse (.fieldMissing field)

/-- A field that may be missing and is a number. A truth value is none. -/
def number? (es : Entries) (field : String) : Parsed (Option Int) :=
  match es.get? field with
  | none => .ok none
  | some (.scalar (.int n)) => .ok (some n)
  | some _ => refuse (.fieldNotNumber field)

/-- The exit codes of a command, if they are given. -/
def exitCodes? (es : Entries) : Parsed (Option (List Int)) :=
  match es.get? "exit_codes" with
  | none => .ok none
  | some value => do
    let codes ← value.requireItems "exit_codes"
    if codes.isEmpty then refuse .exitCodesEmpty
    else return some (← Parsed.all Node.exitCode codes)

/-- The remote host that some fields describe. -/
def target (d : TaskDefaults) (es : Entries) : Parsed Target := do
  let port ← es.number? "port"
  let address ← es.text "address"
  let username ← es.text "username"
  let password ← es.text "password"
  return ⟨address, username, password, port.getD d.port⟩

end Entries

namespace Node

open Parsed

/-- The exit codes of a command, if a node gives them, which only a mapping can. -/
def exitCodes? : Node → Parsed (Option (List Int))
  | map _ entries => Entries.exitCodes? entries
  | other => do
    other.lacks "exit_codes"
    return none

/-- The remote host that a node describes, which only a mapping can. -/
def target (d : TaskDefaults) : Node → Parsed Target
  | map _ entries => Entries.target d entries
  | other => do
    other.lacks "port"
    other.lacks "address"
    refuse (.fieldMissing "address")

end Node

/-! ## Tasks that hold no others -/

namespace Node

open Parsed

/-- A local command: a text, or a mapping with the text and more. The text is cut at single spaces.
    -/
def localCommand (shell : Shell) : Node → Parsed LocalCommand
  | scalar (.text s) => .ok ⟨shell, Text.words s, none, none⟩
  | other => do
    let es ← other.requireEntries "shell task"
    let command ← es.text "command"
    let workDir ← es.text? "work_dir"
    let allowed ← es.exitCodes?
    return ⟨shell, Text.words command, workDir, allowed⟩

/-- A message to print. -/
def message : Node → Parsed String
  | scalar (.text s) => .ok s
  | other => refuse (other.showing .printNotText .unwritable)

/-- A transfer. -/
def transfer (d : TaskDefaults) (kind : TransferKind) (n : Node) : Parsed Transfer := do
  let es ← n.requireEntries "remote transfer"
  let target ← es.target d
  let remotePath ← es.text "remote_path"
  let localPath ← es.text "local_path"
  return ⟨kind, target, remotePath, localPath⟩

/-- The mapping that describes a remote command: the one at its command, if that is a mapping. -/
def commandEntries (es : Entries) : Entries :=
  match es.get? "command" with
  | some (map _ inner) => inner
  | _ => es

/-- A remote command: a text, or a mapping with the text and more. -/
def remoteCommand : Node → Parsed RemoteCommand
  | scalar (.text s) => .ok ⟨s, [0]⟩
  | other => do
    let es := commandEntries (← other.requireEntries "ssh command")
    let command ← es.text "command"
    let allowed ← es.exitCodes?
    return ⟨command, allowed.getD [0]⟩

/-- A remote host and the commands for it. -/
def batch (d : TaskDefaults) (n : Node) : Parsed (Target × List RemoteCommand) := do
  let es ← n.requireEntries "ssh task"
  let target ← es.target d
  match es.get? "commands" with
  | none => refuse .commandsMissing
  | some commands =>
    let items ← commands.requireItems "commands"
    return (target, ← Parsed.all remoteCommand items)

/-- The number of workers that the mapping of a parallel group gives. -/
def threads (d : TaskDefaults) (es : Entries) : Parsed Int := do
  match ← es.number? "threads" with
  | none => return d.threads
  | some n => if n < 1 then refuse .threadsBelowOne else return n

/-- Why a node has no first entry with a text as its key. -/
def entryProblem : Node → GrammarProblem
  | map _ [] => .taskEmpty
  | map _ _ => .taskNameNotText
  | _ => .taskNotMapping

/-- The first entry of a task: the name of its kind, and what is said about it. -/
def taskEntry : Node → Parsed (String × Node)
  | map _ ((.text kind, config) :: _) => .ok (kind, config)
  | other => refuse other.entryProblem

/-! ## Tasks and jobs -/

variable (d : TaskDefaults) (reference : String → Parsed Task)

mutual

/-- A task. It is said what a reference to a job stands for. -/
def task : Node → Parsed Task
  | scalar (.text name) => reference name
  | map _ ((.text kind, config) :: _) =>
    if kind = "bash" then inside (.inKind kind) ((config.localCommand .bash).map .run)
    else if kind = "cmd" then inside (.inKind kind) ((config.localCommand .cmd).map .run)
    else if kind = "on-windows" then inside (.inKind kind) (branch .windows config)
    else if kind = "on-linux" then inside (.inKind kind) (branch .linux config)
    else if kind = "ssh" then
      inside (.inKind kind) ((config.batch d).map fun (target, commands) => .ssh target commands)
    else if kind = "scp-download" then
      inside (.inKind kind) ((config.transfer d .scpDownload).map .transfer)
    else if kind = "scp-upload" then
      inside (.inKind kind) ((config.transfer d .scpUpload).map .transfer)
    else if kind = "sftp-download" then
      inside (.inKind kind) ((config.transfer d .sftpDownload).map .transfer)
    else if kind = "sftp-upload" then
      inside (.inKind kind) ((config.transfer d .sftpUpload).map .transfer)
    else if kind = "print" then inside (.inKind kind) (config.message.map .print)
    else if kind = "parallel" then inside (.inKind kind) (group config)
    else refuse (.taskUnknown kind)
  | other => refuse other.entryProblem

/-- The tasks of a list, from an index on. -/
def tasks (owner : String) (index : Nat) : List Node → Parsed (List Task)
  | [] => .ok []
  | n :: ns => do
    let t ← inside (.inTask owner index) (task n)
    return t :: (← tasks owner (index + 1) ns)

/-- A platform branch. -/
def branch (platform : Platform) : Node → Parsed Task
  | list _ items => (tasks ("on-" ++ platform.name) 0 items).map (.onPlatform platform)
  | _ => refuse (.notSequence ("on-" ++ platform.name))

/-- A parallel group: a list of tasks, or a mapping with the list and more. It is not empty. -/
def group : Node → Parsed Task
  | list _ items =>
    if items.isEmpty then refuse .parallelEmpty
    else (tasks "parallel" 0 items).map (.parallel · d.threads)
  | map _ entries => do
    let threads ← threads d entries
    groupField threads entries
  | _ => refuse .parallelShape

/-- The parallel group whose tasks are in a field of a mapping. -/
def groupField (threads : Int) : List (Scalar × Node) → Parsed Task
  | [] => refuse .parallelTasksMissing
  | (key, value) :: entries =>
    if key.isText "tasks" then groupTasks threads value else groupField threads entries

/-- The parallel group of a list of tasks that a mapping holds. -/
def groupTasks (threads : Int) : Node → Parsed Task
  | list _ items =>
    if items.isEmpty then refuse .parallelEmpty
    else (tasks "parallel" 0 items).map (.parallel · threads)
  | _ => refuse (.notSequence "tasks of parallel task")

end

end Node

namespace Entries

open Parsed

/-- Whether an entry defines a job that is not on a chain of references. -/
def isFresh (stack : List String) (e : Scalar × Node) : Bool :=
  match e.1 with
  | .text name => !stack.contains name
  | _ => false

/-- How many jobs of a document are not on a chain of references. -/
def freshCount (root : Entries) (stack : List String) : Nat := root.countP (isFresh stack)

theorem freshCount_lt {root : Entries} {stack : List String} {name : String} {value : Node}
    (h : root.get? name = some value) (hn : name ∉ stack) :
    root.freshCount (stack ++ [name]) < root.freshCount stack := by
  obtain ⟨e, he, -⟩ := Option.map_eq_some_iff.1 h
  have hm := List.mem_of_find?_eq_some he
  have hk : e.1 = .text name := by
    have := List.find?_some he
    rcases e with ⟨k, v⟩
    cases k <;> simp_all [Scalar.isText]
  have hle : ∀ es : Entries, es.countP (isFresh (stack ++ [name])) ≤ es.countP (isFresh stack) :=
    fun es => List.countP_mono_left fun x _ => by
      rcases x with ⟨k, v⟩
      cases k with
      | text s => simpa [isFresh] using fun hs _ => hs
      | _ => simp [isFresh]
  obtain ⟨before, after, rfl⟩ := List.append_of_mem hm
  have h1 := hle before
  have h2 := hle after
  have h3 : isFresh (stack ++ [name]) e = false := by simp [isFresh, hk]
  have h4 : isFresh stack e = true := by simp [isFresh, hk, hn]
  simp only [freshCount, List.countP_append, List.countP_cons, h3, h4]
  simp
  omega

/-- The job of a name, at the end of a chain of references. -/
def job (d : TaskDefaults) (root : Entries) (stack : List String) (name : String) : Parsed Job :=
  if hn : name ∈ stack then
    refuse (.jobCycle (stack.dropWhile (· ≠ name) ++ [name]))
  else
    match h : root.get? name with
    | none => refuse (.jobUnknown name)
    | some value => inside (.inJob name) do
      let body ← value.requireItems ("Child of " ++ name)
      have := freshCount_lt h hn
      let tasks ← Node.tasks d (fun other => (job d root (stack ++ [name]) other).map Job.task)
        name 0 body
      return ⟨name, tasks⟩
termination_by root.freshCount stack

/-- The key under which a document keeps what is no job. -/
def ignoredKey : String := "IGNORE"

/-- The jobs of some entries of a document, in order. -/
def jobsOf (d : TaskDefaults) (root : Entries) : Entries → Parsed (List Job)
  | [] => .ok []
  | (.text name, _) :: entries =>
    if name = ignoredKey then jobsOf d root entries
    else do
      let j ← job d root [] name
      return j :: (← jobsOf d root entries)
  | (other, _) :: _ => refuse ((Node.scalar other).showing .jobNameNotText .unwritable)

end Entries

namespace Node

/-- The jobs of a document. -/
def jobs (d : TaskDefaults) (n : Node) : Parsed (List Job) := do
  let root ← n.requireEntries "Document root"
  Entries.jobsOf d root root

end Node
end Runbook
