import Runbook.Cli.Usage
import Runbook.Host.Files
import Runbook.Host.Prompt
import Runbook.Task.Execution
import Runbook.Text.Lower
import Runbook.Workflow

set_option autoImplicit false

/-! # The program

What the commands do: one runs a job of a workflow file, the other lists the jobs of one without
asking anything. A failure that a workflow reports itself ends with code 1 and a report of all
errors behind it, a wrong command line with code 2, an interrupt of a running job with code 130.
Whatever else goes wrong while a file is read leaves the program as it is. -/

namespace Runbook

namespace FileTree

/-- What a text leads to, followed name by name as it is written. The empty text leads nowhere, and
    a slash at its end asks for a directory. -/
def atText? (t : FileTree) (workingDir : List String) (s : String) : Option FileTree :=
  if s = "" || pathLimit < s.utf8ByteSize then none
  else
    let names := (Text.splitAtChar '/' s.toList).map String.ofList
    match t.follow (if names.head? = some "" then [] else workingDir) names with
    | .ok (.inside names) => t.get? names
    | _ => none

end FileTree

namespace Cli

/-- How a run of the program ends. -/
inductive Ending where
  | code (n : Nat)
  | refused (p : UsageProblem)
  | crashed (f : Failure)
deriving DecidableEq, Repr

/-- The workflow file that an argument names, if it is there and has the ending of one. -/
def workflowFile (arg : String) : Action (Except UsageProblem Path) := do
  if !noNull arg then Effect.failWith .nullInPath
  match (← Effect.get).files.atText? (← Effect.setting).workingDir arg with
  | none => return .error (.fileMissing arg)
  | some (.dir _) => return .error (.fileIsDirectory arg)
  | some (.file _) =>
    let path := Path.ofText arg
    if Workflow.suffixes.contains (Text.lower path.suffix) then return .ok path
    else return .error (.fileNotYaml path.toText)

/-! ## Commands -/

/-- Reports a failure that a workflow reports itself; any other leaves the program. -/
def reportOr (title : String) (f : Failure) : Action Nat := do
  if f.isWorkflow then
    Console.errorChain title f.links
    return 1
  else Effect.fail f

/-- Runs a selected job, and reports how it failed. -/
def runSelected (jobs : List Job) (name : String) : Action Nat := do
  match ← (Job.run jobs name).attempt with
  | .ok () => return 0
  | .error f =>
    if f.isA .keyboardInterrupt then
      Console.info "\nInterrupted by user"
      return 130
    else if f.isWorkflow then
      Console.errorChain ("Job " ++ name ++ " failed") f.links
      return 1
    else if f.isException then
      Console.unexpected f.head
      return 1
    else Effect.fail f

/-- Runs a job of a workflow file. -/
def run (file : Path) (name : String) (verbose : Bool) : Action Nat := do
  match ← (Workflow.load file).attempt with
  | .error f => reportOr ("Could not load workflow " ++ file.toText) f
  | .ok jobs =>
    match Job.find jobs name with
    | .error f => reportOr "Job not found" f
    | .ok selected =>
      if verbose then
        Console.header ("Job tree: " ++ selected.name)
        Console.taskTree selected.task 0
        Console.info ""
      runSelected jobs name

/-- The names under which a document has jobs, as they are listed. -/
def listed (entries : Entries) : Except Failure (List String) :=
  let names := (entries.filter fun e => !e.1.isText Entries.ignoredKey).map (·.1)
  if names.all Scalar.isWritable then .ok (names.map Scalar.title) else .error .unwritable

/-- Lists the jobs of a workflow file. -/
def list (file : Path) : Action Nat := do
  match ← file.document.attempt with
  | .error f => reportOr ("Could not load workflow " ++ file.toText) f
  | .ok (.map _ entries) =>
    match ← Effect.ofExcept (listed entries) with
    | [] =>
      Console.info "No jobs defined."
      return 0
    | names =>
      Console.info "Jobs:"
      Console.lines (names.map ("- " ++ ·))
      return 0
  | .ok _ =>
    Console.error "Invalid workflow" (file.toText ++ " does not contain a mapping of jobs")
    return 1

/-! ## Command lines -/

/-- Does what a command line asks for, once its form is known to be right. The file is looked at
    before the other arguments are. -/
def perform : Request → Action Ending
  | .help text => do
    Console.info text
    return .code 0
  | .run verbose args => do
    match args with
    | [] => return .refused (.missingArgument "FILE")
    | file :: rest =>
      match ← workflowFile file with
      | .error p => return .refused p
      | .ok path =>
        match rest with
        | [] => return .refused (.missingArgument "JOB")
        | [job] => return .code (← run path job verbose)
        | _ :: extra => return .refused (.extraArguments extra)
  | .list args => do
    match args with
    | [] => return .refused (.missingArgument "FILE")
    | file :: rest =>
      match ← workflowFile file with
      | .error p => return .refused p
      | .ok path =>
        if rest.isEmpty then return .code (← list path)
        else return .refused (.extraArguments rest)

/-- Ends a run that something has left. -/
def finish (f : Failure) : Action Ending := do
  if f.isA .aborted then
    Action.writeErrorLine "Aborted!"
    return .code 1
  else if f.isA .keyboardInterrupt || f.isA .endOfInput then
    Action.writeErrorLine ""
    Action.writeErrorLine "Aborted!"
    return .code 1
  else return .crashed f

/-- Runs the program on a command line. -/
def program (args : List String) : Action Ending := do
  let ending ← match Request.ofArgs args with
    | .error p => pure (.refused p)
    | .ok (debug, request) =>
      match ← ((perform request).within fun e => { e with debug := debug }).attempt with
      | .ok ending => pure ending
      | .error f => finish f
  match ending with
  | .refused p => Action.writeErrorLine (Action.plain p.message)
  | _ => pure ()
  return ending

/-- The code that the program hands to its caller. -/
def Ending.exitCode : Ending → Nat
  | .code n => n
  | .refused _ => 2
  | .crashed _ => 1

end Cli
end Runbook
