import Runbook.Cli.Program

set_option autoImplicit false

/-! # The executable

The program on the files of the working directory and the lines of the standard input. Only files
that the command line names are looked at. Shells and remote hosts are out of its reach: a task that
needs one fails with an error of the system, so that a workflow can be rehearsed up to that task. -/

namespace Runbook

/-- The files that some arguments name and that can be read. -/
def namedFiles : List String → IO FileTree
  | [] => return .empty
  | arg :: args => do
    let t ← namedFiles args
    let names := (Path.ofText arg).parts
    try
      let content ← IO.FS.readBinFile arg
      return t.put names (.file content.toList)
    catch _ => return t

/-- The lines that are left on an input. -/
partial def inputText (input : IO.FS.Stream) (done : String) : IO String := do
  let line ← input.getLine
  if line.isEmpty then return done else inputText input (done ++ line)

/-- What a workflow finds in a rehearsal: no process starts and no host is reached. -/
def rehearsal (p : Preferences) (home : Option String) : Setting :=
  { sshPort := p.sshPort
    connectTimeout := p.connectTimeout
    stderrTail := p.stderrTail
    debug := false
    platform := "linux"
    home := fun user => if user = "" then home else none
    cpus := none
    process := fun _ argv =>
      ⟨0, "", some (.of (.system 38 "Function not implemented" argv.head?))⟩
    result := fun _ _ => ⟨[], 0⟩
    fault := fun _ call =>
      match call with
      | .connect _ _ => some (.of (.system 101 "Network is unreachable" none))
      | _ => none
    delivery := fun _ => .ascending
    operator := .terminal }

/-- The variables of the environment that the program knows. -/
def environment : IO (String → Option String) := do
  let names := ["WORKFLOWO_SSH_PORT", "WORKFLOWO_CONNECT_TIMEOUT", "WORKFLOWO_STDERR_TAIL", "HOME"]
  let values ← names.mapM fun name => do return (name, ← IO.getEnv name)
  return fun name => (values.lookup name).join

/-- Reports a failure that left the program. -/
def reportCrash (f : Failure) : IO Unit :=
  IO.eprintln (f.head.kind.name ++ ": " ++ f.head.message)

end Runbook

open Runbook in
/-- Runs the program on its arguments. -/
def main (args : List String) : IO UInt32 := do
  let env ← environment
  match Preferences.ofEnvironment env with
  | .error f =>
    reportCrash f
    return 1
  | .ok p =>
    let world : World :=
      { out := "", err := "", events := [], files := ← namedFiles args, peer := []
        lines := Text.typedLines (← inputText (← IO.getStdin) ""), hidden := [] }
    let (r, w) := Cli.program args (rehearsal p (env "HOME")) world
    IO.print w.out
    IO.eprint w.err
    match r with
    | .ok ending =>
      if let .crashed f := ending then reportCrash f
      return UInt32.ofNat ending.exitCode
    | .error f =>
      reportCrash f
      return 1
