import Runbook.Text.Quoted
import Runbook.Text.Similar

set_option autoImplicit false

/-! # The form of a command line

A command line is a list of arguments. What starts with a dash is an option, short ones may share
one dash, and two dashes alone end the options. The program has one option of its own and two
commands, each with its options and arguments. -/

namespace Runbook.Cli

/-- A problem with a command line. -/
inductive UsageProblem where
  | noArguments
  | noSuchOption (name : String) (similar : List String)
  | takesNoValue (name : String)
  | missingArgument (name : String)
  | missingCommand
  | noSuchCommand (name : String)
  | extraArguments (args : List String)
  | fileMissing (file : String)
  | fileIsDirectory (file : String)
  | fileNotYaml (file : String)
deriving DecidableEq, Repr

/-- What the program says about itself. -/
def programHelp : String :=
  "Usage: workflowo [OPTIONS] COMMAND [ARGS]...\n\n"
    ++ "  workflowo: run jobs declared in a YAML workflow file.\n\n"
    ++ "Options:\n"
    ++ "  --debug  Enable debug mode (show stack traces and trace every task)\n"
    ++ "  --help   Show this message and exit.\n\n"
    ++ "Commands:\n"
    ++ "  list  List the jobs of a workflow FILE without resolving it (no prompts).\n"
    ++ "  run   Run JOB from the workflow FILE."

/-- What the program says about its command that runs a job. -/
def runHelp : String :=
  "Usage: workflowo run [OPTIONS] FILE JOB\n\n"
    ++ "  Run JOB from the workflow FILE.\n\n"
    ++ "Options:\n"
    ++ "  -v, --verbose  Print the resolved job tree before running\n"
    ++ "  --help         Show this message and exit."

/-- What the program says about its command that lists jobs. -/
def listHelp : String :=
  "Usage: workflowo list [OPTIONS] FILE\n\n"
    ++ "  List the jobs of a workflow FILE without resolving it (no prompts).\n\n"
    ++ "Options:\n"
    ++ "  --help  Show this message and exit."

namespace UsageProblem

/-- The hint at options that may have been meant. -/
def hint : List String → String
  | [] => ""
  | [name] => " Did you mean " ++ name ++ "?"
  | names => " (Possible options: " ++ ", ".intercalate names ++ ")"

/-- The problem in words. -/
def message : UsageProblem → String
  | noArguments => programHelp
  | noSuchOption name similar => "Error: No such option: " ++ name ++ hint similar
  | takesNoValue name => "Error: Option " ++ Text.quoted name ++ " does not take a value."
  | missingArgument name => "Error: Missing argument '" ++ name ++ "'."
  | missingCommand => "Error: Missing command."
  | noSuchCommand name => "Error: No such command " ++ Text.quoted name ++ "."
  | extraArguments args =>
    "Error: Got unexpected extra argument" ++ (if args.length = 1 then "" else "s") ++ " ("
      ++ " ".intercalate args ++ ")"
  | fileMissing file =>
    "Error: Invalid value for 'FILE': File " ++ Text.quoted file ++ " does not exist."
  | fileIsDirectory file =>
    "Error: Invalid value for 'FILE': File " ++ Text.quoted file ++ " is a directory."
  | fileNotYaml file => "Error: Invalid value for 'FILE': " ++ file ++ " is not a yaml file!"

end UsageProblem

/-! ## Options -/

/-- What an option asks for. -/
inductive Flag where
  | debug
  | verbose
  | help
deriving DecidableEq, Repr

/-- The options of a command, by their long names and by their letters. -/
structure Options where
  long : List (String × Flag)
  short : List (Char × Flag)
deriving Repr

/-- The options of the program itself. -/
def programOptions : Options := ⟨[("--debug", .debug), ("--help", .help)], []⟩

/-- The options of the command that runs a job. -/
def runOptions : Options := ⟨[("--help", .help), ("--verbose", .verbose)], [('v', .verbose)]⟩

/-- The options of the command that lists jobs. -/
def listOptions : Options := ⟨[("--help", .help)], []⟩

namespace Options

/-- Some letters after one dash. -/
def letters (o : Options) : List Char → Except UsageProblem (List Flag)
  | [] => .ok []
  | c :: cs =>
    match o.short.lookup c with
    | none => .error (.noSuchOption (String.ofList ['-', c]) [])
    | some flag => (letters o cs).map (flag :: ·)

/-- The long names that are similar to a text. -/
def similar (o : Options) (name : String) : List String :=
  (o.long.map (·.1)).filter (Text.isSimilar · name)

/-- An argument that starts with a dash. What stands before an equals sign is a long name; if there
    is none of that name and only one dash, the argument holds letters. -/
def option (o : Options) (arg : String) : Except UsageProblem (List Flag) :=
  let cs := arg.toList
  let name := String.ofList (cs.takeWhile (· ≠ '='))
  match o.long.lookup name with
  | some flag => if cs.contains '=' then .error (.takesNoValue name) else .ok [flag]
  | none =>
    if "--".toList.isPrefixOf cs then .error (.noSuchOption name (o.similar name))
    else o.letters (cs.drop 1)

/-- Whether an argument is an option: a dash and more. -/
def isOption (arg : String) : Bool :=
  match arg.toList with
  | '-' :: _ :: _ => true
  | _ => false

/-- The options in some arguments, and the arguments that are left. Options may follow other
    arguments or not. -/
def read (o : Options) (anywhere : Bool) :
    List String → Except UsageProblem (List Flag × List String)
  | [] => .ok ([], [])
  | arg :: rest =>
    if arg = "--" then .ok ([], rest)
    else if isOption arg then do
      let here ← o.option arg
      let (flags, left) ← read o anywhere rest
      return (here ++ flags, left)
    else if anywhere then do
      let (flags, left) ← read o anywhere rest
      return (flags, arg :: left)
    else .ok ([], arg :: rest)

end Options

/-! ## Commands -/

/-- What a command line asks for. -/
inductive Request where
  | help (text : String)
  | run (verbose : Bool) (args : List String)
  | list (args : List String)
deriving DecidableEq, Repr

namespace Request

/-- The request of a command with its arguments. -/
def ofCommand (name : String) (args : List String) : Except UsageProblem Request :=
  if name = "run" then do
    let (flags, left) ← runOptions.read true args
    return if flags.contains .help then .help runHelp else .run (flags.contains .verbose) left
  else if name = "list" then do
    let (flags, left) ← listOptions.read true args
    return if flags.contains .help then .help listHelp else .list left
  else do
    let (flags, _) ← if Options.isOption name then programOptions.read false (name :: args)
      else .ok ([], [])
    if flags.contains .help then return .help programHelp else .error (.noSuchCommand name)

/-- What a command line asks for, and whether the run is to be traced. -/
def ofArgs (args : List String) : Except UsageProblem (Bool × Request) := do
  if args.isEmpty then .error .noArguments
  else
    let (flags, left) ← programOptions.read false args
    if flags.contains .help then return (false, .help programHelp)
    match left with
    | [] => .error .missingCommand
    | name :: rest => return (flags.contains .debug, ← ofCommand name rest)

end Request
end Runbook.Cli
