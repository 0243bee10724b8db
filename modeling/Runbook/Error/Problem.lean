import Runbook.Error.Kind
import Runbook.Number.Numeral

set_option autoImplicit false

/-! # What can go wrong, by activity

One type per activity: interpreting the tags of a document, finding the tasks in it, working with
local files and processes, and talking to a remote host. Each problem holds what it is about, and
has a kind and a message. A value that a message would show may hold an integer that is not written;
then that is the problem. -/

namespace Runbook

/-- The use of a value as something that it is not: as one with parts, as one that can be searched
    for a field, or as a text with a line end. It names the type of the value where that matters. -/
inductive Misuse where
  | noParts (type : String)
  | notSearched (type : String)
  | bytesSearched
  | listByName
  | textByName
  | noLineEnd (type : String)
  | bytesLineEnd
deriving DecidableEq, Repr

namespace Misuse

/-- The kind of a misuse. -/
def kind : Misuse → Kind
  | noLineEnd _ => .member
  | _ => .type

/-- The message of a misuse. -/
def message : Misuse → String
  | noParts type => "object of type '" ++ type ++ "' has no len()"
  | notSearched type => "argument of type '" ++ type ++ "' is not iterable"
  | bytesSearched => "a bytes-like object is required, not 'str'"
  | listByName => "list indices must be integers or slices, not str"
  | textByName => "string indices must be integers, not 'str'"
  | noLineEnd type => "'" ++ type ++ "' object has no attribute 'endswith'"
  | bytesLineEnd => "endswith first arg must be bytes or a tuple of bytes, not str"

end Misuse

/-- A problem with a tag, or with what a tag is applied to. -/
inductive TagProblem where
  | unknown (tag : String)
  | failed (tag : String)
  | joinNeedsList
  | joinElement (index : Nat) (shown : String)
  | promptArity (count : Nat)
  | promptNotText
  | promptDefaultNotText
  | promptMissing
  | promptFieldNotText
  | defaultFieldNotText
  | promptShape
  | identFieldMissing
  | identMissing
  | identShape
  | identNotText (shown : String)
  | identValueMissing
  | identArity (count : Nat)
  | misuse (m : Misuse)
  | unwritable
deriving DecidableEq, Repr

namespace TagProblem

/-- The kind of a problem with a tag. -/
def kind : TagProblem → Kind
  | unknown _ => .unknownTag
  | failed _ => .resolve
  | joinNeedsList | joinElement _ _ | promptNotText | promptDefaultNotText | promptFieldNotText
  | defaultFieldNotText | identNotText _ => .valueType
  | promptArity _ | promptShape | identShape | identArity _ => .shape
  | promptMissing | identFieldMissing | identMissing | identValueMissing => .missingField
  | misuse m => m.kind
  | unwritable => .value

/-- The message of a problem with a tag. -/
def message : TagProblem → String
  | unknown tag => "!" ++ tag ++ " is not a valid tag"
  | failed tag => "failed to resolve !" ++ tag
  | joinNeedsList => "!StrF needs to be a sequence of strings"
  | joinElement index shown => "!StrF element " ++ toString index ++ " is not a string: " ++ shown
  | promptArity count =>
    "!Input and !HiddenInput take 1 or 2 arguments but got " ++ toString count
  | promptNotText => "Input prompt is not a valid string"
  | promptDefaultNotText => "Input default value is not a valid string"
  | promptMissing => "prompt was not provided in !Input"
  | promptFieldNotText => "prompt is not of type string"
  | defaultFieldNotText => "default is not of type string"
  | promptShape => "Input prompt is not a valid string, sequence or map"
  | identFieldMissing => "id key not given in !Id map"
  | identMissing => "!Id tag is missing its id"
  | identShape => "!Id value needs to be a map or sequence"
  | identNotText shown => "invalid !Id id " ++ shown ++ ", value is not a string"
  | identValueMissing => "value key not given in !Id map"
  | identArity count => "!Id takes an id and a value but got " ++ toString count ++ " entries"
  | misuse m => m.message
  | unwritable => NumeralFault.unwritable.message

end TagProblem

/-- A problem with the shape of a workflow: of its jobs, its tasks or their fields. -/
inductive GrammarProblem where
  | notMapping (what : String)
  | notSequence (what : String)
  | fieldMissing (field : String)
  | fieldNotText (field : String)
  | fieldNotNumber (field : String)
  | exitCodesEmpty
  | exitCodeNotNumber (shown : String)
  | jobNameNotText (shown : String)
  | jobUnknown (name : String)
  | jobCycle (names : List String)
  | inJob (name : String)
  | inTask (owner : String) (index : Nat)
  | inKind (kind : String)
  | taskNotMapping
  | taskEmpty
  | taskNameNotText
  | taskUnknown (kind : String)
  | threadsBelowOne
  | parallelShape
  | parallelTasksMissing
  | parallelEmpty
  | printNotText (shown : String)
  | commandsMissing
  | misuse (m : Misuse)
  | unwritable
deriving DecidableEq, Repr

namespace GrammarProblem

/-- The kind of a problem with the shape of a workflow. -/
def kind : GrammarProblem → Kind
  | notMapping _ | notSequence _ | exitCodesEmpty | jobNameNotText _ | taskNotMapping | taskEmpty
  | taskNameNotText | threadsBelowOne | parallelShape => .shape
  | fieldMissing _ | parallelTasksMissing | commandsMissing => .missingField
  | fieldNotText _ | fieldNotNumber _ | exitCodeNotNumber _ | printNotText _ => .valueType
  | jobUnknown _ => .notFound
  | jobCycle _ => .jobCycle
  | inJob _ | inTask _ _ | inKind _ => .parse
  | taskUnknown _ => .unknownTask
  | parallelEmpty => .emptyGroup
  | misuse m => m.kind
  | unwritable => .value

/-- The message of a problem with the shape of a workflow. -/
def message : GrammarProblem → String
  | notMapping what => what ++ " is not of type Mapping"
  | notSequence what => what ++ " is not a sequence"
  | fieldMissing field => field ++ " is not given"
  | fieldNotText field => field ++ " is not a string"
  | fieldNotNumber field => field ++ " is not a valid number"
  | exitCodesEmpty => "no exit codes are provided"
  | exitCodeNotNumber shown => "exit code " ++ shown ++ " is not a number"
  | jobNameNotText shown => "Job " ++ shown ++ " has not a valid string as name"
  | jobUnknown name => "Job " ++ name ++ " not found"
  | jobCycle names => "Job references form a cycle: " ++ " -> ".intercalate names
  | inJob name => "Error while parsing job " ++ name
  | inTask owner index => owner ++ ": task " ++ toString index ++ " could not be parsed"
  | inKind kind => "parsing error with " ++ kind ++ " task"
  | taskNotMapping => "Parsing error with task. Task is not of type Mapping!"
  | taskEmpty => "task could not be parsed, mapping is empty"
  | taskNameNotText => "task has an issue with the name"
  | taskUnknown kind => "unrecognized task " ++ kind
  | threadsBelowOne => "threads value of parallel task must be at least 1"
  | parallelShape => "parallel task needs to be a sequence or mapping but is not"
  | parallelTasksMissing => "tasks was not provided to parallel task"
  | parallelEmpty => "task sequence has no entries"
  | printNotText shown => "print value is not a string: " ++ shown
  | commandsMissing => "commands are not given"
  | misuse m => m.message
  | unwritable => NumeralFault.unwritable.message

end GrammarProblem

/-- A problem with a local file, directory or process. -/
inductive LocalProblem where
  | openDocument (path : String)
  | readFile (path : String)
  | createFile (path : String)
  | createDirectory (path : String)
  | readDirectory (path : String)
  | runCommand (program : String) (words : List String)
  | missing (path : String)
  | missingParent (path : String)
  | fileThere (path : String)
  | directoryThere (path : String)
deriving DecidableEq, Repr

namespace LocalProblem

/-- The kind of a local problem. -/
def kind : LocalProblem → Kind
  | openDocument _ | readFile _ | createFile _ | createDirectory _ | readDirectory _
  | runCommand _ _ => .localFile
  | missing _ | missingParent _ => .notFound
  | fileThere _ | directoryThere _ => .alreadyExists

/-- The message of a local problem. -/
def message : LocalProblem → String
  | openDocument path => "Error while opening file " ++ path
  | readFile path => "Error while reading file " ++ path
  | createFile path => "Could not create local file " ++ path
  | createDirectory path => "Error while creating directory " ++ path
  | readDirectory path => "Error while reading directory " ++ path
  | runCommand program words =>
    "Failed while executing " ++ program ++ " command " ++ Text.quotedWords words
  | missing path => "Local " ++ path ++ " does not exist"
  | missingParent path => "Path " ++ path ++ " does not exist"
  | fileThere path => "File " ++ path ++ " already exists"
  | directoryThere path => "Directory " ++ path ++ " already exists"

end LocalProblem

/-- A problem with a remote host. -/
inductive RemoteProblem where
  | connect (address : String) (port : Int) (user : String)
  | runCommand (command : String)
  | scpReceive (path : String)
  | scpCreate (path : String)
  | openSftp
  | readStatus (path : String)
  | readFile (path : String)
  | readDirectory (path : String)
  | writeFile (path : String)
  | createDirectory (path : String)
  | missing (path : String)
  | neither (path : String)
  | there (path : String)
deriving DecidableEq, Repr

namespace RemoteProblem

/-- The kind of a remote problem. -/
def kind : RemoteProblem → Kind
  | connect _ _ _ => .remoteConnect
  | runCommand _ | scpReceive _ | scpCreate _ | openSftp | readStatus _ | readFile _
  | readDirectory _ | writeFile _ | createDirectory _ => .remoteChannel
  | missing _ | neither _ => .notFound
  | there _ => .alreadyExists

/-- The message of a remote problem. -/
def message : RemoteProblem → String
  | connect address port user =>
    "Failed to connect via ssh to " ++ address ++ ":" ++ toString port ++ " as " ++ user
  | runCommand command => "Error while executing command via ssh: \x60" ++ command ++ "\x60"
  | scpReceive path => "Error while receiving " ++ path ++ " via scp"
  | scpCreate path => "Error while creating file " ++ path ++ " on remote machine"
  | openSftp => "Could not create sftp subsystem"
  | readStatus path => "Error while getting stats of remote path " ++ path
  | readFile path => "Could not read remote file " ++ path
  | readDirectory path => "Error while reading directory " ++ path ++ " via sftp"
  | writeFile path => "Error while writing to remote file " ++ path
  | createDirectory path => "Could not create remote directory " ++ path
  | missing path => "Remote path " ++ path ++ " does not exist"
  | neither path => "Remote path " ++ path ++ " is neither a file nor a directory"
  | there path => "Remote path " ++ path ++ " already exists"

end RemoteProblem
end Runbook
