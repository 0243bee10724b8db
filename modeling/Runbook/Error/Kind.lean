set_option autoImplicit false

/-! # Kinds of errors

Every error has a kind, and kinds form a tree: an error of a kind also is one of every kind above
it. The errors that loading and running a workflow report themselves are one family, those of the
operating system are another; a remote session adds a small family of its own, and the rest are
errors of no family. An interrupt from the keyboard is no exception, so nothing that handles
exceptions stops it. -/

namespace Runbook

/-- The kind of an error. -/
inductive Kind where
  | base
  | exception
  | workflow
  | shape
  | valueType
  | unknownTag
  | unknownTask
  | missingField
  | emptyGroup
  | jobCycle
  | resolve
  | parse
  | notFound
  | alreadyExists
  | localFile
  | shellCommand
  | remoteConnect
  | remoteCommand
  | remoteChannel
  | job
  | parallelTask
  | system
  | fileNotFound
  | permission
  | interrupted
  | fileExists
  | notADirectory
  | isADirectory
  | connection
  | brokenPipe
  | connectionReset
  | connectionRefused
  | timeout
  | ssh
  | authentication
  | scp
  | yaml
  | type
  | value
  | undecodable
  | lookup
  | key
  | index
  | member
  | arithmetic
  | overflow
  | runtime
  | aborted
  | endOfInput
  | keyboardInterrupt
deriving DecidableEq, Repr, Inhabited

namespace Kind

/-- The kinds above a kind, the nearest first. -/
def above : Kind → List Kind
  | base => []
  | exception => [base]
  | keyboardInterrupt => [base]
  | valueType => [shape, workflow, exception, base]
  | shape | unknownTag | unknownTask | missingField | emptyGroup | jobCycle | resolve | parse
  | notFound | alreadyExists | localFile | shellCommand | remoteConnect | remoteCommand
  | remoteChannel | job | parallelTask => [workflow, exception, base]
  | fileNotFound | permission | interrupted | fileExists | notADirectory | isADirectory | connection
  | timeout => [system, exception, base]
  | brokenPipe | connectionReset | connectionRefused => [connection, system, exception, base]
  | authentication => [ssh, exception, base]
  | undecodable => [value, exception, base]
  | key | index => [lookup, exception, base]
  | overflow => [arithmetic, exception, base]
  | aborted => [runtime, exception, base]
  | workflow | system | ssh | scp | yaml | type | value | lookup | member | arithmetic | runtime
  | endOfInput => [exception, base]

/-- Whether an error of one kind also is of another. -/
def isA (k upper : Kind) : Bool := k = upper || k.above.contains upper

/-- The full name of a kind. -/
def name : Kind → String
  | base => "BaseException"
  | exception => "Exception"
  | workflow => "WorkflowError"
  | shape => "ShapeError"
  | valueType => "ValueTypeError"
  | unknownTag => "UnknownTagError"
  | unknownTask => "UnknownTaskError"
  | missingField => "MissingFieldError"
  | emptyGroup => "EmptyGroupError"
  | jobCycle => "JobCycleError"
  | resolve => "ResolveError"
  | parse => "ParseError"
  | notFound => "NotFoundError"
  | alreadyExists => "AlreadyExistsError"
  | localFile => "LocalIOError"
  | shellCommand => "ShellCommandError"
  | remoteConnect => "RemoteConnectError"
  | remoteCommand => "RemoteCommandError"
  | remoteChannel => "RemoteChannelError"
  | job => "JobError"
  | parallelTask => "ParallelTaskError"
  | system => "OSError"
  | fileNotFound => "FileNotFoundError"
  | permission => "PermissionError"
  | interrupted => "InterruptedError"
  | fileExists => "FileExistsError"
  | notADirectory => "NotADirectoryError"
  | isADirectory => "IsADirectoryError"
  | connection => "ConnectionError"
  | brokenPipe => "BrokenPipeError"
  | connectionReset => "ConnectionResetError"
  | connectionRefused => "ConnectionRefusedError"
  | timeout => "TimeoutError"
  | ssh => "SSHException"
  | authentication => "AuthenticationException"
  | scp => "SCPException"
  | yaml => "YAMLError"
  | type => "TypeError"
  | value => "ValueError"
  | undecodable => "UnicodeDecodeError"
  | lookup => "LookupError"
  | key => "KeyError"
  | index => "IndexError"
  | member => "AttributeError"
  | arithmetic => "ArithmeticError"
  | overflow => "OverflowError"
  | runtime => "RuntimeError"
  | aborted => "Abort"
  | endOfInput => "EOFError"
  | keyboardInterrupt => "KeyboardInterrupt"

/-- The name of a kind in reports. A value of a wrong type is reported without the word for values.
    -/
def label : Kind → String
  | valueType => "TypeError"
  | k => k.name

/-- All kinds. -/
def all : List Kind :=
  [base, exception, workflow, shape, valueType, unknownTag, unknownTask, missingField, emptyGroup,
    jobCycle, resolve, parse, notFound, alreadyExists, localFile, shellCommand, remoteConnect,
    remoteCommand, remoteChannel, job, parallelTask, system, fileNotFound, permission, interrupted,
    fileExists, notADirectory, isADirectory, connection, brokenPipe, connectionReset,
    connectionRefused, timeout, ssh, authentication, scp, yaml, type, value, undecodable, lookup,
    key, index, member, arithmetic, overflow, runtime, aborted, endOfInput, keyboardInterrupt]

/-- The kind with a full name. -/
def ofName? (s : String) : Option Kind := all.find? fun k => k.name = s

/-- The kind of an error of the operating system, by its number. -/
def ofErrno (n : Int) : Kind :=
  if n = 1 || n = 13 then permission
  else if n = 2 then fileNotFound
  else if n = 4 then interrupted
  else if n = 17 then fileExists
  else if n = 20 then notADirectory
  else if n = 21 then isADirectory
  else if n = 32 then brokenPipe
  else if n = 104 then connectionReset
  else if n = 110 then timeout
  else if n = 111 then connectionRefused
  else system

end Kind
end Runbook
