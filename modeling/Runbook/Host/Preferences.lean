import Runbook.Error.Failure
import Runbook.Number.Shortest

set_option autoImplicit false

/-! # Preferences

What the environment of the program may set: the port of remote hosts, how long a connection may
take, and how much of the error output of a failed command is kept. -/

namespace Runbook

/-- What the environment may set. -/
structure Preferences where
  sshPort : Int
  connectTimeout : Binary64
  /-- How many characters of the error output of a failed command are kept. -/
  stderrTail : Int
deriving DecidableEq, Repr

namespace Preferences

/-- The integer in a variable, or a default. -/
def integer (env : String → Option String) (name default : String) : Except Failure Int :=
  (Numeral.readInt 10 ((env name).getD default)).mapError fun f => .of (.badNumber f)

/-- The number in a variable, or a default. -/
def decimal (env : String → Option String) (name default : String) : Except Failure Binary64 :=
  (Numeral.readDecimal ((env name).getD default)).mapError fun f => .of (.badNumber f)

/-- The preferences in an environment. -/
def ofEnvironment (env : String → Option String) : Except Failure Preferences := do
  let sshPort ← integer env "WORKFLOWO_SSH_PORT" "22"
  let connectTimeout ← decimal env "WORKFLOWO_CONNECT_TIMEOUT" "30"
  let stderrTail ← integer env "WORKFLOWO_STDERR_TAIL" "4000"
  return ⟨sshPort, connectTimeout, stderrTail⟩

end Preferences
end Runbook
