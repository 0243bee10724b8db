import Runbook.Number.Numeral
import Runbook.Redaction

set_option autoImplicit false

/-! # Remote targets

The address and credentials of a host, and the commands to run there. Wherever a target is shown,
its password is taken out of the finished text. -/

namespace Runbook

/-- The address and credentials of a host. -/
structure Target where
  address : String
  username : String
  password : String
  port : Int
deriving DecidableEq, Repr, Inhabited

namespace Target

/-- The redaction that hides the password of a target. -/
def redaction (t : Target) : Redaction := .password t.password

/-- Whether a target is written. -/
def isWritable (t : Target) : Bool := Numeral.isWritable t.port

/-- The text that shows a target, with its password hidden. -/
def shown (t : Target) : String :=
  t.redaction.scrub ("RemoteTarget(address=" ++ Text.quoted t.address ++ ", username="
    ++ Text.quoted t.username ++ ", password=" ++ Text.quoted t.password ++ ", port="
    ++ toString t.port ++ ")")

end Target

/-- A command for a remote host, and the exit codes with which it succeeds. -/
structure RemoteCommand where
  command : String
  allowed : List Int
deriving DecidableEq, Repr, Inhabited

namespace RemoteCommand

/-- Whether a command is written. -/
def isWritable (c : RemoteCommand) : Bool := c.allowed.all Numeral.isWritable

/-- The text that shows a command. -/
def shown (c : RemoteCommand) : String :=
  "SshCommand(command=" ++ Text.quoted c.command ++ ", allowed_exit_codes="
    ++ Text.shownInts c.allowed ++ ")"

end RemoteCommand
end Runbook
