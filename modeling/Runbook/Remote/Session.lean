import Runbook.Host.Console
import Runbook.Remote.Target
import Runbook.Text.Utf8

set_option autoImplicit false

/-! # Remote sessions

A session with a remote host is opened for one task and closed when the task is over, however it
ends. Commands run one after the other, each on a channel of its own, and the first that does not
succeed ends the batch. Faults of the session and of the system beneath it are put into the context
of what was attempted. -/

namespace Runbook

/-- Whether a failure is a fault of a session or of the system beneath it. -/
def Failure.isSessionFault (f : Failure) : Bool := f.isA .ssh || f.isA .system

namespace Session

open Runbook.Action

/-- Puts the faults of a session into the context of what is attempted. -/
def attempting {α : Type} (context : RemoteProblem) (a : Action α) : Action α :=
  a.because Failure.isSessionFault (.onPeer context)

/-- Opens a session with a host. If the host cannot be reached, what was made for the session is
    closed again. -/
def openClient (target : Target) : Action Unit := do
  perform .policy
  let timeout := (← Effect.setting).connectTimeout
  match ← (perform (.connect target timeout)).attempt with
  | .ok () => pure ()
  | .error f =>
    if f.isSessionFault then
      match ← (perform .close).attempt with
      | .ok () =>
        Effect.fail (f.because (.onPeer (.connect target.address target.port target.username)))
      | .error g => Effect.fail (g.during f)
    else Effect.fail f

/-- Runs an action in a session with a host. The session is closed afterwards in any case. -/
def withConnection {α : Type} (target : Target) (body : Action α) : Action α := do
  openClient target
  body.andThenAlways (perform .close)

/-- The calls that run a command on a channel of its own. -/
def channel (command : String) : Action CommandResult := do
  perform .session
  perform .combineStderr
  let before := (← Effect.get).events
  perform (.exec command)
  perform .readOutput
  perform .exitStatus
  perform .closeChannel
  return (← Effect.setting).result before command

/-- Runs a command and yields its output as text and its exit code. -/
def runCommand (command : String) : Action (String × Int) := do
  let r ← attempting (.runCommand command) (channel command)
  return (Text.decodeLossy r.output, r.code)

end Session

namespace RemoteCommand

/-- Runs a command, which has to end with one of its exit codes, and yields its output. -/
def execute (c : RemoteCommand) : Action String := do
  let (output, code) ← Session.runCommand c.command
  if c.allowed.contains code then return output
  else Effect.failWith (.remoteCommand c.command code output)

end RemoteCommand

namespace Session

/-- Runs the commands of a batch in an open session, with the password kept out of the trace. -/
def commands (target : Target) : List RemoteCommand → Action Unit
  | [] => pure ()
  | c :: rest => do
    Console.debug (target.redaction.scrub ("ssh " ++ target.address ++ ": " ++ c.command))
    let output ← c.execute
    if output ≠ "" then Console.debug (target.redaction.scrub (Text.trimEnd output))
    commands target rest

/-- Runs a batch of commands in a session of its own. -/
def batch (target : Target) (cs : List RemoteCommand) : Action Unit :=
  withConnection target (commands target cs)

end Session
end Runbook
