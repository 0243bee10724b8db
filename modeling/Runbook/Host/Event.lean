import Runbook.Number.Shortest
import Runbook.Remote.Target

set_option autoImplicit false

/-! # Events

What a run does to the world outside, one event per call, in the order of the calls: questions to
the operator, local processes, groups of workers, and every call of a remote session. -/

namespace Runbook

/-- A call to the outside. -/
inductive Event where
  | prompt (text : String)
  | hiddenPrompt (text : String)
  | spawn (argv : List String) (workDir : Option String)
  | pool (workers : Int)
  | shutdown
  | ran (name : String)
  | policy
  | connect (target : Target) (timeout : Binary64)
  | body
  | session
  | combineStderr
  | exec (command : String)
  | readOutput
  | exitStatus
  | closeChannel
  | openSftp
  | stat (path : String)
  | list (path : String)
  | openRead (path : String)
  | openWrite (path : String)
  | makeDir (path : String) (permissions : Nat)
  | closeSftp
  | scp
  | scpGet (path : String)
  | scpPut (path mode : String) (size : Nat)
  | closeScp
  | close
deriving DecidableEq, Repr

end Runbook
