import Runbook.Files.Tree
import Runbook.Host.Event
import Runbook.Host.Preferences
import Runbook.Remote.View

set_option autoImplicit false

/-! # The world of a run

A run takes place in a setting that stays as it is, and changes a world. The setting says what the
outside answers: what processes and remote commands yield, which calls are struck by a fault, in
which order a group of workers delivers. Each of these answers may depend on the calls made before.
The working directory and the order of the peer's listings are of the setting too.
The world is what can be seen afterwards: the text on both output streams, the calls made, the local
files and those of the peer, and the answers still to be given. -/

namespace Runbook

/-- What a process writes: the bytes on its output and those on its error output, with line feeds for
    the ends of lines. -/
structure Streams where
  output : Bytes
  errors : Bytes

namespace Streams

/-- A text on the error output alone. -/
instance : Coe String Streams := ⟨fun s => ⟨[], .ofText s⟩⟩

/-- The text on the error output. What is on either output has to be text. -/
def errorText (s : Streams) : Except Failure String :=
  ((Text.decode s.output).bind fun _ => Text.decode s.errors).mapError fun f => .of (.undecodable f)

end Streams

/-- What a local process yields when it has ended: its exit code and what it has written. A fault says
    that it has not run to its end: it is not started, as there is no such program or an argument holds a
    null character, or it is interrupted. -/
structure Process where
  code : Int
  streams : Streams
  fault : Option Failure

/-- What a remote command yields. -/
structure CommandResult where
  output : Bytes
  code : Int

/-- The order in which the tasks of a group are delivered. -/
inductive Delivery where
  | ascending
  | descending
  | first (indices : List Int)
deriving DecidableEq, Repr

namespace Delivery

/-- The indices below a count in the order of delivery. Those that are to come first are delivered
    once each, and only if they are in range; the others follow in ascending order. -/
def order (d : Delivery) (n : Nat) : List Nat :=
  match d with
  | ascending => List.range n
  | descending => (List.range n).reverse
  | first indices =>
    let named := (indices.filterMap fun (i : Int) =>
      if 0 ≤ i && decide (i < (n : Int)) then some i.toNat else none).eraseDups
    named ++ (List.range n).filter (!named.contains ·)

end Delivery

/-- How the operator is asked: by scripted answers, each question being an event, or at a terminal.
    -/
inductive Operator where
  | scripted
  | terminal
deriving DecidableEq, Repr

/-- What stays as it is during a run. -/
structure Setting extends Preferences where
  debug : Bool
  platform : String
  /-- The home directory of a user. The empty name is the user who runs the program. -/
  home : String → Option String
  cpus : Option Int
  /-- The names that lead from the root of the local files to the working directory. -/
  workingDir : List String := []
  /-- The order in which the peer lists its directories. -/
  listing : ListingOrder := .asMade
  process : List Event → List String → Process
  result : List Event → String → CommandResult
  fault : List Event → Event → Option Failure
  delivery : List Event → Delivery
  operator : Operator

/-- What a run changes. -/
structure World where
  out : String
  err : String
  events : List Event
  files : FileTree
  peer : Peer
  /-- The lines that the operator still types. -/
  lines : List String
  /-- The hidden answers that the operator still gives. -/
  hidden : List String

end Runbook
