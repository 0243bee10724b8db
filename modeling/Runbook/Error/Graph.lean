import Runbook.Error.Failure

set_option autoImplicit false

/-! # Graphs of errors

Errors may refer to each other in any way: each has perhaps a cause, perhaps a context, and a mark
that the context is not to be shown. The chain of an error goes on to its cause, or else to its
context unless that is marked, and stops where an error would come up again. -/

namespace Runbook

/-- An error among others, which it refers to by their numbers. -/
structure GraphError where
  error : Cause
  cause : Option Nat
  context : Option Nat
  suppressed : Bool
deriving Repr

/-- Errors that refer to each other. -/
abbrev ErrorGraph := List GraphError

namespace ErrorGraph

/-- The error behind another one. -/
def next? (g : ErrorGraph) (i : Nat) : Option Nat :=
  (g[i]?).bind fun e =>
    match e.cause with
    | some j => some j
    | none => if e.suppressed then none else e.context

/-- The chain from an error on, without the errors that have been seen. Each step sees an error
    more, so as many steps as there are errors are enough. -/
def chainFrom (g : ErrorGraph) : Nat → List Nat → Nat → List Nat
  | 0, _, _ => []
  | fuel + 1, seen, i =>
    if seen.contains i then []
    else i :: (match g.next? i with
      | none => []
      | some j => chainFrom g fuel (i :: seen) j)

/-- The chain of an error, itself first. -/
def chain (g : ErrorGraph) (start : Nat) : List Nat := g.chainFrom (g.length + 1) [] start

/-- The last error of the chain. -/
def root (g : ErrorGraph) (start : Nat) : Nat := (g.chain start).getLastD start

/-- The error of a number. -/
def error? (g : ErrorGraph) (i : Nat) : Option Cause := (g[i]?).map (·.error)

/-- The errors of the chain. -/
def links (g : ErrorGraph) (start : Nat) : List Cause := (g.chain start).filterMap g.error?

/-- The first error of the chain that is of a kind. -/
def find? (g : ErrorGraph) (start : Nat) (k : Kind) : Option Nat :=
  (g.chain start).find? fun i => ((g.error? i).map (·.isA k)).getD false

end ErrorGraph
end Runbook
