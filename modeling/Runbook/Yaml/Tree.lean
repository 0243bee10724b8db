import Runbook.Yaml.Tokens

set_option autoImplicit false

/-! # The tree of a document

A document is a tree of scalars, sequences and mappings, each with a tag that says how it is meant.
Every node has a number of its own, its place; an alias repeats the node of its anchor with the same
place, and so the sharing of a document can be seen. -/

namespace Runbook.Yaml

/-- A node of a document. -/
inductive Tree where
  | scalar (place : Nat) (tag : String) (text : String)
  | sequence (place : Nat) (tag : String) (items : List Tree)
  | mapping (place : Nat) (tag : String) (entries : List (Tree × Tree))
deriving Repr, Inhabited

namespace Tree

/-- The place of a node. -/
def place : Tree → Nat
  | scalar p _ _ => p
  | sequence p _ _ => p
  | mapping p _ _ => p

/-- The tag of a node. -/
def tag : Tree → String
  | scalar _ t _ => t
  | sequence _ t _ => t
  | mapping _ t _ => t

end Tree

/-- What the tags of the language itself begin with. -/
def coreTag (name : String) : String := "tag:yaml.org,2002:" ++ name

end Runbook.Yaml
