import Runbook.Document.Slots

set_option autoImplicit false

/-! # Documents

A document is a tree of scalars, lists, mappings and tagged nodes; two kinds of node come from
special YAML types only, the pair of a key and a value, and the set. Anchors and merge keys let the
same list or mapping stand in several places. Such a container has an identity, its *place*: the
nodes with one place are one container, and what is replaced at one of them is replaced at all. A
container without a place is held by nothing else. -/

namespace Runbook

/-- A node of a document. -/
inductive Node where
  | scalar (s : Scalar)
  | list (place : Option Nat) (items : List Node)
  | map (place : Option Nat) (entries : List (Scalar × Node))
  | tagged (name : String) (payload : Node)
  | pair (key value : Node)
  | set (members : List Scalar)
deriving Repr, Inhabited

namespace Node

/-- A text. -/
def text (s : String) : Node := scalar (.text s)

/-- The text of a node that is one. -/
def asText? : Node → Option String
  | scalar (.text s) => some s
  | _ => none

end Node

/-- The entries of a mapping, in order. No two keys are the same. -/
abbrev Entries := List (Scalar × Node)

namespace Entries

/-- Sets the value of a key. A key that is there already keeps its spelling and its position. -/
def putWith {κ : Type} (same : κ → κ → Bool) (es : List (κ × Node)) (k : κ) (v : Node) :
    List (κ × Node) :=
  if es.any fun e => same e.1 k then es.map fun e => if same e.1 k then (e.1, v) else e
  else es ++ [(k, v)]

/-- The entries that some keys and values leave behind when they are set one after the other. -/
def ofListWith {κ : Type} (same : κ → κ → Bool) (kvs : List (κ × Node)) : List (κ × Node) :=
  kvs.foldl (fun es kv => putWith same es kv.1 kv.2) []

/-- The entries that some keys and values leave behind when they are set one after the other. -/
def ofList (kvs : List (Scalar × Node)) : Entries := ofListWith Scalar.sameKey kvs

/-- The value of a text key. -/
def get? (es : Entries) (k : String) : Option Node := (es.find? fun e => e.1.isText k).map (·.2)

end Entries

namespace Node

/-! ## The text that shows a node -/

mutual

/-- The text that shows a node in messages. -/
def shown : Node → String
  | scalar s => s.shown
  | list _ items => "[" ++ ", ".intercalate (shownItems items) ++ "]"
  | map _ entries => "\x7b" ++ ", ".intercalate (shownEntries entries) ++ "\x7d"
  | tagged name payload =>
    "Tagged(tag=" ++ Text.quoted name ++ ", value=" ++ shown payload ++ ")"
  | pair key value => "(" ++ shown key ++ ", " ++ shown value ++ ")"
  | set members =>
    if members = [] then "set()"
    else "\x7b" ++ ", ".intercalate ((Scalar.inSetOrder members).map Scalar.shown) ++ "\x7d"

/-- The texts that show some nodes. -/
def shownItems : List Node → List String
  | [] => []
  | item :: items => shown item :: shownItems items

/-- The texts that show some entries. -/
def shownEntries : List (Scalar × Node) → List String
  | [] => []
  | (key, value) :: entries => (key.shown ++ ": " ++ shown value) :: shownEntries entries

end

mutual

/-- Whether a node is written, which it is if every integer in it is. -/
def isWritable : Node → Bool
  | scalar s => s.isWritable
  | list _ items => areWritable items
  | map _ entries => entriesAreWritable entries
  | tagged _ payload => isWritable payload
  | pair key value => isWritable key && isWritable value
  | set members => members.all Scalar.isWritable

/-- Whether some nodes are written. -/
def areWritable : List Node → Bool
  | [] => true
  | item :: items => isWritable item && areWritable items

/-- Whether some entries are written. -/
def entriesAreWritable : List (Scalar × Node) → Bool
  | [] => true
  | (key, value) :: entries => key.isWritable && isWritable value && entriesAreWritable entries

end

/-- What is to be said about a node that is shown, unless it cannot be written. -/
def showing {ε : Type} (n : Node) (say : String → ε) (unwritable : ε) : ε :=
  if n.isWritable then say n.shown else unwritable

/-- The name of the type of a node. -/
def typeName : Node → String
  | scalar s => s.typeName
  | list _ _ => "list"
  | map _ _ => "dict"
  | tagged _ _ => "Tagged"
  | pair _ _ => "tuple"
  | set _ => "set"

/-! ## Sharing -/

mutual

/-- The same tree with no container shared. -/
def unshared : Node → Node
  | scalar s => scalar s
  | list _ items => list none (unsharedItems items)
  | map _ entries => map none (unsharedEntries entries)
  | tagged name payload => tagged name (unshared payload)
  | pair key value => pair (unshared key) (unshared value)
  | set members => set members

/-- The items with no container shared. -/
def unsharedItems : List Node → List Node
  | [] => []
  | item :: items => unshared item :: unsharedItems items

/-- The entries with no container shared. -/
def unsharedEntries : List (Scalar × Node) → List (Scalar × Node)
  | [] => []
  | (key, value) :: entries => (key, unshared value) :: unsharedEntries entries

end

end Node
end Runbook
