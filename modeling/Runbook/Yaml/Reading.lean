import Runbook.Yaml.Plain

set_option autoImplicit false

/-! # The tree of some tokens

Reads the one document that a token list may hold. A node is found by the first token after its
anchor and tag; a missing node is an empty scalar where the grammar allows one. Anchors are unique
in a document and are defined before they are used. Every function takes a bound on the depth of its
calls; a call goes with a token, so the number of tokens bounds them. -/

namespace Runbook.Yaml

/-- What is known while the tokens of a document are read. -/
structure Reading where
  tokens : List Token
  /-- The nodes with anchors, without a node while it is still being read. -/
  anchors : List (String × Option Tree)
  /-- The place of the next node. -/
  next : Nat
  /-- What the handles of tags stand for. -/
  handles : List (String × String)
  /-- Whether a node was met inside itself. Such a document is refused when all of it is read. -/
  looped : Bool

/-- Reading that may meet a fault. -/
abbrev Read (α : Type) := StateT Reading (Except Fault) α

namespace Read

/-- A violation of the grammar. -/
def fail {α : Type} : Read α := throw .malformed

/-- The next token. A fault of the text is met when it is the next. -/
def peek : Read Token := do
  match (← get).tokens with
  | [] => fail
  | .broken fault :: _ => throw fault
  | t :: _ => return t

/-- Passes the next token. -/
def drop : Read Unit := modify fun r => { r with tokens := r.tokens.tail }

/-- Passes the next token, which has to be a given one. -/
def expect (t : Token) : Read Unit := do
  if (← peek) = t then drop else fail

/-- A place of its own for a node. -/
def place : Read Nat := do
  let r ← get
  set { r with next := r.next + 1 }
  return r.next

/-- The node that stands where the grammar allows to leave one out. -/
def absent : Read Tree := do return .scalar (← place) (coreTag "null") ""

/-- An anchor, if one comes next. -/
def anchor? : Read (Option String) := do
  match ← peek with
  | .anchor name => drop; return some name
  | _ => return none

/-- A tag as it is written, with a handle or none, if one comes next. -/
def tag? : Read (Option (Option String × String)) := do
  match ← peek with
  | .tag handle suffix => drop; return some (handle, suffix)
  | _ => return none

/-- A tag with its handle replaced. -/
def wholeTag : Option (Option String × String) → Read (Option String)
  | none => return none
  | some (none, suffix) => return some suffix
  | some (some handle, suffix) => do
    match (← get).handles.find? (·.1 = handle) with
    | some (_, lead) => return some (lead ++ suffix)
    | none => fail

/-- Anchor and tag of a node, in either order. The handle of the tag is looked up when both have
    been passed. -/
def properties : Read (Option String × Option String) := do
  match ← anchor? with
  | some name => return (some name, ← wholeTag (← tag?))
  | none =>
    match ← tag? with
    | some tag =>
      let name ← anchor?
      return (name, ← wholeTag (some tag))
    | none => return (none, none)

/-- Reserves the name of an anchor. -/
def reserve : Option String → Read Unit
  | none => return
  | some name => do
    let r ← get
    if r.anchors.any (·.1 = name) then fail
    else set { r with anchors := (name, none) :: r.anchors }

/-- Defines an anchor as a node, and yields the node. -/
def define (name? : Option String) (t : Tree) : Read Tree := do
  match name? with
  | none => return t
  | some name =>
    modify fun r => { r with anchors := (name, some t) :: r.anchors.filter (·.1 ≠ name) }
    return t

/-- The node of an anchor. A node that is still being read has none yet. -/
def aliased (name : String) : Read Tree := do
  match (← get).anchors.find? (·.1 = name) with
  | some (_, some t) => return t
  | some (_, none) => modify fun r => { r with looped := true }; absent
  | none => fail

/-- The tag of a node that holds others. -/
def groupTag (tag : Option String) (name : String) : String :=
  match tag with
  | none => coreTag name
  | some "!" => coreTag name
  | some t => t

/-- The tag of a scalar. -/
def scalarTag (tag : Option String) (plain : Bool) (text : String) : String :=
  match tag with
  | none => if plain then plainTag text else coreTag "str"
  | some "!" => plainTag text
  | some t => t

mutual

/-- A node. Block collections are allowed only outside brackets, and a sequence without indentation
    only as the key or value of a block mapping. -/
def node (inBlock indentless : Bool) : Nat → Read Tree
  | 0 => fail
  | fuel + 1 => do
    match ← peek with
    | .alias name => drop; aliased name
    | _ =>
      let (anchor, tag) ← properties
      match ← peek with
      | .scalar text plain =>
        drop
        reserve anchor
        define anchor (.scalar (← place) (scalarTag tag plain text) text)
      | .flowSequenceStart =>
        drop
        reserve anchor
        let p ← place
        define anchor (.sequence p (groupTag tag "seq") (← flowItems true fuel))
      | .flowMappingStart =>
        drop
        reserve anchor
        let p ← place
        define anchor (.mapping p (groupTag tag "map") (← flowEntries true fuel))
      | t =>
        if indentless && t = .blockEntry then
          reserve anchor
          let p ← place
          define anchor (.sequence p (groupTag tag "seq") (← blockItems true fuel))
        else if inBlock && t = .blockSequenceStart then
          drop
          reserve anchor
          let p ← place
          define anchor (.sequence p (groupTag tag "seq") (← blockItems false fuel))
        else if inBlock && t = .blockMappingStart then
          drop
          reserve anchor
          let p ← place
          define anchor (.mapping p (groupTag tag "map") (← blockEntries fuel))
        else if anchor.isSome || tag.isSome then
          reserve anchor
          define anchor (.scalar (← place) (scalarTag tag true "") "")
        else fail

/-- The items of a block sequence. One without indentation ends before the first token that is no
    entry, and takes none that closes a block. -/
def blockItems (indentless : Bool) : Nat → Read (List Tree)
  | 0 => fail
  | fuel + 1 => do
    match ← peek with
    | .blockEntry =>
      drop
      let t ← peek
      let missing := t = .blockEntry || t = .blockEnd
        || (indentless && (t = .key || t = .value))
      let item ← if missing then absent else node true false fuel
      return item :: (← blockItems indentless fuel)
    | .blockEnd =>
      if indentless then return [] else drop; return []
    | _ => if indentless then return [] else fail

/-- The entries of a block mapping. -/
def blockEntries : Nat → Read (List (Tree × Tree))
  | 0 => fail
  | fuel + 1 => do
    let part : Read Tree := do
      let t ← peek
      if t = .key || t = .value || t = .blockEnd then absent else node true true fuel
    match ← peek with
    | .key =>
      drop
      let key ← part
      let value ← if (← peek) = .value then drop; part else absent
      return (key, value) :: (← blockEntries fuel)
    | .value =>
      fail
    | .blockEnd => drop; return []
    | _ => fail

/-- The items of a sequence in brackets. An item with a key is a mapping of one entry. -/
def flowItems (first : Bool) : Nat → Read (List Tree)
  | 0 => fail
  | fuel + 1 => do
    if (← peek) = .flowSequenceEnd then drop; return []
    if !first then expect .flowEntry
    match ← peek with
    | .flowSequenceEnd => drop; return []
    | .key =>
      drop
      let p ← place
      let t ← peek
      let key ← if t = .value || t = .flowEntry || t = .flowSequenceEnd then absent
        else node false false fuel
      let value ← if (← peek) = .value then
          drop
          let t ← peek
          if t = .flowEntry || t = .flowSequenceEnd then absent else node false false fuel
        else absent
      return .mapping p (coreTag "map") [(key, value)] :: (← flowItems false fuel)
    | _ =>
      let item ← node false false fuel
      return item :: (← flowItems false fuel)

/-- The entries of a mapping in braces. A node without the mark of a key is a key without a value.
    -/
def flowEntries (first : Bool) : Nat → Read (List (Tree × Tree))
  | 0 => fail
  | fuel + 1 => do
    if (← peek) = .flowMappingEnd then drop; return []
    if !first then expect .flowEntry
    match ← peek with
    | .flowMappingEnd => drop; return []
    | .key =>
      drop
      let t ← peek
      let key ← if t = .value || t = .flowEntry || t = .flowMappingEnd then absent
        else node false false fuel
      let value ← if (← peek) = .value then
          drop
          let t ← peek
          if t = .flowEntry || t = .flowMappingEnd then absent else node false false fuel
        else absent
      return (key, value) :: (← flowEntries false fuel)
    | _ =>
      let key ← node false false fuel
      return (key, ← absent) :: (← flowEntries false fuel)

end

/-- What the handles of tags stand for when no directive says otherwise. -/
def defaultHandles : List (String × String) := [("!", "!"), ("!!", coreTag "")]

/-- The directives before a document. -/
def directives (versioned : Bool) (handles : List (String × String)) : Nat → Read Unit
  | 0 => fail
  | fuel + 1 => do
    match ← peek with
    | .version major =>
      drop
      if versioned || major ≠ 1 then fail else directives true handles fuel
    | .tagHandle handle lead =>
      drop
      if handles.any (·.1 = handle) then fail
      else directives versioned ((handle, lead) :: handles) fuel
    | .directive => drop; directives versioned handles fuel
    | _ => modify fun r => { r with handles := handles ++ defaultHandles }

/-- Passes the marks that end a document, after which the text ends. Directives after it are read
    before the second document is refused. -/
def finish : Nat → Read Unit
  | 0 => fail
  | fuel + 1 => do
    let t ← peek
    if t = .documentEnd then drop; finish fuel
    else if t = .streamEnd then return
    else
      directives false [] fuel
      fail

/-- Whether a token stands before or after a document. -/
def isDocumentMark : Token → Bool
  | .version _ => true
  | .tagHandle _ _ => true
  | .directive => true
  | .documentStart => true
  | .streamEnd => true
  | _ => false

/-- The document of a text, if the text is not empty. -/
def document (fuel : Nat) : Read (Option Tree) := do
  let first ← peek
  if first = .streamEnd then return none
  let tree ←
    if isDocumentMark first then do
      directives false [] fuel
      expect .documentStart
      let t ← peek
      if isDocumentMark t || t = .documentEnd then absent else node true false fuel
    else node true false fuel
  finish fuel
  if (← get).looped then fail else return some tree

end Read

/-- The document that some tokens hold, if they hold one. -/
def Tree.ofTokens (tokens : List Token) : Except Fault (Option Tree) :=
  let start : Reading := ⟨tokens, [], 0, Read.defaultHandles, false⟩
  ((Read.document (2 * tokens.length + 2)).run start).map (·.1)

end Runbook.Yaml
