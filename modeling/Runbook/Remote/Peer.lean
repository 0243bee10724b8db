import Runbook.Error.Failure
import Runbook.Files.Path

set_option autoImplicit false

/-! # The remote peer

The files of the remote host as a session shows them: paths, in the order in which they were made,
each with the bytes of a file or with the status of something else. The peer does not look into
paths; a directory lists what is written one name below it. -/

namespace Runbook

/-- What stands at a path of the peer. -/
inductive PeerEntry where
  | file (content : Bytes)
  | other (mode : Option Nat)
deriving DecidableEq, Repr, Inhabited

/-- The kind bits of a mode. -/
def modeKind (mode : Nat) : Nat := mode / 4096 % 16

namespace PeerEntry

/-- The mode of a regular file. -/
def fileMode : Nat := 33188

/-- The mode of an entry. It may be unknown. -/
def mode : PeerEntry → Option Nat
  | file _ => some fileMode
  | other m => m

/-- Whether an entry is a directory by its mode. -/
def isDir (e : PeerEntry) : Bool := modeKind (e.mode.getD 0) = 4

/-- Whether an entry is a regular file by its mode. -/
def isFile (e : PeerEntry) : Bool := modeKind (e.mode.getD 0) = 8

/-- A directory with given permissions. -/
def directory (permissions : Nat) : PeerEntry := other (some (16384 ||| permissions))

end PeerEntry

/-- The files of the remote host. -/
abbrev Peer := List (String × PeerEntry)

namespace Peer

/-- What stands at a path. -/
def get? : Peer → String → Option PeerEntry
  | [], _ => none
  | (p, e) :: rest, path => if p = path then some e else get? rest path

/-- Sets what stands at a path. A path that is there already keeps its position. -/
def put : Peer → String → PeerEntry → Peer
  | [], path, e => [(path, e)]
  | (p, old) :: rest, path, e =>
    if p = path then (p, e) :: rest else (p, old) :: put rest path e

/-- The characters before the names in a directory. -/
def lead (path : String) : List Char := Text.dropEndWhile (· = '/') path.toList ++ ['/']

/-- The name of a path in a directory, if it lies one name below the directory. -/
def nameIn? (path child : String) : Option String :=
  let lead := lead path
  if lead.isPrefixOf child.toList then
    let name := child.toList.drop lead.length
    if name = [] || '/' ∈ name then none else some (String.ofList name)
  else none

/-- What a directory lists: names and entries, in the order of the peer. -/
def list (peer : Peer) (path : String) : List (String × PeerEntry) :=
  peer.filterMap fun (p, e) => (nameIn? path p).map fun name => (name, e)

@[simp] theorem get?_put_self (peer : Peer) (path : String) (e : PeerEntry) :
    (peer.put path e).get? path = some e := by
  induction peer with
  | nil => simp [put, get?]
  | cons x rest ih =>
      obtain ⟨p, old⟩ := x
      by_cases h : p = path
      · simp [put, get?, h]
      · simp [put, get?, h, ih]

theorem get?_put_of_ne {path other : String} (hne : other ≠ path) (peer : Peer) (e : PeerEntry) :
    (peer.put path e).get? other = peer.get? other := by
  induction peer with
  | nil => simp [put, get?, Ne.symm hne]
  | cons x rest ih =>
      obtain ⟨p, old⟩ := x
      by_cases h : p = path
      · subst h
        simp [put, get?, Ne.symm hne]
      · by_cases ho : p = other
        · subst ho
          simp [put, get?, h]
        · simp [put, get?, h, ho, ih]

end Peer
end Runbook
