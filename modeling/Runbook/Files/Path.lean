import Runbook.Text.Words

set_option autoImplicit false

/-! # Paths

A path is kept as its parts. Repeated slashes, parts that are a single dot and slashes at the end do
not count; two dots stay, as what they lead to depends on the file system. A path that starts with
exactly two slashes is of a kind of its own. The local host and the remote peer use the same form.
-/

namespace Runbook

/-- Where a path starts. -/
inductive PathRoot where
  | working
  | single
  | double
deriving DecidableEq, Repr, Inhabited

/-- A path: where it starts, and the names after that. -/
structure Path where
  root : PathRoot
  parts : List String
deriving DecidableEq, Repr, Inhabited

namespace Path

/-- The names between slashes that count. -/
def partsOf (cs : List Char) : List String :=
  ((Text.splitAtChar '/' cs).map String.ofList).filter fun p => p ≠ "" && p ≠ "."

/-- Where some characters start. -/
def rootOf (cs : List Char) : PathRoot :=
  match (cs.takeWhile (· = '/')).length with
  | 0 => .working
  | 2 => .double
  | _ => .single

/-- The path that a text names. -/
def ofText (s : String) : Path := ⟨rootOf s.toList, partsOf s.toList⟩

/-- The text of a root. -/
def rootText : PathRoot → String
  | .working => ""
  | .single => "/"
  | .double => "//"

/-- The text of a path. The path to the working directory is a dot. -/
def toText (p : Path) : String :=
  let s := rootText p.root ++ "/".intercalate p.parts
  if s = "" then "." else s

instance : ToString Path := ⟨toText⟩

/-- The last name of a path. -/
def name (p : Path) : String := p.parts.getLast?.getD ""

/-- The path without its last name. -/
def parent (p : Path) : Path := { p with parts := p.parts.dropLast }

/-- A name, or several with slashes between them, below a path. A name that starts with a slash
    leads away from the path. -/
def below (p : Path) (s : String) : Path :=
  let q := ofText s
  if q.root = .working then { p with parts := p.parts ++ q.parts } else q

/-- The ending of the last name from its last dot. A dot at either end of the name opens none. -/
def suffix (p : Path) : String :=
  let cs := p.name.toList
  let after := (cs.reverse.takeWhile (· ≠ '.')).length
  let before := cs.length - after
  if after = 0 || before ≤ 1 then "" else String.ofList (cs.drop (before - 1))

/-- A plain name: no slash, not empty, and neither one dot nor two. -/
def isPlainName (s : String) : Bool :=
  s ≠ "" && s ≠ "." && s ≠ ".." && !s.toList.contains '/'

end Path
end Runbook
