import Runbook.Error.Failure
import Runbook.Files.Path

set_option autoImplicit false

/-! # A tree of files

The files of a host: a tree of directories, the entries of which are listed in the order of their
names. Paths are followed name by name, from the root of the tree or from the names of a working
directory. The root is its own parent. A name has at most 255 bytes, and the text of a path at most
4095. -/

namespace Runbook

/-- A file or a directory. -/
inductive FileTree where
  | file (content : Bytes)
  | dir (entries : List (String × FileTree))
deriving Repr, Inhabited

namespace FileTree

/-- An empty directory. -/
def empty : FileTree := dir []

/-- The entry of a name. -/
def child? (name : String) : List (String × FileTree) → Option FileTree
  | [] => none
  | (n, t) :: rest => if n = name then some t else child? name rest

/-- Sets the entry of a name and keeps the order of names. -/
def setEntry (name : String) (t : FileTree) : List (String × FileTree) → List (String × FileTree)
  | [] => [(name, t)]
  | (n, u) :: rest =>
    if n = name then (n, t) :: rest
    else if name < n then (name, t) :: (n, u) :: rest
    else (n, u) :: setEntry name t rest

/-- The entries of a directory. A file has none. -/
def entries : FileTree → List (String × FileTree)
  | file _ => []
  | dir es => es

/-- The node that some names lead to. -/
def get? : FileTree → List String → Option FileTree
  | t, [] => some t
  | t, name :: names => (child? name t.entries).bind fun u => get? u names

/-- Sets the node that some names lead to. Directories on the way that are missing are made. -/
def put : FileTree → List String → FileTree → FileTree
  | _, [], new => new
  | t, name :: names, new =>
    dir (setEntry name (put ((child? name t.entries).getD empty) names new) t.entries)

mutual

/-- A node, with the entries of each directory sorted by their names. -/
def sorted : FileTree → FileTree
  | file content => file content
  | dir es => dir (sortedEntries es)

/-- Some entries sorted by their names, and so everything below them. -/
def sortedEntries : List (String × FileTree) → List (String × FileTree)
  | [] => []
  | (name, t) :: rest => setEntry name t.sorted (sortedEntries rest)

end

/-- Whether a node is a file. -/
def isFile : FileTree → Bool
  | file _ => true
  | dir _ => false

/-- Whether a node is a directory. -/
def isDir : FileTree → Bool
  | file _ => false
  | dir _ => true

mutual

/-- Everything below a node, each directory before what it holds: the names that lead there, and the
    content of a file. -/
def items (lead : List String) : FileTree → List (List String × Option Bytes)
  | file _ => []
  | dir es => entryItems lead es

/-- Some entries and everything below them. -/
def entryItems (lead : List String) :
    List (String × FileTree) → List (List String × Option Bytes)
  | [] => []
  | (name, t) :: rest =>
    let here := lead ++ [name]
    let own := match t with
      | file content => (here, some content)
      | dir _ => (here, none)
    own :: (items here t ++ entryItems lead rest)

end

end FileTree

/-! ## Following paths -/

/-- An error of the local file system. -/
inductive FileError where
  | missing
  | isDirectory
  | notDirectory
  | occupied
  | nameTooLong
deriving DecidableEq, Repr

/-- The report of an error of the local file system at a path. -/
def FileError.cause (path : String) : FileError → Cause
  | .missing => .system 2 "No such file or directory" (some path)
  | .isDirectory => .system 21 "Is a directory" (some path)
  | .notDirectory => .system 20 "Not a directory" (some path)
  | .occupied => .system 17 "File exists" (some path)
  | .nameTooLong => .system 36 "File name too long" (some path)

/-- Where a path leads. -/
inductive Spot where
  /-- To a node, by its names from the root. -/
  | inside (names : List String)
  /-- To nothing, in a directory that exists. -/
  | absent (names : List String)
deriving DecidableEq, Repr

namespace FileTree

/-- The most bytes of a name. -/
def nameLimit : Nat := 255

/-- The most bytes of the text of a path. -/
def pathLimit : Nat := 4095

/-- Where a name leads from a place in the tree. A name is looked up in a directory only; an empty
    name and the dot stay there, and two dots lead up. -/
def step (t : FileTree) (place : List String) (name : String) : Except FileError Spot :=
  match t.get? place with
  | none => .error .missing
  | some (.file _) => .error .notDirectory
  | some (.dir es) =>
    if nameLimit < name.utf8ByteSize then .error .nameTooLong
    else if name = "" || name = "." then .ok (.inside place)
    else if name = ".." then .ok (.inside place.dropLast)
    else
      match child? name es with
      | some _ => .ok (.inside (place ++ [name]))
      | none => .ok (.absent (place ++ [name]))

/-- Follows names from a place in the tree. Only the last one may lead to nothing. -/
def follow (t : FileTree) (place : List String) : List String → Except FileError Spot
  | [] => .ok (.inside place)
  | name :: names =>
    match t.step place name with
    | .error e => .error e
    | .ok (.inside next) => follow t next names
    | .ok (.absent next) => if names = [] then .ok (.absent next) else .error .missing

/-- The place where a path starts. -/
def start (workingDir : List String) (p : Path) : List String :=
  if p.root = .working then workingDir else []

/-- Follows a path. -/
def locate (t : FileTree) (workingDir : List String) (p : Path) : Except FileError Spot :=
  if pathLimit < p.toText.utf8ByteSize then .error .nameTooLong
  else t.follow (start workingDir p) p.parts

/-- The node at a path. -/
def at? (t : FileTree) (workingDir : List String) (p : Path) :
    Except FileError (Option FileTree) :=
  (t.locate workingDir p).map fun spot =>
    match spot with
    | .inside names => t.get? names
    | .absent _ => none

/-- The content of the file at a path. -/
def read (t : FileTree) (workingDir : List String) (p : Path) : Except FileError Bytes :=
  match t.at? workingDir p with
  | .error e => .error e
  | .ok none => .error .missing
  | .ok (some (.file content)) => .ok content
  | .ok (some (.dir _)) => .error .isDirectory

/-- The entries of the directory at a path and below it, sorted by their names. -/
def list (t : FileTree) (workingDir : List String) (p : Path) :
    Except FileError (List (String × FileTree)) :=
  match t.at? workingDir p with
  | .error e => .error e
  | .ok none => .error .missing
  | .ok (some (.file _)) => .error .notDirectory
  | .ok (some (.dir es)) => .ok (dir es).sorted.entries

/-- The tree after a file is written at a path, where there is a file already or nothing yet. -/
def write (t : FileTree) (workingDir : List String) (p : Path) (content : Bytes) :
    Except FileError FileTree :=
  match t.locate workingDir p with
  | .error e => .error e
  | .ok (.absent names) => .ok (t.put names (.file content))
  | .ok (.inside names) =>
    match t.get? names with
    | some (.file _) => .ok (t.put names (.file content))
    | _ => .error .isDirectory

/-- The tree after a directory is made at a path, where there is nothing yet. -/
def makeDir (t : FileTree) (workingDir : List String) (p : Path) : Except FileError FileTree :=
  match t.locate workingDir p with
  | .error e => .error e
  | .ok (.absent names) => .ok (t.put names empty)
  | .ok (.inside _) => .error .occupied

/-! ## Looking up what was set -/

theorem child?_setEntry_self (name : String) (t : FileTree) (es : List (String × FileTree)) :
    child? name (setEntry name t es) = some t := by
  induction es with
  | nil => simp [setEntry, child?]
  | cons e rest ih =>
      obtain ⟨n, u⟩ := e
      by_cases h : n = name
      · simp [setEntry, child?, h]
      · by_cases hlt : name < n
        · simp [setEntry, child?, h, hlt]
        · simp [setEntry, child?, h, hlt, ih]

theorem child?_setEntry_of_ne {name other : String} (hne : other ≠ name) (t : FileTree)
    (es : List (String × FileTree)) : child? other (setEntry name t es) = child? other es := by
  induction es with
  | nil => simp [setEntry, child?, Ne.symm hne]
  | cons e rest ih =>
      obtain ⟨n, u⟩ := e
      by_cases h : n = name
      · subst h
        simp [setEntry, child?, Ne.symm hne]
      · by_cases hlt : name < n
        · simp [setEntry, child?, h, hlt, Ne.symm hne]
        · by_cases ho : n = other
          · subst ho
            simp [setEntry, child?, h, hlt]
          · simp [setEntry, child?, h, hlt, ho, ih]

/-- What is set is found. -/
theorem get?_put_self (new : FileTree) (names : List String) (t : FileTree) :
    get? (put t names new) names = some new := by
  induction names generalizing t with
  | nil => rfl
  | cons name names ih => simp [put, get?, entries, child?_setEntry_self, ih]

end FileTree
end Runbook
