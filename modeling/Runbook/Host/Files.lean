import Runbook.Host.Action

set_option autoImplicit false

/-! # Local files

The calls of the local file system that a run makes. An error of the file system is put into the
context of what was attempted. A path with a null character in it is no path for the system; the
attempt ends with an error that has no context, except that nothing is there. -/

namespace Runbook

/-- Whether a text can be the name of a file: it holds no null character. -/
def noNull (s : String) : Bool := !s.toList.contains '\x00'

namespace Path

/-- The failure of a call of the local file system at a path. -/
def failure (p : Path) (e : FileError) : Failure := .of (e.cause p.toText)

/-- A call of the local file system at a path, in the context of what is attempted. -/
def call {α : Type} (p : Path) (context : LocalProblem)
    (f : FileTree → List String → Path → Except FileError α) : Action α := fun e w =>
  if noNull p.toText then
    match f w.files e.workingDir p with
    | .ok a => (.ok a, w)
    | .error e => (.error (.because (.onHost context) (p.failure e)), w)
  else (.error (.of .nullInPath), w)

/-- Sets the local files. -/
def setFiles (t : FileTree) : Action Unit := Effect.modify fun w => { w with files := t }

/-- Reads a file. -/
def readBytes (p : Path) : Action Bytes := p.call (.readFile p.toText) FileTree.read

/-- Writes a file. -/
def writeFile (p : Path) (content : Bytes) : Action Unit := do
  setFiles (← p.call (.createFile p.toText) fun t here p => t.write here p content)

/-- Makes a directory. -/
def makeDirectory (p : Path) : Action Unit := do
  setFiles (← p.call (.createDirectory p.toText) FileTree.makeDir)

/-- The entries of a directory, in the order of their names. -/
def readDirectory (p : Path) : Action (List (String × FileTree)) :=
  p.call (.readDirectory p.toText) FileTree.list

/-- Makes sure that the text of a path is not too long to be looked at. -/
def checkLength (p : Path) : Action Unit :=
  if FileTree.pathLimit < p.toText.utf8ByteSize then Effect.fail (p.failure .nameTooLong)
  else pure ()

/-- What is at a path, if anything is. A name that is too long is an error of its own. -/
def found? (p : Path) : Action (Option FileTree) := fun e w =>
  if noNull p.toText then
    match w.files.at? e.workingDir p with
    | .ok t => (.ok t, w)
    | .error .nameTooLong => (.error (p.failure .nameTooLong), w)
    | .error _ => (.ok none, w)
  else (.ok none, w)

/-- Whether a file is at a path. -/
def isFile (p : Path) : Action Bool := do return ((← p.found?).map FileTree.isFile).getD false

/-- Whether a directory is at a path. -/
def isDirectory (p : Path) : Action Bool := do return ((← p.found?).map FileTree.isDir).getD false

end Path
end Runbook
