import Runbook.Host.Files
import Runbook.Remote.Session
import Runbook.Remote.View

set_option autoImplicit false

/-! # File sessions

The calls of a file session, and the two walks that copy a directory: one over what the session
shows of a remote directory, in the order of its listings, and one over a local directory, in the
order of its names. Each makes a directory before it fills it, and stops at the first failure.
Nothing is taken back. -/

namespace Runbook.Sftp

open Runbook.Action Runbook.Session

/-- The permissions of a remote directory that is made: all for owner and group, and reading for
    others. -/
def directoryPermissions : Nat := 508

/-- The error of the peer where there is no file. -/
def noSuchFile : Failure := .of (.system 2 "No such file" none)

/-- Changes the remote files. -/
def changePeer (f : Peer → Peer) : Action Unit := Effect.modify fun w => { w with peer := f w.peer }

/-- Opens a file session. -/
def start : Action Unit := attempting .openSftp (perform .openSftp)

/-- Runs an action in a file session, which is closed afterwards in any case. -/
def withSftp {α : Type} (body : Action α) : Action α := do
  start
  body.andThenAlways (perform .closeSftp)

/-! ## Reading -/

/-- The call that asks for the status of a path at which something is seen or not. -/
def statCall (path : Path) (v : Option RemoteView) : Action (Option RemoteView) := do
  perform (.stat path.toText)
  return v

/-- The status of a path at which something is seen or not. A file that is not found is no error. -/
def stat (path : Path) (v : Option RemoteView) : Action (Option RemoteView) := do
  match ← (statCall path v).attempt with
  | .ok v => return v
  | .error f =>
    if f.isA .fileNotFound then return none
    else attempting (.readStatus path.toText) (Effect.fail f)

/-- Reads a file whose bytes are seen or not. -/
def readContent (path : Path) (content : Option Bytes) : Action Bytes :=
  attempting (.readFile path.toText) do
    perform (.openRead path.toText)
    match content with
    | some bytes => return bytes
    | none => Effect.fail noSuchFile

/-- Copies a file to a local path. -/
def downloadFile (remote localPath : Path) (content : Option Bytes) : Action Unit := do
  localPath.writeFile (← readContent remote content)

/-- Asks for the listing of a directory. -/
def askListing (path : Path) : Action Unit :=
  attempting (.readDirectory path.toText) (perform (.list path.toText))

mutual

/-- Copies what is seen at a remote path to a local path: a directory with all it lists, anything
    else as a file. -/
def downloadView (remote localPath : Path) : RemoteView → Action Unit
  | .mk mode content listing =>
    if RemoteView.isDir (.mk mode none []) then do
      localPath.makeDirectory
      askListing remote
      downloadListing remote localPath listing
    else downloadFile remote localPath content

/-- Copies what a remote directory lists into a local directory. -/
def downloadListing (remote localPath : Path) : List (String × RemoteView) → Action Unit
  | [] => pure ()
  | (name, v) :: rest => do
    downloadView (remote.below name) (localPath.below name) v
    downloadListing remote localPath rest

end

/-- Copies what is seen in a remote directory into a local directory. -/
def downloadDirectory (remote localPath : Path) (listing : List (String × RemoteView)) :
    Action Unit := do
  askListing remote
  downloadListing remote localPath listing

/-! ## Writing -/

/-- Writes a remote file. -/
def writeContent (path : Path) (content : Bytes) : Action Unit :=
  attempting (.writeFile path.toText) do
    perform (.openWrite path.toText)
    changePeer (·.put path.toText (.file content))

/-- Copies a local file to a remote path. -/
def uploadFile (localPath remote : Path) : Action Unit := do
  writeContent remote (← localPath.readBytes)

/-- Makes a remote directory. -/
def makeDirectory (path : Path) : Action Unit :=
  attempting (.createDirectory path.toText) do
    perform (.makeDir path.toText directoryPermissions)
    changePeer (·.put path.toText (PeerEntry.directory directoryPermissions))

mutual

/-- Copies the local node at a path to a remote path: a directory with all it holds, or a file. -/
def uploadTree (localPath remote : Path) : FileTree → Action Unit
  | .file content => do
    localPath.checkLength
    writeContent remote content
  | .dir entries => do
    localPath.checkLength
    makeDirectory remote
    uploadEntries localPath remote entries

/-- Copies the entries of a local directory into a remote directory. -/
def uploadEntries (localPath remote : Path) : List (String × FileTree) → Action Unit
  | [] => pure ()
  | (name, t) :: rest => do
    uploadTree (localPath.below name) (remote.below name) t
    uploadEntries localPath remote rest

end

/-- Copies the entries of the local directory at a path into a remote directory. -/
def uploadDirectory (localPath remote : Path) : Action Unit := do
  uploadEntries localPath remote (← localPath.readDirectory)

end Runbook.Sftp
