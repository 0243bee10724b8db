import Runbook.Remote.Sftp
import Runbook.Task.Basic

set_option autoImplicit false

/-! # Transfers

A transfer copies a file or a directory between a remote host and the local files, in a session of
its own. A single file may be copied over scp, which reads it whole before it is written. Over sftp,
files and directories are copied; what is there already is refused. -/

namespace Runbook

/-! ## Single files over scp -/

namespace Scp

open Runbook.Action Runbook.Session

/-- The mode of a file that is made over scp. -/
def fileMode : String := "0644"

/-- Whether a failure is a fault of a copy. -/
def isFault (f : Failure) : Bool := f.isA .scp || f.isSessionFault

/-- Runs the calls of a copy, between making its client and closing it. -/
def copying {α : Type} (context : RemoteProblem) (body : Action α) : Action α :=
  Effect.because (do
    perform .scp
    body.andThenAlways (perform .closeScp)) isFault (.onPeer context)

/-- The failure of the peer where there is no file. -/
def noSuchFile (path : String) : Failure :=
  .of (.reported .scp (some ("scp: " ++ path ++ ": No such file or directory")))

/-- Reads a remote file. -/
def get (path : String) : Action Bytes := do
  perform (.scpGet path)
  match (← Effect.get).peer.content? path with
  | some content => return content
  | none => Effect.fail (noSuchFile path)

/-- Writes a remote file. -/
def put (path : String) (content : Bytes) : Action Unit := do
  perform (.scpPut path fileMode content.length)
  Sftp.changePeer (·.put path (.file content))

/-- Copies a remote file to a local path. It is written after the session is closed. -/
def download (target : Target) (remote : String) (localPath : Path) : Action Unit := do
  let content ← withConnection target (copying (.scpReceive remote) (get remote))
  localPath.writeFile content

/-- Copies a local file to a remote path. It is read before the session is opened. -/
def upload (target : Target) (localPath : Path) (remote : String) : Action Unit := do
  let content ← localPath.readBytes
  withConnection target (copying (.scpCreate remote) (put remote content))

end Scp

/-! ## Files and directories over sftp -/

namespace Sftp

open Runbook.Action Runbook.Session

/-- Refuses with a local problem if a condition holds. -/
def refuseLocal (condition : Bool) (p : LocalProblem) : Action Unit :=
  if condition then Effect.failWith (.onHost p) else pure ()

/-- Copies a remote file. A local directory receives it under its remote name; a local file is not
    overwritten. -/
def receiveFile (remote localPath : Path) (content : Option Bytes) : Action Unit := do
  refuseLocal (← localPath.isFile) (.fileThere localPath.toText)
  let destination := if ← localPath.isDirectory then localPath.below remote.name else localPath
  downloadFile remote destination content

/-- Copies a remote directory to a local path where there is no directory yet, in a directory that
    is there. -/
def receiveDirectory (remote localPath : Path) (listing : List (String × RemoteView)) :
    Action Unit := do
  refuseLocal (← localPath.isDirectory) (.directoryThere localPath.toText)
  refuseLocal (!(← localPath.parent.isDirectory)) (.missingParent localPath.parent.toText)
  localPath.makeDirectory
  downloadDirectory remote localPath listing

/-- Copies what is seen at a remote path, if something is. -/
def receive (remote localPath : Path) (seen : Option RemoteView) : Action Unit := do
  match ← stat remote seen with
  | none => Effect.failWith (.onPeer (.missing remote.toText))
  | some v =>
    if v.isFile then receiveFile remote localPath v.content
    else if v.isDir then receiveDirectory remote localPath v.listing
    else Effect.failWith (.onPeer (.neither remote.toText))

/-- What the peer shows at a path, each directory listed in the peer's own order. -/
def shown (path : Path) : Action (Option RemoteView) := do
  let order := (← Effect.setting).listing
  return ((← Effect.get).peer.view? path).map fun v => v.inOrder order path

/-- Copies a remote file or directory to a local path. -/
def download (target : Target) (remote localPath : Path) : Action Unit :=
  withConnection target (withSftp do
    receive remote localPath (← shown remote))

/-- Copies a local directory to a remote path where there is nothing yet. -/
def sendDirectory (localPath remote : Path) : Action Unit := do
  match ← stat remote ((← Effect.get).peer.view? remote) with
  | some _ => Effect.failWith (.onPeer (.there remote.toText))
  | none =>
    makeDirectory remote
    uploadDirectory localPath remote

/-- Copies a local file or directory to a remote path. -/
def upload (target : Target) (localPath remote : Path) : Action Unit := do
  if !(← localPath.isFile) then
    refuseLocal (!(← localPath.isDirectory)) (.missing localPath.toText)
  withConnection target (withSftp do
    if ← localPath.isFile then uploadFile localPath remote
    else sendDirectory localPath remote)

end Sftp

namespace Transfer

/-- Carries out a transfer. -/
def execute (t : Transfer) : Action Unit :=
  match t.kind with
  | .scpDownload => Scp.download t.target t.remotePath (Path.ofText t.localPath)
  | .scpUpload => Scp.upload t.target (Path.ofText t.localPath) t.remotePath
  | .sftpDownload => Sftp.download t.target (Path.ofText t.remotePath) (Path.ofText t.localPath)
  | .sftpUpload => Sftp.upload t.target (Path.ofText t.localPath) (Path.ofText t.remotePath)

end Transfer
end Runbook
