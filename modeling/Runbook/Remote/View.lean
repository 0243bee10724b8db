import Runbook.Files.Path
import Runbook.Remote.Peer

set_option autoImplicit false

/-! # What a session shows of a remote path

A download sees the remote host through its session: the status of a path, the bytes of a file, and
the listing of a directory, which is any list of names with what is seen at each. Names are whatever
the host sends, and each directory is listed in whatever order the host chooses. -/

namespace Runbook

/-- What is seen at a remote path: its mode, its bytes if they can be read, and its listing. -/
inductive RemoteView where
  | mk (mode : Option Nat) (content : Option Bytes) (listing : List (String × RemoteView))
deriving Repr, Inhabited

namespace RemoteView

/-- The mode of what is seen. -/
def mode : RemoteView → Option Nat
  | mk m _ _ => m

/-- The bytes of what is seen, if it is a file that can be read. -/
def content : RemoteView → Option Bytes
  | mk _ c _ => c

/-- The listing of what is seen. -/
def listing : RemoteView → List (String × RemoteView)
  | mk _ _ l => l

/-- Whether a mode is that of a directory. -/
def isDir (v : RemoteView) : Bool := modeKind (v.mode.getD 0) = 4

/-- Whether a mode is that of a regular file. -/
def isFile (v : RemoteView) : Bool := modeKind (v.mode.getD 0) = 8

end RemoteView

/-- The order in which a host lists its directories: what is there, each as often as it is there. -/
structure ListingOrder where
  arrange : Path → List (String × RemoteView) → List (String × RemoteView)
  perm : ∀ path listing, (arrange path listing).Perm listing

namespace ListingOrder

/-- The order in which things were made. -/
def asMade : ListingOrder := ⟨fun _ listing => listing, fun _ _ => .refl _⟩

end ListingOrder

namespace RemoteView

mutual

/-- What is seen at a path of a host that lists in an order of its own. -/
def inOrder (order : ListingOrder) (path : Path) : RemoteView → RemoteView
  | mk mode content listing =>
    mk mode content (order.arrange path (listingInOrder order path listing))

/-- A listing of a path, with everything below it in an order of the host. -/
def listingInOrder (order : ListingOrder) (path : Path) :
    List (String × RemoteView) → List (String × RemoteView)
  | [] => []
  | (name, v) :: rest =>
    (name, inOrder order (path.below name) v) :: listingInOrder order path rest

end

end RemoteView

namespace Peer

/-- The bytes of the file at a path. -/
def content? (peer : Peer) (path : String) : Option Bytes :=
  match peer.get? path with
  | some (.file content) => some content
  | _ => none

/-- What is seen at a path of the peer, down to a given depth. -/
def viewTo (peer : Peer) : Nat → Option Nat → Path → RemoteView
  | 0, mode, path => .mk mode (peer.content? path.toText) []
  | depth + 1, mode, path =>
    .mk mode (peer.content? path.toText) ((peer.list path.toText).map fun (name, e) =>
      (name, viewTo peer depth e.mode (path.below name)))

/-- What is seen at a path of the peer, if something is there. Each level below it takes another of
    the peer's paths, so the number of those is depth enough. -/
def view? (peer : Peer) (path : Path) : Option RemoteView :=
  (peer.get? path.toText).map fun e => peer.viewTo (peer.length + 1) e.mode path

end Peer
end Runbook
