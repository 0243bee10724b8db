import Runbook.Proofs.Download

set_option autoImplicit false

/-! # What a download overwrites

A download makes a directory only where nothing is, and refuses to write to the path of a file. But
a file that is received into a local directory is written whatever stands there under its name. This
is the only way in which a download loses a local file. -/

namespace Runbook

open Path (IsComponent)

namespace FileTree

/-- Every file of a tree is a file of another one, with the same content. -/
def KeepsFiles (t t' : FileTree) : Prop :=
  ∀ names old, t.get? names = some (.file old) → t'.get? names = some (.file old)

theorem KeepsFiles.refl (t : FileTree) : t.KeepsFiles t := fun _ _ h => h

variable {t : FileTree} {workingDir place names : List String} {p : Path}

/-- There is nothing below a file. -/
theorem eq_of_below_file {content : Bytes} {u : FileTree}
    (hfile : t.get? place = some (.file content)) (hu : t.get? names = some u)
    (hbelow : place <+: names) : names = place := by
  obtain ⟨rest, rfl⟩ := hbelow
  rw [get?_append, hfile, Option.bind_some] at hu
  cases rest with
  | nil => simp
  | cons name rest => exact absurd (isDir_of_get?_cons hu) (by simp [isDir])

/-- A file is neither above nor below a path that leads to nothing. -/
theorem beside_of_absent {content : Bytes} (hplace : t.locate workingDir p = .ok (.absent place))
    (hfile : t.get? names = some (.file content)) : ¬ place <+: names ∧ ¬ names <+: place := by
  have hnone := get?_of_absent hplace
  obtain ⟨dir, q, name, -, rfl, hdir⟩ := reaches_of_locate hplace
  obtain ⟨es, hes⟩ := hdir.isDir
  refine ⟨fun hbelow => ?_, fun habove => ?_⟩
  · obtain ⟨rest, rfl⟩ := hbelow
    rw [get?_append, hnone] at hfile
    cases hfile
  · rcases List.prefix_concat_iff.1 habove with rfl | hpre
    · rw [hnone] at hfile
      cases hfile
    · exact absurd (isDir_above hes hpre hfile) (by simp [isDir])

/-- What is put where nothing was keeps every file. -/
theorem keepsFiles_put_of_absent (hplace : t.locate workingDir p = .ok (.absent place))
    (new : FileTree) : t.KeepsFiles (t.put place new) := by
  intro names old hold
  obtain ⟨hbelow, habove⟩ := beside_of_absent hplace hold
  rw [get?_put_beside new hbelow habove, hold]

/-- Writing a file keeps every other one. -/
theorem get?_put_file {old other : Bytes} (hfile : t.get? place = some (.file old))
    (hother : t.get? names = some (.file other)) (hne : names ≠ place) (new : FileTree) :
    (t.put place new).get? names = some (.file other) := by
  rw [get?_put_beside new (fun h => hne (eq_of_below_file hfile hother h))
    (fun h => hne (eq_of_below_file hother hfile h).symm), hother]

/-- Writing to a file what it holds keeps every file. -/
theorem keepsFiles_put_same {old : Bytes} (hfile : t.get? place = some (.file old)) :
    t.KeepsFiles (t.put place (.file old)) := by
  intro names other hother
  by_cases hne : names = place
  · subst hne
    rw [get?_put_self, ← hother, hfile]
  · exact get?_put_file hfile hother hne _

/-- What a write does: a new file, or new content for a file at the path. -/
theorem write_cases {content : Bytes} {t' : FileTree} (h : t.write workingDir p content = .ok t') :
    (∃ place, t.locate workingDir p = .ok (.absent place) ∧ t' = t.put place (.file content)) ∨
      ∃ place old, t.at? workingDir p = .ok (some (.file old)) ∧
        t.get? place = some (.file old) ∧ t' = t.put place (.file content) := by
  unfold FileTree.write at h
  split at h
  · cases h
  · next q hq =>
    cases h
    exact Or.inl ⟨q, hq, rfl⟩
  · next q hq =>
    split at h
    · next old hold =>
      cases h
      exact Or.inr ⟨q, old, by rw [at?, hq]; simp [Except.map, hold], hold, rfl⟩
    · cases h

/-- A file can be written wherever one is found. -/
theorem write_of_file {old : Bytes} (h : t.at? workingDir p = .ok (some (.file old)))
    (content : Bytes) : ∃ place, t.get? place = some (.file old) ∧
      t.write workingDir p content = .ok (t.put place (.file content)) := by
  obtain ⟨place, hplace, hold⟩ := locate_of_at h
  refine ⟨place, hold, ?_⟩
  simp only [FileTree.write, hplace, hold]

end FileTree

namespace Sftp

open Action Session RemoteView FileTree

variable {e : Setting} {w : World} {remote p : Path}

/-- In a local directory, under the name of a remote file, there is a file with another content. -/
def Clash (remote p : Path) (new : Bytes) (e : Setting) (w : World) : Prop :=
  (∃ es, noNull p.toText = true ∧ w.files.at? e.workingDir p = .ok (some (.dir es))) ∧
    ∃ old, noNull (p.below remote.name).toText = true ∧
      w.files.at? e.workingDir (p.below remote.name) = .ok (some (.file old)) ∧ old ≠ new

/-- A remote file is downloaded over a local one: it is there, it would be received where another
    file is, and every call up to the one that reads it is spared. -/
def Overwrites (target : Target) (remote p : Path) (e : Setting) (w : World) : Prop :=
  ∃ new, w.peer.get? remote.toText = some (.file new) ∧ Clash remote p new e w ∧
    e.Spares w.events (opening target e ++ [.stat remote.toText, .openRead remote.toText])

/-! ## Receiving a file -/

/-- What a download of a file to some path does to the files. -/
theorem downloadFile_cases (remote c : Path) (content : Option Bytes) (e : Setting) (w : World) :
    (downloadFile remote c content e w).2.files = w.files ∨
      ∃ new t, content = some new ∧ e.fault w.events (.openRead remote.toText) = none ∧
        noNull c.toText = true ∧ w.files.write e.workingDir c new = .ok t ∧
        (downloadFile remote c content e w).2.files = t := by
  unfold downloadFile
  rcases readContent_cases remote content e w with ⟨x, hx⟩ | ⟨new, rfl, hspared, hread⟩
  · rw [Effect.bind_of_error hx]
    exact Or.inl rfl
  · rw [Effect.bind_of_ok hread]
    rcases c.writeFile_cases new e (w.after [.openRead remote.toText]) with
      ⟨x, hx⟩ | ⟨t, hnull, ht, hok⟩
    · rw [hx]
      exact Or.inl rfl
    · rw [hok]
      exact Or.inr ⟨new, t, rfl, hspared, hnull, ht, rfl⟩

/-- Where a file is received: nothing is done, or the path leads to no file, and the file is written
    there, or below it if it is a directory. -/
theorem receiveFile_cases (remote p : Path) (content : Option Bytes) (e : Setting) (w : World) :
    (receiveFile remote p content e w).2.files = w.files ∨
      (¬ ∃ old, noNull p.toText = true ∧ w.files.at? e.workingDir p = .ok (some (.file old))) ∧
      ∃ c, (c = p ∨ c = p.below remote.name ∧
          ∃ es, noNull p.toText = true ∧ w.files.at? e.workingDir p = .ok (some (.dir es))) ∧
        (receiveFile remote p content e w).2.files
          = (downloadFile remote c content e w).2.files := by
  unfold receiveFile
  rcases p.isFile_cases e w with ⟨x, hx⟩ | ⟨file, hfile, hfileIff⟩
  · rw [Effect.bind_of_error hx]
    exact Or.inl rfl
  · rw [Effect.bind_of_ok hfile]
    cases file with
    | true =>
      rw [Effect.bind_of_error (refuseLocal_true _)]
      exact Or.inl rfl
    | false =>
      have hnofile := mt hfileIff.2 (by decide)
      rw [Effect.bind_of_ok (refuseLocal_false _)]
      rcases p.isDirectory_cases e w with ⟨x, hx⟩ | ⟨there, hthere, hthereIff⟩
      · rw [Effect.bind_of_error hx]
        exact Or.inl rfl
      · rw [Effect.bind_of_ok hthere]
        cases there with
        | true => exact Or.inr ⟨hnofile, _, Or.inr ⟨rfl, hthereIff.1 rfl⟩, rfl⟩
        | false => exact Or.inr ⟨hnofile, _, Or.inl rfl, rfl⟩

/-- A file that is received keeps every local file, unless there is a clash. -/
theorem receiveFile_keeps {content : Option Bytes}
    (h : ∀ new, content = some new → e.fault w.events (.openRead remote.toText) = none →
      ¬ Clash remote p new e w) :
    w.files.KeepsFiles (receiveFile remote p content e w).2.files := by
  rcases receiveFile_cases remote p content e w with hsame | ⟨hnofile, c, hc, hrun⟩
  · rw [hsame]
    exact .refl _
  · rw [hrun]
    rcases downloadFile_cases remote c content e w with
      hsame | ⟨new, t, rfl, hspared, hnull, ht, hfiles⟩
    · rw [hsame]
      exact .refl _
    · rw [hfiles]
      rcases write_cases ht with ⟨place, hplace, rfl⟩ | ⟨place, old, hat, hold, rfl⟩
      · exact keepsFiles_put_of_absent hplace _
      -- a file is written over: not at the path itself, which was looked at before
      · rcases hc with rfl | ⟨rfl, hdir⟩
        · exact absurd ⟨old, hnull, hat⟩ hnofile
        · by_cases hsame : old = new
          · rw [← hsame]
            exact keepsFiles_put_same hold
          · exact absurd ⟨hdir, old, hnull, hat, hsame⟩ (h new rfl hspared)

/-- Where there is a clash a file that is received replaces a local one. -/
theorem receiveFile_of_clash {new : Bytes} (h : Clash remote p new e w)
    (hspared : e.fault w.events (.openRead remote.toText) = none) :
    ¬ w.files.KeepsFiles (receiveFile remote p (some new) e w).2.files := by
  obtain ⟨⟨es, hpnull, hp⟩, old, hnull, hat, hne⟩ := h
  obtain ⟨place, hold, hwrite⟩ := write_of_file hat new
  have hfile : p.isFile e w = (.ok false, w) := Path.isFile_of_at hpnull hp
  have hthere : p.isDirectory e w = (.ok true, w) := Path.isDirectory_of_at hpnull hp
  have hread : readContent remote (some new) e w = (.ok new, w.after [.openRead remote.toText]) :=
    Effect.because_of_ok (Effect.bind_of_ok (perform_of_spared hspared))
  have hwritten : (p.below remote.name).writeFile new e (w.after [.openRead remote.toText])
      = (.ok (), { w.after [.openRead remote.toText] with
          files := w.files.put place (.file new) }) :=
    Effect.bind_of_ok (Path.call_of_ok hnull hwrite)
  have hrun : (receiveFile remote p (some new) e w).2.files = w.files.put place (.file new) := by
    rw [receiveFile, Effect.bind_of_ok hfile, Effect.bind_of_ok (refuseLocal_false _),
      Effect.bind_of_ok hthere, if_pos rfl, downloadFile, Effect.bind_of_ok hread, hwritten]
  intro hkeeps
  have hafter := hkeeps place old hold
  rw [hrun, get?_put_self] at hafter
  cases hafter
  exact hne rfl

/-! ## Receiving what is seen -/

/-- A directory that is received keeps every local file. -/
theorem receiveDirectory_keeps {listing : List (String × RemoteView)}
    (hnames : Listed AreComponents listing) :
    w.files.KeepsFiles (receiveDirectory remote p listing e w).2.files := by
  rcases receiveDirectory_downloaded hnames with ⟨x, hx⟩ | ⟨place, hplace, hdone⟩
  · rw [hx]
    exact .refl _
  · intro names old hold
    obtain ⟨hbelow, habove⟩ := beside_of_absent hplace hold
    rw [hdone.get?_beside (fun _ _ => List.prefix_append _ _) hbelow habove, hold]

/-- What is received keeps every local file, unless a file clashes. -/
theorem receive_keeps {seen : Option RemoteView}
    (hnames : ∀ v, seen = some v → v.EachListing AreComponents)
    (h : ∀ v new, seen = some v → v.content = some new →
      e.Spares w.events [.stat remote.toText, .openRead remote.toText] →
      ¬ Clash remote p new e w) :
    w.files.KeepsFiles (receive remote p seen e w).2.files := by
  unfold receive
  cases hf : e.fault w.events (.stat remote.toText) with
  | some y =>
      rcases stat_of_struck seen hf with ⟨x, hx⟩ | hnone
      · rw [Effect.bind_of_error hx]
        exact .refl _
      · rw [Effect.bind_of_ok hnone]
        exact .refl _
  | none =>
    rw [Effect.bind_of_ok (stat_of_spared seen hf)]
    rcases seen with _ | v
    · exact .refl _
    · change w.files.KeepsFiles ((if v.isFile then receiveFile remote p v.content
        else if v.isDir then receiveDirectory remote p v.listing
        else Effect.failWith (.onPeer (.neither remote.toText))) e
          (w.after [.stat remote.toText])).2.files
      split
      · exact receiveFile_keeps (w := w.after _) fun new hnew hread =>
          h v new rfl hnew ⟨hf, hread, trivial⟩
      · split
        · next hdir =>
          exact receiveDirectory_keeps (w := w.after _)
            (listed_of_isDir hdir (hnames v rfl))
        · exact .refl _

/-- A file that is received where there is a clash replaces a local one. -/
theorem receive_of_clash {v : RemoteView} {new : Bytes} (hfile : v.isFile = true)
    (hcontent : v.content = some new) (h : Clash remote p new e w)
    (hspared : e.Spares w.events [.stat remote.toText, .openRead remote.toText]) :
    ¬ w.files.KeepsFiles (receive remote p (some v) e w).2.files := by
  obtain ⟨hstat, hread, -⟩ := hspared
  have hrun : receive remote p (some v) e w
      = receiveFile remote p v.content e (w.after [.stat remote.toText]) := by
    rw [receive, Effect.bind_of_ok (stat_of_spared _ hstat)]
    simp only [hfile, if_true]
  rw [hrun, hcontent]
  exact receiveFile_of_clash (w := w.after _) h hread

/-! ## What a peer shows of a file -/

theorem content_viewTo (peer : Peer) (depth : Nat) (mode : Option Nat) (path : Path) :
    (peer.viewTo depth mode path).content = peer.content? path.toText := by
  cases depth <;> rfl

/-- A file of the peer is what is seen at its path, with its content. -/
theorem content?_eq_some {peer : Peer} {path : String} {new : Bytes} :
    peer.content? path = some new ↔ peer.get? path = some (.file new) := by
  unfold Peer.content?
  rcases peer.get? path with _ | (content | mode) <;> simp

theorem view?_of_file {peer : Peer} {path : Path} {new : Bytes}
    (h : peer.get? path.toText = some (.file new)) :
    ∃ v, peer.view? path = some v ∧ v.isFile = true ∧ v.content = some new := by
  refine ⟨peer.viewTo (peer.length + 1) (some PeerEntry.fileMode) path, ?_, ?_, ?_⟩
  · rw [Peer.view?, h]
    rfl
  · unfold Peer.viewTo
    simp [RemoteView.isFile, mode, modeKind, PeerEntry.fileMode]
  · rw [content_viewTo, content?_eq_some, h]

end Sftp

namespace Transfer

open Sftp RemoteView FileTree

/-- A download keeps every local file with its content if and only if it does not receive a remote
    file into a local directory in which another file has its name. -/
theorem execute_sftpDownload_keepsFiles_iff (target : Target) (r l : String) (e : Setting)
    (w : World) :
    w.files.KeepsFiles (execute ⟨.sftpDownload, target, r, l⟩ e w).2.files ↔
      ¬ Overwrites target (.ofText r) (.ofText l) e w := by
  by_cases hopen : e.Spares w.events (opening target e)
  · have hrun : (execute ⟨.sftpDownload, target, r, l⟩ e w).2.files
        = (receive (.ofText r) (.ofText l) ((w.peer.view? (.ofText r)).map fun v =>
            v.inOrder e.listing (.ofText r)) e (w.after (opening target e))).2.files := by
      have hsession :=
        session_of_spared (shown (.ofText r) >>= receive (.ofText r) (.ofText l)) hopen
      have hfiles := congrArg World.files hsession.1
      exact hfiles
    rw [hrun]
    constructor
    · rintro hkeeps ⟨new, hnew, hclash, hspared⟩
      obtain ⟨v, hv, hfile, hcontent⟩ := view?_of_file hnew
      rw [hv] at hkeeps
      refine receive_of_clash (w := w.after (opening target e)) ?_ ?_ hclash
        ((e.spares_append _ _ _).1 hspared).2 hkeeps
      · rw [isFile_inOrder, hfile]
      · rw [content_inOrder, hcontent]
    · intro hno
      refine receive_keeps (w := w.after (opening target e)) ?_ ?_
      · -- whatever the peer lists are components, so a directory is copied below its own place
        intro v hv
        obtain ⟨u, hu, rfl⟩ := Option.map_eq_some_iff.1 hv
        exact eachListing_inOrder AreComponents.perm e.listing u _ (Peer.areComponents_view? hu)
      · intro v new hv hnew hspared hclash
        obtain ⟨u, hu, rfl⟩ := Option.map_eq_some_iff.1 hv
        obtain ⟨entry, -, rfl⟩ := Option.map_eq_some_iff.1 hu
        rw [content_inOrder, content_viewTo, content?_eq_some] at hnew
        exact hno ⟨new, hnew, hclash, (e.spares_append _ _ _).2 ⟨hopen, hspared⟩⟩
  · obtain ⟨x, calls, hx, -⟩ := session_of_struck
      (shown (.ofText r) >>= receive (.ofText r) (.ofText l)) hopen
    have hrun : execute ⟨.sftpDownload, target, r, l⟩ e w = (.error x, w.after calls) := hx
    rw [hrun]
    refine ⟨fun _ => ?_, fun _ => .refl _⟩
    rintro ⟨new, -, -, hspared⟩
    exact hopen ((e.spares_append _ _ _).1 hspared).1

/-- A file that is received into a directory is written over the file that has its name there. -/
theorem execute_sftpDownload_overwrites :
    ∃ w : World,
      w.files.get? ["d", "a.txt"] = some (.file [75]) ∧
      (execute ⟨.sftpDownload, .sample, "/srv/a.txt", "d"⟩ .calm w).1 = .ok () ∧
      (execute ⟨.sftpDownload, .sample, "/srv/a.txt", "d"⟩ .calm w).2.files.get? ["d", "a.txt"]
        = some (.file [65]) := by
  refine ⟨.initial (.dir [("d", .dir [("a.txt", .file [75])])]) [("/srv/a.txt", .file [65])],
    rfl, ?_, rfl⟩
  rfl

end Transfer
end Runbook
