import Runbook.Proofs.DownloadWalk

set_option autoImplicit false

/-! # Downloads of directories

A download of a remote directory to a local path at which there is nothing yet, as a whole: the
session it is made in, the status it asks for, the directory it makes first, and the walk over what
the peer lists. -/

namespace Runbook

open Path (IsComponent isLocalName isUsable)

/-! ## Directories that are seen -/

namespace RemoteView

/-- The items of a directory: itself, and then what it lists. -/
theorem items_of_isDir {v : RemoteView} (h : v.isDir = true) (lead : List String) :
    v.items lead = some (lead, none) :: listingItems lead v.listing := by
  obtain ⟨mode, content, listing⟩ := v
  unfold items
  exact if_pos h

theorem fits_of_isDir {v : RemoteView} (h : v.isDir = true) (p : Path) :
    v.fits p = (isUsable p && listingFits p v.listing) := by
  obtain ⟨mode, content, listing⟩ := v
  unfold fits
  exact congrArg _ (if_pos h)

theorem isLocalName_of_listingFits {listing : List (String × RemoteView)} {p : Path}
    (h : listingFits p listing = true) {name : String} (hname : name ∈ listing.map Prod.fst) :
    isLocalName name = true := by
  induction listing with
  | nil => cases hname
  | cons x rest ih =>
      obtain ⟨n, v⟩ := x
      unfold listingFits at h
      simp only [Bool.and_eq_true] at h
      rcases List.mem_cons.1 hname with rfl | hname
      · exact h.1.1
      · exact ih h.2 hname

end RemoteView

namespace Sftp

open Action Session RemoteView

variable {e : Setting} {w : World} {remote p : Path} {listing : List (String × RemoteView)}

/-! ## Receiving a directory -/

theorem refuseLocal_true (problem : LocalProblem) :
    refuseLocal true problem e w = (.error (.of (.onHost problem)), w) := rfl

theorem refuseLocal_false (problem : LocalProblem) : refuseLocal false problem e w = (.ok (), w) :=
  rfl

/-- A directory is received once it is made, or nothing is changed at all. -/
theorem receiveDirectory_cases (remote p : Path) (listing : List (String × RemoteView))
    (e : Setting) (w : World) :
    (∃ x, receiveDirectory remote p listing e w = (.error x, w)) ∨
      receiveDirectory remote p listing e w
        = (p.makeDirectory >>= fun _ => downloadDirectory remote p listing) e w := by
  unfold receiveDirectory
  rcases p.isDirectory_cases e w with ⟨x, hx⟩ | ⟨there, hthere, -⟩
  · exact Or.inl ⟨x, Effect.bind_of_error hx⟩
  · rw [Effect.bind_of_ok hthere]
    cases there with
    | true => exact Or.inl ⟨_, Effect.bind_of_error (refuseLocal_true _)⟩
    | false =>
      rw [Effect.bind_of_ok (refuseLocal_false _)]
      rcases p.parent.isDirectory_cases e w with ⟨x, hx⟩ | ⟨above, habove, -⟩
      · exact Or.inl ⟨x, Effect.bind_of_error hx⟩
      · rw [Effect.bind_of_ok habove]
        cases above with
        | false => exact Or.inl ⟨_, Effect.bind_of_error (refuseLocal_true _)⟩
        | true => exact Or.inr (Effect.bind_of_ok (refuseLocal_false _))

/-- A directory is made where nothing was, and its path leads there then, or nothing is made. -/
theorem makeDirectory_of_absent {place : List String}
    (hplace : w.files.locate e.workingDir p = .ok (.absent place)) :
    DownloadedTo place [some ([], none)] w (p.makeDirectory e w) ∧
      ((p.makeDirectory e w).1 = .ok () →
        (p.makeDirectory e w).2.files.LeadsTo e.workingDir p (place ++ [])) := by
  refine makeDirectory_downloaded (Or.inl ?_)
  rw [List.append_nil]
  exact FileTree.reaches_of_locate hplace

/-- A directory is received at a path that leads to nothing, up to some item, or nothing is changed
    at all. -/
theorem receiveDirectory_downloaded (hnames : Listed AreComponents listing) :
    (∃ x, receiveDirectory remote p listing e w = (.error x, w)) ∨
      ∃ place, w.files.locate e.workingDir p = .ok (.absent place) ∧
        DownloadedTo place (some ([], none) :: listingItems [] listing) w
          (receiveDirectory remote p listing e w) := by
  rcases receiveDirectory_cases remote p listing e w with herr | hrun
  · exact Or.inl herr
  · rw [hrun]
    rcases p.makeDirectory_cases e w with ⟨x, hx⟩ | ⟨t, -, ht, -⟩
    · exact Or.inl ⟨x, Effect.bind_of_error hx⟩
    · obtain ⟨place, hplace⟩ := FileTree.absent_of_makeDir ht
      obtain ⟨hmade, hleads⟩ := makeDirectory_of_absent hplace
      refine Or.inr ⟨place, hplace, hmade.bind fun hok => ?_⟩
      exact downloadDirectory_of_listing
        (fun w' hp => downloadListing_downloaded listing remote p [] w' hnames hp) (hleads hok)

theorem receiveDirectory_events (hnames : Listed AreComponents listing) :
    w.events <+: (receiveDirectory remote p listing e w).2.events := by
  rcases receiveDirectory_downloaded hnames with ⟨x, hx⟩ | ⟨place, -, hdone⟩
  · exact ⟨[], by rw [hx, List.append_nil]⟩
  · exact hdone.events

/-- A directory that fits is received at a free path in a directory, unless a fault strikes. -/
theorem receiveDirectory_ok {es : List (String × FileTree)}
    (hparent : w.files.at? e.workingDir p.parent = .ok (some (.dir es)))
    (hfree : ∀ u, w.files.at? e.workingDir p ≠ .ok (some u))
    (hnames : Listed AreComponents listing) (honce : Listed List.Nodup listing)
    (hname : p.name.utf8ByteSize ≤ FileTree.nameLimit) (husable : isUsable p = true)
    (hfits : listingFits p listing = true)
    (hspared : e.SparesRun w (receiveDirectory remote p listing e w).2) :
    (receiveDirectory remote p listing e w).1 = .ok () := by
  simp only [isUsable, Bool.and_eq_true, decide_eq_true_eq] at husable
  obtain ⟨hnull, hsize⟩ := husable
  obtain ⟨place, hplace⟩ := FileTree.locate_of_free hparent hfree hname hsize
  have hthere : p.isDirectory e w = (.ok false, w) :=
    Path.isDirectory_of_at hnull (FileTree.at?_of_absent hplace)
  have habove : p.parent.isDirectory e w = (.ok true, w) :=
    Path.isDirectory_of_at (Path.noNull_parent hnull) hparent
  have hmade : p.makeDirectory e w = (.ok (), { w with files := w.files.put place .empty }) :=
    Effect.bind_of_ok (Path.call_of_ok hnull (FileTree.makeDir_of_absent hplace))
  obtain ⟨-, hleads⟩ := makeDirectory_of_absent hplace
  rw [hmade] at hleads
  have hrun : receiveDirectory remote p listing e w
      = downloadDirectory remote p listing e { w with files := w.files.put place .empty } := by
    rw [receiveDirectory, Effect.bind_of_ok hthere, Effect.bind_of_ok (refuseLocal_false _),
      Effect.bind_of_ok habove, Bool.not_true, Effect.bind_of_ok (refuseLocal_false _),
      Effect.bind_of_ok hmade]
  rw [hrun] at hspared ⊢
  refine downloadDirectory_ok hnames (hleads rfl) ?_ hspared
  refine downloadListing_ok listing remote p [] _ hnames honce (hleads rfl) hfits ?_
  intro x _
  rw [List.append_nil, World.after_files, FileTree.get?_put_below]
  rfl

/-- A directory that is received fits at its path. -/
theorem receiveDirectory_fits (hnames : Listed AreComponents listing)
    (hok : (receiveDirectory remote p listing e w).1 = .ok ()) :
    p.name.utf8ByteSize ≤ FileTree.nameLimit ∧ isUsable p = true ∧
      listingFits p listing = true := by
  rcases receiveDirectory_cases remote p listing e w with ⟨x, hx⟩ | hrun
  · rw [hx] at hok
    cases hok
  · rw [hrun] at hok
    obtain ⟨u, w', hmade, hok⟩ := Effect.exists_of_bind_ok hok
    rcases p.makeDirectory_cases e w with ⟨x, hx⟩ | ⟨t, hnull, ht, -⟩
    · rw [hx] at hmade
      cases hmade
    · obtain ⟨place, hplace⟩ := FileTree.absent_of_makeDir ht
      have hsize := FileTree.size_of_locate hplace
      obtain ⟨-, hleads⟩ := makeDirectory_of_absent hplace
      rw [hmade] at hleads
      refine ⟨FileTree.name_of_absent hplace, by simp [isUsable, hnull, hsize], ?_⟩
      exact downloadDirectory_fits (fun w' => downloadListing_fits listing remote p _ w' hnames)
        (hleads rfl) hok

/-! ## Receiving what is seen -/

/-- What is received of a directory that is seen: nothing if its status cannot be had. -/
theorem receive_cases {v : RemoteView} (hdir : v.isDir = true) (remote p : Path) (e : Setting)
    (w : World) :
    (∃ x, receive remote p (some v) e w = (.error x, w.after [.stat remote.toText]) ∧
        ¬ e.Spares w.events [.stat remote.toText]) ∨
      receive remote p (some v) e w
        = receiveDirectory remote p v.listing e (w.after [.stat remote.toText]) := by
  unfold receive
  cases hf : e.fault w.events (.stat remote.toText) with
  | none =>
      refine Or.inr ?_
      rw [Effect.bind_of_ok (stat_of_spared _ hf)]
      simp only [isFile_of_isDir hdir, hdir, if_true]
      rfl
  | some y =>
      have hstruck : ¬ e.Spares w.events [.stat remote.toText] := by simp [Setting.Spares, hf]
      rcases stat_of_struck (some v) hf with ⟨x, hx⟩ | hnone
      · exact Or.inl ⟨x, Effect.bind_of_error hx, hstruck⟩
      · exact Or.inl ⟨_, Effect.bind_of_ok hnone, hstruck⟩

/-- What is received of a directory lies below the spot of a local path, where nothing was. -/
theorem receive_copied {v : RemoteView} (hdir : v.isDir = true)
    (hnames : v.EachListing AreComponents) (remote p : Path) (e : Setting) (w : World) :
    ∃ done, Copied (.locally (w.files.spot e.workingDir p)) (v.items []) w
        (receive remote p (some v) e w) done ∧
      (done ≠ [] → w.files.get? (w.files.spot e.workingDir p) = none) := by
  rcases receive_cases hdir remote p e w with ⟨x, hx, -⟩ | hrun
  · rw [hx]
    exact ⟨[], .nothing x _, fun h => absurd rfl h⟩
  · have hlisting := listed_of_isDir hdir hnames
    rw [hrun, items_of_isDir hdir]
    rcases receiveDirectory_downloaded (w := w.after [.stat remote.toText]) hlisting with
      ⟨x, hx⟩ | ⟨place, hplace, done, hdone, -⟩
    · rw [hx]
      exact ⟨[], .nothing x _, fun h => absurd rfl h⟩
    · have hspot : w.files.spot e.workingDir p = place := FileTree.spot_of_absent hplace
      rw [hspot]
      exact ⟨done, hdone.of_after, fun _ => FileTree.get?_of_absent hplace⟩

/-- A directory that fits is received at a free path in a directory, unless a fault strikes. -/
theorem receive_ok {v : RemoteView} (hdir : v.isDir = true) {es : List (String × FileTree)}
    (hnames : v.EachListing AreComponents) (honce : v.EachListing List.Nodup)
    (hparent : w.files.at? e.workingDir p.parent = .ok (some (.dir es)))
    (hfree : ∀ u, w.files.at? e.workingDir p ≠ .ok (some u))
    (hname : p.name.utf8ByteSize ≤ FileTree.nameLimit) (hfits : v.fits p = true)
    (hspared : e.SparesRun w (receive remote p (some v) e w).2) :
    (receive remote p (some v) e w).1 = .ok () := by
  rcases receive_cases hdir remote p e w with ⟨x, hx, hstruck⟩ | hrun
  · rw [hx] at hspared
    exact absurd hspared.spares hstruck
  · have hlisting := listed_of_isDir hdir hnames
    rw [fits_of_isDir hdir, Bool.and_eq_true] at hfits
    rw [hrun] at hspared ⊢
    refine receiveDirectory_ok hparent hfree hlisting (listed_of_isDir hdir honce) hname hfits.1
      hfits.2 ?_
    exact (hspared.split (List.prefix_append _ _) (receiveDirectory_events hlisting)).2

/-- A directory that is received fits at its path. -/
theorem receive_fits {v : RemoteView} (hdir : v.isDir = true) (hnames : v.EachListing AreComponents)
    (hok : (receive remote p (some v) e w).1 = .ok ()) :
    p.name.utf8ByteSize ≤ FileTree.nameLimit ∧ v.fits p = true := by
  rcases receive_cases hdir remote p e w with ⟨x, hx, -⟩ | hrun
  · rw [hx] at hok
    cases hok
  · rw [hrun] at hok
    obtain ⟨hname, husable, hfits⟩ := receiveDirectory_fits (listed_of_isDir hdir hnames) hok
    exact ⟨hname, by rw [fits_of_isDir hdir, husable, hfits, Bool.and_self]⟩

theorem shown_of_view? {v : RemoteView} (h : w.peer.view? remote = some v) :
    shown remote e w = (.ok (some (v.inOrder e.listing remote)), w) := by
  change (Except.ok ((w.peer.view? remote).map _), w) = _
  rw [h]
  rfl

/-- What is done in the session of a download: the peer is looked at, and what is seen received. -/
theorem receiving_of_view? {v : RemoteView} (h : w.peer.view? remote = some v) :
    (shown remote >>= receive remote p) e w
      = receive remote p (some (v.inOrder e.listing remote)) e w :=
  Effect.bind_of_ok (shown_of_view? h)

/-- A remote directory is downloaded to a local path, up to some item. -/
theorem download_copied {v : RemoteView} (target : Target) (p : Path) (e : Setting)
    (hseen : w.peer.view? remote = some v) (hdir : v.isDir = true) :
    ∃ done, Copied (.locally (w.files.spot e.workingDir p))
        ((v.inOrder e.listing remote).items []) w (download target remote p e w) done ∧
      (done ≠ [] → w.files.get? (w.files.spot e.workingDir p) = none) := by
  have hdir' : (v.inOrder e.listing remote).isDir = true := by rw [isDir_inOrder, hdir]
  have hnames := eachListing_inOrder AreComponents.perm e.listing v remote
    (Peer.areComponents_view? hseen)
  have hreceived := receive_copied hdir' hnames remote p e (w.after (opening target e))
  rw [← receiving_of_view? (w := w.after (opening target e)) hseen] at hreceived
  exact Copied.session (fun h => absurd rfl h) fun _ => hreceived

/-- A remote directory that fits is downloaded to a free path in a directory, unless a fault
    strikes. -/
theorem download_ok {v : RemoteView} {target : Target} {es : List (String × FileTree)}
    (hseen : w.peer.view? remote = some v) (hdir : v.isDir = true)
    (hparent : w.files.at? e.workingDir p.parent = .ok (some (.dir es)))
    (hfree : ∀ u, w.files.at? e.workingDir p ≠ .ok (some u))
    (hname : p.name.utf8ByteSize ≤ FileTree.nameLimit)
    (hfits : (v.inOrder e.listing remote).fits p = true) (honce : v.EachListing List.Nodup)
    (hspared : e.SparesRun w (download target remote p e w).2) :
    (download target remote p e w).1 = .ok () := by
  have hdir' : (v.inOrder e.listing remote).isDir = true := by rw [isDir_inOrder, hdir]
  have hnames := eachListing_inOrder AreComponents.perm e.listing v remote
    (Peer.areComponents_view? hseen)
  have hbody := receiving_of_view? (p := p) (e := e) (w := w.after (opening target e)) hseen
  refine session_ok hspared ?_ fun _ hmain => ?_
  · obtain ⟨done, hdone, -⟩ := receive_copied hdir' hnames remote p e (w.after (opening target e))
    rw [← hbody] at hdone
    exact hdone.events
  · rw [hbody] at hmain ⊢
    have honce' := eachListing_inOrder (fun h hperm => hperm.nodup h) e.listing v remote honce
    exact receive_ok hdir' hnames honce' hparent hfree hname hfits hmain

/-- A remote directory that is downloaded to a local path fits there. -/
theorem download_fits {v : RemoteView} {target : Target} (hseen : w.peer.view? remote = some v)
    (hdir : v.isDir = true) (hok : (download target remote p e w).1 = .ok ()) :
    p.name.utf8ByteSize ≤ FileTree.nameLimit ∧ (v.inOrder e.listing remote).fits p = true := by
  have hdir' : (v.inOrder e.listing remote).isDir = true := by rw [isDir_inOrder, hdir]
  have hnames := eachListing_inOrder AreComponents.perm e.listing v remote
    (Peer.areComponents_view? hseen)
  have hmain := session_of_ok hok
  rw [receiving_of_view? (w := w.after (opening target e)) hseen] at hmain
  exact receive_fits hdir' hnames hmain

/-- A remote directory is downloaded only if the local host can hold the names in it. -/
theorem isLocalName_of_download {v : RemoteView} {target : Target}
    (hseen : w.peer.view? remote = some v) (hdir : v.isDir = true)
    (hok : (download target remote p e w).1 = .ok ()) {name : String}
    (hname : name ∈ (w.peer.list remote.toText).map Prod.fst) : isLocalName name = true := by
  obtain ⟨-, hfits⟩ := download_fits hseen hdir hok
  rw [fits_of_isDir (by rw [isDir_inOrder, hdir]), Bool.and_eq_true] at hfits
  refine isLocalName_of_listingFits hfits.2 ?_
  rw [(listing_inOrder e.listing remote v).mem_iff, Peer.listing_view? hseen]
  exact hname

end Sftp

namespace Transfer

open Sftp RemoteView
open Path (IsComponent isLocalName)

/-- A download of a remote directory makes the first of its items below a local path, at which
    nothing was, and nothing else; all of them if it succeeds. Where no fault strikes it succeeds if
    and only if what is seen fits there; a directory is seen to list each name once if no path of
    the peer is there twice. -/
theorem execute_sftpDownload_directory (target : Target) (r l : String) (e : Setting) (w : World)
    {v : RemoteView} (hseen : w.peer.view? (.ofText r) = some v) (hdir : v.isDir = true)
    (hfree : ∀ u, w.files.at? e.workingDir (.ofText l) ≠ .ok (some u))
    (hparent : ∃ es, w.files.at? e.workingDir (Path.ofText l).parent = .ok (some (.dir es))) :
    ∃ done calls,
      done.map some <+: (v.inOrder e.listing (.ofText r)).items [] ∧
      (execute ⟨.sftpDownload, target, r, l⟩ e w).2
        = { w with
            files := w.files.plant (w.files.spot e.workingDir (.ofText l)) done
            events := w.events ++ calls } ∧
      (done ≠ [] → w.files.get? (w.files.spot e.workingDir (.ofText l)) = none) ∧
      ((execute ⟨.sftpDownload, target, r, l⟩ e w).1 = .ok () →
        done.map some = (v.inOrder e.listing (.ofText r)).items []) ∧
      (e.Spares w.events calls → (w.peer.map Prod.fst).Nodup →
        ((execute ⟨.sftpDownload, target, r, l⟩ e w).1 = .ok () ↔
          (Path.ofText l).name.utf8ByteSize ≤ FileTree.nameLimit ∧
            (v.inOrder e.listing (.ofText r)).fits (.ofText l) = true)) := by
  obtain ⟨es, hes⟩ := hparent
  obtain ⟨done, hdone, hnone⟩ := download_copied target (.ofText l) e hseen hdir
  obtain ⟨calls, hcalls⟩ := hdone.world
  refine ⟨done, calls, hdone.first, ?_, hnone, hdone.all, fun hspared hpaths => ⟨fun hok => ?_, ?_⟩⟩
  · rw [Destination.makeAll_locally] at hcalls
    exact hcalls
  · exact download_fits hseen hdir hok
  · rintro ⟨hname, hfits⟩
    have honce := Peer.nodup_view? hpaths hseen
    refine download_ok hseen hdir hes hfree hname hfits honce ⟨calls, ?_, hspared⟩
    rw [hcalls, World.after_events, Destination.makeAll_events]

/-- The remote files of the cases below: a directory with a file and an empty directory. -/
def samplePeer : Peer :=
  [("/srv/t", .directory 493), ("/srv/t/sub", .directory 493), ("/srv/t/a.txt", .file [65])]

theorem execute_sftpDownload_sample :
    (execute ⟨.sftpDownload, .sample, "/srv/t", "out"⟩ .calm (.initial .empty samplePeer)).1
        = .ok () ∧
      (execute ⟨.sftpDownload, .sample, "/srv/t", "out"⟩ .calm
        (.initial .empty samplePeer)).2.files
        = .dir [("out", .dir [("a.txt", .file [65]), ("sub", .dir [])])] := by
  obtain ⟨done, calls, -, hworld, -, hall, hok⟩ := execute_sftpDownload_directory .sample "/srv/t"
    "out" .calm (.initial .empty samplePeer) rfl (by decide) (by intro u h; cases h) ⟨[], rfl⟩
  have hspared : Setting.calm.Spares [] calls := Setting.spares_of_no_fault (fun _ _ => rfl) _ _
  have hdone := (hok hspared (by decide)).2 ⟨by decide, by decide +kernel⟩
  have hitems : done.map some = [([], none), (["sub"], none), (["a.txt"], some [65])].map some :=
    (hall hdone).trans (by decide +kernel)
  obtain rfl := (List.map_inj_right fun _ _ => Option.some.inj).1 hitems
  refine ⟨hdone, ?_⟩
  rw [hworld]
  rfl

/-- A name that no local directory can hold: it is one byte too long. -/
def longName : String := String.ofList (List.replicate 256 'a')

theorem size_ofList_replicate (n : Nat) :
    (String.ofList (List.replicate n 'a')).utf8ByteSize = n := by
  induction n with
  | zero => rfl
  | succ n ih =>
      rw [List.replicate_succ', String.ofList_append, String.utf8ByteSize_append, ih]
      rfl

theorem isComponent_ofList_replicate {n : Nat} (h : n ≠ 0) :
    IsComponent (String.ofList (List.replicate n 'a')) := by
  simp [IsComponent, h]

theorem size_longName : longName.utf8ByteSize = 256 := size_ofList_replicate 256

theorem longName_ne {s : String} (h : s.utf8ByteSize ≠ 256) : longName ≠ s := by
  rintro rfl
  exact h size_longName

theorem isComponent_longName : IsComponent longName := isComponent_ofList_replicate (by decide)

theorem isLocalName_longName : isLocalName longName = false := by
  simp [isLocalName, size_longName, FileTree.nameLimit]

/-- The remote files of the case below: a directory with a file of that name. -/
def longNamePeer : Peer := [("/t", .directory 493), ("/t/" ++ longName, .file [65])]

theorem list_longNamePeer : Peer.list longNamePeer "/t" = [(longName, .file [65])] := by
  have hnone : Peer.nameIn? "/t" "/t" = none := by decide
  have hsome : Peer.nameIn? "/t" ("/t/" ++ longName) = some longName := by
    rw [Peer.nameIn?_eq_some_iff]
    exact ⟨isComponent_longName, by simp [Peer.lead, Text.dropEndWhile]⟩
  simp [longNamePeer, Peer.list, hnone, hsome]

/-- The name of a remote file may be too long for the local host: nothing goes wrong, a directory
    with one regular file is there, and yet its download fails. -/
theorem execute_sftpDownload_longName :
    let w := World.initial .empty longNamePeer
    (∃ v, w.peer.view? (.ofText "/t") = some v ∧ v.isDir = true) ∧ longName ≠ ".." ∧
      (∀ u, w.files.at? [] (.ofText "out") ≠ .ok (some u)) ∧
      w.files.at? [] (Path.ofText "out").parent = .ok (some (.dir [])) ∧
      (∀ past call, Setting.calm.fault past call = none) ∧
      (execute ⟨.sftpDownload, .sample, "/t", "out"⟩ .calm w).1 ≠ .ok () := by
  refine ⟨⟨_, rfl, rfl⟩, longName_ne (by decide), (fun u h => by cases h), rfl, fun _ _ => rfl, ?_⟩
  intro hok
  have hlocal : isLocalName longName = true := by
    refine isLocalName_of_download rfl rfl hok ?_
    change longName ∈ (Peer.list longNamePeer "/t").map Prod.fst
    simp [list_longNamePeer]
  rw [isLocalName_longName] at hlocal
  cases hlocal

end Transfer
end Runbook
