import Runbook.Proofs.Download
import Runbook.Proofs.SeenTrees
import Runbook.Proofs.Upload

set_option autoImplicit false

/-! # There and back

A directory that is uploaded to a path where nothing is, and then downloaded to another local path,
comes back as it was, in whatever order the peer lists its directories: what is seen of the peer in
between is the tree, and the items of what is seen make the tree again. -/

namespace Runbook

open Path (isUsable)

namespace Sftp

open FileTree RemoteView

variable {e : Setting} {w : World} {remote p source : Path} {tree : FileTree}

theorem isDir_seen (h : tree.isDir = true) : tree.seen.isDir = true := by
  cases tree with
  | file content => cases h
  | dir es =>
      unfold FileTree.seen
      have hmode : RemoteView.isDir (.mk (some 16892) none []) = true := by decide
      exact hmode

/-- An upload that no fault strikes and that succeeds stores the tree and changes nothing else; it
    succeeds if and only if the text of no local path is too long. -/
theorem upload_stores (target : Target) (hquiet : ∀ past call, e.fault past call = none)
    (hvalid : w.files.isValid = true)
    (htree : w.files.at? e.workingDir source = .ok (some tree)) (hdir : tree.isDir = true)
    (hfree : w.peer.get? remote.toText = none) :
    ((upload target source remote e w).1 = .ok () ↔
      ∀ item ∈ tree.nodeItems [], (source.extend item.1).toText.utf8ByteSize ≤ pathLimit) ∧
    ((upload target source remote e w).1 = .ok () →
      ∃ calls, (upload target source remote e w).2 = { w with
          peer := w.peer.store remote (tree.nodeItems [])
          events := w.events ++ calls }) := by
  have hnull := noNull_of_at hvalid htree
  have htreeValid := isValid_of_at hvalid htree
  obtain ⟨es, rfl⟩ : ∃ es, tree = .dir es := by
    cases tree with
    | file content => cases hdir
    | dir es => exact ⟨es, rfl⟩
  obtain ⟨done, hdone, -⟩ := upload_copied target hnull htree htreeValid
  refine ⟨⟨size_of_upload hnull htree htreeValid, fun hsize => ?_⟩, fun hok => ?_⟩
  · exact upload_ok hnull htree htreeValid hsize hfree (hdone.sparesRun hquiet)
  · obtain ⟨calls, hcalls⟩ := hdone.world
    rw [Destination.makeAll_remotely, hdone.all_of_map hok] at hcalls
    exact ⟨calls, hcalls⟩

/-- A download of what shows a tree puts the tree at the local path if it succeeds; where no fault
    strikes it succeeds if and only if the paths of the tree can be used there. -/
theorem download_puts {v : RemoteView} (target : Target)
    (hquiet : ∀ past call, e.fault past call = none)
    (hseen : w.peer.view? remote = some v) (hdir : v.isDir = true)
    (honce : v.EachListing List.Nodup)
    (hshows : (v.inOrder e.listing remote).Shows tree) (hvalid : tree.isValid = true)
    {es : List (String × FileTree)}
    (hparent : w.files.at? e.workingDir p.parent = .ok (some (.dir es)))
    (hfree : ∀ u, w.files.at? e.workingDir p ≠ .ok (some u)) :
    ((download target remote p e w).1 = .ok () ↔ p.name.utf8ByteSize ≤ nameLimit ∧
      ∀ item ∈ tree.nodeItems [], isUsable (p.extend item.1) = true) ∧
    ((download target remote p e w).1 = .ok () →
      (download target remote p e w).2.files.at? e.workingDir p = .ok (some tree)) := by
  have hfitsIff : (v.inOrder e.listing remote).fits (p.extend []) = true ↔
      ∀ item ∈ tree.nodeItems [], isUsable (p.extend item.1) = true := hshows.fits_iff hvalid
  rw [Path.extend_nil] at hfitsIff
  obtain ⟨done, hdone, -⟩ := download_copied target p e hseen hdir
  refine ⟨⟨fun hok => ?_, ?_⟩, fun hok => ?_⟩
  · obtain ⟨hname, hfits⟩ := download_fits hseen hdir hok
    exact ⟨hname, hfitsIff.1 hfits⟩
  · rintro ⟨hname, husable⟩
    exact download_ok hseen hdir hparent hfree hname (hfitsIff.2 husable) honce
      (hdone.sparesRun hquiet)
  · obtain ⟨hname, hfits⟩ := download_fits hseen hdir hok
    have hroot := hfitsIff.1 hfits _ (List.mem_cons_self ..)
    rw [Path.extend_nil] at hroot
    simp only [isUsable, Bool.and_eq_true, decide_eq_true_eq] at hroot
    obtain ⟨place, hplace⟩ := locate_of_free hparent hfree hname hroot.2
    -- what has been made is all of what is seen, and this makes the tree in whatever order
    obtain ⟨all, hall, hplant⟩ := hshows.exists_items hvalid []
    obtain rfl : done = all := by
      have hsame := (hdone.all hok).trans hall.symm
      exact (List.map_inj_right fun _ _ => Option.some.inj).1 hsame
    obtain ⟨calls, hcalls⟩ := hdone.world
    rw [hcalls, Destination.makeAll_locally, World.after_files, spot_of_absent hplace, hplant,
      List.append_nil]
    exact at?_put_of_absent hplace tree

end Sftp

namespace Transfer

open Sftp FileTree

/-- A local directory that is uploaded to a path where nothing is, and downloaded from there to a
    local path where nothing is, is found there as it was. Both succeed if and only if the local
    host can name the paths of the directory and of its copy. -/
theorem execute_sftpUpload_sftpDownload (target : Target) (s r l : String) (e : Setting) (w : World)
    {tree : FileTree} (hquiet : ∀ past call, e.fault past call = none)
    (hvalid : w.files.isValid = true)
    (htree : w.files.at? e.workingDir (.ofText s) = .ok (some tree)) (hdir : tree.isDir = true)
    (hremote : (Path.ofText r).name ≠ "") (hremoteFree : w.peer.IsFree (.ofText r))
    (hfree : ∀ u, w.files.at? e.workingDir (.ofText l) ≠ .ok (some u))
    (hparent : ∃ es, w.files.at? e.workingDir (Path.ofText l).parent = .ok (some (.dir es))) :
    let up := execute ⟨.sftpUpload, target, r, s⟩ e w
    let down := execute ⟨.sftpDownload, target, r, l⟩ e up.2
    (up.1 = .ok () ∧ down.1 = .ok () ↔
      (∀ item ∈ tree.nodeItems [],
        ((Path.ofText s).extend item.1).toText.utf8ByteSize ≤ pathLimit) ∧
      (Path.ofText l).name.utf8ByteSize ≤ nameLimit ∧
      ∀ item ∈ tree.nodeItems [], isUsable ((Path.ofText l).extend item.1) = true) ∧
    (up.1 = .ok () → down.1 = .ok () →
      down.2.files.at? e.workingDir (.ofText l) = .ok (some tree)) := by
  obtain ⟨es, hes⟩ := hparent
  have hnamed := Path.isNamed_ofText hremote
  have htreeValid := isValid_of_at hvalid htree
  have hnone : w.peer.get? (Path.ofText r).toText = none :=
    Peer.get?_eq_none fun x hx => (hremoteFree x hx).1
  have hseen := Peer.view?_store hnamed hremoteFree htreeValid
  obtain ⟨hupIff, hup⟩ := upload_stores target hquiet hvalid htree hdir hnone
  simp only [execute]
  generalize upload target (.ofText s) (.ofText r) e w = up at hupIff hup ⊢
  -- once the upload has succeeded, the download is one of what shows the tree
  have hdown : up.1 = .ok () →
      ((download target (.ofText r) (.ofText l) e up.2).1 = .ok () ↔
        (Path.ofText l).name.utf8ByteSize ≤ nameLimit ∧
          ∀ item ∈ tree.nodeItems [], isUsable ((Path.ofText l).extend item.1) = true) ∧
      ((download target (.ofText r) (.ofText l) e up.2).1 = .ok () →
        (download target (.ofText r) (.ofText l) e up.2).2.files.at? e.workingDir (.ofText l)
          = .ok (some tree)) := by
    intro hok
    obtain ⟨calls, hcalls⟩ := hup hok
    rw [hcalls]
    exact download_puts target hquiet hseen (isDir_seen hdir)
      (RemoteView.nodup_seen tree htreeValid) (RemoteView.shows_seen _ _ _) htreeValid hes hfree
  refine ⟨⟨?_, ?_⟩, fun hok => (hdown hok).2⟩
  · rintro ⟨hok, hok'⟩
    exact ⟨hupIff.1 hok, (hdown hok).1.1 hok'⟩
  · rintro ⟨hsize, hholds⟩
    have hok := hupIff.2 hsize
    exact ⟨hok, (hdown hok).1.2 hholds⟩

/-- A directory goes to the peer and back, beside what is there on either side. -/
theorem execute_sftpUpload_sftpDownload_sample :
    let w := World.initial (.dir [("t", sampleTree)]) [("/srv/t.old", .file [])]
    let up := execute ⟨.sftpUpload, .sample, "/srv/t", "t"⟩ .calm w
    let down := execute ⟨.sftpDownload, .sample, "/srv/t", "out"⟩ .calm up.2
    up.1 = .ok () ∧ down.1 = .ok () ∧
      down.2.files.at? [] (.ofText "out") = .ok (some sampleTree) := by
  have hremoteFree : Peer.IsFree [("/srv/t.old", .file [])] (.ofText "/srv/t") := by
    unfold Peer.IsFree
    decide
  obtain ⟨hiff, hback⟩ := execute_sftpUpload_sftpDownload .sample "t" "/srv/t" "out" .calm
    (.initial (.dir [("t", sampleTree)]) [("/srv/t.old", .file [])]) (fun _ _ => rfl) (by decide)
    rfl rfl (by decide) hremoteFree (fun u h => by cases h) ⟨_, rfl⟩
  obtain ⟨hup, hdown⟩ := hiff.2 ⟨by decide, by decide, by decide⟩
  exact ⟨hup, hdown, hback hup hdown⟩

/-- The last name of a local path may be too long for the local host: nothing is there, and what is
    above it is a directory, and yet a directory that has been uploaded does not come back. -/
theorem execute_sftpUpload_sftpDownload_longName :
    let w := World.initial (.dir [("t", .empty)]) []
    let up := execute ⟨.sftpUpload, .sample, "/srv/t", "t"⟩ .calm w
    w.files.at? [] (.ofText "t") = .ok (some .empty) ∧ w.peer.IsFree (.ofText "/srv/t") ∧
      (∀ u, w.files.at? [] (.ofText longName) ≠ .ok (some u)) ∧
      w.files.at? [] (Path.ofText longName).parent = .ok (some w.files) ∧
      (∀ past call, Setting.calm.fault past call = none) ∧ up.1 = .ok () ∧
      (execute ⟨.sftpDownload, .sample, "/srv/t", longName⟩ .calm up.2).1 ≠ .ok () := by
  intro w up
  have hpath : Path.ofText longName = Path.extend ⟨.working, []⟩ [longName] := by
    rw [Path.ofText_of_component isComponent_longName, if_neg (longName_ne (by decide))]
    rfl
  have hlong : ¬ longName.utf8ByteSize ≤ nameLimit := by
    rw [size_longName]
    decide
  have habove : w.files.LeadsTo [] ⟨.working, []⟩ [] := ⟨rfl, _, rfl⟩
  refine ⟨rfl, by simp [Peer.IsFree, w, World.initial], fun u hu => ?_, ?_, fun _ _ => rfl, rfl, ?_⟩
  · obtain ⟨q, hq, -⟩ := locate_of_at hu
    rw [hpath] at hq
    exact hlong (size_of_step (habove.step_of_locate hq))
  · rw [hpath]
    rfl
  · intro hok
    have hseen : up.2.peer.view? (.ofText "/srv/t") = some (.mk (some 16892) none []) := rfl
    obtain ⟨hname, -⟩ := download_fits hseen (by decide) hok
    rw [hpath] at hname
    exact hlong hname

end Transfer
end Runbook
