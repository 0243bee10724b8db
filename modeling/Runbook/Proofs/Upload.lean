import Runbook.Proofs.UploadWalk
import Runbook.Remote.Transfer

set_option autoImplicit false

/-! # Uploads of directories

An upload of a local directory to a remote path, as a whole: what it checks before and in its
session, and the walk over the local directory. -/

namespace Runbook

namespace Sftp

open Action Session FileTree

variable {e : Setting} {w : World} {remote source : Path} {es : List (String × FileTree)}

theorem UploadedTo.files {items : List CopyItem} {out : Except Failure Unit × World}
    (h : UploadedTo remote items w out) : out.2.files = w.files := by
  obtain ⟨done, hdone, -⟩ := h
  obtain ⟨calls, hcalls⟩ := hdone.world
  rw [hcalls, Destination.makeAll_remotely]
  rfl

theorem UploadedTo.of_after {items : List CopyItem} {calls : List Event}
    {out : Except Failure Unit × World} (h : UploadedTo remote items (w.after calls) out) :
    UploadedTo remote items w out := by
  obtain ⟨done, hdone, hcomplete⟩ := h
  exact ⟨done, hdone.of_after, hcomplete⟩

theorem uploadDirectory_of_at (hnull : noNull source.toText = true)
    (hat : w.files.at? e.workingDir source = .ok (some (.dir es))) (hvalid : areValid es = true) :
    uploadDirectory source remote e w
      = uploadEntries (source.extend []) (remote.extend []) es e w := by
  have hsorted : (dir es).sorted = dir es := sorted_of_isValid _ (by rw [isValid, hvalid])
  have hread : source.readDirectory e w = (.ok es, w) :=
    Path.call_of_ok hnull (by simp only [FileTree.list, hat, hsorted, entries])
  rw [uploadDirectory, Effect.bind_of_ok hread, Path.extend_nil, Path.extend_nil]

theorem makeDirectory_uploaded : UploadedTo remote [([], none)] w (makeDirectory remote e w) := by
  have h : UploadedTo remote [([], none)] w (makeDirectory (remote.extend []) e w) :=
    changing_uploaded _ _ ([], none)
  rwa [Path.extend_nil] at h

/-- What follows the status of a remote path at which nothing was found. -/
theorem fillDirectory_uploaded (hnull : noNull source.toText = true)
    (hat : w.files.at? e.workingDir source = .ok (some (.dir es))) (hvalid : areValid es = true) :
    UploadedTo remote ((dir es).nodeItems []) w
      ((makeDirectory remote >>= fun _ => uploadDirectory source remote) e w) := by
  refine makeDirectory_uploaded.bind ?_
  intro _
  rw [uploadDirectory_of_at hnull (by rw [makeDirectory_uploaded.files, hat]) hvalid]
  exact uploadEntries_uploaded es [] _ hvalid

theorem fillDirectory_ok (hnull : noNull source.toText = true)
    (hat : w.files.at? e.workingDir source = .ok (some (.dir es))) (hvalid : areValid es = true)
    (hsize : ∀ item ∈ (dir es).nodeItems [],
      (source.extend item.1).toText.utf8ByteSize ≤ pathLimit)
    (hspared : e.SparesRun w
      ((makeDirectory remote >>= fun _ => uploadDirectory source remote) e w).2) :
    ((makeDirectory remote >>= fun _ => uploadDirectory source remote) e w).1 = .ok () := by
  have hmade : UploadedTo remote [([], none)] w (makeDirectory remote e w) := makeDirectory_uploaded
  have hread : uploadDirectory source remote e (makeDirectory remote e w).2
      = uploadEntries (source.extend []) (remote.extend []) es e (makeDirectory remote e w).2 :=
    uploadDirectory_of_at hnull (by rw [hmade.files, hat]) hvalid
  refine Effect.ok_of_sparesRun hspared hmade.events (changing_ok _ _ _) (fun _ => ?_) (fun _ => ?_)
  · rw [hread]
    exact UploadedTo.events (uploadEntries_uploaded es [] _ hvalid)
  · rw [hread]
    exact uploadEntries_ok es [] _ hvalid fun item hitem =>
      hsize item (List.mem_cons_of_mem _ hitem)

theorem size_of_fillDirectory (hnull : noNull source.toText = true)
    (hat : w.files.at? e.workingDir source = .ok (some (.dir es))) (hvalid : areValid es = true)
    (hok : ((makeDirectory remote >>= fun _ => uploadDirectory source remote) e w).1 = .ok ()) :
    ∀ item ∈ (dir es).nodeItems [], (source.extend item.1).toText.utf8ByteSize ≤ pathLimit := by
  have hmade : UploadedTo remote [([], none)] w (makeDirectory remote e w) := makeDirectory_uploaded
  obtain ⟨u, w', hw', hok⟩ := Effect.exists_of_bind_ok hok
  have hfiles : w'.files = w.files := by
    have hsame := hmade.files
    rwa [hw'] at hsame
  rw [uploadDirectory_of_at hnull (by rw [hfiles, hat]) hvalid] at hok
  intro item hitem
  rcases List.mem_cons.1 hitem with rfl | hitem
  · obtain ⟨place, hplace, -⟩ := locate_of_at hat
    rw [Path.extend_nil]
    exact size_of_locate hplace
  · exact size_of_uploadEntries es [] w' hvalid hok item hitem

/-- What is sent of a directory depends on the status of the remote path: nothing if something is
    found there, or if the status cannot be had. -/
theorem sendDirectory_cases (source remote : Path) (e : Setting) (w : World) :
    (∃ x, sendDirectory source remote e w = (.error x, w.after [.stat remote.toText]) ∧
        (w.peer.view? remote = none → ¬ e.Spares w.events [.stat remote.toText])) ∨
      sendDirectory source remote e w
        = (makeDirectory remote >>= fun _ => uploadDirectory source remote) e
            (w.after [.stat remote.toText]) := by
  unfold sendDirectory
  rw [Effect.bind_of_ok (Effect.get_apply e w)]
  cases hf : e.fault w.events (.stat remote.toText) with
  | none =>
      rw [Effect.bind_of_ok (stat_of_spared _ hf)]
      cases hv : w.peer.view? remote with
      | some v => exact Or.inl ⟨_, rfl, fun h => by cases h⟩
      | none => exact Or.inr rfl
  | some y =>
      -- a fault that says that there is no file is taken as the answer
      rcases stat_of_struck (w.peer.view? remote) hf with ⟨x, hx⟩ | hnone
      · exact Or.inl ⟨x, Effect.bind_of_error hx, fun _ => by simp [Setting.Spares, hf]⟩
      · exact Or.inr (Effect.bind_of_ok hnone)

/-- A local directory is sent to a remote path, up to some item. -/
theorem sendDirectory_uploaded (hnull : noNull source.toText = true)
    (hat : w.files.at? e.workingDir source = .ok (some (.dir es))) (hvalid : areValid es = true) :
    UploadedTo remote ((dir es).nodeItems []) w (sendDirectory source remote e w) := by
  rcases sendDirectory_cases source remote e w with ⟨x, hx, -⟩ | hrun
  · rw [hx]
    exact .failed (List.cons_ne_nil _ _) x _
  · rw [hrun]
    exact (fillDirectory_uploaded (w := w.after _) hnull hat hvalid).of_after

/-- A local directory is sent to a remote path at which there is nothing, unless a fault strikes, if
    the texts of the local paths are not too long. -/
theorem sendDirectory_ok (hnull : noNull source.toText = true)
    (hat : w.files.at? e.workingDir source = .ok (some (.dir es))) (hvalid : areValid es = true)
    (hsize : ∀ item ∈ (dir es).nodeItems [],
      (source.extend item.1).toText.utf8ByteSize ≤ pathLimit)
    (hfree : w.peer.view? remote = none)
    (hspared : e.SparesRun w (sendDirectory source remote e w).2) :
    (sendDirectory source remote e w).1 = .ok () := by
  rcases sendDirectory_cases source remote e w with ⟨x, hx, hstruck⟩ | hrun
  · rw [hx] at hspared
    exact absurd hspared.spares (hstruck hfree)
  · rw [hrun] at hspared ⊢
    have hcalls : UploadedTo remote ((dir es).nodeItems []) (w.after [.stat remote.toText])
        ((makeDirectory remote >>= fun _ => uploadDirectory source remote) e
          (w.after [.stat remote.toText])) :=
      fillDirectory_uploaded hnull hat hvalid
    exact fillDirectory_ok hnull hat hvalid hsize
      (hspared.split (List.prefix_append _ _) hcalls.events).2

theorem size_of_sendDirectory (hnull : noNull source.toText = true)
    (hat : w.files.at? e.workingDir source = .ok (some (.dir es))) (hvalid : areValid es = true)
    (hok : (sendDirectory source remote e w).1 = .ok ()) :
    ∀ item ∈ (dir es).nodeItems [], (source.extend item.1).toText.utf8ByteSize ≤ pathLimit := by
  rcases sendDirectory_cases source remote e w with ⟨x, hx, -⟩ | hrun
  · rw [hx] at hok
    cases hok
  · rw [hrun] at hok
    exact size_of_fillDirectory (w := w.after _) hnull hat hvalid hok

/-! ## The session of an upload -/

/-- What is done in the session of an upload. -/
def sending (source remote : Path) : Action Unit := do
  if ← source.isFile then uploadFile source remote
  else sendDirectory source remote

theorem sending_of_directory (hnull : noNull source.toText = true)
    (hat : w.files.at? e.workingDir source = .ok (some (.dir es))) :
    sending source remote e w = sendDirectory source remote e w :=
  Effect.bind_of_ok (Path.isFile_of_at hnull hat)

theorem sending_uploaded (hnull : noNull source.toText = true)
    (hat : w.files.at? e.workingDir source = .ok (some (.dir es))) (hvalid : areValid es = true) :
    UploadedTo remote ((dir es).nodeItems []) w (sending source remote e w) := by
  rw [sending_of_directory hnull hat]
  exact sendDirectory_uploaded hnull hat hvalid

theorem upload_of_directory (target : Target) (hnull : noNull source.toText = true)
    (hat : w.files.at? e.workingDir source = .ok (some (.dir es))) :
    upload target source remote e w
      = withConnection target (withSftp (sending source remote)) e w := by
  have hfile : source.isFile e w = (.ok false, w) := Path.isFile_of_at hnull hat
  have hthere : source.isDirectory e w = (.ok true, w) := Path.isDirectory_of_at hnull hat
  rw [upload, Effect.bind_of_ok hfile, if_pos (by decide)]
  exact Effect.bind_of_ok hthere

/-- A local directory is uploaded to a remote path, up to some item. If all are made, all that can
    still fail is the end of the session. -/
theorem upload_copied (target : Target) (hnull : noNull source.toText = true)
    (hat : w.files.at? e.workingDir source = .ok (some (.dir es))) (hvalid : areValid es = true) :
    ∃ done, Copied (.remotely remote) (((dir es).nodeItems []).map some) w
        (upload target source remote e w) done ∧
      (done = (dir es).nodeItems [] →
        (∀ past, e.fault past .closeSftp = none ∧ e.fault past .close = none) →
        (upload target source remote e w).1 = .ok ()) := by
  have hsent : UploadedTo remote ((dir es).nodeItems []) (w.after (opening target e))
      (sending source remote e (w.after (opening target e))) :=
    sending_uploaded hnull hat hvalid
  rw [upload_of_directory target hnull hat]
  refine Copied.session (fun h => by cases h) fun hopen => ?_
  obtain ⟨done, hdone, hcomplete⟩ := hsent
  refine ⟨done, hdone, fun hall hclosing => ?_⟩
  obtain ⟨-, -, hlast⟩ := session_of_spared (sending source remote) hopen
  rw [hlast ⟨(hclosing _).1, (hclosing _).2, trivial⟩, hcomplete hall]

/-- A local directory is uploaded to a remote path at which there is nothing, unless a fault
    strikes, if the texts of the local paths are not too long. -/
theorem upload_ok {target : Target} (hnull : noNull source.toText = true)
    (hat : w.files.at? e.workingDir source = .ok (some (.dir es))) (hvalid : areValid es = true)
    (hsize : ∀ item ∈ (dir es).nodeItems [],
      (source.extend item.1).toText.utf8ByteSize ≤ pathLimit)
    (hfree : w.peer.get? remote.toText = none)
    (hspared : e.SparesRun w (upload target source remote e w).2) :
    (upload target source remote e w).1 = .ok () := by
  have hsent : UploadedTo remote ((dir es).nodeItems []) (w.after (opening target e))
      (sending source remote e (w.after (opening target e))) :=
    sending_uploaded hnull hat hvalid
  rw [upload_of_directory target hnull hat] at hspared ⊢
  refine session_ok hspared hsent.events ?_
  intro _ hmain
  rw [sending_of_directory (w := w.after (opening target e)) hnull hat] at hmain ⊢
  exact sendDirectory_ok hnull hat hvalid hsize (Option.map_eq_none_iff.2 hfree) hmain

/-- If a local directory has been uploaded, the texts of the local paths are not too long. -/
theorem size_of_upload {target : Target} (hnull : noNull source.toText = true)
    (hat : w.files.at? e.workingDir source = .ok (some (.dir es))) (hvalid : areValid es = true)
    (hok : (upload target source remote e w).1 = .ok ()) :
    ∀ item ∈ (dir es).nodeItems [], (source.extend item.1).toText.utf8ByteSize ≤ pathLimit := by
  rw [upload_of_directory target hnull hat] at hok
  have hmain := session_of_ok hok
  rw [sending_of_directory (w := w.after (opening target e)) hnull hat] at hmain
  exact size_of_sendDirectory (w := w.after (opening target e)) hnull hat hvalid hmain

end Sftp

namespace Transfer

open Sftp FileTree

/-- An upload of a local directory makes the first of its items below a remote path, in the order of
    their names, and nothing else, whatever faults strike its calls; it succeeds if and only if it
    makes them all. Where no fault strikes and nothing is at the remote path, it succeeds if and
    only if the text of no local path is too long. -/
theorem execute_sftpUpload_directory (target : Target) (r l : String) (e : Setting) (w : World)
    {tree : FileTree} (hvalid : w.files.isValid = true)
    (htree : w.files.at? e.workingDir (.ofText l) = .ok (some tree)) (hdir : tree.isDir = true)
    (hclosing : ∀ past, e.fault past .closeSftp = none ∧ e.fault past .close = none) :
    ∃ done calls,
      done <+: tree.nodeItems [] ∧ (tree.nodeItems []).Pairwise (fun a b => a.1 < b.1) ∧
      (execute ⟨.sftpUpload, target, r, l⟩ e w).2
        = { w with peer := w.peer.store (.ofText r) done, events := w.events ++ calls } ∧
      ((execute ⟨.sftpUpload, target, r, l⟩ e w).1 = .ok () ↔ done = tree.nodeItems []) ∧
      (e.Spares w.events calls → w.peer.get? (Path.ofText r).toText = none →
        ((execute ⟨.sftpUpload, target, r, l⟩ e w).1 = .ok () ↔
          ∀ item ∈ tree.nodeItems [],
            ((Path.ofText l).extend item.1).toText.utf8ByteSize ≤ pathLimit)) := by
  have hnull := noNull_of_at hvalid htree
  have htreeValid := isValid_of_at hvalid htree
  obtain ⟨es, rfl⟩ : ∃ es, tree = .dir es := by
    cases tree with
    | file content => cases hdir
    | dir es => exact ⟨es, rfl⟩
  obtain ⟨done, hdone, hcomplete⟩ := upload_copied target hnull htree htreeValid
  obtain ⟨calls, hcalls⟩ := hdone.world
  refine ⟨done, calls, hdone.first_of_map, nodeItems_pairwise htreeValid [], ?_,
    ⟨hdone.all_of_map, fun hall => hcomplete hall hclosing⟩, fun hspared hfree => ⟨?_, ?_⟩⟩
  · rw [Destination.makeAll_remotely] at hcalls
    exact hcalls
  · exact size_of_upload hnull htree htreeValid
  · intro hsize
    refine upload_ok hnull htree htreeValid hsize hfree ⟨calls, ?_, hspared⟩
    rw [hcalls, World.after_events, Destination.makeAll_events]

/-- The local directory of the case below. -/
def sampleTree : FileTree := .dir [("a.txt", .file [65]), ("sub", .dir [("b.txt", .file [66])])]

theorem execute_sftpUpload_sample :
    (execute ⟨.sftpUpload, .sample, "/srv/t", "t"⟩ .calm
        (.initial (.dir [("t", sampleTree)]) [])).1 = .ok () ∧
      (execute ⟨.sftpUpload, .sample, "/srv/t", "t"⟩ .calm
        (.initial (.dir [("t", sampleTree)]) [])).2.peer
        = [("/srv/t", .directory 508), ("/srv/t/a.txt", .file [65]),
          ("/srv/t/sub", .directory 508), ("/srv/t/sub/b.txt", .file [66])] := by
  have htree : FileTree.at? (.dir [("t", sampleTree)]) [] (.ofText "t") = .ok (some sampleTree) :=
    rfl
  obtain ⟨done, calls, -, -, hworld, hall, hok⟩ := execute_sftpUpload_directory .sample "/srv/t" "t"
    .calm (.initial (.dir [("t", sampleTree)]) []) (by decide) htree rfl (fun _ => ⟨rfl, rfl⟩)
  have hspared : Setting.calm.Spares [] calls := Setting.spares_of_no_fault (fun _ _ => rfl) _ _
  have hdone := (hok hspared rfl).2 (by decide)
  obtain rfl := hall.1 hdone
  refine ⟨hdone, ?_⟩
  rw [hworld]
  have hstored : Peer.store [] (.ofText "/srv/t") (sampleTree.nodeItems [])
      = [("/srv/t", .directory 508), ("/srv/t/a.txt", .file [65]),
        ("/srv/t/sub", .directory 508), ("/srv/t/sub/b.txt", .file [66])] := by decide +kernel
  exact hstored

end Transfer
end Runbook
