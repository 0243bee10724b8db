import Runbook.Proofs.Copies
import Runbook.Proofs.Listings
import Runbook.Proofs.LocalCalls
import Runbook.Remote.Transfer

set_option autoImplicit false

/-! # Downloads of directories

A download of a directory makes the items of what is seen at the remote path, in the order in which
they are listed, below a local path at which there is nothing yet. Whatever faults strike its calls,
what it leaves is the first of these items and nothing else. -/

namespace Runbook

open Path (IsComponent isLocalName isUsable)

/-! ## What can be copied to a local path -/

namespace RemoteView

mutual

/-- Whether what is seen can be copied to a local path: something that can be read, or a directory
    with entries that can be. -/
def fits (p : Path) : RemoteView → Bool
  | mk mode content listing =>
    isUsable p && (if isDir (mk mode none []) then listingFits p listing else content.isSome)

/-- Whether a listing can be copied into a local directory: each name is one that the directory can
    hold. -/
def listingFits (p : Path) : List (String × RemoteView) → Bool
  | [] => true
  | (name, v) :: rest =>
    isLocalName name && v.fits (p.extend [name]) && listingFits p rest

end

end RemoteView

namespace Sftp

open Action Session RemoteView
open FileTree (get?_plant_beside get?_put_below)

/-! ## The walk over what is seen -/

section Walk

/-- How a download of some items ends: the first of them have been made below a place, and whatever
    was in the local tree is still there. -/
def DownloadedTo (place : List String) (items : List (Option CopyItem)) (w : World)
    (out : Except Failure Unit × World) : Prop :=
  ∃ done, Copied (.locally place) items w out done ∧ w.files.Extends out.2.files

variable {e : Setting} {place lead : List String} {w : World}

namespace DownloadedTo

variable {items more : List (Option CopyItem)}

theorem failed (x : Failure) (calls : List Event) :
    DownloadedTo place items w (.error x, w.after calls) :=
  ⟨[], .nothing x calls, .refl _⟩

theorem events {first : Action Unit} (h : DownloadedTo place items w (first e w)) :
    w.events <+: (first e w).2.events := h.elim fun _ h => h.1.events

theorem kept {out : Except Failure Unit × World} (h : DownloadedTo place items w out) :
    w.files.Extends out.2.files := h.elim fun _ h => h.2

/-- Beside the spot below which its items lie a download changes nothing. -/
theorem get?_beside {out : Except Failure Unit × World} {spot names : List String}
    (h : DownloadedTo place items w out)
    (hitems : ∀ item, some item ∈ items → spot <+: place ++ item.1) (hbelow : ¬ spot <+: names)
    (habove : ¬ names <+: spot) : out.2.files.get? names = w.files.get? names := by
  obtain ⟨done, ⟨hfirst, ⟨calls, hcalls⟩, -⟩, -⟩ := h
  rw [hcalls, World.after_files, Destination.makeAll_locally]
  refine get?_plant_beside (fun item hitem => hitems item ?_) hbelow habove _
  exact hfirst.subset (List.mem_map_of_mem hitem)

/-- A download goes on after its first part, or stops there. -/
theorem bind {first second : Action Unit} (h : DownloadedTo place items w (first e w))
    (h' : (first e w).1 = .ok () →
      DownloadedTo place more (first e w).2 (second e (first e w).2)) :
    DownloadedTo place (items ++ more) w ((first >>= fun _ => second) e w) := by
  obtain ⟨done, hdone, hext⟩ := h
  cases hr : (first e w).1 with
  | error x =>
      refine ⟨done, hdone.stop hr, ?_⟩
      rwa [Effect.bind_of_error (Prod.ext hr rfl)]
  | ok u =>
      obtain ⟨made, hmade, hext'⟩ := h' hr
      refine ⟨done ++ made, hdone.append hr hmade, ?_⟩
      rw [Effect.bind_of_ok (Prod.ext hr rfl)]
      exact hext.trans hext'

end DownloadedTo

/-- A remote file is read, or the attempt leaves nothing but its call. -/
theorem readContent_cases (remote : Path) (content : Option Bytes) (e : Setting) (w : World) :
    (∃ x, readContent remote content e w = (.error x, w.after [.openRead remote.toText])) ∨
      ∃ bytes, content = some bytes ∧ e.fault w.events (.openRead remote.toText) = none ∧
        readContent remote content e w = (.ok bytes, w.after [.openRead remote.toText]) := by
  unfold readContent attempting
  cases hf : e.fault w.events (.openRead remote.toText) with
  | some x =>
      exact Or.inl (Effect.because_of_error (Effect.bind_of_error (perform_of_struck hf)))
  | none =>
      cases content with
      | none => exact Or.inl (Effect.because_of_error (Effect.bind_of_ok (perform_of_spared hf)))
      | some bytes =>
          refine Or.inr ⟨bytes, rfl, rfl, ?_⟩
          exact Effect.because_of_ok (Effect.bind_of_ok (perform_of_spared hf))

/-- A file is copied to a name in a directory, or nothing is. -/
theorem downloadFile_downloaded {remote c : Path} {content : Option Bytes}
    (hc : w.files.Reaches e.workingDir c (place ++ lead) ∨ ∃ q, w.files.LeadsTo e.workingDir c q) :
    DownloadedTo place [content.map fun bytes => (lead, some bytes)] w
      (downloadFile remote c content e w) := by
  unfold downloadFile
  rcases readContent_cases remote content e w with ⟨x, hx⟩ | ⟨bytes, rfl, -, hread⟩
  · rw [Effect.bind_of_error hx]
    exact .failed x _
  · rw [Effect.bind_of_ok hread]
    rcases c.writeFile_cases bytes e (w.after [.openRead remote.toText]) with
      ⟨x, hx⟩ | ⟨t, -, ht, hok⟩
    · rw [hx]
      exact .failed x _
    · rw [hok]
      rcases hc with hc | ⟨q, hq⟩
      · obtain ⟨rfl, hext⟩ := hc.write ht
        exact ⟨[(lead, some bytes)], .one _ _, hext⟩
      -- the dot, or two of them: no file is written in the place of a directory
      · exact absurd ⟨t, ht⟩ (hq.write bytes)

/-- A directory is made at a name in a directory, and the path leads there then, or nothing is
    made. -/
theorem makeDirectory_downloaded {c : Path}
    (hc : w.files.Reaches e.workingDir c (place ++ lead) ∨ ∃ q, w.files.LeadsTo e.workingDir c q) :
    DownloadedTo place [some (lead, none)] w (c.makeDirectory e w) ∧
      ((c.makeDirectory e w).1 = .ok () →
        (c.makeDirectory e w).2.files.LeadsTo e.workingDir c (place ++ lead)) := by
  rcases c.makeDirectory_cases e w with ⟨x, hx⟩ | ⟨t, -, ht, hok⟩
  · rw [hx]
    exact ⟨by simpa using DownloadedTo.failed x [], fun h => by cases h⟩
  · rw [hok]
    rcases hc with hc | ⟨q, hq⟩
    · obtain ⟨-, rfl, hext, hleads⟩ := hc.makeDir ht
      refine ⟨⟨[(lead, none)], ?_, hext⟩, fun _ => hleads⟩
      have hmade : Copied (.locally place) [some (lead, none)] w
          (.ok (), (Destination.make (.locally place) w (lead, none)).after []) [(lead, none)] :=
        .one _ _
      rwa [World.after_nil] at hmade
    · exact absurd ⟨t, ht⟩ hq.makeDir

theorem askListing_cases (remote : Path) (e : Setting) (w : World) :
    (∃ x, askListing remote e w = (.error x, w.after [.list remote.toText])) ∨
      askListing remote e w = (.ok (), w.after [.list remote.toText]) := by
  cases hf : e.fault w.events (.list remote.toText) with
  | some x => exact Or.inl (attempting_perform_of_struck _ hf)
  | none => exact Or.inr (attempting_perform_of_spared _ hf)

/-- A directory is copied as its listing is, if that can be had. -/
theorem downloadDirectory_of_listing {listing : List (String × RemoteView)} {remote p : Path}
    {q : List String} {items : List (Option CopyItem)}
    (h : ∀ w', w'.files.LeadsTo e.workingDir p q →
      DownloadedTo place items w' (downloadListing remote p listing e w'))
    (hp : w.files.LeadsTo e.workingDir p q) :
    DownloadedTo place items w (downloadDirectory remote p listing e w) := by
  unfold downloadDirectory
  rcases askListing_cases remote e w with ⟨x, hx⟩ | hok
  · rw [Effect.bind_of_error hx]
    exact .failed x _
  · have hasked : DownloadedTo place [] w (askListing remote e w) := by
      rw [hok]
      exact ⟨[], .none _, .refl _⟩
    refine hasked.bind fun _ => h _ ?_
    rwa [hok]

mutual

/-- What is seen at a remote path is copied to a name in a directory, up to some item. -/
theorem downloadView_downloaded : ∀ (v : RemoteView) (remote c : Path) (lead : List String)
    (w : World), v.EachListing AreComponents →
    (w.files.Reaches e.workingDir c (place ++ lead) ∨ ∃ q, w.files.LeadsTo e.workingDir c q) →
    DownloadedTo place (v.items lead) w (downloadView remote c v e w)
  | .mk mode content listing, remote, c, lead, w, hnames, hc => by
    unfold downloadView items
    unfold EachListing at hnames
    split
    · next hdir =>
      obtain ⟨hmade, hleads⟩ := makeDirectory_downloaded hc
      refine hmade.bind ?_
      intro hok
      exact downloadDirectory_of_listing
        (fun w' hp => downloadListing_downloaded listing remote c lead w' (hnames hdir) hp)
        (hleads hok)
    · exact downloadFile_downloaded hc

/-- The entries of a listing are copied into a directory one after the other, up to some item. -/
theorem downloadListing_downloaded : ∀ (listing : List (String × RemoteView)) (remote p : Path)
    (lead : List String) (w : World), Listed AreComponents listing →
    w.files.LeadsTo e.workingDir p (place ++ lead) →
    DownloadedTo place (listingItems lead listing) w (downloadListing remote p listing e w)
  | [], remote, p, lead, w, _, _ => by
    unfold downloadListing listingItems
    exact ⟨[], by simpa using Copied.none [], .refl _⟩
  | (name, v) :: rest, remote, p, lead, w, hnames, hp => by
    obtain ⟨hname, hv, hrest⟩ := hnames.of_components
    unfold downloadListing listingItems
    have hc : w.files.Reaches e.workingDir (p.below name) (place ++ (lead ++ [name])) ∨
        ∃ q, w.files.LeadsTo e.workingDir (p.below name) q := by
      rcases hp.below hname with h | h
      · exact Or.inr ⟨_, h⟩
      · exact Or.inl (by rwa [List.append_assoc] at h)
    have hfirst := downloadView_downloaded v (remote.below name) (p.below name) (lead ++ [name]) w
      hv hc
    -- the path leads to the directory still, since nothing in the tree is lost
    refine hfirst.bind ?_
    intro _
    obtain ⟨done, -, hext⟩ := hfirst
    exact downloadListing_downloaded rest remote p lead _ hrest (hp.extends hext)

end

end Walk

/-! ## Walks that reach their end -/

section Ending

variable {e : Setting} {place lead : List String} {w : World} {p : Path} {name : String}

theorem downloadFile_ok {remote : Path} {content : Option Bytes} {q : List String}
    (hp : w.files.LeadsTo e.workingDir p q) (hname : isLocalName name = true)
    (husable : isUsable (p.extend [name]) = true) (hfree : w.files.get? (q ++ [name]) = none)
    (hcontent : content.isSome = true)
    (hspared : e.SparesRun w (downloadFile remote (p.extend [name]) content e w).2) :
    (downloadFile remote (p.extend [name]) content e w).1 = .ok () := by
  obtain ⟨bytes, rfl⟩ := Option.isSome_iff_exists.1 hcontent
  unfold downloadFile at hspared ⊢
  have hnull : noNull (p.extend [name]).toText = true := by
    simp only [isUsable, Bool.and_eq_true] at husable
    exact husable.1
  have hwrite : (p.extend [name]).writeFile bytes e (w.after [.openRead remote.toText])
      = (.ok (), { w.after [.openRead remote.toText] with
          files := w.files.put (q ++ [name]) (.file bytes) }) :=
    Effect.bind_of_ok (Path.call_of_ok hnull (hp.write_of_free bytes hname husable hfree))
  cases hf : e.fault w.events (.openRead remote.toText) with
  | none =>
      have hread : readContent remote (some bytes) e w
          = (.ok bytes, w.after [.openRead remote.toText]) :=
        Effect.because_of_ok (Effect.bind_of_ok (perform_of_spared hf))
      rw [Effect.bind_of_ok hread, hwrite]
  | some x =>
      obtain ⟨y, hread⟩ : ∃ y, readContent remote (some bytes) e w
          = (.error y, w.after [.openRead remote.toText]) :=
        Effect.because_of_error (Effect.bind_of_error (perform_of_struck hf))
      rw [Effect.bind_of_error hread] at hspared
      rw [hspared.fault_eq_none] at hf
      cases hf

/-- A directory is made at a name that is free. -/
theorem makeDirectory_ok {q : List String} (hp : w.files.LeadsTo e.workingDir p q)
    (hname : isLocalName name = true) (husable : isUsable (p.extend [name]) = true)
    (hfree : w.files.get? (q ++ [name]) = none) :
    (p.extend [name]).makeDirectory e w
      = (.ok (), { w with files := w.files.put (q ++ [name]) .empty }) := by
  have hnull : noNull (p.extend [name]).toText = true := by
    simp only [isUsable, Bool.and_eq_true] at husable
    exact husable.1
  exact Effect.bind_of_ok (Path.call_of_ok hnull (hp.makeDir_of_free hname husable hfree))

/-- A directory is copied where no fault strikes, if its listing is. -/
theorem downloadDirectory_ok {remote : Path} {listing : List (String × RemoteView)}
    (hnames : Listed AreComponents listing)
    (hp : w.files.LeadsTo e.workingDir p (place ++ lead))
    (h : e.SparesRun (w.after [.list remote.toText])
        (downloadListing remote p listing e (w.after [.list remote.toText])).2 →
      (downloadListing remote p listing e (w.after [.list remote.toText])).1 = .ok ())
    (hspared : e.SparesRun w (downloadDirectory remote p listing e w).2) :
    (downloadDirectory remote p listing e w).1 = .ok () := by
  have hsnd : (askListing remote e w).2 = w.after [.list remote.toText] := by
    rcases askListing_cases remote e w with ⟨x, hx⟩ | hok
    · rw [hx]
    · rw [hok]
  refine Effect.ok_of_sparesRun hspared ?_ (fun hasked => ?_) (fun _ => ?_) (fun _ => ?_)
  · rw [hsnd]
    exact List.prefix_append _ _
  · rw [hsnd] at hasked
    have hask : askListing remote e w = (.ok (), w.after [.list remote.toText]) :=
      attempting_perform_of_spared _ hasked.fault_eq_none
    rw [hask]
  · rw [hsnd]
    have hlisting := downloadListing_downloaded listing remote p lead
      (w.after [.list remote.toText]) hnames hp
    exact hlisting.events
  · rw [hsnd]
    exact h

mutual

/-- What fits below a path is copied to a free name there, unless a fault strikes. -/
theorem downloadView_ok : ∀ (v : RemoteView) (remote p : Path) (lead : List String) (name : String)
    (w : World), v.EachListing AreComponents → v.EachListing List.Nodup →
    w.files.LeadsTo e.workingDir p (place ++ lead) → isLocalName name = true →
    v.fits (p.extend [name]) = true → w.files.get? (place ++ lead ++ [name]) = none →
    e.SparesRun w (downloadView remote (p.extend [name]) v e w).2 →
    (downloadView remote (p.extend [name]) v e w).1 = .ok ()
  | .mk mode content listing, remote, p, lead, name, w, hnames, honce, hp, hname, hfits, hfree,
      hspared => by
    unfold EachListing at hnames honce
    unfold fits at hfits
    rw [Bool.and_eq_true] at hfits
    obtain ⟨husable, hfits⟩ := hfits
    unfold downloadView at hspared ⊢
    split at hfits
    · next hdir =>
      rw [if_pos hdir] at hspared ⊢
      have hmade := makeDirectory_ok hp hname husable hfree
      have hreaches := hp.reaches name
      rw [List.append_assoc] at hreaches
      obtain ⟨-, hleads⟩ := makeDirectory_downloaded (Or.inl hreaches)
      rw [hmade] at hleads
      rw [Effect.bind_of_ok hmade] at hspared ⊢
      refine downloadDirectory_ok (hnames hdir) (hleads rfl) ?_ hspared
      refine downloadListing_ok listing remote (p.extend [name]) (lead ++ [name]) _ (hnames hdir)
        (honce hdir) (hleads rfl) hfits fun x _ => ?_
      rw [← List.append_assoc, World.after_files, get?_put_below]
      rfl
    · next hdir =>
      rw [if_neg hdir] at hspared ⊢
      exact downloadFile_ok hp hname husable hfree hfits hspared

/-- A listing that fits into a directory is copied into it, unless a fault strikes, if the names in
    it are free. -/
theorem downloadListing_ok : ∀ (listing : List (String × RemoteView)) (remote p : Path)
    (lead : List String) (w : World), Listed AreComponents listing → Listed List.Nodup listing →
    w.files.LeadsTo e.workingDir p (place ++ lead) → listingFits p listing = true →
    (∀ x ∈ listing, w.files.get? (place ++ lead ++ [x.1]) = none) →
    e.SparesRun w (downloadListing remote p listing e w).2 →
    (downloadListing remote p listing e w).1 = .ok ()
  | [], remote, p, lead, w, _, _, _, _, _, _ => by
    unfold downloadListing
    rfl
  | (name, v) :: rest, remote, p, lead, w, hnames, honce, hp, hfits, hfree, hspared => by
    obtain ⟨-, hbelow, hrestNames⟩ := hnames.of_components
    obtain ⟨hlisted, hvOnce, hrestOnce⟩ := honce.of_nodup
    unfold listingFits at hfits
    simp only [Bool.and_eq_true] at hfits
    obtain ⟨⟨hname, hv⟩, hrest⟩ := hfits
    unfold downloadListing at hspared ⊢
    rw [Path.below_of_isLocalName p hname] at hspared ⊢
    have hreaches := hp.reaches name
    rw [List.append_assoc] at hreaches
    have hfirst := downloadView_downloaded v (remote.below name) (p.extend [name]) (lead ++ [name])
      w hbelow (Or.inl hreaches)
    have hleads := hp.extends hfirst.kept
    refine Effect.ok_of_sparesRun hspared hfirst.events ?_ (fun _ => ?_) (fun _ => ?_)
    · exact downloadView_ok v _ p lead name w hbelow hvOnce hp hname hv
        (hfree _ (List.mem_cons_self ..))
    · exact DownloadedTo.events (downloadListing_downloaded rest remote p lead _ hrestNames hleads)
    · refine downloadListing_ok rest remote p lead _ hrestNames hrestOnce hleads hrest ?_
      intro x hx
      -- the first entry lies below its own name, so the names of the others are free still
      have hother : x.1 ≠ name := fun hx' => hlisted (hx' ▸ List.mem_map_of_mem hx)
      have hbeside : ∀ item, some item ∈ v.items (lead ++ [name]) →
          place ++ lead ++ [name] <+: place ++ item.1 := fun item hitem => by
        rw [List.append_assoc, List.prefix_append_right_inj]
        exact lead_of_mem_items v _ item hitem
      rw [hfirst.get?_beside hbeside]
      · exact hfree x (List.mem_cons_of_mem _ hx)
      · simpa [List.prefix_append_right_inj] using Ne.symm hother
      · simpa [List.prefix_append_right_inj] using hother

end

/-! ## What has reached its end fits -/

theorem downloadFile_fits {remote : Path} {content : Option Bytes} {q : List String}
    (hp : w.files.LeadsTo e.workingDir p q) (hname : IsComponent name)
    (hok : (downloadFile remote (p.below name) content e w).1 = .ok ()) :
    isLocalName name = true ∧ isUsable (p.extend [name]) = true ∧ content.isSome = true := by
  unfold downloadFile at hok
  rcases readContent_cases remote content e w with ⟨x, hx⟩ | ⟨bytes, rfl, -, hread⟩
  · rw [Effect.bind_of_error hx] at hok
    cases hok
  · rw [Effect.bind_of_ok hread] at hok
    rcases (p.below name).writeFile_cases bytes e (w.after [.openRead remote.toText]) with
      ⟨x, hx⟩ | ⟨t, hnull, ht, -⟩
    · rw [hx] at hok
      cases hok
    · obtain ⟨hlocal, husable⟩ := hp.usable_of_write hname hnull ht
      exact ⟨hlocal, husable, rfl⟩

theorem makeDirectory_fits {q : List String} (hp : w.files.LeadsTo e.workingDir p q)
    (hname : IsComponent name) (hok : ((p.below name).makeDirectory e w).1 = .ok ()) :
    isLocalName name = true ∧ isUsable (p.extend [name]) = true := by
  rcases (p.below name).makeDirectory_cases e w with ⟨x, hx⟩ | ⟨t, hnull, ht, -⟩
  · rw [hx] at hok
    cases hok
  · exact hp.usable_of_makeDir hname hnull ht

/-- A directory that has been copied to a path fits there, if its listing does. -/
theorem downloadDirectory_fits {remote : Path} {listing : List (String × RemoteView)}
    {q : List String}
    (h : ∀ w', w'.files.LeadsTo e.workingDir p q →
      (downloadListing remote p listing e w').1 = .ok () → listingFits p listing = true)
    (hp : w.files.LeadsTo e.workingDir p q)
    (hok : (downloadDirectory remote p listing e w).1 = .ok ()) :
    listingFits p listing = true := by
  obtain ⟨u, w', hasked, hok⟩ := Effect.exists_of_bind_ok hok
  rcases askListing_cases remote e w with ⟨x, hx⟩ | hx
  · rw [hx] at hasked
    cases hasked
  · rw [hx] at hasked
    cases hasked
    exact h (w.after [.list remote.toText]) hp hok

mutual

/-- What has been copied to a name in a directory fits there, and the name is a local one. -/
theorem downloadView_fits : ∀ (v : RemoteView) (remote p : Path) (q : List String) (name : String)
    (w : World), v.EachListing AreComponents → w.files.LeadsTo e.workingDir p q →
    IsComponent name → (downloadView remote (p.below name) v e w).1 = .ok () →
    isLocalName name = true ∧ v.fits (p.extend [name]) = true
  | .mk mode content listing, remote, p, q, name, w, hnames, hp, hname, hok => by
    unfold EachListing at hnames
    unfold downloadView at hok
    unfold fits
    split at hok
    · next hdir =>
      obtain ⟨u, w', hmade, hok⟩ := Effect.exists_of_bind_ok hok
      obtain ⟨hlocal, husable⟩ := makeDirectory_fits hp hname (by rw [hmade])
      rw [Path.below_of_isLocalName p hlocal] at hmade hok
      obtain ⟨-, hleads⟩ := makeDirectory_downloaded (Or.inl (hp.reaches name))
      rw [hmade] at hleads
      have hfits := downloadDirectory_fits
        (fun w'' => downloadListing_fits listing remote (p.extend [name]) _ w'' (hnames hdir))
        (hleads rfl) hok
      exact ⟨hlocal, by rw [husable, if_pos hdir, hfits, Bool.and_self]⟩
    · next hdir =>
      obtain ⟨hlocal, husable, hcontent⟩ := downloadFile_fits hp hname hok
      exact ⟨hlocal, by rw [husable, if_neg hdir, hcontent, Bool.and_self]⟩

/-- A listing that has been copied into a directory fits into it. -/
theorem downloadListing_fits : ∀ (listing : List (String × RemoteView)) (remote p : Path)
    (q : List String) (w : World), Listed AreComponents listing →
    w.files.LeadsTo e.workingDir p q → (downloadListing remote p listing e w).1 = .ok () →
    listingFits p listing = true
  | [], remote, p, q, w, _, _, _ => by
    unfold listingFits
    rfl
  | (name, v) :: rest, remote, p, q, w, hnames, hp, hok => by
    obtain ⟨hname, hv, hrest⟩ := hnames.of_components
    unfold downloadListing at hok
    obtain ⟨u, w', hfirst, hok⟩ := Effect.exists_of_bind_ok hok
    obtain ⟨hlocal, hfits⟩ := downloadView_fits v _ p q name w hv hp hname (by rw [hfirst])
    rw [Path.below_of_isLocalName p hlocal] at hfirst
    have hkept := (downloadView_downloaded v (remote.below name) (p.extend [name]) [name] w hv
      (Or.inl (hp.reaches name))).kept
    rw [hfirst] at hkept
    have hothers := downloadListing_fits rest remote p q w' hrest (hp.extends hkept) hok
    unfold listingFits
    rw [hlocal, hfits, hothers]
    rfl

end

end Ending

end Sftp
end Runbook
