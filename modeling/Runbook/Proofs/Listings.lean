import Mathlib.Data.List.Nodup
import Runbook.Proofs.PathTexts
import Runbook.Remote.View

set_option autoImplicit false

/-! # What a peer lists

Conditions on the names that each directory lists, at any depth. Those that do not depend on the
order of the names hold in whatever order the peer lists them. The names that a peer finds in its
paths are components, and each is found once if no path of the peer is there twice. -/

namespace Runbook

open Path (IsComponent)

/-- Names each of which is one component of a path. -/
def AreComponents (names : List String) : Prop := ∀ name ∈ names, IsComponent name

theorem AreComponents.perm {names more : List String} (h : AreComponents names)
    (hperm : names.Perm more) : AreComponents more :=
  fun name hname => h name (hperm.mem_iff.2 hname)

namespace RemoteView

variable {P : List String → Prop} {v : RemoteView} {name : String}
  {listing rest : List (String × RemoteView)}

mutual

/-- The names in the listing of each directory, at any depth, satisfy a condition. -/
def EachListing (P : List String → Prop) : RemoteView → Prop
  | mk mode _ listing =>
    isDir (mk mode none []) = true → P (listing.map Prod.fst) ∧ EachBelow P listing

/-- The names in the listings below a listing satisfy a condition. -/
def EachBelow (P : List String → Prop) : List (String × RemoteView) → Prop
  | [] => True
  | (_, v) :: rest => v.EachListing P ∧ EachBelow P rest

end

/-- The names in a listing, and in those below it, satisfy a condition. -/
def Listed (P : List String → Prop) (listing : List (String × RemoteView)) : Prop :=
  P (listing.map Prod.fst) ∧ EachBelow P listing

theorem eachBelow_iff : EachBelow P listing ↔ ∀ x ∈ listing, x.2.EachListing P := by
  induction listing with
  | nil => simp [EachBelow]
  | cons x rest ih =>
      obtain ⟨name, v⟩ := x
      simp [EachBelow, ih]

/-- The names in a listing, when the first of them is taken away. -/
theorem Listed.of_components (h : Listed AreComponents ((name, v) :: rest)) :
    IsComponent name ∧ v.EachListing AreComponents ∧ Listed AreComponents rest := by
  obtain ⟨hnames, hbelow⟩ := h
  unfold EachBelow at hbelow
  exact ⟨hnames _ (List.mem_cons_self ..), hbelow.1,
    fun n hn => hnames n (List.mem_cons_of_mem _ hn), hbelow.2⟩

theorem Listed.of_nodup (h : Listed List.Nodup ((name, v) :: rest)) :
    name ∉ rest.map Prod.fst ∧ v.EachListing List.Nodup ∧ Listed List.Nodup rest := by
  obtain ⟨hnames, hbelow⟩ := h
  obtain ⟨hother, hrest⟩ := List.nodup_cons.1 hnames
  unfold EachBelow at hbelow
  exact ⟨hother, hbelow.1, hrest, hbelow.2⟩

theorem listed_of_isDir (hdir : v.isDir = true) (h : v.EachListing P) : Listed P v.listing := by
  obtain ⟨mode, content, listing⟩ := v
  unfold EachListing at h
  exact h hdir

/-! ## Orders of listings -/

theorem listingInOrder_map_fst (order : ListingOrder) (path : Path)
    (listing : List (String × RemoteView)) :
    (listingInOrder order path listing).map Prod.fst = listing.map Prod.fst := by
  induction listing with
  | nil =>
      unfold listingInOrder
      rfl
  | cons x rest ih =>
      obtain ⟨name, v⟩ := x
      unfold listingInOrder
      rw [List.map_cons, List.map_cons, ih]

theorem listing_inOrder (order : ListingOrder) (path : Path) (v : RemoteView) :
    ((v.inOrder order path).listing.map Prod.fst).Perm (v.listing.map Prod.fst) := by
  obtain ⟨mode, content, listing⟩ := v
  unfold inOrder
  have hperm := (order.perm path (listingInOrder order path listing)).map Prod.fst
  rwa [listingInOrder_map_fst] at hperm

mutual

/-- The order in which directories are listed does not matter to a condition that does not depend on
    it. -/
theorem eachListing_inOrder (hP : ∀ {names more : List String}, P names → names.Perm more → P more)
    (order : ListingOrder) : ∀ (v : RemoteView) (path : Path), v.EachListing P →
    (v.inOrder order path).EachListing P
  | .mk mode content listing, path, h => by
    unfold inOrder EachListing
    unfold EachListing at h
    intro hdir
    obtain ⟨hnames, hbelow⟩ := h hdir
    have hperm := order.perm path (listingInOrder order path listing)
    refine ⟨hP hnames ?_, ?_⟩
    · rw [← listingInOrder_map_fst order path listing]
      exact (hperm.map Prod.fst).symm
    · have hordered := eachBelow_inOrder hP order listing path hbelow
      rw [eachBelow_iff] at hordered ⊢
      intro x hx
      exact hordered x (hperm.mem_iff.1 hx)

theorem eachBelow_inOrder (hP : ∀ {names more : List String}, P names → names.Perm more → P more)
    (order : ListingOrder) : ∀ (listing : List (String × RemoteView)) (path : Path),
    EachBelow P listing → EachBelow P (listingInOrder order path listing)
  | [], _, _ => by
    unfold listingInOrder EachBelow
    trivial
  | (name, v) :: rest, path, h => by
    unfold EachBelow at h
    unfold listingInOrder EachBelow
    exact ⟨eachListing_inOrder hP order v _ h.1, eachBelow_inOrder hP order rest path h.2⟩

end

theorem isDir_inOrder (order : ListingOrder) (path : Path) (v : RemoteView) :
    (v.inOrder order path).isDir = v.isDir := by
  cases v
  unfold inOrder
  rfl

theorem isFile_inOrder (order : ListingOrder) (path : Path) (v : RemoteView) :
    (v.inOrder order path).isFile = v.isFile := by
  cases v
  unfold inOrder
  rfl

theorem content_inOrder (order : ListingOrder) (path : Path) (v : RemoteView) :
    (v.inOrder order path).content = v.content := by
  cases v
  unfold inOrder
  rfl

theorem isFile_of_isDir (h : v.isDir = true) : v.isFile = false := by
  simp only [isDir, decide_eq_true_eq] at h
  simp [isFile, h]

end RemoteView

/-! ## The names that a peer finds -/

namespace Peer

open RemoteView

variable {peer : Peer} {path : Path} {v : RemoteView}

theorem list_map_fst (peer : Peer) (path : String) :
    (peer.list path).map Prod.fst = (peer.map Prod.fst).filterMap (nameIn? path) := by
  rw [list, List.map_filterMap, List.filterMap_map]
  congr 1
  funext x
  simp [Function.comp_def]

theorem areComponents_list (peer : Peer) (path : String) :
    AreComponents ((peer.list path).map Prod.fst) := by
  rw [list_map_fst]
  intro name hname
  obtain ⟨child, -, hchild⟩ := List.mem_filterMap.1 hname
  exact (nameIn?_eq_some_iff.1 hchild).1

/-- A path is found in a directory under one name, and no other path is found under it. -/
theorem nodup_list (h : (peer.map Prod.fst).Nodup) (path : String) :
    ((peer.list path).map Prod.fst).Nodup := by
  rw [list_map_fst]
  refine h.filterMap ?_
  intro child other name hchild hother
  have htext := (nameIn?_eq_some_iff.1 hchild).2
  rw [← (nameIn?_eq_some_iff.1 hother).2] at htext
  exact String.toList_inj.1 htext

/-- What the peer lists at its paths is what is seen listed, at any depth. -/
theorem eachListing_viewTo {P : List String → Prop} (hnil : P [])
    (h : ∀ path, P ((peer.list path).map Prod.fst)) (depth : Nat) (mode : Option Nat)
    (path : Path) : (peer.viewTo depth mode path).EachListing P := by
  induction depth generalizing mode path with
  | zero =>
      unfold viewTo EachListing
      exact fun _ => ⟨hnil, by simp [eachBelow_iff]⟩
  | succ depth ih =>
      unfold viewTo EachListing
      refine fun _ => ⟨by simpa [Function.comp_def] using h path.toText, ?_⟩
      rw [eachBelow_iff]
      intro x hx
      obtain ⟨y, -, rfl⟩ := List.mem_map.1 hx
      exact ih _ _

theorem listing_view? (h : peer.view? path = some v) :
    v.listing.map Prod.fst = (peer.list path.toText).map Prod.fst := by
  obtain ⟨entry, -, rfl⟩ := Option.map_eq_some_iff.1 h
  unfold viewTo
  exact List.map_map

theorem areComponents_view? (h : peer.view? path = some v) : v.EachListing AreComponents := by
  obtain ⟨entry, -, rfl⟩ := Option.map_eq_some_iff.1 h
  exact eachListing_viewTo (fun _ => List.not_mem_nil.elim) peer.areComponents_list _ _ path

theorem nodup_view? (hpaths : (peer.map Prod.fst).Nodup) (h : peer.view? path = some v) :
    v.EachListing List.Nodup := by
  obtain ⟨entry, -, rfl⟩ := Option.map_eq_some_iff.1 h
  exact eachListing_viewTo .nil (nodup_list hpaths) _ _ path

end Peer
end Runbook
