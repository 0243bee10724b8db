import Mathlib.Data.String.Basic
import Runbook.Proofs.DownloadWalk
import Runbook.Proofs.StoredTrees

set_option autoImplicit false

/-! # Trees that are seen in some order

What a session shows of a tree is the tree up to the order in which its directories are listed. The
order does not matter: a tree is made of its items in any such order, and fits wherever it fits. -/

namespace Runbook

open Path (IsComponent isLocalName isUsable)

mutual

/-- What is seen is a tree, up to the order in which its directories are listed. -/
inductive RemoteView.Shows : RemoteView → FileTree → Prop
  | file {mode : Option Nat} {content : Bytes} {listing : List (String × RemoteView)}
      (hmode : RemoteView.isDir (.mk mode none []) = false) :
      Shows (.mk mode (some content) listing) (.file content)
  | dir {mode : Option Nat} {content : Option Bytes} {listing : List (String × RemoteView)}
      {es es' : List (String × FileTree)} (hmode : RemoteView.isDir (.mk mode none []) = true)
      (hlisting : ListsAll listing es') (hperm : es'.Perm es) :
      Shows (.mk mode content listing) (.dir es)

/-- A listing shows some entries, one after the other. -/
inductive RemoteView.ListsAll : List (String × RemoteView) → List (String × FileTree) → Prop
  | nil : ListsAll [] []
  | cons {name : String} {v : RemoteView} {t : FileTree} {listing : List (String × RemoteView)}
      {es : List (String × FileTree)} (hfirst : Shows v t) (hrest : ListsAll listing es) :
      ListsAll ((name, v) :: listing) ((name, t) :: es)

end

namespace RemoteView

/-- A listing in another order shows the same entries in another order. -/
theorem ListsAll.of_perm {listing listing' : List (String × RemoteView)}
    (hperm : listing'.Perm listing) {es : List (String × FileTree)} (h : ListsAll listing es) :
    ∃ es', ListsAll listing' es' ∧ es'.Perm es := by
  induction hperm generalizing es with
  | nil => exact ⟨es, h, .refl _⟩
  | cons x _ ih =>
      cases h with
      | cons hfirst hrest =>
          obtain ⟨es', hes', hperm⟩ := ih hrest
          exact ⟨_, .cons hfirst hes', hperm.cons _⟩
  | swap x y l =>
      cases h with
      | cons hfirst hrest =>
          cases hrest with
          | cons hsecond hrest => exact ⟨_, .cons hsecond (.cons hfirst hrest), .swap ..⟩
  | trans _ _ ih ih' =>
      obtain ⟨es', hes', hperm⟩ := ih' h
      obtain ⟨es'', hes'', hperm'⟩ := ih hes'
      exact ⟨es'', hes'', hperm'.trans hperm⟩

theorem isDir_fileMode : isDir (.mk (some PeerEntry.fileMode) none []) = false := by decide

mutual

/-- What is seen of a tree shows it in whatever order it is listed. -/
theorem shows_seen (order : ListingOrder) : ∀ (t : FileTree) (path : Path),
    (t.seen.inOrder order path).Shows t
  | .file content, path => by
    unfold FileTree.seen inOrder
    exact .file isDir_fileMode
  | .dir es, path => by
    unfold FileTree.seen inOrder
    obtain ⟨es', hes', hperm⟩ := (listsAll_seen order es path).of_perm
      (order.perm path (listingInOrder order path (FileTree.seenEntries es)))
    exact .dir (by decide) hes' hperm

theorem listsAll_seen (order : ListingOrder) : ∀ (es : List (String × FileTree)) (path : Path),
    ListsAll (listingInOrder order path (FileTree.seenEntries es)) es
  | [], path => by
    unfold FileTree.seenEntries listingInOrder
    exact .nil
  | (name, t) :: es, path => by
    unfold FileTree.seenEntries listingInOrder
    exact .cons (shows_seen order t _) (listsAll_seen order es path)

end

end RemoteView

/-! ## A tree from its items -/

namespace FileTree

/-- Two entries can be set in either order. -/
theorem setEntry_comm {n m : String} (hlt : n < m) (t u : FileTree)
    (es : List (String × FileTree)) :
    setEntry n t (setEntry m u es) = setEntry m u (setEntry n t es) := by
  have hne : n ≠ m := ne_of_lt hlt
  have hasymm : ¬ m < n := lt_asymm hlt
  induction es with
  | nil => simp [setEntry, hne, Ne.symm hne, hlt, hasymm]
  | cons x rest ih =>
      obtain ⟨k, v⟩ := x
      by_cases hkn : k = n
      · subst hkn
        simp [setEntry, hne, hasymm]
      · by_cases hnk : n < k
        · by_cases hkm : k = m
          · subst hkm
            simp [setEntry, hne, Ne.symm hne, hlt, hasymm]
          · by_cases hmk : m < k
            · simp [setEntry, hne, Ne.symm hne, hlt, hasymm, hkn, hkm, hnk, hmk]
            · simp [setEntry, hne, hasymm, hkn, hkm, hnk, hmk]
        · have hkm : k ≠ m := fun h => hnk (h ▸ hlt)
          have hmk : ¬ m < k := fun h => hnk (lt_trans hlt h)
          simp [setEntry, hkn, hkm, hnk, hmk, ih]

/-- Sets some entries one after the other. -/
def setEntries (es acc : List (String × FileTree)) : List (String × FileTree) :=
  es.foldl (fun acc x => setEntry x.1 x.2 acc) acc

/-- An entry is set at the end if all others come before it. -/
theorem setEntry_of_lt {name : String} (t : FileTree) {es : List (String × FileTree)}
    (h : ∀ x ∈ es, x.1 < name) : setEntry name t es = es ++ [(name, t)] := by
  induction es with
  | nil => rfl
  | cons x rest ih =>
      obtain ⟨n, u⟩ := x
      have hlt : n < name := h _ (List.mem_cons_self ..)
      rw [setEntry, if_neg (ne_of_lt hlt), if_neg (lt_asymm hlt),
        ih fun y hy => h y (List.mem_cons_of_mem _ hy), List.cons_append]

theorem setEntries_append {es acc : List (String × FileTree)} (h : areValid es = true)
    (hacc : ∀ x ∈ acc, ∀ y ∈ es, x.1 < y.1) : setEntries es acc = acc ++ es := by
  induction es generalizing acc with
  | nil => simp [setEntries]
  | cons y rest ih =>
      obtain ⟨n, u⟩ := y
      obtain ⟨-, hless, -, hrest⟩ := areValid_cons h
      have hstep : setEntries ((n, u) :: rest) acc = setEntries rest (setEntry n u acc) := rfl
      rw [hstep, setEntry_of_lt u fun x hx => hacc x hx _ (List.mem_cons_self ..), ih hrest]
      · simp
      · intro x hx y hy
        rcases List.mem_append.1 hx with hx | hx
        · exact hacc x hx y (List.mem_cons_of_mem _ hy)
        · obtain rfl := List.mem_singleton.1 hx
          exact hless y hy

/-- The entries of a directory are found in their order again, in whatever order they are set. -/
theorem setEntries_of_perm {es es' : List (String × FileTree)} (h : areValid es = true)
    (hperm : es'.Perm es) : setEntries es' [] = es := by
  -- two entries commute, since their names differ or they are the same entry
  have hcomm : ∀ x ∈ es, ∀ y ∈ es, ∀ acc, setEntry y.1 y.2 (setEntry x.1 x.2 acc)
      = setEntry x.1 x.2 (setEntry y.1 y.2 acc) := by
    intro x hx y hy acc
    rcases lt_trichotomy x.1 y.1 with hlt | heq | hlt
    · exact (setEntry_comm hlt x.2 y.2 acc).symm
    · have hx' := child?_of_mem h hx
      rw [heq, child?_of_mem h hy] at hx'
      rw [heq, Option.some.inj hx']
    · exact setEntry_comm hlt y.2 x.2 acc
  have hsame : setEntries es' [] = setEntries es [] :=
    hperm.foldl_eq' (fun x hx y hy acc =>
      hcomm x (hperm.mem_iff.1 hx) y (hperm.mem_iff.1 hy) acc) []
  rw [hsame, setEntries_append h (by simp), List.nil_append]

theorem nodup_of_areValid {es : List (String × FileTree)} (h : areValid es = true) :
    (es.map Prod.fst).Nodup := by
  induction es with
  | nil => exact .nil
  | cons x rest ih =>
      obtain ⟨-, hless, -, hrest⟩ := areValid_cons h
      refine List.nodup_cons.2 ⟨fun hmem => ?_, ih hrest⟩
      obtain ⟨y, hy, heq⟩ := List.mem_map.1 hmem
      exact absurd (hless y hy) (by rw [heq]; exact lt_irrefl _)

theorem plant_append (t : FileTree) (place : List String) (done more : List CopyItem) :
    t.plant place (done ++ more) = (t.plant place done).plant place more := List.foldl_append ..

end FileTree

namespace RemoteView

open FileTree

mutual

/-- The items of what is seen of a tree make the tree. -/
theorem Shows.exists_items {v : RemoteView} {t : FileTree} (h : v.Shows t)
    (hvalid : t.isValid = true) (lead : List String) :
    ∃ done : List CopyItem, done.map some = v.items lead ∧
      ∀ (u : FileTree) (place : List String), u.plant place done = u.put (place ++ lead) t := by
  cases h with
  | file hmode =>
      unfold RemoteView.items
      rw [if_neg (by simp [hmode])]
      exact ⟨[(lead, _)], rfl, fun _ _ => rfl⟩
  | dir hmode hlisting hperm =>
      unfold isValid at hvalid
      unfold RemoteView.items
      rw [if_pos hmode]
      -- the entries are set in the order of the listing, and found in the order of their names
      obtain ⟨done, hdone, hplant⟩ := hlisting.exists_items
        (fun x hx => (isValid_of_mem hvalid (hperm.mem_iff.1 hx)).2) lead
      refine ⟨(lead, none) :: done, by rw [List.map_cons, hdone], fun u place => ?_⟩
      have hrest := hplant u place []
      rw [setEntries_of_perm hvalid hperm] at hrest
      exact hrest

theorem ListsAll.exists_items {listing : List (String × RemoteView)}
    {es : List (String × FileTree)} (h : ListsAll listing es)
    (hvalid : ∀ x ∈ es, x.2.isValid = true) (lead : List String) :
    ∃ done : List CopyItem, done.map some = listingItems lead listing ∧
      ∀ (u : FileTree) (place : List String) (acc : List (String × FileTree)),
        (u.put (place ++ lead) (.dir acc)).plant place done
          = u.put (place ++ lead) (.dir (setEntries es acc)) := by
  cases h with
  | nil =>
      unfold listingItems
      exact ⟨[], rfl, fun _ _ _ => rfl⟩
  | @cons name v t listing es hfirst hrest =>
      unfold listingItems
      obtain ⟨done, hdone, hplant⟩ := hfirst.exists_items
        (hvalid (name, t) (List.mem_cons_self ..)) (lead ++ [name])
      obtain ⟨more, hmore, hplant'⟩ := hrest.exists_items
        (fun x hx => hvalid x (List.mem_cons_of_mem _ hx)) lead
      refine ⟨done ++ more, by rw [List.map_append, hdone, hmore], fun u place acc => ?_⟩
      rw [plant_append, hplant, ← List.append_assoc, put_put_append]
      exact hplant' u place (setEntry name t acc)

end

/-! ## What fits -/

mutual

/-- What is seen of a valid tree fits just where the paths of its nodes can be used. -/
theorem Shows.fits_iff {v : RemoteView} {t : FileTree} (h : v.Shows t) (hvalid : t.isValid = true)
    {p : Path} {lead : List String} :
    v.fits (p.extend lead) = true ↔
      ∀ item ∈ t.nodeItems lead, isUsable (p.extend item.1) = true := by
  cases h with
  | @file mode content listing hmode =>
      have hitems : (FileTree.file content).nodeItems lead = [(lead, some content)] := rfl
      unfold RemoteView.fits
      rw [if_neg (by simp [hmode]), hitems]
      simp
  | @dir mode content listing es es' hmode hlisting hperm =>
      unfold isValid at hvalid
      have hitems : (FileTree.dir es).nodeItems lead = (lead, none) :: entryItems lead es := rfl
      have hentries : ∀ x ∈ es', isLocalName x.1 = true ∧ x.2.isValid = true :=
        fun x hx => isValid_of_mem hvalid (hperm.mem_iff.1 hx)
      unfold RemoteView.fits
      rw [if_pos hmode, Bool.and_eq_true, hlisting.fits_iff hentries, hitems,
        List.forall_mem_cons]
      refine and_congr_right fun _ => forall_congr' fun item => ?_
      rw [mem_entryItems_iff, mem_entryItems_iff]
      simp only [hperm.mem_iff]

theorem ListsAll.fits_iff {listing : List (String × RemoteView)} {es : List (String × FileTree)}
    (h : ListsAll listing es) (hes : ∀ x ∈ es, isLocalName x.1 = true ∧ x.2.isValid = true)
    {p : Path} {lead : List String} :
    listingFits (p.extend lead) listing = true ↔
      ∀ item ∈ entryItems lead es, isUsable (p.extend item.1) = true := by
  cases h with
  | nil =>
      unfold listingFits entryItems
      simp
  | @cons name v t listing es hfirst hrest =>
      obtain ⟨hname, hvalid⟩ := hes (name, t) (List.mem_cons_self ..)
      have hothers : ∀ x ∈ es, isLocalName x.1 = true ∧ x.2.isValid = true :=
        fun x hx => hes x (List.mem_cons_of_mem _ hx)
      unfold listingFits
      rw [entryItems_cons, hname, Bool.true_and, Bool.and_eq_true, Path.extend_extend,
        hfirst.fits_iff hvalid, hrest.fits_iff hothers, List.forall_mem_append]

end

/-! ## Names that are seen -/

theorem seenEntries_map_fst (es : List (String × FileTree)) :
    (seenEntries es).map Prod.fst = es.map Prod.fst := by
  induction es with
  | nil =>
      unfold seenEntries
      rfl
  | cons x rest ih =>
      obtain ⟨name, t⟩ := x
      unfold seenEntries
      rw [List.map_cons, List.map_cons, ih]

mutual

/-- Of a valid tree each name is seen once in its directory. -/
theorem nodup_seen : ∀ t : FileTree, t.isValid = true → t.seen.EachListing List.Nodup
  | .file content, _ => by
    unfold FileTree.seen EachListing
    intro hdir
    exact absurd (hdir.symm.trans isDir_fileMode) (by decide)
  | .dir es, hvalid => by
    unfold isValid at hvalid
    unfold FileTree.seen EachListing
    intro _
    refine ⟨?_, nodup_seenEntries es hvalid⟩
    rw [seenEntries_map_fst]
    exact nodup_of_areValid hvalid

theorem nodup_seenEntries : ∀ es : List (String × FileTree), areValid es = true →
    EachBelow List.Nodup (seenEntries es)
  | [], _ => by
    unfold seenEntries EachBelow
    trivial
  | (name, t) :: rest, hvalid => by
    obtain ⟨hname, hless, ht, hrest⟩ := areValid_cons hvalid
    unfold seenEntries EachBelow
    exact ⟨nodup_seen t ht, nodup_seenEntries rest hrest⟩

end

end RemoteView
end Runbook
