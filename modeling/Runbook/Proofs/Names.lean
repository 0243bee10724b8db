import Runbook.Proofs.Listings
import Runbook.Proofs.LocalCalls

set_option autoImplicit false

/-! # The names in a world

The files of a world, local ones and those of the peer, have names of a kind, and so do the paths of a
transfer. Then a transfer comes across such names only, and what it makes has no others: a name is that
of an entry, or a part of a path. The kind is any property of names; what a name holds is put together
from the pieces between its slashes, so a text with slashes is of a kind if all its pieces are. -/

namespace Runbook

variable {N : String → Prop}

/-! ## Texts -/

namespace Text

theorem splitAtChar_append_cons (sep : Char) (before rest : List Char) :
    splitAtChar sep (before ++ sep :: rest) = splitAtChar sep before ++ splitAtChar sep rest := by
  induction before with
  | nil => simp [splitAtChar]
  | cons c before ih =>
    rw [List.cons_append, splitAtChar, splitAtChar, ih]
    split
    · rfl
    · cases hfirst : splitAtChar sep before with
      | nil => exact absurd hfirst (splitAtChar_ne_nil sep before)
      | cons first words => rfl

/-- Whether all names between the slashes of a text are of a kind. -/
def OnlyNames (N : String → Prop) (s : String) : Prop := ∀ part ∈ Path.partsOf s.toList, N part

end Text

namespace Path

variable {q root : Path} {s name : String}

theorem partsOf_append_slash (cs ds : List Char) :
    partsOf (cs ++ '/' :: ds) = partsOf cs ++ partsOf ds := by
  simp only [partsOf, Text.splitAtChar_append_cons, List.map_append, List.filter_append]

/-- One component has no parts but itself. -/
theorem eq_of_mem_partsOf {part : String} (hname : IsComponent name)
    (h : part ∈ partsOf name.toList) : part = name := by
  obtain ⟨hmem, -⟩ := List.mem_filter.1 h
  rw [Text.splitAtChar_of_not_mem hname.2, List.map_singleton, List.mem_singleton] at hmem
  rw [hmem, String.ofList_toList]

/-- Whether all names in a path are of a kind. -/
def OnlyNames (N : String → Prop) (q : Path) : Prop := ∀ part ∈ q.parts, Text.OnlyNames N part

theorem onlyNames_ofText (h : Text.OnlyNames N s) : (ofText s).OnlyNames N := by
  intro part hpart piece hpiece
  rw [eq_of_mem_partsOf (isComponent_of_mem_parts hpart) hpiece]
  exact h part hpart

theorem OnlyNames.parent (h : q.OnlyNames N) : q.parent.OnlyNames N :=
  fun part hpart => h part (List.dropLast_subset _ hpart)

theorem onlyNames_name (h : q.OnlyNames N) : Text.OnlyNames N q.name := by
  rw [Path.name]
  cases hlast : q.parts.getLast? with
  | none =>
    intro part hpart
    simp [partsOf, Text.splitAtChar] at hpart
  | some part => exact h part (List.mem_of_getLast? hlast)

theorem OnlyNames.below (h : q.OnlyNames N) (hname : Text.OnlyNames N name) :
    (q.below name).OnlyNames N := by
  have hnames : (ofText name).OnlyNames N := onlyNames_ofText hname
  unfold Path.below
  dsimp only
  split
  · intro part hpart
    exact (List.mem_append.1 hpart).elim (h part) (hnames part)
  · exact hnames

theorem onlyNames_intercalate {parts : List String} (h : ∀ part ∈ parts, Text.OnlyNames N part) :
    Text.OnlyNames N ("/".intercalate parts) := by
  induction parts with
  | nil =>
    intro part hpart
    simp [partsOf, Text.splitAtChar] at hpart
  | cons first rest ih =>
    have hfirst := h first List.mem_cons_self
    have hrest := ih fun part hpart => h part (List.mem_cons_of_mem _ hpart)
    cases rest with
    | nil => rwa [String.intercalate_singleton]
    | cons second rest =>
      intro part hpart
      rw [String.intercalate_cons_cons, String.append_assoc, String.toList_append,
        String.toList_append] at hpart
      change part ∈ partsOf (first.toList ++ '/' :: _) at hpart
      rw [partsOf_append_slash] at hpart
      exact (List.mem_append.1 hpart).elim (hfirst part) (hrest part)

/-- The slashes that a path starts with hold no name. -/
theorem partsOf_rootText (r : PathRoot) (s : String) :
    partsOf (rootText r ++ s).toList = partsOf s.toList := by
  rw [String.toList_append]
  cases r with
  | working => rfl
  | single => exact partsOf_append_slash [] s.toList
  | double =>
    exact (partsOf_append_slash ['/'] s.toList).trans (by simp [partsOf, Text.splitAtChar])

theorem OnlyNames.toText (h : q.OnlyNames N) : Text.OnlyNames N q.toText := by
  intro part hpart
  unfold Path.toText at hpart
  dsimp only at hpart
  split at hpart
  · simp [partsOf, Text.splitAtChar] at hpart
  · rw [partsOf_rootText] at hpart
    exact onlyNames_intercalate h part hpart

/-- Whether a path is one, or leads on from it, by names of a kind. -/
def LeadsOn (N : String → Prop) (root q : Path) : Prop :=
  ∃ names : List String, (∀ name ∈ names, Text.OnlyNames N name) ∧ q = names.foldl Path.below root

theorem leadsOn_refl (q : Path) : LeadsOn N q q := ⟨[], by simp, rfl⟩

theorem LeadsOn.below (h : LeadsOn N root q) (hname : Text.OnlyNames N name) :
    LeadsOn N root (q.below name) := by
  obtain ⟨names, hnames, rfl⟩ := h
  refine ⟨names ++ [name], fun other hother => ?_, by rw [List.foldl_append]; rfl⟩
  rcases List.mem_append.1 hother with hother | hother
  · exact hnames other hother
  · rwa [List.mem_singleton.1 hother]

theorem LeadsOn.onlyNames (h : LeadsOn N root q) (hroot : root.OnlyNames N) : q.OnlyNames N := by
  obtain ⟨names, hnames, rfl⟩ := h
  induction names generalizing root with
  | nil => exact hroot
  | cons name names ih =>
    exact ih (hroot.below (hnames name List.mem_cons_self))
      fun other hother => hnames other (List.mem_cons_of_mem _ hother)

end Path

/-! ## Local files -/

namespace FileTree

variable {t u : FileTree} {es : List (String × FileTree)} {name : String} {names : List String}
  {workingDir : List String} {q : Path}

mutual

/-- Whether the names of all entries of a tree are of a kind. -/
def OnlyNames (N : String → Prop) : FileTree → Prop
  | file _ => True
  | dir es => EntriesOnly N es

/-- Whether the names of some entries, and all names below them, are of a kind. -/
def EntriesOnly (N : String → Prop) : List (String × FileTree) → Prop
  | [] => True
  | (name, t) :: rest => Text.OnlyNames N name ∧ t.OnlyNames N ∧ EntriesOnly N rest

end

theorem OnlyNames.entries (h : t.OnlyNames N) : EntriesOnly N t.entries := by
  cases t with
  | file content => trivial
  | dir es => rwa [OnlyNames] at h

theorem EntriesOnly.child? (h : EntriesOnly N es) (hchild : FileTree.child? name es = some t) :
    Text.OnlyNames N name ∧ t.OnlyNames N := by
  induction es with
  | nil => cases hchild
  | cons entry rest ih =>
    obtain ⟨n, u⟩ := entry
    obtain ⟨hn, hu, hrest⟩ := h
    rw [FileTree.child?] at hchild
    split at hchild
    · next heq =>
      obtain rfl := Option.some.inj hchild
      exact ⟨heq ▸ hn, hu⟩
    · exact ih hrest hchild

theorem EntriesOnly.setEntry (h : EntriesOnly N es) (hname : Text.OnlyNames N name)
    (ht : t.OnlyNames N) : EntriesOnly N (FileTree.setEntry name t es) := by
  induction es with
  | nil => exact ⟨hname, ht, trivial⟩
  | cons entry rest ih =>
    obtain ⟨n, u⟩ := entry
    obtain ⟨hn, hu, hrest⟩ := h
    rw [FileTree.setEntry]
    split
    · exact ⟨hn, ht, hrest⟩
    · split
      · exact ⟨hname, ht, hn, hu, hrest⟩
      · exact ⟨hn, hu, ih hrest⟩

/-- The names that lead to a node of the tree are of its kind. -/
theorem OnlyNames.get? (h : t.OnlyNames N) (hget : t.get? names = some u) :
    (∀ name ∈ names, Text.OnlyNames N name) ∧ u.OnlyNames N := by
  induction names generalizing t with
  | nil =>
    obtain rfl := Option.some.inj hget
    exact ⟨by simp, h⟩
  | cons name names ih =>
    obtain ⟨v, hchild, hrest⟩ := Option.bind_eq_some_iff.1 hget
    obtain ⟨hname, hv⟩ := h.entries.child? hchild
    obtain ⟨hnames, hu⟩ := ih hv hrest
    exact ⟨List.forall_mem_cons.2 ⟨hname, hnames⟩, hu⟩

theorem OnlyNames.put (h : t.OnlyNames N) (hnames : ∀ name ∈ names, Text.OnlyNames N name)
    (hu : u.OnlyNames N) : (t.put names u).OnlyNames N := by
  induction names generalizing t with
  | nil => exact hu
  | cons name names ih =>
    obtain ⟨hname, hrest⟩ := List.forall_mem_cons.1 hnames
    have hchild : ((FileTree.child? name t.entries).getD empty).OnlyNames N := by
      cases hc : FileTree.child? name t.entries with
      | none => trivial
      | some v => exact (h.entries.child? hc).2
    rw [FileTree.put, OnlyNames]
    exact h.entries.setEntry hname (ih hchild hrest)

mutual

theorem OnlyNames.sorted : ∀ t : FileTree, t.OnlyNames N → t.sorted.OnlyNames N
  | .file _, _ => trivial
  | .dir es, h => by
    rw [FileTree.sorted, OnlyNames]
    exact EntriesOnly.sortedEntries es h

theorem EntriesOnly.sortedEntries : ∀ es : List (String × FileTree), EntriesOnly N es →
    EntriesOnly N (FileTree.sortedEntries es)
  | [], _ => trivial
  | (_, t) :: rest, ⟨hname, ht, hrest⟩ => by
    rw [FileTree.sortedEntries]
    exact (EntriesOnly.sortedEntries rest hrest).setEntry hname (OnlyNames.sorted t ht)

end

theorem OnlyNames.list (h : t.OnlyNames N) (hlist : t.list workingDir q = .ok es) :
    EntriesOnly N es := by
  unfold FileTree.list at hlist
  split at hlist
  · cases hlist
  · cases hlist
  · cases hlist
  · next es' hdir =>
    obtain ⟨place, -, hget⟩ := locate_of_at hdir
    obtain rfl := Except.ok.inj hlist
    exact (OnlyNames.sorted _ (h.get? hget).2).entries

/-- Where a path leads to nothing, a new entry has names that are there already, and the last name of
    the path. -/
theorem OnlyNames.of_absent (h : t.OnlyNames N) (hq : q.OnlyNames N)
    (habsent : t.locate workingDir q = .ok (.absent names)) :
    ∀ name ∈ names, Text.OnlyNames N name := by
  obtain ⟨dir, place, name, rfl, rfl, hdir⟩ := reaches_of_locate habsent
  obtain ⟨es, hes⟩ := hdir.isDir
  intro other hother
  rcases List.mem_append.1 hother with hother | hother
  · exact (h.get? hes).1 other hother
  · rw [List.mem_singleton.1 hother]
    exact hq name (List.mem_append_right _ (List.mem_singleton_self name))

theorem OnlyNames.write {content : Bytes} (h : t.OnlyNames N) (hq : q.OnlyNames N)
    (hwrite : t.write workingDir q content = .ok u) : u.OnlyNames N := by
  unfold FileTree.write at hwrite
  split at hwrite
  · cases hwrite
  · next names habsent =>
    obtain rfl := Except.ok.inj hwrite
    exact h.put (h.of_absent hq habsent) trivial
  · next names _ =>
    split at hwrite
    · next old hget =>
      obtain rfl := Except.ok.inj hwrite
      exact h.put (h.get? hget).1 trivial
    · cases hwrite

theorem OnlyNames.makeDir (h : t.OnlyNames N) (hq : q.OnlyNames N)
    (hmake : t.makeDir workingDir q = .ok u) : u.OnlyNames N := by
  unfold FileTree.makeDir at hmake
  split at hmake
  · cases hmake
  · next names habsent =>
    obtain rfl := Except.ok.inj hmake
    exact h.put (h.of_absent hq habsent) trivial
  · cases hmake

end FileTree

/-! ## The peer -/

namespace Peer

variable {peer : Peer} {path : String} {entry : PeerEntry}

/-- Whether all names in the paths of a peer are of a kind. -/
def OnlyNames (N : String → Prop) (peer : Peer) : Prop := ∀ x ∈ peer, Text.OnlyNames N x.1

theorem OnlyNames.put (h : peer.OnlyNames N) (hpath : Text.OnlyNames N path) :
    (peer.put path entry).OnlyNames N := by
  induction peer with
  | nil =>
    intro x hx
    rwa [List.mem_singleton.1 hx]
  | cons first rest ih =>
    obtain ⟨p, old⟩ := first
    obtain ⟨hp, hrest⟩ := List.forall_mem_cons.1 h
    rw [Peer.put]
    split
    · exact List.forall_mem_cons.2 ⟨hp, hrest⟩
    · exact List.forall_mem_cons.2 ⟨hp, ih hrest⟩

/-- A name that is listed is a piece of a path. -/
theorem OnlyNames.list (h : peer.OnlyNames N) (path : String) :
    ∀ name ∈ (peer.list path).map Prod.fst, Text.OnlyNames N name := by
  intro name hname
  rw [list_map_fst] at hname
  obtain ⟨child, hmem, hchild⟩ := List.mem_filterMap.1 hname
  obtain ⟨x, hx, rfl⟩ := List.mem_map.1 hmem
  intro part hpart
  refine h x hx part ?_
  rw [(nameIn?_eq_some_iff.1 hchild).2, lead, List.append_assoc]
  change part ∈ Path.partsOf (_ ++ '/' :: name.toList)
  rw [Path.partsOf_append_slash]
  exact List.mem_append_right _ hpart

/-- What a session shows at a path of the peer lists names of the peer's kind only. -/
theorem OnlyNames.shown (h : peer.OnlyNames N) (order : ListingOrder) {q : Path} {v : RemoteView}
    (hv : peer.view? q = some v) :
    (v.inOrder order q).EachListing fun names => ∀ name ∈ names, Text.OnlyNames N name := by
  obtain ⟨entry, -, rfl⟩ := Option.map_eq_some_iff.1 hv
  refine RemoteView.eachListing_inOrder (fun hnames hperm name hname => ?_) order _ q ?_
  · exact hnames name (hperm.mem_iff.2 hname)
  · exact eachListing_viewTo (by simp) h.list _ _ _

end Peer

/-- Whether all names of the files of a world, local ones and those of the peer, are of a kind. -/
structure World.OnlyNames (N : String → Prop) (w : World) : Prop where
  files : w.files.OnlyNames N
  peer : w.peer.OnlyNames N

end Runbook
