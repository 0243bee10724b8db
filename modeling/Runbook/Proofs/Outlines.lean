import Mathlib.Data.List.Forall2
import Runbook.Proofs.Children

set_option autoImplicit false

/-! # What becomes of a document

While tags are replaced, the rest of a document keeps its outline: lists their lengths, mappings their
keys in order, and whatever has no tag in it everything. A node may become whatever has something of
that outline at each of its addresses. -/

namespace Runbook

/-- The ids with the trees of their values. -/
def Idents.trees (ids : Idents) : Idents := ids.map fun (id, v) => (id, v.unshared)

namespace Node

variable {n k v : Node} {ks ks' ks₁ ks₂ : List Node} {b : Bool} {name : String} {payload : Node}
  {a : List Nat} {i : Nat}

/-! ## Addresses -/

/-- The node at an address, which says what child to take at each level. What is below a tag has no
    address. -/
def at? : List Nat → Node → Option Node
  | [], n => some n
  | _ :: _, tagged _ _ => none
  | i :: a, n => (n.children true)[i]?.bind (at? a)

@[simp] theorem at?_nil (n : Node) : n.at? [] = some n := by
  rw [at?]

theorem at?_cons (hn : ∀ name payload, n ≠ tagged name payload) (i : Nat) (a : List Nat) :
    n.at? (i :: a) = (n.children true)[i]?.bind (at? a) := by
  rw [at?]
  exact fun name payload => hn name payload

@[simp] theorem at?_cons_tagged : (tagged name payload).at? (i :: a) = none := by
  rw [at?]

theorem mapChildren_ne_tagged {f : Node → Node} (hn : ∀ name payload, n ≠ tagged name payload) :
    ∀ name payload, n.mapChildren f ≠ tagged name payload := by
  intro name payload h
  cases n <;> cases h
  exact hn _ _ rfl

/-- The node at an address in a tree is the tree of the node there. -/
theorem at?_unshared (n : Node) (a : List Nat) : n.unshared.at? a = (n.at? a).map unshared := by
  induction a generalizing n with
  | nil => simp
  | cons i a ih =>
    by_cases hn : ∃ name payload, n = tagged name payload
    · obtain ⟨name, payload, rfl⟩ := hn
      simp [unshared]
    · have hn' : ∀ name payload, n ≠ tagged name payload := fun name payload h => hn ⟨_, _, h⟩
      rw [unshared_eq, at?_cons hn', at?_cons (mapChildren_ne_tagged hn'), children_mapChildren,
        List.getElem?_map]
      cases (n.children true)[i]? with
      | none => rfl
      | some k => exact ih k

/-! ## Trees -/

theorem unshared_mapChildren (f : Node → Node) (n : Node) :
    (n.mapChildren f).unshared = n.mapChildren fun k => (f k).unshared := by
  rw [unshared_eq]
  cases n <;> simp [mapChildren]

@[simp] theorem unshared_unshared (n : Node) : n.unshared.unshared = n.unshared := by
  induction n using inductionOnChildren true with
  | h n ih =>
    rw [unshared_eq n, unshared_mapChildren]
    exact mapChildren_congr ih

/-- What is seen of a node is a tree. -/
theorem unshared_asItStands (c : Contents) (n : Node) :
    (asItStands c n).unshared = asItStands c n := by
  cases hat : c.at? n.place? with
  | some m =>
    obtain ⟨p, hplace, hp⟩ := Option.bind_eq_some_iff.1 hat
    have := Contents.length_without_lt hp
    rw [asItStands_of_get? hplace hp, unshared_asItStands (c.without p) m]
  | none =>
    rw [asItStands_of_at? hat, unshared_mapChildren]
    refine mapChildren_congr fun k hk => ?_
    have := sizeOf_child hk
    exact unshared_asItStands c k
termination_by (c.length, sizeOf n)
decreasing_by
  · exact .right _ this
  · exact .left _ _ this

/-! ## Nodes without tags -/

/-- Nothing in a node is tagged. What is below pairs counts only if it is asked for, as it does for a node
    to be `TagFree`. -/
def Untagged (b : Bool) (n : Node) : Prop := ∀ name payload, tagged name payload ∉ n.parts b

theorem untagged_iff : n.Untagged b ↔
    (∀ name payload, n ≠ tagged name payload) ∧ ∀ c ∈ n.children b, c.Untagged b := by
  refine ⟨fun h => ⟨fun name payload hn => ?_, fun c hc name payload hmem => ?_⟩,
    fun h name payload hmem => ?_⟩
  · exact h name payload (hn ▸ self_mem_parts b n)
  · exact h name payload (mem_parts_of_child hc hmem)
  · rcases mem_parts.1 hmem with hn | ⟨c, hc, hmem⟩
    · exact h.1 name payload hn.symm
    · exact h.2 c hc name payload hmem

theorem not_untagged_tagged : ¬(tagged name payload).Untagged b :=
  fun h => h name payload (self_mem_parts b _)

/-- What is below a pair does not count here. -/
theorem untagged_pair_false {key value : Node} : (pair key value).Untagged false :=
  untagged_iff.2 ⟨nofun, nofun⟩

theorem Untagged.child (h : n.Untagged b) (hk : k ∈ n.children b) : k.Untagged b :=
  (untagged_iff.1 h).2 k hk

theorem untagged_text (t : String) : (text t).Untagged b :=
  untagged_iff.2 ⟨fun _ _ h => (nomatch h), fun _ h => (nomatch h)⟩

theorem untagged_refill (hn : n.IsContainer) (hlength : ks.length = (n.children true).length)
    (h : ∀ k ∈ ks, k.Untagged b) : (n.refill ks).Untagged b := by
  refine untagged_iff.2 ⟨(hn.refill ks).ne_tagged, fun c hc => ?_⟩
  rw [children_refill hn hlength] at hc
  exact h c hc

theorem untagged_mapChildren {f : Node → Node} (hn : n.Untagged b)
    (h : ∀ c ∈ n.children b, (f c).Untagged b) : (n.mapChildren f).Untagged b := by
  refine untagged_iff.2 ⟨mapChildren_ne_tagged (untagged_iff.1 hn).1, fun c hc => ?_⟩
  rw [children_mapChildren, List.mem_map] at hc
  obtain ⟨c, hc, rfl⟩ := hc
  exact h c hc

/-- A tree has the tags of the node that it is of. -/
theorem untagged_unshared : n.unshared.Untagged b ↔ n.Untagged b := by
  induction n using inductionOnChildren b with
  | h n ih =>
    have htagged : (∀ name payload, n.unshared ≠ tagged name payload) ↔
        ∀ name payload, n ≠ tagged name payload := by
      cases n <;> simp [unshared]
    rw [untagged_iff, untagged_iff, htagged, unshared_eq, children_mapChildren]
    refine and_congr_right fun _ => ?_
    simp only [List.mem_map, forall_exists_index, and_imp, forall_apply_eq_imp_iff₂]
    exact forall₂_congr fun c hc => ih c hc

theorem Untagged.of_unshared_eq (h : k.Untagged b) (htree : n.unshared = k.unshared) :
    n.Untagged b :=
  untagged_unshared.1 (htree ▸ untagged_unshared.2 h)

/-! ## Outlines -/

/-- What a node keeps while tags below it are replaced: a list its length, a mapping its keys in their
    order, and a node without tags everything. -/
structure KeepsOutline (k k' : Node) : Prop where
  length : ∀ place items, k = list place items →
    ∃ place' items', k' = list place' items' ∧ items'.length = items.length
  keys : ∀ place entries, k = map place entries →
    ∃ place' entries', k' = map place' entries' ∧ entries'.map (·.1) = entries.map (·.1)
  whole : k.TagFree → k'.unshared = k.unshared

/-- What may become of a node while tags are replaced: at each address, something of the outline of
    what is there. -/
def Becomes (n v : Node) : Prop :=
  ∀ a k, n.at? a = some k → ∃ k', v.at? a = some k' ∧ k.KeepsOutline k'

theorem KeepsOutline.trans (h : n.KeepsOutline k) (h' : k.KeepsOutline v) : n.KeepsOutline v := by
  refine ⟨fun place items hn => ?_, fun place entries hn => ?_, fun htags => ?_⟩
  · obtain ⟨place₁, items₁, hk, hlength⟩ := h.length place items hn
    obtain ⟨place₂, items₂, hv, hlength'⟩ := h'.length place₁ items₁ hk
    exact ⟨place₂, items₂, hv, hlength'.trans hlength⟩
  · obtain ⟨place₁, entries₁, hk, hkeys⟩ := h.keys place entries hn
    obtain ⟨place₂, entries₂, hv, hkeys'⟩ := h'.keys place₁ entries₁ hk
    exact ⟨place₂, entries₂, hv, hkeys'.trans hkeys⟩
  · have hk : k.TagFree := Untagged.of_unshared_eq (b := true) htags (h.whole htags)
    exact (h'.whole hk).trans (h.whole htags)

theorem KeepsOutline.of_unshared_eq (h : v.unshared = n.unshared) : n.KeepsOutline v := by
  refine ⟨?_, ?_, fun _ => h⟩
  · rintro place items rfl
    cases v <;> simp [unshared, unsharedItems_eq] at h
    exact ⟨_, _, rfl, by simpa using congrArg List.length h⟩
  · rintro place entries rfl
    cases v <;> simp [unshared, unsharedEntries_eq] at h
    exact ⟨_, _, rfl, by simpa [Function.comp_def] using congrArg (List.map (·.1)) h⟩

namespace Becomes

/-- Nodes of one tree become each other. -/
theorem of_unshared_eq (h : v.unshared = n.unshared) : n.Becomes v := by
  intro a k hk
  have hat : (v.at? a).map unshared = some k.unshared := by
    rw [← at?_unshared, h, at?_unshared, hk, Option.map_some]
  obtain ⟨k', hk', htree⟩ := Option.map_eq_some_iff.1 hat
  exact ⟨k', hk', .of_unshared_eq htree⟩

theorem refl (n : Node) : n.Becomes n := .of_unshared_eq rfl

theorem trans (h : n.Becomes k) (h' : k.Becomes v) : n.Becomes v := by
  intro a m hm
  obtain ⟨m₁, hm₁, hkeeps⟩ := h a m hm
  obtain ⟨m₂, hm₂, hkeeps'⟩ := h' a m₁ hm₁
  exact ⟨m₂, hm₂, hkeeps.trans hkeeps'⟩

/-- Anything may become of a tag. -/
theorem tagged (name : String) (payload v : Node) : (Node.tagged name payload).Becomes v := by
  rintro (_ | ⟨i, a⟩) k hk
  · cases hk
    exact ⟨v, at?_nil v, ⟨nofun, nofun, fun htags => absurd htags not_untagged_tagged⟩⟩
  · simp at hk

theorem keepsOutline (h : n.Becomes v) : n.KeepsOutline v := by
  obtain ⟨v', hv, hkeeps⟩ := h [] n (at?_nil n)
  obtain rfl := Option.some.inj ((at?_nil v).symm.trans hv)
  exact hkeeps

/-- Nothing becomes of a node without tags. -/
theorem unshared_eq (h : n.Becomes v) (htags : n.TagFree) : v.unshared = n.unshared :=
  h.keepsOutline.whole htags

theorem map_unshared (h : List.Forall₂ Becomes ks ks') (htags : ∀ k ∈ ks, k.TagFree) :
    ks'.map unshared = ks.map unshared := by
  induction h with
  | nil => rfl
  | cons hk _ ih =>
    rw [List.forall_mem_cons] at htags
    rw [List.map_cons, List.map_cons, hk.unshared_eq htags.1, ih htags.2]

/-- What has become of one of some nodes may become something further. -/
theorem replace (h : List.Forall₂ Becomes ks (ks₁ ++ k :: ks₂)) (hv : k.Becomes v) :
    List.Forall₂ Becomes ks (ks₁ ++ v :: ks₂) := by
  induction ks₁ generalizing ks with
  | nil =>
    cases h with
    | cons hk hrest => exact .cons (hk.trans hv) hrest
  | cons k₁ ks₁ ih =>
    cases h with
    | cons hk hrest => exact .cons hk (ih hrest)

/-- A node becomes what its children become, if it keeps its own outline. -/
theorem of_children (hn : ∀ name payload, n ≠ .tagged name payload)
    (hv : ∀ name payload, v ≠ .tagged name payload) (hkeeps : n.KeepsOutline v)
    (h : List.Forall₂ Becomes (n.children true) (v.children true)) : n.Becomes v := by
  rintro (_ | ⟨i, a⟩) k hk
  · cases hk
    exact ⟨v, at?_nil v, hkeeps⟩
  · rw [at?_cons hn, Option.bind_eq_some_iff] at hk
    obtain ⟨c, hc, hk⟩ := hk
    obtain ⟨hi, rfl⟩ := List.getElem?_eq_some_iff.1 hc
    have hi' := h.length_eq ▸ hi
    obtain ⟨k', hk', hkeeps'⟩ := h.get hi hi' a k hk
    refine ⟨k', ?_, hkeeps'⟩
    rw [at?_cons hv, List.getElem?_eq_getElem hi', Option.bind_some]
    exact hk'

/-- A container may be filled with what its children may become. -/
theorem refill (hn : n.IsContainer) (h : List.Forall₂ Becomes (n.children true) ks) :
    n.Becomes (n.refill ks) := by
  have hlength := h.length_eq.symm
  refine of_children hn.ne_tagged (hn.refill ks).ne_tagged ⟨?_, ?_, fun htags => ?_⟩ ?_
  · rintro place items rfl
    exact ⟨_, _, rfl, hlength⟩
  · rintro place entries rfl
    refine ⟨_, _, rfl, List.map_fst_zip (Nat.le_of_eq ?_)⟩
    simpa [children] using hlength.symm
  · rw [unshared_refill hn, map_unshared h fun k hk => htags.child hk, refill_map_children hn,
      ← Node.unshared_eq]
  · rw [children_refill hn hlength]
    exact h

/-- A node becomes what its children become, one by one. -/
theorem mapChildren {f : Node → Node} (h : ∀ k ∈ n.children true, k.Becomes (f k)) :
    n.Becomes (n.mapChildren f) := by
  by_cases hn : ∃ name payload, n = .tagged name payload
  · obtain ⟨name, payload, rfl⟩ := hn
    exact .tagged name payload _
  · have hn' : ∀ name payload, n ≠ .tagged name payload := fun name payload h => hn ⟨_, _, h⟩
    refine of_children hn' (mapChildren_ne_tagged hn') ⟨?_, ?_, fun htags => ?_⟩ ?_
    · rintro place items rfl
      exact ⟨_, _, rfl, List.length_map f⟩
    · rintro place entries rfl
      exact ⟨_, _, rfl, by simp⟩
    · rw [unshared_mapChildren, Node.unshared_eq]
      exact mapChildren_congr fun k hk => (h k hk).unshared_eq (htags.child hk)
    · rw [children_mapChildren, List.forall₂_map_right_iff, List.forall₂_same]
      exact h

end Becomes

end Node

namespace Idents

variable {ids : Idents} {id : String} {v : Node} {f : Node → Node} {b : Bool}

theorem get?_trees : ids.trees.get? id = (ids.get? id).map Node.unshared := get?_map _

/-- Whatever sees the values as trees sees the trees. -/
theorem map_eq_trees (h : ∀ v ∈ ids.map (·.2), f v = v.unshared) :
    ids.map (fun (id, v) => (id, f v)) = ids.trees := by
  refine List.map_congr_left fun (id, v) hmem => ?_
  exact congrArg (id, ·) (h v (List.mem_map_of_mem hmem))

theorem untagged_trees : (∀ v ∈ ids.trees.map (·.2), v.Untagged b) ↔
    ∀ v ∈ ids.map (·.2), v.Untagged b := by
  have hvalues : ids.trees.map (·.2) = (ids.map (·.2)).map Node.unshared := by simp [trees]
  rw [hvalues, List.forall_mem_map]
  exact forall₂_congr fun v _ => Node.untagged_unshared

end Idents
end Runbook
