import Mathlib.Data.List.Nodup
import Mathlib.Data.List.Pairwise
import Runbook.Proofs.Outlines
import Runbook.Proofs.Shielding

set_option autoImplicit false

/-! # Documents without sharing

A document shares nothing if each of its containers has a place of its own, which the values of the ids
that are known do not have either. Then no container is met again and none is seen while it is worked
through: the interpretation is the one of the tree that the document is, with the same failures. -/

namespace Runbook

open Interpretation

variable {e : Setting} {s s' s₁ : World × TagMemory} {m m' m'' : TagMemory} {n k v x : Node}
  {ks done : List Node} {O P T : List Nat} {p : Nat} {place : Option Nat} {ids : Idents}

/-! ## Places that are worked through -/

namespace Node

/-- The places of the containers of a node that are worked through, which those below pairs are not. -/
def workPlaces (n : Node) : List Nat := (n.parts false).filterMap place?

theorem workPlaces_eq (n : Node) :
    n.workPlaces = n.place?.toList ++ (n.children false).flatMap workPlaces := by
  have hflat : ((n.children false).flatMap (parts false)).filterMap place?
      = (n.children false).flatMap workPlaces := List.filterMap_flatMap
  rw [workPlaces, parts_eq, List.filterMap_cons, hflat]
  cases n.place? <;> rfl

/-- A place is worked through or below a pair. -/
theorem mem_places_cases (hp : p ∈ n.places) : p ∈ n.workPlaces ∨
    ∃ key value, pair key value ∈ n.parts false ∧ p ∈ (pair key value).places := by
  induction n using inductionOnChildren true with
  | h n ih =>
    by_cases hn : ∃ key value, n = pair key value
    · obtain ⟨key, value, rfl⟩ := hn
      exact .inr ⟨key, value, self_mem_parts _ _, hp⟩
    · have hchildren : n.children true = n.children false := by
        cases n with
        | pair key value => exact absurd ⟨key, value, rfl⟩ hn
        | _ => rfl
      rw [places_eq, List.mem_append, List.mem_flatMap] at hp
      rw [workPlaces_eq, List.mem_append, List.mem_flatMap]
      rcases hp with hp | ⟨k, hk, hp⟩
      · exact .inl (.inl hp)
      · rcases ih k hk hp with hp | ⟨key, value, hpair, hp⟩
        · exact .inl (.inr ⟨k, hchildren ▸ hk, hp⟩)
        · exact .inr ⟨key, value, mem_parts_of_child (hchildren ▸ hk) hpair, hp⟩

/-- Of a node nothing else can be seen than its tree if its containers have not been met. -/
theorem asItStands_of_unmet {c : Contents} (h : ∀ p ∈ n.places, c.get? p = none) :
    asItStands c n = n.unshared := by
  induction n using inductionOnChildren true with
  | h n ih =>
    rw [places_eq] at h
    have hat : c.at? n.place? = none := by
      rw [Contents.at?, Option.bind_eq_none_iff]
      exact fun p hp => h p (List.mem_append_left _ (Option.mem_toList.2 hp))
    rw [asItStands_of_at? hat, unshared_eq]
    refine mapChildren_congr fun k hk => ih k hk fun p hp => ?_
    exact h p (List.mem_append_right _ (List.mem_flatMap.2 ⟨k, hk, hp⟩))

/-- A node has no place that is worked through. -/
def Quiet (O : List Nat) (n : Node) : Prop := ∀ p ∈ n.places, p ∉ O

theorem quiet_of_children (hplace : n.place? = none) (h : ∀ k ∈ n.children true, k.Quiet O) :
    n.Quiet O := by
  intro p hp
  rw [places_eq, hplace, Option.toList_none, List.nil_append, List.mem_flatMap] at hp
  obtain ⟨k, hk, hp⟩ := hp
  exact h k hk p hp

theorem quiet_unshared (n : Node) : n.unshared.Quiet O := by
  intro p hp
  obtain ⟨k, hk, hp⟩ := List.mem_filterMap.1 hp
  rw [place?_of_mem_unshared hk] at hp
  cases hp

theorem quiet_refill (hn : n.IsContainer) (h : ∀ k ∈ ks, k.Quiet O) : (n.refill ks).Quiet O := by
  refine quiet_of_children (place?_refill hn ks) fun k hk => h k ?_
  cases hn with
  | list => exact hk
  | map =>
    obtain ⟨⟨key, value⟩, hmem, rfl⟩ := List.mem_map.1 hk
    exact (List.of_mem_zip hmem).2

end Node

open Node

/-! ## What is remembered of a document without sharing -/

namespace TagMemory

/-- What is remembered is of places that are worked through, and the values of ids have none of
    them. -/
structure Clear (O : List Nat) (m : TagMemory) : Prop where
  contents : ∀ p x, m.contents.get? p = some x → p ∈ O
  values : ∀ v ∈ m.ids.map (·.2), v.Quiet O

/-- What has come to be remembered is of some places. -/
def GrowsIn (P : List Nat) (m m' : TagMemory) : Prop :=
  ∀ p, m.contents.get? p = none → p ∉ P → m'.contents.get? p = none

theorem GrowsIn.trans (h : m.GrowsIn P m') (h' : m'.GrowsIn T m'') (hsubset : P ⊆ T) :
    m.GrowsIn T m'' :=
  fun p hp hnot => h' p (h p hp fun hmem => hnot (hsubset hmem)) hnot

theorem GrowsIn.refl (P : List Nat) (m : TagMemory) : m.GrowsIn P m := fun _ hp _ => hp

theorem Clear.view (h : m.Clear O) (hv : v.Quiet O) : m.view v = v.unshared :=
  asItStands_of_unmet fun p hp => by
    cases hget : m.contents.get? p with
    | none => rfl
    | some x => exact absurd (h.contents p x hget) (hv p hp)

theorem Clear.viewIds (h : m.Clear O) : m.viewIds = m.ids.trees :=
  Idents.map_eq_trees fun v hv => h.view (h.values v hv)

theorem Clear.put (h : m.Clear O) (hv : v.Quiet O) (id : String) :
    TagMemory.Clear O { m with ids := m.ids.put id v } where
  contents := h.contents
  values x hx := (Idents.mem_put hx).elim (fun hx => hx ▸ hv) (h.values x)

theorem get?_contents_progress (m : TagMemory) (p : Nat) (x : Node) (q : Nat) :
    (TagMemory.contents { m with pending := m.pending.set p x }).get? q
      = if q = p then some x else m.contents.get? q := by
  simp only [TagMemory.contents, Contents.get?_append, Contents.get?_set]
  split <;> rfl

theorem get?_contents_settle (m : TagMemory) (p : Nat) (x : Node) (q : Nat) :
    (TagMemory.contents { m with pending := m.pending.without p, settled := m.settled.set p x }).get? q
      = if q = p then some x else m.contents.get? q := by
  simp only [TagMemory.contents, Contents.get?_append, Contents.get?_set, Contents.get?_without]
  split <;> rfl

/-- Something is noted of a place that is worked through. -/
theorem Clear.note (h : m.Clear O)
    (hcontents : ∀ q, m'.contents.get? q = if q = p then some x else m.contents.get? q)
    (hids : m'.ids = m.ids) (hp : p ∈ O) :
    m'.Clear O ∧ m.GrowsIn [p] m' := by
  refine ⟨⟨fun q y hq => ?_, hids ▸ h.values⟩, fun q hq hnot => ?_⟩
  · rw [hcontents] at hq
    split at hq
    · next heq => exact heq ▸ hp
    · exact h.contents q y hq
  · rw [hcontents, if_neg (fun heq => hnot (List.mem_singleton.2 heq)), hq]

end TagMemory

/-- The state without places, in which of the values of ids only the trees are known. -/
def Interpretation.bare (s : World × TagMemory) : World × TagMemory := (s.1, .start s.2.ids.trees)

theorem Interpretation.view_bare (s : World × TagMemory) : (bare s).2.view = unshared :=
  funext (TagMemory.view_start _)

theorem Interpretation.viewIds_bare (s : World × TagMemory) : (bare s).2.viewIds = s.2.ids.trees := by
  rw [TagMemory.viewIds, view_bare]
  simp [bare, Idents.trees, TagMemory.start]

namespace Node

/-- The containers of a node that are worked through are among some, and those below pairs are not. -/
structure Belongs (O : List Nat) (n : Node) : Prop where
  works : ∀ p ∈ n.workPlaces, p ∈ O
  pairs : ∀ key value, pair key value ∈ n.parts false → (pair key value).Quiet O

/-- Some nodes are still to be worked through. They share nothing. -/
structure Ahead (O : List Nat) (ks : List Node) (m : TagMemory) : Prop where
  belongs : ∀ k ∈ ks, k.Belongs O
  nodup : (ks.flatMap workPlaces).Nodup
  unmet : ∀ p ∈ ks.flatMap workPlaces, m.contents.get? p = none

theorem Belongs.child (h : n.Belongs O) (hk : k ∈ n.children false) : k.Belongs O := by
  refine ⟨fun p hp => h.works p ?_, fun key value hpair =>
    h.pairs key value (mem_parts_of_child hk hpair)⟩
  rw [workPlaces_eq]
  exact List.mem_append_right _ (List.mem_flatMap.2 ⟨k, hk, hp⟩)

namespace Ahead

theorem of_sublist (h : Ahead O ks m) {ks' : List Node} (hsub : ks'.Sublist ks) : Ahead O ks' m where
  belongs k hk := h.belongs k (hsub.subset hk)
  nodup := h.nodup.sublist (hsub.flatMap workPlaces)
  unmet p hp := h.unmet p ((hsub.flatMap workPlaces).subset hp)

theorem of_mem (h : Ahead O ks m) (hk : k ∈ ks) : Ahead O [k] m :=
  h.of_sublist (List.singleton_sublist.2 hk)

theorem grow (h : Ahead O ks m) (hgrows : m.GrowsIn P m')
    (hdisjoint : ∀ p ∈ P, p ∉ ks.flatMap workPlaces) : Ahead O ks m' where
  belongs := h.belongs
  nodup := h.nodup
  unmet p hp := hgrows p (h.unmet p hp) fun hmem => hdisjoint p hmem hp

/-- What comes after a node that has been worked through. -/
theorem tail (h : Ahead O (k :: ks) m) (hgrows : m.GrowsIn k.workPlaces m') : Ahead O ks m' := by
  refine (h.of_sublist (List.sublist_cons_self k ks)).grow hgrows fun p hp hmem => ?_
  have hnodup := h.nodup
  rw [List.flatMap_cons] at hnodup
  exact (List.nodup_append.1 hnodup).2.2 p hp p hmem rfl

theorem children (h : Ahead O [n] m) (hgrows : m.GrowsIn n.place?.toList m') :
    Ahead O (n.children false) m' := by
  have hnodup := h.nodup
  have hunmet := h.unmet
  rw [List.flatMap_singleton, workPlaces_eq] at hnodup hunmet
  have hnodup' := List.nodup_append.1 hnodup
  refine ⟨fun k hk => (h.belongs n List.mem_cons_self).child hk, hnodup'.2.1, fun p hp => ?_⟩
  exact hgrows p (hunmet p (List.mem_append_right _ hp)) fun hmem => hnodup'.2.2 p hmem p hp rfl

theorem of_place (h : Ahead O [n] m) (hplace : n.place? = some p) :
    p ∈ O ∧ m.contents.get? p = none := by
  have hmem : p ∈ n.workPlaces := List.mem_filterMap.2 ⟨n, self_mem_parts _ _, hplace⟩
  exact ⟨(h.belongs n List.mem_cons_self).works p hmem, h.unmet p (by simpa using hmem)⟩

/-- What is held by something that is still to be worked through is seen as the tree that it is. -/
theorem view_child (h : Ahead O [n] m) (hm : m.Clear O) (hk : k ∈ n.children true) :
    m.view k = k.unshared := by
  refine asItStands_of_unmet fun p hp => ?_
  have hp' : p ∈ n.places := by
    rw [places_eq]
    exact List.mem_append_right _ (List.mem_flatMap.2 ⟨k, hk, hp⟩)
  rcases mem_places_cases hp' with hp | ⟨key, value, hpair, hp⟩
  · exact h.unmet p (by simpa using hp)
  · cases hget : m.contents.get? p with
    | none => rfl
    | some x =>
      have hquiet := (h.belongs n List.mem_cons_self).pairs key value hpair
      exact absurd (hm.contents p x hget) (hquiet p hp)

theorem settled (h : Ahead O [n] m) : m.settled.at? n.place? = none := by
  cases hplace : n.place? with
  | none => rfl
  | some p =>
    have hunmet := (h.of_place hplace).2
    rw [TagMemory.contents, Contents.get?_append, Option.or_eq_none_iff] at hunmet
    exact hunmet.2

end Ahead
end Node

/-! ## Interpretations without places -/

/-- An interpretation ends in a document without sharing as another one ends without places: with the
    same failure or with the value that stands for the one, and what it leaves behind is of some
    places. -/
def Interpretation.Mirrors {α β : Type} (O P : List Nat) (f : α → β) (a : Interpretation α)
    (b : Interpretation β) (e : Setting) (s : World × TagMemory) (Q : α → Prop) : Prop :=
  ∃ r s', a e s = (r, s') ∧ b e (bare s) = (r.map f, bare s') ∧ s'.2.Clear O ∧ s.2.GrowsIn P s'.2 ∧
    ∀ v, r = .ok v → Q v

namespace Interpretation.Mirrors

variable {α β γ δ : Type} {f : α → β} {g : γ → δ} {a a' : Interpretation α} {b b' : Interpretation β}
  {c : α → Interpretation γ} {d : β → Interpretation δ} {Q : α → Prop} {R : γ → Prop}

theorem pure {v : α} {u : β} (hs : s.2.Clear O) (hu : u = f v) (h : Q v) :
    Mirrors O P f (Pure.pure v) (Pure.pure u) e s Q := by
  subst hu
  exact ⟨.ok v, s, rfl, rfl, hs, .refl _ _, fun v' hv' => by cases hv'; exact h⟩

theorem bind (ha : Mirrors O T f a b e s Q) (hsubset : T ⊆ P)
    (hc : ∀ v s', a e s = (.ok v, s') → s'.2.Clear O → s.2.GrowsIn T s'.2 → Q v →
      Mirrors O P g (c v) (d (f v)) e s' R) : Mirrors O P g (a >>= c) (b >>= d) e s R := by
  obtain ⟨x | v, s', hrun, hrun', hs', hgrows, hQ⟩ := ha
  · refine ⟨.error x, s', Effect.bind_of_error hrun, Effect.bind_of_error hrun', hs', ?_, nofun⟩
    exact hgrows.trans (.refl P _) hsubset
  · obtain ⟨r, s'', hrun₁, hrun₁', hs'', hgrows', hR⟩ := hc v s' hrun hs' hgrows (hQ v rfl)
    exact ⟨r, s'', (Effect.bind_of_ok hrun).trans hrun₁, (Effect.bind_of_ok hrun').trans hrun₁', hs'',
      hgrows.trans hgrows' hsubset, hR⟩

theorem of_eq (ha : a e s = a' e s) (hb : b e (bare s) = b' e (bare s))
    (h : Mirrors O P f a' b' e s Q) : Mirrors O P f a b e s Q := by
  obtain ⟨r, s', hrun, hrun', hrest⟩ := h
  exact ⟨r, s', ha.trans hrun, hb.trans hrun', hrest⟩

theorem of_ok (h : Mirrors O P f a b e s Q) {v : α} (hrun : a e s = (.ok v, s')) :
    b e (bare s) = (.ok (f v), bare s') ∧ s'.2.Clear O ∧ s.2.GrowsIn P s'.2 ∧ Q v := by
  obtain ⟨r, s'', hrun', hbare, hs', hgrows, hQ⟩ := h
  obtain ⟨rfl, rfl⟩ := Prod.mk.inj (hrun'.symm.trans hrun)
  exact ⟨hbare, hs', hgrows, hQ v rfl⟩

theorem mono (h : Mirrors O T f a b e s Q) (hsubset : T ⊆ P) : Mirrors O P f a b e s Q := by
  obtain ⟨r, s', hrun, hrun', hs', hgrows, hQ⟩ := h
  exact ⟨r, s', hrun, hrun', hs', hgrows.trans (.refl P _) hsubset, hQ⟩

theorem ofAction {a : Action α} (hs : s.2.Clear O) :
    Mirrors O P id (Interpretation.ofAction a) (Interpretation.ofAction a) e s fun _ => True := by
  refine ⟨(a e s.1).1, ((a e s.1).2, s.2), rfl, ?_, hs, .refl _ _, fun _ _ => trivial⟩
  simp [Interpretation.ofAction, bare]

theorem check {r : Except TagProblem α} {r' : Except TagProblem β} (hs : s.2.Clear O)
    (hr : r' = r.map f) (h : ∀ v, r = .ok v → Q v) :
    Mirrors O P f (Interpretation.check r) (Interpretation.check r') e s Q := by
  subst hr
  cases r with
  | error x => exact ⟨_, s, rfl, rfl, hs, .refl _ _, nofun⟩
  | ok v => exact ⟨.ok v, s, rfl, rfl, hs, .refl _ _, fun v' hv' => h v' (by cases hv'; rfl)⟩

theorem check_error {x : TagProblem} (hs : s.2.Clear O) :
    Mirrors O P f (Interpretation.check (.error x)) (Interpretation.check (.error x)) e s Q :=
  .check hs rfl fun _ h => by cases h

theorem under {tag : String} (h : Mirrors O P f a b e s Q) :
    Mirrors O P f (Interpretation.under tag a) (Interpretation.under tag b) e s Q := by
  obtain ⟨x | v, s', hrun, hrun', hs', hgrows, hQ⟩ := h
  · exact ⟨.error _, s', under_of_error hrun, under_of_error hrun', hs', hgrows, nofun⟩
  · exact ⟨.ok v, s', Effect.because_of_ok hrun, Effect.because_of_ok hrun', hs', hgrows, hQ⟩

end Interpretation.Mirrors

/-! ## The tree of a document -/

theorem Idents.trees_put (ids : Idents) (id : String) (v : Node) :
    (ids.put id v).trees = ids.trees.put id v.unshared := by
  induction ids with
  | nil => rfl
  | cons entry ids ih =>
    obtain ⟨i, old⟩ := entry
    have hcons : ∀ (v : Node) (ids : Idents),
        Idents.trees ((i, v) :: ids) = (i, v.unshared) :: ids.trees := fun _ _ => rfl
    rw [put, hcons, put]
    split
    · rw [hcons]
    · rw [hcons, ih]

namespace Question

theorem ofItems_unshared : ∀ items : List Node, ofItems (items.map unshared) = ofItems items
  | [] => rfl
  | [x] => by cases x <;> rfl
  | [x, y] => by
    cases x with
    | scalar c => cases c <;> cases y <;> rfl
    | _ => cases y <;> rfl
  | _ :: _ :: _ :: _ => by simp [ofItems]

/-- A payload and its tree ask the same question. -/
theorem ofNode_unshared (n : Node) : ofNode n.unshared = ofNode n := by
  cases n with
  | list place items => rw [unshared_list, ofNode, ofNode, ofItems_unshared]
  | map place entries =>
    rw [unshared_map, ofNode, ofNode, ofEntries, ofEntries, get?_mapValues, get?_mapValues]
    cases Entries.get? entries "prompt" with
    | none => rfl
    | some x =>
      cases x with
      | scalar c =>
        cases Entries.get? entries "default" with
        | none => rfl
        | some y => cases y <;> rfl
      | _ => rfl
  | _ => rfl

end Question

namespace Node

/-- A node is interpreted as its tree is. -/
def MirrorsTree (O : List Nat) (e : Setting) (n : Node) : Prop :=
  ∀ s, Ahead O [n] s.2 → s.2.Clear O →
    Mirrors O n.workPlaces unshared n.interpret n.unshared.interpret e s (Quiet O)

theorem mirrors_progress (hs : s.2.Clear O) (hplace : ∀ p, place = some p → p ∈ O) (x y : Node) :
    Mirrors O place.toList id (progress place x) (progress none y) e s fun _ => True := by
  cases place with
  | none => exact .pure hs rfl trivial
  | some p =>
    obtain ⟨hs', hgrows⟩ := hs.note (s.2.get?_contents_progress p x) rfl (hplace p rfl)
    exact ⟨.ok (), _, rfl, rfl, hs', hgrows, fun _ _ => trivial⟩

theorem mirrors_settle (hs : s.2.Clear O) (hplace : ∀ p, place = some p → p ∈ O) (x y : Node) :
    Mirrors O place.toList id (settle place x) (settle none y) e s fun _ => True := by
  cases place with
  | none => exact .pure hs rfl trivial
  | some p =>
    obtain ⟨hs', hgrows⟩ := hs.note (s.2.get?_contents_settle p x) rfl (hplace p rfl)
    exact ⟨.ok (), _, rfl, rfl, hs', hgrows, fun _ _ => trivial⟩

theorem refill_unshared (hn : n.IsContainer) (ks : List Node) : n.unshared.refill ks = n.refill ks := by
  cases hn with
  | list place items => rw [unshared_list, refill, refill]
  | map place entries => simp [unshared_map, refill, Function.comp_def]

theorem isContainer_unshared (hn : n.IsContainer) : n.unshared.IsContainer := by
  cases hn with
  | list place items => exact unshared_list place items ▸ .list _ _
  | map place entries => exact unshared_map place entries ▸ .map _ _

theorem place?_unshared (n : Node) : n.unshared.place? = none := by
  rw [unshared_eq, place?_mapChildren]

/-- Nothing is known of a container without a place. -/
theorem at?_of_unplaced (c : Contents) (h : n.place? = none) : c.at? n.place? = none := by
  rw [h]
  rfl

/-- The children of a container, one after the other. -/
theorem mirrors_interpretChildren (hn : n.IsContainer) (hplace : ∀ p, n.place? = some p → p ∈ O) :
    ∀ (ks done : List Node) (s : World × TagMemory), (∀ k ∈ ks, MirrorsTree O e k) →
      Ahead O ks s.2 → (∀ p ∈ n.place?.toList, p ∉ ks.flatMap workPlaces) → s.2.Clear O →
      (∀ v ∈ done, v.Quiet O) →
      Mirrors O (n.place?.toList ++ ks.flatMap workPlaces) (List.map unshared)
        (interpretChildren n done ks)
        (interpretChildren n.unshared (done.map unshared) (ks.map unshared)) e s
        fun ks' => ∀ v ∈ ks', v.Quiet O
  | [], _, _, _, _, _, hs, hdone => .pure hs rfl hdone
  | k :: ks, done, s, hks, hahead, hapart, hs, hdone => by
    rw [interpretChildren, List.map_cons, interpretChildren, place?_unshared]
    have hmem : ∀ p ∈ ks.flatMap workPlaces, p ∈ (k :: ks).flatMap workPlaces := fun p hp => by
      rw [List.flatMap_cons]
      exact List.mem_append_right _ hp
    refine (mirrors_progress hs hplace _ _).bind (List.subset_append_left _ _) ?_
    intro _ s₁ _ hs₁ hgrows _
    have hahead₁ := hahead.grow hgrows hapart
    have hfirst := hks k List.mem_cons_self s₁ (hahead₁.of_mem List.mem_cons_self) hs₁
    refine hfirst.bind (fun p hp => ?_) fun v s₂ _ hs₂ hgrows₂ hv => ?_
    · rw [List.flatMap_cons]
      exact List.mem_append_right _ (List.mem_append_left _ hp)
    have hrest := mirrors_interpretChildren hn hplace ks (done ++ [v]) s₂
      (fun x hx => hks x (List.mem_cons_of_mem _ hx)) (hahead₁.tail hgrows₂)
      (fun p hp hmem' => hapart p hp (hmem p hmem')) hs₂ fun x hx => by
        rcases List.mem_append.1 hx with hx | hx
        · exact hdone x hx
        · exact List.mem_singleton.1 hx ▸ hv
    rw [List.map_append, List.map_singleton] at hrest
    refine hrest.mono fun p hp => ?_
    exact (List.mem_append.1 hp).elim (List.mem_append_left _) fun hp =>
      List.mem_append_right _ (hmem p hp)

theorem mirrorsTree_container (hn : n.IsContainer) (ih : ∀ k ∈ n.children false, MirrorsTree O e k) :
    MirrorsTree O e n := by
  intro s hahead hs
  have hplace : ∀ p, n.place? = some p → p ∈ O := fun p hp => (hahead.of_place hp).1
  have hnodup := hahead.nodup
  rw [List.flatMap_singleton, workPlaces_eq] at hnodup
  refine .of_eq (interpret_of_new hn hahead.settled)
    (interpret_of_new (isContainer_unshared hn) (at?_of_unplaced _ (place?_unshared n))) ?_
  have hchildren : n.unshared.children true = (n.children false).map unshared := by
    rw [unshared_eq, children_mapChildren, hn.children_eq false]
  rw [hchildren, ← hn.children_eq false, workPlaces_eq, place?_unshared]
  refine (mirrors_interpretChildren hn hplace _ [] s ih ?_ ?_ hs ?_).bind (List.Subset.refl _) ?_
  · exact hahead.children (.refl _ _)
  · -- Progress is noted in a place that none of the children has.
    exact fun p hp hmem => (List.nodup_append.1 hnodup).2.2 p hp p hmem rfl
  · exact fun _ hv => absurd hv List.not_mem_nil
  intro ks s₁ _ hs₁ _ hks
  refine (mirrors_settle hs₁ hplace _ _).bind (List.subset_append_left _ _) ?_
  intro _ s₂ _ hs₂ _ _
  refine .pure hs₂ ?_ (quiet_refill hn hks)
  rw [refill_unshared hn, unshared_refill hn]

theorem mirrors_input (hs : s.2.Clear O) (hidden : Bool) (payload : Node) :
    Mirrors O [] unshared (input hidden payload) (input hidden payload.unshared) e s (Quiet O) := by
  refine Mirrors.bind (T := []) (f := id) (Q := fun _ => True) ?_ (List.Subset.refl _) ?_
  · refine .check hs ?_ fun _ _ => trivial
    rw [Question.ofNode_unshared]
    cases Question.ofNode payload <;> rfl
  intro q s₁ _ hs₁ _ _
  refine Mirrors.bind (T := []) (f := id) (Q := fun _ => True) ?_ (List.Subset.refl _) ?_
  · exact (Mirrors.ofAction (P := []) hs₁).bind (List.Subset.refl _) fun _ _ _ hs₂ _ _ =>
      .pure hs₂ rfl trivial
  · exact fun t _ _ hs₂ _ _ => .pure hs₂ rfl (quiet_unshared (text t))

theorem mirrors_part (hs : s.2.Clear O) (hv : v.Quiet O) (index : Nat) :
    Mirrors O [] id (part index v) (part index v.unshared) e s fun _ => True := by
  have hview : (bare s).2.view v.unshared = s.2.view v := by
    rw [hs.view hv, view_bare, unshared_unshared]
  have hother : Mirrors O [] id
      (memory >>= fun m => check (.error ((m.view v).showing (.joinElement index) .unwritable)))
      (memory >>= fun m =>
        check (.error ((m.view v.unshared).showing (.joinElement index) .unwritable)))
      e s fun (_ : String) => True := by
    refine .of_eq (Effect.bind_of_ok (memory_apply e s)) (Effect.bind_of_ok (memory_apply e _)) ?_
    rw [hview]
    exact .check_error hs
  cases v with
  | scalar c =>
    cases c with
    | text t => exact .pure hs rfl trivial
    | _ => exact hother
  | _ => exact hother

/-- The parts of a text, one after the other. -/
theorem mirrors_interpretParts : ∀ (items : List Node) (index : Nat) (s : World × TagMemory),
    (∀ k ∈ items, MirrorsTree O e k) → Ahead O items s.2 → s.2.Clear O →
    Mirrors O (items.flatMap workPlaces) id (interpretParts index items)
      (interpretParts index (items.map unshared)) e s fun _ => True
  | [], _, _, _, _, hs => by
    rw [List.map_nil, interpretParts]
    exact .pure hs rfl trivial
  | item :: items, index, s, hitems, hahead, hs => by
    rw [List.map_cons, interpretParts, interpretParts, List.flatMap_cons]
    have hitem := hitems item List.mem_cons_self s (hahead.of_mem List.mem_cons_self) hs
    refine hitem.bind (List.subset_append_left _ _) fun v s₁ _ hs₁ hgrows hv => ?_
    refine (mirrors_part hs₁ hv index).bind (List.nil_subset _) fun t s₂ _ hs₂ hgrows₂ _ => ?_
    have hgrows' : s.2.GrowsIn item.workPlaces s₂.2 :=
      hgrows.trans (hgrows₂.trans (.refl _ _) (List.nil_subset _)) (List.Subset.refl _)
    have hrest := mirrors_interpretParts items (index + 1) s₂
      (fun k hk => hitems k (List.mem_cons_of_mem _ hk)) (hahead.tail hgrows') hs₂
    exact hrest.bind (List.subset_append_right _ _) fun _ _ _ hs₃ _ _ => .pure hs₃ rfl trivial

theorem mirrors_interpretJoin (ih : ∀ k ∈ n.children false, MirrorsTree O e k)
    (hahead : Ahead O [n] s.2) (hs : s.2.Clear O) :
    Mirrors O n.workPlaces unshared n.interpretJoin n.unshared.interpretJoin e s (Quiet O) := by
  cases n with
  | list place items =>
    have hnew : s.2.settled.at? place = none := hahead.settled
    rw [unshared_list]
    refine .of_eq interpretJoin_list interpretJoin_list ?_
    rw [hnew]
    have hparts := mirrors_interpretParts items 0 s ih (hahead.children (.refl _ _)) hs
    refine (hparts.bind ?_ fun t _ _ hs₁ _ _ => .pure hs₁ rfl (quiet_unshared (text t)))
    rw [workPlaces_eq]
    exact List.subset_append_right _ _
  | map place entries =>
    rw [unshared_map, interpretJoin, interpretJoin]
    · exact .check_error hs
    · simp
    · simp
  | tagged _ _ | pair _ _ =>
    rw [unshared, interpretJoin, interpretJoin]
    · exact .check_error hs
    · simp
    · simp
  | scalar _ | set _ =>
    rw [unshared, interpretJoin]
    · exact .check_error hs
    · simp

/-- A value is seen as its tree is. -/
theorem mirrors_view (hs : s.2.Clear O) (hv : v.Quiet O) :
    Mirrors O [] unshared (memory >>= fun m => pure (m.view v))
      (memory >>= fun m => pure (m.view v.unshared)) e s (Quiet O) := by
  refine .of_eq (Effect.bind_of_ok (memory_apply e s)) (Effect.bind_of_ok (memory_apply e _)) ?_
  rw [hs.view hv]
  exact .pure hs (TagMemory.view_start _ _) (quiet_unshared v)

theorem mirrors_remember (hs : s.2.Clear O) (hv : v.Quiet O) (id : String) :
    Mirrors O [] (fun u => u) (remember fun m => { m with ids := m.ids.put id v })
      (remember fun m => { m with ids := m.ids.put id v.unshared }) e s fun _ => True := by
  refine ⟨.ok (), (s.1, { s.2 with ids := s.2.ids.put id v }), rfl, ?_, hs.put hv id, .refl _ _,
    fun _ _ => trivial⟩
  rw [bare, bare, Idents.trees_put]
  rfl

/-- The value of an id is found, or known, in the same way. -/
theorem mirrors_identify {id : String} {first first' : Interpretation Node} (hs : s.2.Clear O)
    (hfirst : s.2.ids.get? id = none → Mirrors O P unshared first first' e s (Quiet O)) :
    Mirrors O P unshared (identify id first) (identify id first') e s (Quiet O) := by
  have hbare : (bare s).2.ids.get? id = (s.2.ids.get? id).map unshared := Idents.get?_trees
  cases hid : s.2.ids.get? id with
  | some v =>
    rw [hid, Option.map_some] at hbare
    have hknown : ∀ (a : Interpretation Node) (s : World × TagMemory) (v : Node),
        s.2.ids.get? id = some v → identify id a e s = (memory >>= fun m => pure (m.view v)) e s :=
      fun a s v h => identify_of_known h a
    have hv := hs.values v (Idents.mem_of_get? hid)
    exact .of_eq (hknown first s v hid) (hknown first' _ _ hbare)
      ((mirrors_view hs hv).mono (List.nil_subset _))
  | none =>
    rw [hid, Option.map_none] at hbare
    refine .of_eq (identify_of_new hid first) (identify_of_new hbare first') ?_
    refine (hfirst hid).bind (List.Subset.refl _) fun v s₁ _ hs₁ _ hv => ?_
    refine (mirrors_remember hs₁ hv id).bind (List.nil_subset _) fun _ s₂ _ hs₂ _ _ => ?_
    exact (mirrors_view hs₂ hv).mono (List.nil_subset _)

theorem ident_unshared {id : String} : n.unshared.ident = .ok id ↔ n.ident = .ok id := by
  rw [unshared_eq]
  exact ident_mapChildren fun _ _ => unshared_eq_scalar_iff

theorem mirrors_interpretIdent (ih : ∀ k ∈ n.children false, MirrorsTree O e k)
    (hahead : Ahead O [n] s.2) (hs : s.2.Clear O) :
    Mirrors O n.workPlaces unshared n.interpretIdent n.unshared.interpretIdent e s (Quiet O) := by
  refine .of_eq (interpretIdent_of_new hahead.settled)
    (interpretIdent_of_new (at?_of_unplaced _ (place?_unshared n))) ?_
  have hchildren := hahead.children (.refl _ _)
  have hview : n.mapChildren s.2.view = n.unshared := by
    rw [unshared_eq]
    exact mapChildren_congr fun k hk => hahead.view_child hs hk
  have hview' : n.unshared.mapChildren (bare s).2.view = n.unshared := by
    rw [view_bare, ← unshared_eq, unshared_unshared]
  rw [hview, hview']
  refine Mirrors.bind (T := []) (f := fun id => id) (Q := fun id => n.unshared.ident = .ok id)
    (.check hs ?_ fun _ h => h) (List.nil_subset _) fun id s₁ hrun hs₁ hgrows hid => ?_
  · cases n.unshared.ident <;> rfl
  obtain ⟨-, rfl⟩ := of_check hrun
  have hid' : n.ident = .ok id := ident_unshared.1 hid
  refine mirrors_identify hs fun _ => ?_
  refine Mirrors.bind (T := []) (f := unshared) (Q := fun v => n.identValue = .ok v)
    (.check hs (identValue_unshared hid') fun _ h => h) (List.nil_subset _) ?_
  intro value s₂ hrun _ _ hvalue
  obtain ⟨-, rfl⟩ := of_check hrun
  have hmem := mem_children_of_identValue (b := false) hid' hvalue
  refine (ih value hmem s₂ (hchildren.of_mem hmem) hs).mono fun p hp => ?_
  rw [workPlaces_eq]
  exact List.mem_append_right _ (List.mem_flatMap.2 ⟨value, hmem, hp⟩)

theorem mirrorsTree_tagged {name : String} {payload : Node}
    (ih : ∀ k ∈ payload.parts false, MirrorsTree O e k) : MirrorsTree O e (tagged name payload) := by
  intro s hahead hs
  have hpayload : Ahead O [payload] s.2 := hahead.children (.refl _ _)
  have hself := ih payload (self_mem_parts _ _) s hpayload hs
  have hchildren : ∀ k ∈ payload.children false, MirrorsTree O e k :=
    fun k hk => ih k (mem_parts_of_child hk (self_mem_parts _ _))
  have hplaces : (tagged name payload).workPlaces = payload.workPlaces := by
    rw [workPlaces_eq]
    simp [place?, children]
  rw [hplaces, unshared, interpret, interpret]
  split
  · exact .under (mirrors_interpretJoin hchildren hpayload hs)
  split
  · exact .under (hself.bind (List.Subset.refl _) fun v _ _ hs₁ _ _ =>
      (mirrors_input hs₁ false v).mono (List.nil_subset _))
  split
  · exact .under (hself.bind (List.Subset.refl _) fun v _ _ hs₁ _ _ =>
      (mirrors_input hs₁ true v).mono (List.nil_subset _))
  split
  · exact .under (mirrors_interpretIdent hchildren hpayload hs)
  · exact .check_error hs

/-- Every node of a document without sharing is interpreted as its tree is. -/
theorem mirrorsTree (n : Node) : MirrorsTree O e n := by
  induction n using inductionOnParts false with
  | h n ih =>
    have hchildren : ∀ k ∈ n.children false, MirrorsTree O e k :=
      fun k hk => ih k hk k (self_mem_parts _ _)
    cases n with
    | list place items => exact mirrorsTree_container (.list _ _) hchildren
    | map place entries => exact mirrorsTree_container (.map _ _) hchildren
    | tagged name payload => exact mirrorsTree_tagged (ih payload (List.mem_singleton_self payload))
    | pair key value =>
      intro s hahead hs
      rw [unshared, interpret, interpret]
      have hbelongs := hahead.belongs _ List.mem_cons_self
      exact .pure hs rfl (hbelongs.pairs key value (self_mem_parts _ _))
    | scalar _ | set _ =>
      intro s hahead hs
      rw [unshared, interpret]
      exact .pure hs rfl (quiet_of_children rfl fun _ hk => absurd hk List.not_mem_nil)

/-! ## Whole documents -/

/-- A document shares nothing: each of its containers has a place of its own, which the values of ids
    do not have. -/
structure Separate (n : Node) (ids : Idents) : Prop where
  nodup : n.places.Nodup
  values : ∀ v ∈ ids.map (·.2), ∀ p ∈ v.places, p ∉ n.places

theorem workPlaces_sublist (n : Node) : n.workPlaces.Sublist n.places := by
  induction n using inductionOnChildren true with
  | h n ih =>
    rw [workPlaces_eq, places_eq]
    refine (List.Sublist.refl _).append ?_
    have hchildren : ∀ ks : List Node, (∀ k ∈ ks, k.workPlaces.Sublist k.places) →
        (ks.flatMap workPlaces).Sublist (ks.flatMap places) := by
      intro ks hks
      induction ks with
      | nil => exact .slnil
      | cons k ks ih =>
        rw [List.flatMap_cons, List.flatMap_cons]
        exact (hks k List.mem_cons_self).append (ih fun x hx => hks x (List.mem_cons_of_mem _ hx))
    cases n with
    | pair key value => exact List.nil_sublist _
    | _ => exact hchildren _ ih

theorem places_subset (hk : k ∈ n.parts true) : k.places ⊆ n.places := by
  intro p hp
  obtain ⟨c, hc, hp⟩ := List.mem_filterMap.1 hp
  exact mem_places (parts_subset hk hc) hp

/-- If each container has a place of its own, what is below a pair is not worked through. -/
theorem not_mem_workPlaces (h : n.places.Nodup) {key value : Node}
    (hpair : pair key value ∈ n.parts false) (hp : p ∈ (pair key value).places) :
    p ∉ n.workPlaces := by
  induction n using inductionOnChildren false with
  | h n ih =>
    have hnodup := h
    rw [places_eq, List.nodup_append, List.nodup_flatMap] at hnodup
    obtain ⟨-, ⟨hchild, hchildren⟩, hplace⟩ := hnodup
    rcases mem_parts.1 hpair with rfl | ⟨c, hc, hpair⟩
    · simp [workPlaces, parts, place?]
    have hpc : p ∈ c.places := places_subset (mem_parts_true hpair) hp
    rw [workPlaces_eq, List.mem_append, List.mem_flatMap]
    -- The place would be that of the node as well, or be worked through in some child.
    rintro (hself | ⟨c', hc', hp'⟩)
    · refine hplace p hself p ?_ rfl
      exact List.mem_flatMap.2 ⟨c, mem_children_true hc, hpc⟩
    · by_cases hsame : c = c'
      · subst hsame
        exact ih c hc (hchild c (mem_children_true hc)) hpair hp'
      · have : Std.Symm (Function.onFun List.Disjoint places) := ⟨fun _ _ h p hp hp' => h hp' hp⟩
        have hdisjoint := hchildren.forall (mem_children_true hc) (mem_children_true hc') hsame
        exact hdisjoint hpc (c'.workPlaces_sublist.subset hp')

theorem Separate.ahead (h : n.Separate ids) : Ahead n.workPlaces [n] (.start ids) where
  belongs k hk := by
    obtain rfl := List.mem_singleton.1 hk
    exact ⟨fun _ hp => hp, fun key value hpair p hp => not_mem_workPlaces h.nodup hpair hp⟩
  nodup := by simpa using h.nodup.sublist n.workPlaces_sublist
  unmet _ _ := rfl

theorem Separate.clear (h : n.Separate ids) : (TagMemory.start ids).Clear n.workPlaces where
  contents := nofun
  values v hv p hp hwork := h.values v hv p hp (n.workPlaces_sublist.subset hwork)

/-- A document that shares nothing is interpreted as the tree that it is. -/
theorem resolve_of_separate (h : n.Separate ids) (w : World) :
    n.resolve e (w, ids) = n.unshared.resolve e (w, ids.trees) := by
  obtain ⟨r, s', hrun, hrun', hs', -, hquiet⟩ := mirrorsTree (e := e) n (w, .start ids) h.ahead h.clear
  have htree : n.unshared.interpret e (w, .start ids.trees) = (r.map unshared, bare s') := hrun'
  cases r with
  | error x => rw [resolve_of_error hrun, resolve_of_error htree, viewIds_bare, hs'.viewIds, bare]
  | ok v =>
    rw [resolve_of_ok hrun, resolve_of_ok htree, viewIds_bare, hs'.viewIds, hs'.view (hquiet v rfl),
      view_bare, unshared_unshared, bare]

end Node

end Runbook
