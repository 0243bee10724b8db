import Runbook.Proofs.Steps

set_option autoImplicit false

/-! # Tags in turn

A pass over a node interprets the tags in it one after the other, in the order of the text, and stops at
the first that fails. Between two tags it only notes how far it has worked through the containers around
them. The tags are those in the containers that have not been worked through before. If a container of
the node stands in it twice, its tags are passed over when it is met again; otherwise none is. -/

namespace Runbook.Node

open Interpretation

variable {e : Setting} {s s' s₁ s₂ : World × TagMemory} {n k v tag : Node} {tags tags' : List Node}

/-! ## Tags in the order of the text -/

mutual

/-- The tags of a node that are not below other tags, in the order of the text, without those in
    containers that have been worked through. -/
def openTags (c : Contents) : Node → List Node
  | tagged name payload => [tagged name payload]
  | list place items => if (c.at? place).isSome then [] else openItemTags c items
  | map place entries => if (c.at? place).isSome then [] else openEntryTags c entries
  | scalar _ | pair _ _ | set _ => []

/-- The tags of some items. -/
def openItemTags (c : Contents) : List Node → List Node
  | [] => []
  | item :: items => openTags c item ++ openItemTags c items

/-- The tags of some values. -/
def openEntryTags (c : Contents) : List (Scalar × Node) → List Node
  | [] => []
  | (_, value) :: entries => openTags c value ++ openEntryTags c entries

end

theorem openItemTags_eq (c : Contents) (items : List Node) :
    openItemTags c items = items.flatMap (openTags c) := by
  induction items with
  | nil => rfl
  | cons item items ih => rw [openItemTags, ih, List.flatMap_cons]

theorem openEntryTags_eq (c : Contents) (entries : List (Scalar × Node)) :
    openEntryTags c entries = (entries.map (·.2)).flatMap (openTags c) := by
  induction entries with
  | nil => rfl
  | cons entry entries ih => rw [openEntryTags, ih, List.map_cons, List.flatMap_cons]

theorem IsContainer.openTags (hn : n.IsContainer) (c : Contents) :
    n.openTags c = if (c.at? n.place?).isSome then [] else
      (n.children false).flatMap (Node.openTags c) := by
  cases hn with
  | list place items => rw [Node.openTags, openItemTags_eq]; rfl
  | map place entries => rw [Node.openTags, openEntryTags_eq]; rfl

theorem IsContainer.openTags_of_settled {c : Contents} (hn : n.IsContainer)
    (h : c.at? n.place? = some v) : n.openTags c = [] := by
  rw [hn.openTags, h]
  rfl

theorem IsContainer.openTags_of_new {c : Contents} (hn : n.IsContainer) (h : c.at? n.place? = none) :
    n.openTags c = (n.children false).flatMap (Node.openTags c) := by
  rw [hn.openTags, h]
  rfl

/-- What is not the same for all contents are containers. -/
theorem openTags_cases (n : Node) :
    n.IsContainer ∨ ∀ c c' : Contents, n.openTags c = n.openTags c' := by
  cases n with
  | list place items => exact .inl (.list place items)
  | map place entries => exact .inl (.map place entries)
  | _ => exact .inr fun _ _ => by rw [Node.openTags, Node.openTags]

/-- The more containers have been worked through, the fewer tags are open. -/
theorem openTags_sublist {c c' : Contents} (n : Node)
    (h : n.WorksIn fun p => c'.get? p = none → c.get? p = none) :
    (n.openTags c').Sublist (n.openTags c) := by
  induction n using inductionOnChildren false with
  | h n ih =>
    rcases openTags_cases n with hn | hn
    · cases hfound : c'.at? n.place? with
      | some v =>
        rw [hn.openTags_of_settled hfound]
        exact List.nil_sublist _
      | none =>
        have hnew : c.at? n.place? = none := by
          rw [Contents.at?, Option.bind_eq_none_iff] at hfound ⊢
          exact fun p hp => h.own p hp (hfound p hp)
        rw [hn.openTags_of_new hfound, hn.openTags_of_new hnew]
        exact List.Sublist.flatMap_right _ fun k hk => ih k hk (h.child hk)
    · rw [hn c' c]

theorem openTags_congr {c c' : Contents} (n : Node)
    (h : n.WorksIn fun p => c'.get? p = none ↔ c.get? p = none) : n.openTags c' = n.openTags c :=
  (openTags_sublist n fun p hp => (h p hp).1).antisymm (openTags_sublist n fun p hp => (h p hp).2)

/-! ## One after the other -/

/-- Nothing happens but that it is noted how far a container has been worked through. -/
structure OnlyNotes (s s' : World × TagMemory) : Prop where
  world : s'.1 = s.1
  ids : s'.2.ids = s.2.ids
  stays : ∀ p, s'.2.settled.get? p = none → s.2.settled.get? p = none

theorem OnlyNotes.refl (s : World × TagMemory) : OnlyNotes s s := ⟨rfl, rfl, fun _ h => h⟩

theorem OnlyNotes.trans (h : OnlyNotes s s₁) (h' : OnlyNotes s₁ s') : OnlyNotes s s' :=
  ⟨h'.world.trans h.world, h'.ids.trans h.ids, fun p hp => h.stays p (h'.stays p hp)⟩

/-- Some tags are interpreted one after the other, each to a value. -/
inductive InTurn (e : Setting) : World × TagMemory → List Node → World × TagMemory → Prop
  | nil {s s' : World × TagMemory} (h : OnlyNotes s s') : InTurn e s [] s'
  | cons {s s₁ s₂ s' : World × TagMemory} {tag v : Node} {tags : List Node} (h : OnlyNotes s s₁)
      (htag : tag.interpret e s₁ = (.ok v, s₂)) (hmore : InTurn e s₂ tags s') :
      InTurn e s (tag :: tags) s'

theorem InTurn.noted (hnotes : OnlyNotes s s₁) (h : InTurn e s₁ tags s') : InTurn e s tags s' := by
  cases h with
  | nil h => exact .nil (hnotes.trans h)
  | cons h htag hmore => exact .cons (hnotes.trans h) htag hmore

theorem InTurn.append (h : InTurn e s tags s₁) (h' : InTurn e s₁ tags' s') :
    InTurn e s (tags ++ tags') s' := by
  induction h with
  | nil hnotes => exact h'.noted hnotes
  | cons hnotes htag _ ih => exact .cons hnotes htag (ih h')

/-- Some of the tags that are given are interpreted in turn, up to the first that fails, and all of them
    if nothing is passed over. -/
inductive GoesThrough {α : Type} (e : Setting) (s : World × TagMemory) (all : List Node)
    (complete : Prop) : Except Failure α × (World × TagMemory) → Prop
  | ok {tags : List Node} {a : α} {s' : World × TagMemory} (hturn : InTurn e s tags s')
      (hsome : tags.Sublist all) (hall : complete → tags = all) : GoesThrough e s all complete (.ok a, s')
  | error {tags : List Node} {tag : Node} {f : Failure} {s₁ s' : World × TagMemory}
      (hturn : InTurn e s tags s₁) (htag : tag.interpret e s₁ = (.error f, s'))
      (hsome : (tags ++ [tag]).Sublist all) (hall : complete → tags ++ [tag] <+: all) :
      GoesThrough e s all complete (.error f, s')

variable {α β : Type} {all all' : List Node} {complete : Prop}

/-- What goes through some tags and then, if it succeeds, through others, goes through all of them. -/
theorem GoesThrough.bind {m : Interpretation α} {f : α → Interpretation β}
    (hm : GoesThrough e s all complete (m e s))
    (hf : ∀ a s', m e s = (.ok a, s') → GoesThrough e s' all' complete (f a e s')) :
    GoesThrough e s (all ++ all') complete ((m >>= f) e s) := by
  generalize hr : m e s = r at hm
  cases hm with
  | @ok tags a s' hturn hsome hall =>
    -- the second part goes on where the first one has come to
    rw [Effect.bind_of_ok hr]
    have hrest := hf a s' hr
    generalize f a e s' = r' at hrest
    cases hrest with
    | ok hturn' hsome' hall' =>
      refine .ok (hturn.append hturn') (hsome.append hsome') fun h => ?_
      rw [hall h, hall' h]
    | @error tags' tag _ _ _ hturn' htag hsome' hall' =>
      refine .error (hturn.append hturn') htag ?_ fun h => ?_
      · rw [List.append_assoc]
        exact hsome.append hsome'
      · rw [hall h, List.append_assoc]
        exact (List.prefix_append_right_inj all).2 (hall' h)
  | error hturn htag hsome hall =>
    rw [Effect.bind_of_error hr]
    exact .error hturn htag (hsome.trans (List.sublist_append_left all all'))
      fun h => (hall h).trans (List.prefix_append all all')

/-- What goes through some tags may take notes before. -/
theorem GoesThrough.noted {m : Interpretation α} {f : α → Interpretation β} {a : α}
    (hr : m e s = (.ok a, s₁)) (hnotes : OnlyNotes s s₁)
    (h : GoesThrough e s₁ all complete (f a e s₁)) : GoesThrough e s all complete ((m >>= f) e s) := by
  rw [Effect.bind_of_ok hr]
  generalize f a e s₁ = r at h
  cases h with
  | ok hturn hsome hall => exact .ok (hturn.noted hnotes) hsome hall
  | error hturn htag hsome hall => exact .error (hturn.noted hnotes) htag hsome hall

theorem GoesThrough.of_notes {m : Interpretation α} {a : α} (hr : m e s = (.ok a, s'))
    (hnotes : OnlyNotes s s') : GoesThrough e s [] complete (m e s) := by
  rw [hr]
  exact .ok (.nil hnotes) (List.Sublist.refl []) fun _ => rfl

/-- Tags that may be passed over can be added. -/
theorem GoesThrough.within {complete' : Prop} {r : Except Failure α × (World × TagMemory)}
    (h : GoesThrough e s all complete r) (hsub : all.Sublist all')
    (hcomplete : complete' → complete ∧ all = all') : GoesThrough e s all' complete' r := by
  cases h with
  | ok hturn hsome hall =>
    refine .ok hturn (hsome.trans hsub) fun h => ?_
    obtain ⟨hc, rfl⟩ := hcomplete h
    exact hall hc
  | error hturn htag hsome hall =>
    refine .error hturn htag (hsome.trans hsub) fun h => ?_
    obtain ⟨hc, rfl⟩ := hcomplete h
    exact hall hc

/-! ## The pass over a node -/

theorem progress_notes (place : Option Nat) (n : Node) (e : Setting) (s : World × TagMemory) :
    ∃ s', progress place n e s = (.ok (), s') ∧ OnlyNotes s s' ∧ s'.2.settled = s.2.settled := by
  cases place with
  | none => exact ⟨s, rfl, .refl s, rfl⟩
  | some p => exact ⟨_, rfl, ⟨rfl, rfl, fun _ h => h⟩, rfl⟩

theorem settle_notes (place : Option Nat) (n : Node) (e : Setting) (s : World × TagMemory) :
    ∃ s', settle place n e s = (.ok (), s') ∧ OnlyNotes s s' := by
  cases place with
  | none => exact ⟨s, rfl, .refl s⟩
  | some p =>
    exact ⟨_, rfl, rfl, rfl, (TagMemory.SettlesIn.settle (T := fun _ => True) trivial).stays⟩

/-- The children of a container are gone through one after the other. None is passed over if their
    containers have places of their own. -/
theorem goesThrough_children (n : Node) (done ks : List Node)
    (hchild : ∀ k ∈ ks, ∀ s,
      GoesThrough e s (k.openTags s.2.settled) k.workPlaces.Nodup (k.interpret e s))
    (s : World × TagMemory) :
    GoesThrough e s (ks.flatMap (openTags s.2.settled)) (ks.flatMap workPlaces).Nodup
      (interpretChildren n done ks e s) := by
  induction ks generalizing done s with
  | nil => exact .of_notes rfl (.refl s)
  | cons k ks ih =>
    obtain ⟨hk, hks⟩ := List.forall_mem_cons.1 hchild
    obtain ⟨s₁, hprogress, hnotes, hsame⟩ :=
      progress_notes n.place? (n.refill (done ++ k :: ks)) e s
    rw [interpretChildren, List.flatMap_cons, List.flatMap_cons, ← hsame]
    refine .noted hprogress hnotes ?_
    refine .bind ((hk s₁).within (List.Sublist.refl _) fun h => ⟨(List.nodup_append.1 h).1, rfl⟩)
      fun new s₂ hnew => ?_
    -- what has been worked through by now is below this child
    have hsettles : s₁.2.SettlesIn (· ∈ k.workPlaces) s₂.2 := by
      have h := settles_interpret (n := k) (T := (· ∈ k.workPlaces)) (fun _ hp => hp) e s₁
      rwa [hnew] at h
    refine (ih (done ++ [new]) hks s₂).within ?_ fun h => ?_
    · exact List.Sublist.flatMap_right _ fun m _ => openTags_sublist m fun p _ => hsettles.stays p
    · obtain ⟨-, hnodup, hapart⟩ := List.nodup_append.1 h
      refine ⟨hnodup, List.flatMap_congr fun m hm => openTags_congr m fun p hp => ?_⟩
      refine ⟨hsettles.stays p, fun hnone => hsettles.within p hnone fun hmem => ?_⟩
      exact hapart p hmem p (List.mem_flatMap.2 ⟨m, hm, hp⟩) rfl

/-- A pass over a node goes through its open tags in turn. None is passed over if its containers have
    places of their own. -/
theorem goesThrough_interpret (n : Node) (s : World × TagMemory) :
    GoesThrough e s (n.openTags s.2.settled) n.workPlaces.Nodup (n.interpret e s) := by
  induction n using inductionOnChildren false generalizing s with
  | h n ih =>
    have container : n.IsContainer →
        GoesThrough e s (n.openTags s.2.settled) n.workPlaces.Nodup (n.interpret e s) := by
      intro hn
      cases hfound : s.2.settled.at? n.place? with
      | some v =>
        rw [interpret_of_settled hn hfound, hn.openTags_of_settled hfound]
        exact .ok (.nil (.refl s)) (List.Sublist.refl []) fun _ => rfl
      | none =>
        have hthrough := goesThrough_children n [] (n.children true)
          (fun k hk s => ih k (hn.children_eq false ▸ hk) s) s
        rw [interpret_of_new hn hfound, hn.openTags_of_new hfound, ← List.append_nil (List.flatMap _ _)]
        refine .bind (hthrough.within ?_ ?_) fun ks s₁ _ => ?_
        · rw [hn.children_eq false]
        · rw [workPlaces_eq, hn.children_eq false]
          exact fun h => ⟨(List.nodup_append.1 h).2.1, rfl⟩
        · obtain ⟨s₂, hsettle, hnotes⟩ := settle_notes n.place? (n.refill ks) e s₁
          exact .of_notes (by rw [Effect.bind_of_ok hsettle]; rfl) hnotes
    cases n with
    | list place items => exact container (.list place items)
    | map place entries => exact container (.map place entries)
    | tagged name payload =>
      rcases hr : (tagged name payload).interpret e s with ⟨f | v, s'⟩
      · exact .error (.nil (.refl s)) hr (List.Sublist.refl _) fun _ => List.prefix_refl _
      · exact .ok (.cons (.refl s) hr (.nil (.refl s'))) (List.Sublist.refl _) fun _ => rfl
    | scalar _ | pair _ _ | set _ => exact .of_notes (by rw [interpret]; rfl) (.refl s)

end Runbook.Node
