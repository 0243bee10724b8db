import Mathlib.Data.List.Flatten
import Runbook.Proofs.Agreement

set_option autoImplicit false

/-! # Sharing that cannot be observed

A container that stands in several places is worked through once, and where it is met again, what has
been made of it is taken. In the same document with nothing shared it is worked through again. Both
end with the same if nothing is asked in a shared container except to find the value of an id: when
the container is met again, its ids are known, and so working through it yields what it did, and
asks nothing. -/

namespace Runbook

namespace Node

/-! ## Shielded documents -/

/-- The places of the containers of a node, each as often as it occurs. -/
def places (n : Node) : List Nat := (n.parts true).filterMap place?

/-- An occurrence of an id stands in a node. -/
def Names (n : Node) (id : String) : Prop :=
  ∃ payload, tagged "Id" payload ∈ n.parts true ∧ payload.ident = .ok id

/-- A question stands in a node, and not only where the value of an id is found. -/
inductive Asks : Node → Prop
  | question {name : String} {payload : Node} (h : name = "Input" ∨ name = "HiddenInput") :
      Asks (tagged name payload)
  | inside {n k : Node} (hn : ∀ payload, n ≠ tagged "Id" payload) (hk : k ∈ n.children true)
      (h : Asks k) : Asks n

@[simp] theorem asks_list {place : Option Nat} {items : List Node} :
    (list place items).Asks ↔ ∃ x ∈ items, x.Asks := by
  constructor
  · intro h
    cases h with
    | inside _ hk h => exact ⟨_, hk, h⟩
  · rintro ⟨x, hx, h⟩
    exact .inside (by simp) hx h

@[simp] theorem asks_map {place : Option Nat} {entries : List (Scalar × Node)} :
    (map place entries).Asks ↔ ∃ x ∈ entries, x.2.Asks := by
  constructor
  · intro h
    cases h with
    | inside _ hk h =>
      obtain ⟨x, hx, rfl⟩ := List.mem_map.1 hk
      exact ⟨x, hx, h⟩
  · rintro ⟨x, hx, h⟩
    exact .inside (by simp) (List.mem_map_of_mem hx) h

@[simp] theorem asks_tagged {name : String} {payload : Node} :
    (tagged name payload).Asks ↔
      (name = "Input" ∨ name = "HiddenInput") ∨ (name ≠ "Id" ∧ payload.Asks) := by
  constructor
  · intro h
    cases h with
    | question h => exact .inl h
    | inside hn hk h =>
      obtain rfl := List.mem_singleton.1 hk
      exact .inr ⟨fun hname => hn _ (by rw [hname]), h⟩
  · rintro (h | ⟨hname, h⟩)
    · exact .question h
    · exact .inside (by simp [hname]) (List.mem_singleton_self _) h

@[simp] theorem asks_scalar {c : Scalar} : ¬ (scalar c).Asks := by
  intro h
  cases h with
  | inside _ hk _ => cases hk

/-- Documents without pairs whose sharing cannot be observed. -/
structure Shielded (n : Node) : Prop where
  unpaired : ∀ key value, pair key value ∉ n.parts true
  /-- Nodes with one place are one container. -/
  consistent : ∀ k ∈ n.parts true, ∀ k' ∈ n.parts true, ∀ p, k.place? = some p →
    k'.place? = some p → k = k'
  /-- A container that a tag is applied to is held by this tag only. -/
  payloads : ∀ name payload, tagged name payload ∈ n.parts true → ∀ p, payload.place? = some p →
    n.place? ≠ some p ∧ ∀ m ∈ n.parts true, ∀ k ∈ m.children true, k.place? = some p →
      ∃ payload', m = tagged name payload'
  /-- No value of an id is found by the same id. -/
  idents : ∀ payload id v, tagged "Id" payload ∈ n.parts true → payload.ident = .ok id →
    payload.identValue = .ok v → ¬ v.Names id
  /-- In a container that stands in several places, questions are asked to find the values of ids. -/
  questions : ∀ k ∈ n.parts true, ∀ p, k.place? = some p → 2 ≤ n.places.count p → k.Asks →
    tagged "Id" k ∈ n.parts true

variable {root n k : Node} {ks : List Node} {visited : List Nat} {p : Nat}

theorem places_eq (n : Node) : n.places = n.place?.toList ++ (n.children true).flatMap places := by
  have hflat : ∀ ks : List Node, (ks.flatMap (parts true)).filterMap place? = ks.flatMap places := by
    intro ks
    induction ks with
    | nil => rfl
    | cons k ks ih => rw [List.flatMap_cons, List.filterMap_append, ih, List.flatMap_cons, places]
  rw [places, parts_eq, List.filterMap_cons, hflat]
  cases n.place? <;> rfl

theorem mem_places (hk : k ∈ n.parts true) (hp : k.place? = some p) : p ∈ n.places :=
  List.mem_filterMap.2 ⟨k, hk, hp⟩

theorem Names.child {id : String} (h : k.Names id) (hk : k ∈ n.children true) : n.Names id := by
  obtain ⟨payload, hmem, hid⟩ := h
  exact ⟨payload, mem_parts_of_child hk hmem, hid⟩

/-- Some nodes of a document are met after some places. A place that comes up again is shared. -/
structure Met (root : Node) (visited : List Nat) (ks : List Node) : Prop where
  parts : ∀ k ∈ ks, k.parts true ⊆ root.parts true
  again : ∀ p, 2 ≤ (visited ++ ks.flatMap places).count p → 2 ≤ root.places.count p

/-- A place is not one of a container that a tag is applied to, unless the tag asks a question. -/
def Free (root : Node) (p : Nat) : Prop :=
  ∀ name payload, tagged name payload ∈ root.parts true → payload.place? = some p →
    name = "Input" ∨ name = "HiddenInput"

namespace Met

theorem head (h : Met root visited (k :: ks)) : Met root visited [k] where
  parts _ hx := h.parts _ (by simp_all)
  again p hp := h.again p (by
    simp only [List.flatMap_cons, List.flatMap_nil, List.append_nil, List.count_append] at hp ⊢
    omega)

theorem tail (h : Met root visited (k :: ks)) : Met root (visited ++ k.places) ks where
  parts _ hx := h.parts _ (List.mem_cons_of_mem _ hx)
  again p hp := h.again p (by simpa [List.append_assoc] using hp)

theorem children (h : Met root visited [n]) :
    Met root (visited ++ n.place?.toList) (n.children true) where
  parts c hc := fun _ hx => h.parts n List.mem_cons_self (mem_parts_of_child hc hx)
  again p hp := h.again p (by
    rw [List.flatMap_cons, List.flatMap_nil, List.append_nil, places_eq, ← List.append_assoc]
    exact hp)

theorem of_mem (h : Met root visited ks) (hk : k ∈ ks) : Met root visited [k] where
  parts _ hx := List.mem_singleton.1 hx ▸ h.parts k hk
  again p hp := h.again p (Nat.le_trans hp
    (((List.singleton_sublist.2 hk).flatMap places).append_left visited |>.count_le p))

theorem mem (h : Met root visited [n]) : n ∈ root.parts true :=
  h.parts n List.mem_cons_self (self_mem_parts _ _)

end Met

/-- What is held by a container, and not by a tag, is free. -/
theorem free_children (hroot : root.Shielded) (hn : n ∈ root.parts true)
    (htag : ∀ name payload, n ≠ tagged name payload) (hk : k ∈ n.children true)
    (hp : k.place? = some p) : Free root p := by
  intro name payload hmem hpayload
  obtain ⟨-, hheld⟩ := hroot.payloads name payload hmem p hpayload
  obtain ⟨payload', hn⟩ := hheld n hn k hk hp
  exact absurd hn (htag name payload')

/-- What a question is applied to is free. -/
theorem free_payload (hroot : root.Shielded) {name : String}
    (hname : name = "Input" ∨ name = "HiddenInput") (hn : tagged name k ∈ root.parts true)
    (hp : k.place? = some p) : Free root p := by
  intro name' payload hmem hpayload
  obtain ⟨-, hheld⟩ := hroot.payloads name' payload hmem p hpayload
  obtain ⟨payload', hn⟩ := hheld _ hn k (by simp [children]) hp
  cases hn
  exact hname

/-- The places that are not of a document. -/
def Outside (root : Node) (p : Nat) (_ : Node) : Prop := p ∉ root.places

/-! ## What has been worked through -/

open Interpretation

variable {e : Setting} {ids ids' : Idents} {m m' : TagMemory} {visited' : List Nat}

/-- What has been worked through has been met, and working through it again would yield the same
    wherever the ids are known, unless something is asked. -/
structure Tracks (root : Node) (e : Setting) (visited : List Nat) (m : TagMemory) : Prop where
  sound : m.Sound (Outside root)
  values : ∀ v ∈ m.ids.map (·.2), v.AtRest (Outside root)
  settled : ∀ p v, m.settled.get? p = some v → p ∈ visited ∧ Free root p ∧
    ∀ k ∈ root.parts true, k.place? = some p → ¬ k.Asks → Repeats e m.ids k.unshared.interpret v

/-- Some nodes have been passed: only ids that they name have become known. -/
structure Passed (root : Node) (e : Setting) (visited : List Nat) (ids : Idents) (ks : List Node)
    (m : TagMemory) : Prop where
  tracks : Tracks root e (visited ++ ks.flatMap places) m
  grows : ids.Grows m.ids
  named : ∀ id, ids.get? id = none → m.ids.get? id ≠ none → ∃ k ∈ ks, k.Names id

theorem Tracks.mono (h : Tracks root e visited m) (hsound : m'.Sound (Outside root))
    (hvalues : ∀ v ∈ m'.ids.map (·.2), v.AtRest (Outside root)) (hsettled : m'.settled = m.settled)
    (hgrows : m.ids.Grows m'.ids) (hsubset : visited ⊆ visited') : Tracks root e visited' m' := by
  refine ⟨hsound, hvalues, fun p v hp => ?_⟩
  obtain ⟨hmem, hfree, hrepeats⟩ := h.settled p v (hsettled ▸ hp)
  exact ⟨hsubset hmem, hfree, fun k hk hplace hasks => (hrepeats k hk hplace hasks).mono hgrows⟩

theorem Tracks.subset (h : Tracks root e visited m) (hsubset : visited ⊆ visited') :
    Tracks root e visited' m :=
  h.mono h.sound h.values rfl (.refl _) hsubset

/-- Nothing has become known. -/
theorem Tracks.passed (h : Tracks root e visited m) (ks : List Node) :
    Passed root e visited m.ids ks m :=
  ⟨h.subset (List.subset_append_left _ _), .refl _, fun _ hnone hsome => absurd hnone hsome⟩

theorem Passed.cons (h : Passed root e visited ids [k] m)
    (h' : Passed root e (visited ++ k.places) m.ids ks m') :
    Passed root e visited ids (k :: ks) m' := by
  refine ⟨?_, h.grows.trans h'.grows, fun id hnone hsome => ?_⟩
  · simpa [List.append_assoc] using h'.tracks
  · by_cases hid : m.ids.get? id = none
    · obtain ⟨x, hx, hnames⟩ := h'.named id hid hsome
      exact ⟨x, List.mem_cons_of_mem _ hx, hnames⟩
    · obtain ⟨x, hx, hnames⟩ := h.named id hnone hid
      obtain rfl := List.mem_singleton.1 hx
      exact ⟨x, List.mem_cons_self, hnames⟩

theorem Passed.of_mem (h : Passed root e visited ids [k] m) (hk : k ∈ ks) :
    Passed root e visited ids ks m := by
  have hsubset := ((List.singleton_sublist.2 hk).flatMap places).append_left visited |>.subset
  refine ⟨h.tracks.subset hsubset, h.grows, fun id hnone hsome => ?_⟩
  obtain ⟨x, hx, hnames⟩ := h.named id hnone hsome
  exact ⟨k, hk, List.mem_singleton.1 hx ▸ hnames⟩

/-- Passing what a node holds is passing the node. -/
theorem Passed.parent (h : Passed root e (visited ++ n.place?.toList) ids (n.children true) m) :
    Passed root e visited ids [n] m := by
  refine ⟨?_, h.grows, fun id hnone hsome => ?_⟩
  · have htracks := h.tracks
    rw [List.append_assoc, ← places_eq] at htracks
    simpa using htracks
  · obtain ⟨x, hx, hnames⟩ := h.named id hnone hsome
    exact ⟨n, List.mem_singleton_self n, hnames.child hx⟩

/-- What a node comes to: a value at rest. It comes to the same again wherever the ids are known, unless
    something is asked. -/
structure ComesTo (root : Node) (e : Setting) (visited : List Nat) (ids : Idents) (n v : Node)
    (m : TagMemory) : Prop where
  passed : Passed root e visited ids [n] m
  atRest : v.AtRest (Outside root)
  again : ¬ n.Asks → Repeats e m.ids n.unshared.interpret v

/-- A node comes to the same in a document and in the tree that it is. -/
def Agrees (root : Node) (e : Setting) (k : Node) : Prop :=
  ∀ visited s, Met root visited [k] → (∀ p, k.place? = some p → Free root p) →
    Tracks root e visited s.2 →
    Agree e s k.interpret k.unshared.interpret (ComesTo root e visited s.2.ids k)

/-! ## Containers -/

variable {s : World × TagMemory} {place : Option Nat}

/-- What is noted of a container that is worked through cannot be seen from a fresh state. -/
theorem agree_progress {v : Node} (hs : Tracks root e visited s.2)
    (hplace : ∀ p, place = some p → p ∈ root.places)
    (hv : (∃ items, v = list none items) ∨ ∃ entries, v = map none entries) :
    Agree e s (progress place v) (progress none v) fun _ m =>
      Tracks root e visited m ∧ m.ids = s.2.ids := by
  have hsound : ∀ u s', progress place v e s = (.ok u, s') → s'.2.Sound (Outside root) :=
    fun u s' hrun => (yields_progress hs.sound
      (fun p hp => ⟨hv, fun _ ht => absurd (hplace p hp) ht⟩) u s' hrun).sound
  cases place with
  | none => exact .inr ⟨(), s, rfl, rfl, hs, rfl⟩
  | some p =>
    have hs' := hs.mono (hsound _ _ rfl) hs.values rfl (.refl _) (List.Subset.refl _)
    exact .inr ⟨(), _, rfl, rfl, hs', rfl⟩

/-- A container that has been worked through is met again only as one of which nothing is asked. -/
theorem agree_settled (hroot : root.Shielded) {v : Node} (hn : Met root visited [n])
    (hs : Tracks root e visited s.2) (hsettled : s.2.settled.at? n.place? = some v)
    (hrun : n.interpret e s = (.ok v, s)) :
    Agree e s n.interpret n.unshared.interpret (ComesTo root e visited s.2.ids n) := by
  have hrest := atRest_of_settled hs.sound hsettled
  obtain ⟨p, hplace, hp⟩ := Option.bind_eq_some_iff.1 hsettled
  obtain ⟨hmem, hfree, hrepeats⟩ := hs.settled p v hp
  have hshared : 2 ≤ root.places.count p := by
    refine hn.again p ?_
    have hbefore := List.count_pos_iff.2 hmem
    have hhere := List.count_pos_iff.2 (mem_places (self_mem_parts true n) hplace)
    simp only [List.flatMap_cons, List.flatMap_nil, List.append_nil, List.count_append]
    omega
  -- Otherwise it would be what an id is applied to, and such a container is never worked through.
  have hasks : ¬ n.Asks := fun hasks => by
    have hname := hfree "Id" n (hroot.questions n hn.mem p hplace hshared hasks) hplace
    simp at hname
  have hagain := hrepeats n hn.mem hplace hasks
  exact .inr ⟨v, s, hrun, hagain _ (.refl _) s.1, hs.passed [n], hrest, fun _ => hagain⟩

/-- What a container comes to hold is noted. -/
theorem agree_settle {v : Node} (hs : Tracks root e visited s.2) (hrest : v.AtRest (Outside root))
    (hv : (∃ items, v = list none items) ∨ ∃ entries, v = map none entries)
    (hplace : ∀ p, place = some p → p ∈ root.places ∧ p ∈ visited ∧ Free root p ∧
      ∀ k ∈ root.parts true, k.place? = some p → ¬ k.Asks →
        Repeats e s.2.ids k.unshared.interpret v) :
    Agree e s (settle place v) (settle none v) fun _ m =>
      Tracks root e visited m ∧ m.ids = s.2.ids := by
  have hsound : ∀ u s', settle place v e s = (.ok u, s') → s'.2.Sound (Outside root) :=
    fun u s' hrun => (yields_settle hs.sound
      (fun p hp => ⟨hv, fun _ ht => absurd (hplace p hp).1 ht⟩) hrest u s' hrun).sound
  cases place with
  | none => exact .inr ⟨(), s, rfl, rfl, hs, rfl⟩
  | some p =>
    refine .inr ⟨(), _, rfl, rfl, ⟨hsound _ _ rfl, hs.values, fun q u hq => ?_⟩, rfl⟩
    rw [Contents.get?_set] at hq
    split at hq
    · next heq =>
      cases hq
      exact heq ▸ (hplace p rfl).2
    · exact hs.settled q u hq

/-- A container that has not been worked through comes to what its children come to. -/
theorem agree_container {α : Type} {a b : Interpretation α} {f : α → Node} (hroot : root.Shielded)
    (hn : Met root visited [n]) (hfree : ∀ p, n.place? = some p → Free root p)
    (hf : ∀ x, (∃ items, f x = list none items) ∨ ∃ entries, f x = map none entries)
    (hrun : n.interpret e s = (a >>= fun x => do settle n.place? (f x); return f x) e s)
    (htree : n.unshared.interpret = b >>= fun x => do settle none (f x); return f x)
    (ha : Agree e s a b fun x m =>
      Passed root e (visited ++ n.place?.toList) s.2.ids (n.children true) m ∧
        (f x).AtRest (Outside root) ∧
        ((∀ c ∈ n.children true, ¬ c.Asks) → Repeats e m.ids b x))
    (hasks : ∀ c ∈ n.children true, c.Asks → n.Asks) :
    Agree e s n.interpret n.unshared.interpret (ComesTo root e visited s.2.ids n) := by
  refine .of_eq hrun (congrFun (congrFun htree e) _) (ha.bind ?_)
  rintro x s₁ - ⟨hpassed, hrest, hrepeats⟩
  -- Repeated in the tree, the container is worked through again, and yields the same from its parts.
  have hrepeats' : ¬ n.Asks → Repeats e s₁.2.ids n.unshared.interpret (f x) := fun hn => by
    rw [htree]
    exact (hrepeats fun c hc h => hn (hasks c hc h)).bind (.bind .pure .pure)
  have hparent := hpassed.parent
  refine (agree_settle hparent.tracks hrest (hf x) fun p hp => ?_).bind ?_
  · have hmem := mem_places (self_mem_parts true n) hp
    refine ⟨mem_places hn.mem hp, ?_, hfree p hp, fun k hk hplace hask => ?_⟩
    · simpa using Or.inr hmem
    · -- What is noted for the place serves for this container only.
      obtain rfl := hroot.consistent n hn.mem k hk p hp hplace
      exact hrepeats' hask
  · rintro _ s₂ - ⟨htracks, hids⟩
    refine .pure ⟨⟨htracks, hids ▸ hparent.grows, hids ▸ hparent.named⟩, hrest, fun hn => ?_⟩
    exact hids ▸ hrepeats' hn

/-- Items are met one after the other, each after what the ones before it have left behind. -/
theorem agree_interpretItems (hplace : ∀ p, place = some p → p ∈ root.places) {items : List Node}
    (hitems : ∀ x ∈ items, Agrees root e x)
    (hfree : ∀ x ∈ items, ∀ p, x.place? = some p → Free root p) :
    ∀ (done : List Node) (visited : List Nat) (s : World × TagMemory),
      (∀ x ∈ done, x.AtRest (Outside root)) → Met root visited items → Tracks root e visited s.2 →
      Agree e s (interpretItems place done items) (interpretItems none done (items.map unshared))
        fun items' m => Passed root e visited s.2.ids items m ∧
          (∀ x ∈ items', x.AtRest (Outside root)) ∧
          ((∀ x ∈ items, ¬ x.Asks) →
            Repeats e m.ids (interpretItems none done (items.map unshared)) items') := by
  induction items with
  | nil =>
    intro done visited s hdone _ hs
    rw [List.map_nil, interpretItems, interpretItems]
    exact .pure ⟨hs.passed [], hdone, fun _ => .pure⟩
  | cons item items ih =>
    intro done visited s hdone hmet hs
    rw [List.map_cons, interpretItems, interpretItems]
    refine (agree_progress hs hplace (.inl ⟨_, rfl⟩)).bind ?_
    rintro _ s₁ - ⟨hs₁, hids⟩
    refine (hitems item List.mem_cons_self visited s₁ hmet.head
      (hfree item List.mem_cons_self) hs₁).bind ?_
    rintro new s₂ - ⟨hpassed, hnew, hrepeats⟩
    have hdone' : ∀ x ∈ done ++ [new], x.AtRest (Outside root) := fun x hx =>
      (List.mem_append.1 hx).elim (hdone x) fun hx => List.mem_singleton.1 hx ▸ hnew
    rw [hids] at hpassed
    refine (ih (fun x hx => hitems x (List.mem_cons_of_mem _ hx))
      (fun x hx => hfree x (List.mem_cons_of_mem _ hx)) (done ++ [new]) _ s₂ hdone' hmet.tail
      (by simpa using hpassed.tracks)).imp ?_
    rintro items' s₃ - ⟨hpassed', hrest, hrepeats'⟩
    refine ⟨hpassed.cons hpassed', hrest, fun hasks => .bind .pure (.bind (v := new) ?_ ?_)⟩
    · exact (hrepeats (hasks item List.mem_cons_self)).mono hpassed'.grows
    · exact hrepeats' fun x hx => hasks x (List.mem_cons_of_mem _ hx)

theorem agree_interpretEntries (hplace : ∀ p, place = some p → p ∈ root.places)
    {entries : List (Scalar × Node)} (hentries : ∀ x ∈ entries, Agrees root e x.2)
    (hfree : ∀ x ∈ entries, ∀ p, x.2.place? = some p → Free root p) :
    ∀ (done : List (Scalar × Node)) (visited : List Nat) (s : World × TagMemory),
      (∀ x ∈ done, x.2.AtRest (Outside root)) → Met root visited (entries.map (·.2)) →
      Tracks root e visited s.2 →
      Agree e s (interpretEntries place done entries)
        (interpretEntries none done (entries.map fun (key, value) => (key, value.unshared)))
        fun entries' m => Passed root e visited s.2.ids (entries.map (·.2)) m ∧
          (∀ x ∈ entries', x.2.AtRest (Outside root)) ∧
          ((∀ x ∈ entries, ¬ x.2.Asks) → Repeats e m.ids
            (interpretEntries none done (entries.map fun (key, value) => (key, value.unshared)))
            entries') := by
  induction entries with
  | nil =>
    intro done visited s hdone _ hs
    rw [List.map_nil, interpretEntries, interpretEntries]
    exact .pure ⟨hs.passed [], hdone, fun _ => .pure⟩
  | cons entry entries ih =>
    obtain ⟨key, value⟩ := entry
    intro done visited s hdone hmet hs
    rw [List.map_cons, interpretEntries, interpretEntries]
    refine (agree_progress hs hplace (.inr ⟨_, rfl⟩)).bind ?_
    rintro _ s₁ - ⟨hs₁, hids⟩
    refine (hentries _ List.mem_cons_self visited s₁ hmet.head
      (hfree _ List.mem_cons_self) hs₁).bind ?_
    rintro new s₂ - ⟨hpassed, hnew, hrepeats⟩
    have hdone' : ∀ x ∈ done ++ [(key, new)], x.2.AtRest (Outside root) := fun x hx =>
      (List.mem_append.1 hx).elim (hdone x) fun hx => List.mem_singleton.1 hx ▸ hnew
    rw [hids] at hpassed
    refine (ih (fun x hx => hentries x (List.mem_cons_of_mem _ hx))
      (fun x hx => hfree x (List.mem_cons_of_mem _ hx)) (done ++ [(key, new)]) _ s₂ hdone' hmet.tail
      (by simpa using hpassed.tracks)).imp ?_
    rintro entries' s₃ - ⟨hpassed', hrest, hrepeats'⟩
    refine ⟨hpassed.cons hpassed', hrest, fun hasks => .bind .pure (.bind (v := new) ?_ ?_)⟩
    · exact (hrepeats (hasks _ List.mem_cons_self)).mono hpassed'.grows
    · exact hrepeats' fun x hx => hasks x (List.mem_cons_of_mem _ hx)

/-! ## Tags -/

theorem agree_interpretParts {items : List Node} (hitems : ∀ x ∈ items, Agrees root e x)
    (hfree : ∀ x ∈ items, ∀ p, x.place? = some p → Free root p) :
    ∀ (index : Nat) (visited : List Nat) (s : World × TagMemory), Met root visited items →
      Tracks root e visited s.2 →
      Agree e s (interpretParts index items) (interpretParts index (items.map unshared)) fun t m =>
        Passed root e visited s.2.ids items m ∧
          ((∀ x ∈ items, ¬ x.Asks) →
            Repeats e m.ids (interpretParts index (items.map unshared)) t) := by
  induction items with
  | nil =>
    intro index visited s _ hs
    rw [List.map_nil, interpretParts]
    exact .pure ⟨hs.passed [], fun _ => .pure⟩
  | cons item items ih =>
    intro index visited s hmet hs
    rw [List.map_cons, interpretParts, interpretParts]
    refine (hitems item List.mem_cons_self visited s hmet.head
      (hfree item List.mem_cons_self) hs).bind ?_
    rintro v s₁ - ⟨hpassed, -, hrepeats⟩
    -- A part that is no text fails on both sides, with what is seen of it.
    refine (agree_part (Q := fun t m => v = .text t ∧ m = s₁.2) index v
      fun t ht => ⟨ht, rfl⟩).bind ?_
    rintro t s₂ - ⟨rfl, hs₂⟩
    rw [← hs₂] at hpassed hrepeats
    refine (ih (fun x hx => hitems x (List.mem_cons_of_mem _ hx))
      (fun x hx => hfree x (List.mem_cons_of_mem _ hx)) (index + 1) _ s₂ hmet.tail
      (by simpa using hpassed.tracks)).bind ?_
    rintro t' s₃ - ⟨hpassed', hrepeats'⟩
    refine .pure ⟨hpassed.cons hpassed', fun hasks =>
      .bind (v := .text t) ?_ (.bind .pure (.bind ?_ .pure))⟩
    · exact (hrepeats (hasks item List.mem_cons_self)).mono hpassed'.grows
    · exact hrepeats' fun x hx => hasks x (List.mem_cons_of_mem _ hx)

/-- An id that was not known is given a value. -/
theorem Passed.put {id : String} {v : Node} (h : Passed root e visited ids ks m)
    (hnames : ∃ k ∈ ks, k.Names id) (hv : v.AtRest (Outside root)) (hnew : m.ids.get? id = none) :
    Passed root e visited ids ks { m with ids := m.ids.put id v } := by
  have hgrows : m.ids.Grows (m.ids.put id v) := Idents.grows_put hnew
  have hvalues : ∀ x ∈ (m.ids.put id v).map (·.2), x.AtRest (Outside root) := fun x hx =>
    (Idents.mem_put hx).elim (fun heq => heq ▸ hv) (h.tracks.values x)
  refine ⟨h.tracks.mono (h.tracks.sound.leads.put hv hnew).sound hvalues rfl hgrows
    (List.Subset.refl _), h.grows.trans hgrows, fun id' hnone hsome => ?_⟩
  rw [Idents.get?_put] at hsome
  split at hsome
  · next heq => exact heq ▸ hnames
  · exact h.named id' hnone hsome

/-- An id that is known is identified by its value. -/
theorem repeats_identify {id : String} {x : Node} (first : Interpretation Node)
    (h : ids.get? id = some x) : Repeats e ids (identify id first) x.unshared := by
  intro ids' hgrows w
  rw [identify_of_known (s := (w, .start ids')) (hgrows id x h), TagMemory.view_start]

theorem agree_identify {id : String} {first first' : Interpretation Node}
    (hs : Tracks root e visited s.2) (hnames : ∃ k ∈ ks, k.Names id)
    (hfirst : s.2.ids.get? id = none → Agree e s first first' fun v m =>
      Passed root e visited s.2.ids ks m ∧ v.AtRest (Outside root) ∧ m.ids.get? id = none) :
    Agree e s (identify id first) (identify id first') fun v m =>
      Passed root e visited s.2.ids ks m ∧ ∃ x, m.ids.get? id = some x ∧ v = x.unshared := by
  cases hid : s.2.ids.get? id with
  | some x =>
    have hview := hs.sound.view (hs.sound.values id x hid)
    refine .inr ⟨x.unshared, s, ?_, ?_, hs.passed ks, x, hid, rfl⟩
    · rw [identify_of_known hid, hview]
    · exact repeats_identify first' hid _ (.refl _) s.1
  | none =>
    refine .of_eq (identify_of_new hid first) (identify_of_new (s := fresh s) hid first') ?_
    refine (hfirst hid).bind ?_
    rintro v s₁ - ⟨hpassed, hv, hnew⟩
    have hput := hpassed.put hnames hv hnew
    refine .inr ⟨v.unshared, (s₁.1, { s₁.2 with ids := s₁.2.ids.put id v }), ?_, ?_, hput, v, ?_, rfl⟩
    · exact congrArg (fun u => (Except.ok u, _)) (hput.tracks.sound.view hv)
    · exact congrArg (fun u => (Except.ok u, _)) (TagMemory.view_start _ v)
    · rw [Idents.get?_put, if_pos rfl]

/-- A payload names the same id, however it is seen. -/
theorem ident_view {payload : Node} {id : String} (hs : m.Sound (Outside root)) :
    (payload.mapChildren m.view).ident = .ok id ↔ payload.ident = .ok id :=
  ident_mapChildren fun _ _ => asItStands_eq_scalar_iff (hs.pending.append hs.settled)

theorem ident_unshared_view (payload : Node) (ids : Idents) {id : String} :
    (payload.unshared.mapChildren (TagMemory.start ids).view).ident = .ok id ↔
      payload.ident = .ok id := by
  rw [ident_mapChildren fun x c => by rw [TagMemory.view_start, unshared_eq_scalar_iff], unshared_eq,
    ident_mapChildren fun x c => unshared_eq_scalar_iff]

/-- What a tag is applied to that asks no question is not worked through as a container. -/
theorem at?_of_tagged (hs : Tracks root e visited m) {name : String}
    (hname : ¬ (name = "Input" ∨ name = "HiddenInput")) (h : tagged name n ∈ root.parts true) :
    m.settled.at? n.place? = none := by
  rw [Option.eq_none_iff_forall_ne_some]
  intro v hv
  obtain ⟨p, hplace, hp⟩ := Option.bind_eq_some_iff.1 hv
  obtain ⟨-, hfree, -⟩ := hs.settled p v hp
  exact hname (hfree name n h hplace)

/-- Wherever the id is known, what stands beside it is not met, so nothing is asked. -/
theorem agree_interpretIdent (hroot : root.Shielded) {payload : Node}
    (hpayload : ∀ v ∈ payload.children true, Agrees root e v)
    (hn : Met root visited [tagged "Id" payload])
    (hs : Tracks root e visited s.2) :
    Agree e s payload.interpretIdent payload.unshared.interpretIdent fun v m =>
      Passed root e visited s.2.ids [tagged "Id" payload] m ∧ v.AtRest (Outside root) ∧
        Repeats e m.ids payload.unshared.interpretIdent v := by
  have htree : ∀ ids w, payload.unshared.interpretIdent e (w, .start ids) = _ := fun ids w =>
    interpretIdent_of_new (s := (w, .start ids)) (by rw [unshared_eq, place?_mapChildren]; rfl)
  refine .of_eq (interpretIdent_of_new (at?_of_tagged hs (by decide) hn.mem)) (htree _ _) ?_
  refine (Agree.check (Q := fun id m => payload.ident = .ok id ∧ m = s.2) (fun id => ?_)
    fun id hid => ⟨(ident_view hs.sound).1 hid, rfl⟩).bind ?_
  · exact (ident_view hs.sound).trans (ident_unshared_view _ _).symm
  rintro id s₁ - ⟨hid, hs₁⟩
  rw [← hs₁] at hs ⊢
  have hnames : ∃ k ∈ [tagged "Id" payload], k.Names id :=
    ⟨_, List.mem_singleton_self _, payload, self_mem_parts _ _, hid⟩
  refine (agree_identify hs hnames fun hnew => ?_).imp ?_
  · rw [identValue_unshared hid]
    cases hvalue : payload.identValue with
    | error x => exact .inl ⟨_, _, _, _, rfl, rfl⟩
    | ok v =>
      have hv := mem_children_of_identValue (b := true) hid hvalue
      have htags : ∀ name x, payload ≠ tagged name x := by
        rintro name x rfl
        cases hid
      have hmet := hn.children.head.children
      have htracks : Tracks root e (visited ++ [] ++ payload.place?.toList) s₁.2 :=
        hs.subset (by simp)
      refine (hpayload v hv _ s₁ (hmet.of_mem hv)
        (fun p hp => free_children hroot hn.children.mem htags hv hp) htracks).imp ?_
      rintro u s₂ - ⟨hpassed, hu, -⟩
      refine ⟨(hpassed.of_mem hv).parent.parent, hu, Classical.byContradiction fun hsome => ?_⟩
      -- Only ids that the value names have become known, and this one is not among them.
      obtain ⟨k, hk, hknames⟩ := hpassed.named id hnew hsome
      obtain rfl := List.mem_singleton.1 hk
      exact hroot.idents payload id k hn.mem hid hvalue hknames
  · rintro v s₂ - ⟨hpassed, x, hx, rfl⟩
    refine ⟨hpassed, atRest_unshared x, fun ids' hgrows w => ?_⟩
    have hcheck := (ident_unshared_view payload ids').2 hid
    rw [htree, hcheck]
    exact repeats_identify _ hx ids' hgrows w

theorem agree_interpretJoin (hroot : root.Shielded) {payload : Node}
    (hpayload : ∀ v ∈ payload.children true, Agrees root e v)
    (hn : Met root visited [tagged "StrF" payload]) (hs : Tracks root e visited s.2) :
    Agree e s payload.interpretJoin payload.unshared.interpretJoin fun v m =>
      Passed root e visited s.2.ids [tagged "StrF" payload] m ∧ v.AtRest (Outside root) ∧
        (¬ payload.Asks → Repeats e m.ids payload.unshared.interpretJoin v) := by
  cases payload with
  | list place items =>
    have hnew : s.2.settled.at? place = none :=
      at?_of_tagged (n := list place items) hs (by decide) hn.mem
    have hmet := hn.children.head
    have hfree : ∀ x ∈ items, ∀ p, x.place? = some p → Free root p := fun x hx p hp =>
      free_children hroot hmet.mem (by simp) hx hp
    have htracks : Tracks root e (visited ++ [] ++ place.toList) s.2 := hs.subset (by simp)
    have htree : ∀ s : World × TagMemory, (list place items).unshared.interpretJoin e s
        = (interpretParts 0 (items.map unshared) >>= fun t => pure (text t)) e s := fun s => by
      rw [unshared_list, interpretJoin_list]
      rfl
    refine .of_eq (interpretJoin_list.trans (by rw [hnew])) (htree _) ?_
    refine (agree_interpretParts hpayload hfree 0 _ s hmet.children htracks).bind ?_
    rintro t s₁ - ⟨hpassed, hrepeats⟩
    refine .pure ⟨hpassed.parent.parent, atRest_scalar _, fun hasks ids' hgrows w => ?_⟩
    rw [htree]
    have hparts := hrepeats fun x hx h => hasks (.inside (by simp) hx h)
    exact hparts.bind (f := fun t => Pure.pure (text t)) .pure ids' hgrows w
  | scalar _ | map _ _ | tagged _ _ | pair _ _ | set _ =>
    simp only [unshared, interpretJoin]
    exact .inl ⟨_, _, _, _, rfl, rfl⟩

theorem agree_question (hroot : root.Shielded) {name : String} {payload : Node} {hidden : Bool}
    (hname : name = "Input" ∨ name = "HiddenInput") (hpayload : Agrees root e payload)
    (hn : Met root visited [tagged name payload]) (hs : Tracks root e visited s.2) :
    Agree e s (payload.interpret >>= input hidden) (payload.unshared.interpret >>= input hidden)
      fun v m => Passed root e visited s.2.ids [tagged name payload] m ∧ v.AtRest (Outside root) := by
  have hfree : ∀ p, payload.place? = some p → Free root p :=
    fun p hp => free_payload hroot hname hn.mem hp
  refine (hpayload _ s hn.children hfree (hs.subset (by simp))).bind ?_
  rintro v s₁ - ⟨hpassed, -, -⟩
  exact agree_input hidden v fun t => ⟨hpassed.parent, atRest_scalar _⟩

theorem agree_list (hroot : root.Shielded) {items : List Node}
    (hitems : ∀ x ∈ items, Agrees root e x) (hn : Met root visited [list place items])
    (hfree : ∀ p, place = some p → Free root p) (hs : Tracks root e visited s.2) :
    Agree e s (list place items).interpret (list place items).unshared.interpret
      (ComesTo root e visited s.2.ids (list place items)) := by
  cases hsettled : s.2.settled.at? place with
  | some v => exact agree_settled hroot hn hs hsettled (interpret_list_of_settled hsettled)
  | none =>
    have hplace : ∀ p, place = some p → p ∈ root.places := fun p hp =>
      mem_places (k := list place items) hn.mem hp
    have hfree' : ∀ x ∈ items, ∀ p, x.place? = some p → Free root p := fun x hx p hp =>
      free_children hroot hn.mem (by simp) hx hp
    have htree : (list place items).unshared.interpret
        = interpretItems none [] (items.map unshared) >>= fun items => do
          settle none (list none items)
          return list none items := by
      rw [unshared_list]
      funext e s
      exact interpret_list_of_new rfl
    refine agree_container hroot hn hfree (fun items => .inl ⟨items, rfl⟩)
      (interpret_list_of_new hsettled) htree ?_ fun x hx h => .inside (by simp) hx h
    refine (agree_interpretItems hplace hitems hfree' [] _ s (by simp) hn.children
      (hs.subset (List.subset_append_left _ _))).imp ?_
    rintro items' s₁ - ⟨hpassed, hrest, hrepeats⟩
    exact ⟨hpassed, atRest_list_none hrest, hrepeats⟩

theorem agree_map (hroot : root.Shielded) {entries : List (Scalar × Node)}
    (hentries : ∀ x ∈ entries, Agrees root e x.2) (hn : Met root visited [map place entries])
    (hfree : ∀ p, place = some p → Free root p) (hs : Tracks root e visited s.2) :
    Agree e s (map place entries).interpret (map place entries).unshared.interpret
      (ComesTo root e visited s.2.ids (map place entries)) := by
  cases hsettled : s.2.settled.at? place with
  | some v => exact agree_settled hroot hn hs hsettled (interpret_map_of_settled hsettled)
  | none =>
    have hplace : ∀ p, place = some p → p ∈ root.places := fun p hp =>
      mem_places (k := map place entries) hn.mem hp
    have hfree' : ∀ x ∈ entries, ∀ p, x.2.place? = some p → Free root p := fun x hx p hp =>
      free_children hroot hn.mem (by simp) (List.mem_map_of_mem hx) hp
    have htree : (map place entries).unshared.interpret
        = interpretEntries none [] (entries.map fun (key, value) => (key, value.unshared))
          >>= fun entries => do
            settle none (map none entries)
            return map none entries := by
      rw [unshared_map]
      funext e s
      exact interpret_map_of_new rfl
    refine agree_container hroot hn hfree (fun entries => .inr ⟨entries, rfl⟩)
      (interpret_map_of_new hsettled) htree ?_ fun x hx h => .inside (by simp) hx h
    refine (agree_interpretEntries hplace hentries hfree' [] _ s (by simp) hn.children
      (hs.subset (List.subset_append_left _ _))).imp ?_
    rintro entries' s₁ - ⟨hpassed, hrest, hrepeats⟩
    exact ⟨hpassed, atRest_map_none hrest, fun h =>
      hrepeats fun x hx => h x.2 (List.mem_map_of_mem hx)⟩

theorem agree_tagged (hroot : root.Shielded) {name : String} {payload : Node}
    (hpayload : Agrees root e payload) (hbelow : ∀ v ∈ payload.children true, Agrees root e v)
    (hn : Met root visited [tagged name payload]) (hs : Tracks root e visited s.2) :
    Agree e s (tagged name payload).interpret (tagged name payload).unshared.interpret
      (ComesTo root e visited s.2.ids (tagged name payload)) := by
  rw [unshared]
  by_cases hjoin : name = "StrF"
  · subst hjoin
    rw [interpret_strF, interpret_strF]
    refine (agree_interpretJoin hroot hbelow hn hs).under.imp ?_
    rintro v s₁ - ⟨hpassed, hrest, hrepeats⟩
    refine ⟨hpassed, hrest, fun hasks => ?_⟩
    rw [unshared, interpret_strF]
    exact (hrepeats fun h => hasks (.inside (by simp) (List.mem_singleton_self _) h)).under
  by_cases hinput : name = "Input"
  · subst hinput
    rw [interpret_input, interpret_input]
    refine (agree_question hroot (.inl rfl) hpayload hn hs).under.imp ?_
    rintro v s₁ - ⟨hpassed, hrest⟩
    exact ⟨hpassed, hrest, fun hasks => absurd (.question (.inl rfl)) hasks⟩
  by_cases hhidden : name = "HiddenInput"
  · subst hhidden
    rw [interpret_hiddenInput, interpret_hiddenInput]
    refine (agree_question hroot (.inr rfl) hpayload hn hs).under.imp ?_
    rintro v s₁ - ⟨hpassed, hrest⟩
    exact ⟨hpassed, hrest, fun hasks => absurd (.question (.inr rfl)) hasks⟩
  by_cases hid : name = "Id"
  · subst hid
    rw [interpret_id, interpret_id]
    refine (agree_interpretIdent hroot hbelow hn hs).under.imp ?_
    rintro v s₁ - ⟨hpassed, hrest, hrepeats⟩
    refine ⟨hpassed, hrest, fun _ => ?_⟩
    rw [unshared, interpret_id]
    exact hrepeats.under
  · simp only [interpret, hjoin, hinput, hhidden, hid, if_false]
    exact .inl ⟨_, _, _, _, rfl, rfl⟩

/-- Whatever is met of a document comes to the same in the tree that it is. -/
theorem agrees (hroot : root.Shielded) (n : Node) : Agrees root e n := by
  -- Below a tag, what its payload holds is met, and not the payload: all parts are needed.
  induction n using inductionOnParts true with
  | h n ih =>
    intro visited s hn hfree hs
    have hchildren : ∀ c ∈ n.children true, Agrees root e c :=
      fun c hc => ih c hc c (self_mem_parts true c)
    cases n with
    | scalar c =>
      rw [unshared, interpret]
      exact .pure ⟨hs.passed _, atRest_scalar c, fun _ => .pure⟩
    | set members =>
      rw [unshared, interpret]
      exact .pure ⟨hs.passed _, atRest_set members, fun _ => .pure⟩
    | pair key value => exact absurd hn.mem (hroot.unpaired key value)
    | list place items => exact agree_list hroot hchildren hn hfree hs
    | map place entries =>
      exact agree_map hroot (fun x hx => hchildren x.2 (List.mem_map_of_mem hx)) hn hfree hs
    | tagged name payload =>
      have hpayload := List.mem_singleton_self payload
      exact agree_tagged hroot (hchildren payload hpayload)
        (fun v hv => ih payload hpayload v (mem_parts_of_child hv (self_mem_parts true v))) hn hs

/-! ## The whole pass -/

/-- A document is begun with values that have no container in common with it. -/
theorem Tracks.start (h : ∀ v ∈ ids.map (·.2), ∀ p ∈ v.places, p ∉ root.places) :
    Tracks root e [] (.start ids) := by
  have hvalues : ∀ v ∈ ids.map (·.2), v.AtRest (Outside root) :=
    fun v hv k hk p hp => h v hv p (mem_places hk hp)
  exact ⟨.start fun id v hv => hvalues v (Idents.mem_of_get? hv), hvalues, fun _ _ h => (nomatch h)⟩

/-- All that is known of ids is seen as in a memory with which a document is begun. -/
theorem Tracks.viewIds (h : Tracks root e visited m) :
    m.viewIds = (TagMemory.start m.ids).viewIds := by
  refine List.map_congr_left fun entry hentry => ?_
  dsimp only
  rw [TagMemory.view_start, h.sound.view (h.values _ (List.mem_map_of_mem hentry))]

/-- In a shielded document, sharing cannot be observed: it comes to the same as the tree that it is,
    with the same questions and answers, and with the same values of the ids. -/
theorem resolve_unshared (hroot : root.Shielded)
    (hcache : ∀ v ∈ ids.map (·.2), ∀ p ∈ v.places, p ∉ root.places) (w : World) :
    (∃ x s y t, root.resolve e (w, ids) = (.error x, s) ∧
      root.unshared.resolve e (w, ids) = (.error y, t)) ∨
    ∃ v s, root.resolve e (w, ids) = (.ok v, s) ∧ root.unshared.resolve e (w, ids) = (.ok v, s) := by
  have hmet : Met root [] [root] := ⟨by simp, fun p hp => by simpa using hp⟩
  have hfree : ∀ p, root.place? = some p → Free root p := fun p hp name payload hmem hpayload =>
    absurd hp (hroot.payloads name payload hmem p hpayload).1
  rcases agrees hroot root [] (w, .start ids) hmet hfree (.start hcache)
    with ⟨x, s, y, t, hx, hy⟩ | ⟨v, s, hv, hv', hpassed, hrest, -⟩
  · exact .inl ⟨x, _, y, _, resolve_of_error hx, resolve_of_error hy⟩
  · refine .inr ⟨v.unshared, (s.1, s.2.viewIds), ?_, ?_⟩
    · rw [resolve_of_ok hv, hpassed.tracks.sound.view hrest]
    · rw [hpassed.tracks.viewIds, ← TagMemory.view_start s.2.ids v]
      exact resolve_of_ok hv'

/-- The id of a user, and a question for it. -/
def userIdent : Node := list (some 2) [text "u", tagged "Input" (text "User: ")]

/-- A mapping that stands in several places, in which the value of an id is asked for. -/
def userSample : Node := map (some 1) [(.text "user", tagged "Id" userIdent)]

/-- A document with such a mapping. -/
def shieldedSample : Node := list (some 0) [userSample, userSample]

theorem mem_parts_shieldedSample : k ∈ shieldedSample.parts true ↔
    k = shieldedSample ∨ k = userSample ∨ k = tagged "Id" userIdent ∨ k = userIdent ∨
      k = text "u" ∨ k = tagged "Input" (text "User: ") ∨ k = text "User: " := by
  have hroot : shieldedSample.parts true
      = shieldedSample :: (userSample.parts true ++ (userSample.parts true ++ [])) := rfl
  have huser : userSample.parts true = [userSample, tagged "Id" userIdent, userIdent, text "u",
      tagged "Input" (text "User: "), text "User: "] := rfl
  simp only [hroot, List.append_nil, List.mem_cons, List.mem_append, or_self]
  simp only [huser, List.mem_cons, List.not_mem_nil, or_false]

theorem shielded_shieldedSample : shieldedSample.Shielded where
  unpaired key value hmem := by
    rw [mem_parts_shieldedSample] at hmem
    simp [shieldedSample, userSample, userIdent, text] at hmem
  consistent k hk k' hk' p hp hp' := by
    rw [mem_parts_shieldedSample] at hk hk'
    rcases hk with rfl | rfl | rfl | rfl | rfl | rfl | rfl <;> cases hp
    all_goals
      rcases hk' with rfl | rfl | rfl | rfl | rfl | rfl | rfl <;> cases hp'
      rfl
  payloads name payload hmem p hp := by
    obtain ⟨rfl, rfl⟩ : name = "Id" ∧ p = 2 := by
      rcases mem_parts_shieldedSample.1 hmem with h | h | h | h | h | h | h
      all_goals cases h
      all_goals cases hp
      exact ⟨rfl, rfl⟩
    refine ⟨by decide, fun m hm k hk hplace => ?_⟩
    rcases mem_parts_shieldedSample.1 hm with rfl | rfl | rfl | rfl | rfl | rfl | rfl
    case inr.inr.inl => exact ⟨userIdent, rfl⟩
    all_goals
      simp only [children, shieldedSample, userSample, userIdent, text, List.map_cons, List.map_nil,
        List.mem_cons, List.not_mem_nil, or_false, or_self] at hk
    · subst hk
      cases hplace
    · subst hk
      cases hplace
    · rcases hk with rfl | rfl <;> cases hplace
    · subst hk
      cases hplace
  idents payload id v hmem hid hv := by
    obtain rfl : payload = userIdent := by
      simpa [shieldedSample, userSample, userIdent, text] using mem_parts_shieldedSample.1 hmem
    cases hv
    simp [Names, parts, text]
  questions k hk p hp _ hasks := by
    rcases mem_parts_shieldedSample.1 hk with rfl | rfl | rfl | rfl | rfl | rfl | rfl <;> cases hp
    · simp [shieldedSample, userSample] at hasks
    · simp [userSample] at hasks
    · simp [mem_parts_shieldedSample]

/-- A list that an id is known to have as its value. -/
def knownList : Idents := [("k", list (some 4) [text "v"])]

/-- The operator types one line. -/
def typing : World := { World.initial (.dir []) [] with lines := ["me"] }

/-- The operator has been asked. -/
def asked : World := { World.initial (.dir []) [] with events := [.prompt "User: "] }

theorem resolve_unshared_sample :
    shieldedSample.Shielded ∧ (∀ v ∈ knownList.map (·.2), ∀ p ∈ v.places, p ∉ shieldedSample.places) ∧
      ∃ v s, shieldedSample.resolve .calm (typing, knownList) = (.ok v, s) ∧
        shieldedSample.unshared.resolve .calm (typing, knownList) = (.ok v, s) ∧
        v = list none [map none [(.text "user", text "me")], map none [(.text "user", text "me")]] ∧
        s = (asked, [("k", list none [text "v"]), ("u", text "me")]) := by
  have hcache : ∀ v ∈ knownList.map (·.2), ∀ p ∈ v.places, p ∉ shieldedSample.places := by decide
  have hask : Action.ask "User: " .calm typing = (.ok "me", asked) := rfl
  have hanswer : Text.stripLineEnd "me" = "me" := by decide
  have hrun : shieldedSample.resolve .calm (typing, knownList)
      = (.ok (list none [map none [(.text "user", text "me")], map none [(.text "user", text "me")]]),
        (asked, [("k", list none [text "v"]), ("u", text "me")])) := by
    simp [resolve, shieldedSample, userSample, userIdent, knownList, interpret, interpretItems,
      interpretEntries, interpretIdent, interpretSecond, input, answer, ofAction, hask, hanswer,
      Question.ofNode, Question.answer, identify, under, Effect.because, Effect.mapFailure,
      Effect.bind_apply, progress, settle, remember, Contents.at?, Contents.get?, Contents.set,
      Contents.without, Idents.get?, Idents.put, TagMemory.start, TagMemory.contents,
      TagMemory.view, TagMemory.viewIds, asItStands_list, text, ident, asIdent, Except.map,
      -bind_pure_comp]
  rcases resolve_unshared (e := .calm) shielded_shieldedSample hcache typing
    with ⟨x, s, y, t, hx, -⟩ | ⟨v, s, hv, hv'⟩
  · rw [hrun] at hx
    cases hx
  · refine ⟨shielded_shieldedSample, hcache, v, s, hv, hv', ?_⟩
    rw [hrun] at hv
    cases hv
    exact ⟨rfl, rfl⟩

end Node
end Runbook
