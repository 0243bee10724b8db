import Runbook.Proofs.Separate

set_option autoImplicit false

/-! # What stands beside known ids

Where an id is met that has a value already, what stands beside it is not looked at. So two documents
without sharing come to the same if they differ only in what the tag of an id is applied to at
occurrences at which the id is known: both succeed with the same value or fail with the same failure,
ask the same, and leave the same ids behind. Which occurrences these are is a matter of the run. -/

namespace Runbook

namespace Node

open Interpretation

variable {e : Setting} {s s' s₁ s₂ : World × TagMemory} {n k v : Node} {ks done : List Node}
  {new : List Nat → Option Node} {a : List Nat} {i j index : Nat} {place : Option Nat}
  {items : List Node} {entries : List (Scalar × Node)} {name id : String} {payload payload' : Node}
  {w : World} {ids : Idents} {O : List Nat}

/-! ## Other payloads -/

mutual

/-- A node with other payloads of the tags at some addresses. An address says what child to take at each
    level, where the payload of a tag counts as its only child. What is below pairs stays. -/
def withPayloads (new : List Nat → Option Node) : Node → Node
  | tagged name payload =>
    tagged name ((new []).getD (withPayloads (fun a => new (0 :: a)) payload))
  | list place items => list place (itemsWithPayloads new 0 items)
  | map place entries => map place (entriesWithPayloads new 0 entries)
  | scalar s => scalar s
  | pair key value => pair key value
  | set members => set members

/-- Items from the one at an index on, with other payloads. -/
def itemsWithPayloads (new : List Nat → Option Node) (index : Nat) : List Node → List Node
  | [] => []
  | item :: items =>
    withPayloads (fun a => new (index :: a)) item :: itemsWithPayloads new (index + 1) items

/-- Entries from the one at an index on, with other payloads. -/
def entriesWithPayloads (new : List Nat → Option Node) (index : Nat) :
    List (Scalar × Node) → List (Scalar × Node)
  | [] => []
  | (key, value) :: entries =>
    (key, withPayloads (fun a => new (index :: a)) value) ::
      entriesWithPayloads new (index + 1) entries

end

theorem entriesWithPayloads_keys (new : List Nat → Option Node) (index : Nat)
    (entries : List (Scalar × Node)) :
    (entriesWithPayloads new index entries).map (·.1) = entries.map (·.1) := by
  induction entries generalizing index with
  | nil => rfl
  | cons entry entries ih =>
    obtain ⟨key, value⟩ := entry
    rw [entriesWithPayloads, List.map_cons, ih, List.map_cons]

theorem entriesWithPayloads_values (new : List Nat → Option Node) (index : Nat)
    (entries : List (Scalar × Node)) :
    (entriesWithPayloads new index entries).map (·.2)
      = itemsWithPayloads new index (entries.map (·.2)) := by
  induction entries generalizing index with
  | nil => rfl
  | cons entry entries ih =>
    obtain ⟨key, value⟩ := entry
    rw [entriesWithPayloads, List.map_cons, ih, List.map_cons, itemsWithPayloads]

mutual

theorem withPayloads_of_none : ∀ (n : Node) (new : List Nat → Option Node), (∀ a, new a = none) →
    n.withPayloads new = n
  | tagged name payload, new, h => by
    rw [withPayloads, h, Option.getD_none, withPayloads_of_none payload _ fun a => h (0 :: a)]
  | list place items, new, h => by
    rw [withPayloads, itemsWithPayloads_of_none items new 0 h]
  | map place entries, new, h => by
    rw [withPayloads, entriesWithPayloads_of_none entries new 0 h]
  | scalar _, _, _ | pair _ _, _, _ | set _, _, _ => by rw [withPayloads]

theorem itemsWithPayloads_of_none : ∀ (items : List Node) (new : List Nat → Option Node) (index : Nat),
    (∀ a, new a = none) → itemsWithPayloads new index items = items
  | [], _, _, _ => by rw [itemsWithPayloads]
  | item :: items, new, index, h => by
    rw [itemsWithPayloads, withPayloads_of_none item _ fun a => h (index :: a),
      itemsWithPayloads_of_none items new (index + 1) h]

theorem entriesWithPayloads_of_none : ∀ (entries : List (Scalar × Node))
    (new : List Nat → Option Node) (index : Nat),
    (∀ a, new a = none) → entriesWithPayloads new index entries = entries
  | [], _, _, _ => by rw [entriesWithPayloads]
  | (key, value) :: entries, new, index, h => by
    rw [entriesWithPayloads, withPayloads_of_none value _ fun a => h (index :: a),
      entriesWithPayloads_of_none entries new (index + 1) h]

end

mutual

/-- The tree of a node with other payloads. -/
theorem unshared_withPayloads : ∀ (n : Node) (new : List Nat → Option Node),
    (n.withPayloads new).unshared = n.unshared.withPayloads fun a => (new a).map unshared
  | tagged name payload, new => by
    rw [withPayloads, unshared, unshared, withPayloads, ← unshared_withPayloads payload]
    cases new [] <;> rfl
  | list place items, new => by
    rw [withPayloads, unshared_list, unshared_list, withPayloads, unshared_itemsWithPayloads]
  | map place entries, new => by
    rw [withPayloads, unshared_map, unshared_map, withPayloads, unshared_entriesWithPayloads]
  | scalar _, _ | pair _ _, _ | set _, _ => by rw [withPayloads, unshared, withPayloads]

theorem unshared_itemsWithPayloads : ∀ (items : List Node) (new : List Nat → Option Node)
    (index : Nat), (itemsWithPayloads new index items).map unshared
      = itemsWithPayloads (fun a => (new a).map unshared) index (items.map unshared)
  | [], _, _ => by simp [itemsWithPayloads]
  | item :: items, new, index => by
    rw [itemsWithPayloads, List.map_cons, unshared_withPayloads item, List.map_cons,
      itemsWithPayloads, unshared_itemsWithPayloads items]

theorem unshared_entriesWithPayloads : ∀ (entries : List (Scalar × Node))
    (new : List Nat → Option Node) (index : Nat),
    (entriesWithPayloads new index entries).map (fun (key, value) => (key, value.unshared))
      = entriesWithPayloads (fun a => (new a).map unshared) index
        (entries.map fun (key, value) => (key, value.unshared))
  | [], _, _ => by simp [entriesWithPayloads]
  | (key, value) :: entries, new, index => by
    simp only [entriesWithPayloads, List.map_cons, unshared_withPayloads value,
      unshared_entriesWithPayloads entries]

end

/-! ### Containers -/

theorem isContainer_withPayloads (hn : n.IsContainer) (new : List Nat → Option Node) :
    (n.withPayloads new).IsContainer := by
  cases hn with
  | list place items =>
    rw [withPayloads]
    exact .list _ _
  | map place entries =>
    rw [withPayloads]
    exact .map _ _

theorem children_withPayloads (hn : n.IsContainer) (new : List Nat → Option Node) :
    (n.withPayloads new).children true = itemsWithPayloads new 0 (n.children true) := by
  cases hn with
  | list place items => rw [withPayloads, children, children]
  | map place entries => rw [withPayloads, children, children, entriesWithPayloads_values]

theorem place?_withPayloads (hn : n.IsContainer) (new : List Nat → Option Node) :
    (n.withPayloads new).place? = n.place? := by
  cases hn with
  | list place items => rw [withPayloads, place?, place?]
  | map place entries => rw [withPayloads, place?, place?]

theorem refill_withPayloads (hn : n.IsContainer) (new : List Nat → Option Node) (ks : List Node) :
    (n.withPayloads new).refill ks = n.refill ks := by
  cases hn with
  | list place items => rw [withPayloads, refill, refill]
  | map place entries => rw [withPayloads, refill, refill, entriesWithPayloads_keys]

/-! ### Payloads that name ids -/

/-- Where the value beside an id stands in a payload. -/
def valueIndex : Node → Nat
  | map _ entries => entries.findIdx fun entry => entry.1.isText "value"
  | _ => 1

theorem get?_entriesWithPayloads (key : String) (new : List Nat → Option Node) (index : Nat)
    (entries : List (Scalar × Node)) :
    Entries.get? (entriesWithPayloads new index entries) key
      = (Entries.get? entries key).map
        (withPayloads fun a => new ((index + entries.findIdx fun entry => entry.1.isText key) :: a)) := by
  induction entries generalizing index with
  | nil => rfl
  | cons entry entries ih =>
    obtain ⟨k, value⟩ := entry
    by_cases hkey : k.isText key = true
    · simp [entriesWithPayloads, Entries.get?, hkey, List.findIdx_cons]
    · have hrest : ∀ (v : Node) (es : List (Scalar × Node)),
          Entries.get? ((k, v) :: es) key = Entries.get? es key := fun v es => by
        simp [Entries.get?, hkey]
      rw [entriesWithPayloads, hrest, hrest, ih]
      simp [List.findIdx_cons, hkey, Nat.add_assoc, Nat.add_comm]

theorem ident_withPayloads (h : n.ident = .ok id) (new : List Nat → Option Node) :
    (n.withPayloads new).ident = .ok id := by
  cases n with
  | list place items =>
    cases items with
    | nil => cases h
    | cons item items =>
      obtain rfl := asIdent_eq_ok_iff.1 h
      rw [withPayloads, itemsWithPayloads, text, withPayloads]
      rfl
  | map place entries =>
    rw [ident] at h
    rw [withPayloads, ident, get?_entriesWithPayloads]
    cases hid : Entries.get? entries "id" with
    | none =>
      rw [hid] at h
      cases h
    | some value =>
      rw [hid] at h
      obtain rfl := asIdent_eq_ok_iff.1 h
      rw [Option.map_some, text, withPayloads]
      rfl
  | _ => cases h

theorem identValue_withPayloads (hid : n.ident = .ok id) (h : n.identValue = .ok v)
    (new : List Nat → Option Node) :
    (n.withPayloads new).identValue = .ok (v.withPayloads fun a => new (n.valueIndex :: a)) := by
  cases n with
  | list place items =>
    rcases items with _ | ⟨x, _ | ⟨y, _ | ⟨z, items⟩⟩⟩
    · cases hid
    · cases h
    · cases h
      simp [withPayloads, itemsWithPayloads, identValue, parts?, valueIndex]
    · cases h
  | map place entries =>
    rw [identValue] at h
    rw [withPayloads, identValue, get?_entriesWithPayloads]
    cases hvalue : Entries.get? entries "value" with
    | none =>
      rw [hvalue] at h
      cases h
    | some value =>
      rw [hvalue] at h
      cases h
      rw [Option.map_some, valueIndex, Nat.zero_add]
  | scalar _ | set _ => cases hid
  | tagged _ _ | pair _ _ => cases hid

/-! ## What is met -/

/-- Of some children of a container, the one at an index is interpreted, in some state. -/
inductive MeetsChild (e : Setting) (n : Node) : World × TagMemory → List Node → List Node → Nat →
    World × TagMemory → Node → Prop
  | here {s s₁ : World × TagMemory} {done ks : List Node} {k : Node}
      (hprogress : progress n.place? (n.refill (done ++ k :: ks)) e s = (.ok (), s₁)) :
      MeetsChild e n s done (k :: ks) 0 s₁ k
  | later {s s₁ s₂ s₃ : World × TagMemory} {done ks : List Node} {k v m : Node} {i : Nat}
      (hprogress : progress n.place? (n.refill (done ++ k :: ks)) e s = (.ok (), s₁))
      (hchild : k.interpret e s₁ = (.ok v, s₂))
      (hrest : MeetsChild e n s₂ (done ++ [v]) ks i s₃ m) :
      MeetsChild e n s done (k :: ks) (i + 1) s₃ m

/-- Of the parts of a text, the one at an index is interpreted, in some state. -/
inductive MeetsPart (e : Setting) : World × TagMemory → Nat → List Node → Nat → World × TagMemory →
    Node → Prop
  | here {s : World × TagMemory} {index : Nat} {items : List Node} {item : Node} :
      MeetsPart e s index (item :: items) 0 s item
  | later {s s₁ s₂ s₃ : World × TagMemory} {index i : Nat} {items : List Node} {item v k : Node}
      {t : String} (hitem : item.interpret e s = (.ok v, s₁)) (hpart : part index v e s₁ = (.ok t, s₂))
      (hrest : MeetsPart e s₂ (index + 1) items i s₃ k) :
      MeetsPart e s index (item :: items) (i + 1) s₃ k

/-- The interpretation of a node comes to interpret the node at an address, in some state. -/
inductive Meets (e : Setting) : World × TagMemory → Node → List Nat → World × TagMemory → Node → Prop
  | self {s : World × TagMemory} {n : Node} : Meets e s n [] s n
  | child {s s₁ s₂ : World × TagMemory} {n k m : Node} {i : Nat} {a : List Nat} (hn : n.IsContainer)
      (hnew : s.2.settled.at? n.place? = none)
      (hchild : MeetsChild e n s [] (n.children true) i s₁ k) (hrest : Meets e s₁ k a s₂ m) :
      Meets e s n (i :: a) s₂ m
  | part {s s₁ s₂ : World × TagMemory} {place : Option Nat} {items : List Node} {k m : Node} {i : Nat}
      {a : List Nat} (hnew : s.2.settled.at? place = none) (hpart : MeetsPart e s 0 items i s₁ k)
      (hrest : Meets e s₁ k a s₂ m) : Meets e s (tagged "StrF" (list place items)) (0 :: i :: a) s₂ m
  | question {s s₁ : World × TagMemory} {name : String} {payload m : Node} {a : List Nat}
      (hname : name = "Input" ∨ name = "HiddenInput") (hrest : Meets e s payload a s₁ m) :
      Meets e s (tagged name payload) (0 :: a) s₁ m
  | value {s s₁ : World × TagMemory} {payload v m : Node} {id : String} {a : List Nat}
      (hnew : s.2.settled.at? payload.place? = none) (hid : payload.ident = .ok id)
      (hunknown : s.2.ids.get? id = none) (hvalue : payload.identValue = .ok v)
      (hrest : Meets e s v a s₁ m) :
      Meets e s (tagged "Id" payload) (0 :: payload.valueIndex :: a) s₁ m

theorem Meets.of_strF (h : Meets e s (tagged "StrF" payload) (i :: a) s₁ k) :
    ∃ place items j a' s₂ m, payload = list place items ∧ i = 0 ∧ a = j :: a' ∧
      MeetsPart e s 0 items j s₂ m ∧ Meets e s₂ m a' s₁ k := by
  generalize hname : "StrF" = name at h
  cases h with
  | part _ hpart hrest => exact ⟨_, _, _, _, _, _, rfl, rfl, rfl, hpart, hrest⟩
  | question hquestion => simp [← hname] at hquestion
  | value => simp at hname
  | child hn => cases hn

theorem Meets.of_question (hname : name = "Input" ∨ name = "HiddenInput")
    (h : Meets e s (tagged name payload) (i :: a) s₁ k) : i = 0 ∧ Meets e s payload a s₁ k := by
  cases h with
  | question _ hrest => exact ⟨rfl, hrest⟩
  | part => simp at hname
  | value => simp at hname
  | child hn => cases hn

theorem Meets.of_id (h : Meets e s (tagged "Id" payload) (i :: a) s₁ k) :
    ∃ id v a', i = 0 ∧ a = payload.valueIndex :: a' ∧ payload.ident = .ok id ∧
      s.2.ids.get? id = none ∧ payload.identValue = .ok v ∧ Meets e s v a' s₁ k := by
  generalize hname : "Id" = name at h
  cases h with
  | value _ hid hunknown hvalue hrest => exact ⟨_, _, _, rfl, rfl, hid, hunknown, hvalue, hrest⟩
  | question hquestion => simp [← hname] at hquestion
  | part => simp at hname
  | child hn => cases hn

/-! ### In the tree of a document -/

theorem valueIndex_unshared (n : Node) : n.unshared.valueIndex = n.valueIndex := by
  cases n with
  | map place entries =>
    rw [unshared_map, valueIndex, valueIndex, List.findIdx_map]
    rfl
  | _ => rfl

theorem MeetsChild.bare (h : MeetsChild e n s done ks i s₁ k)
    (hplace : ∀ p, n.place? = some p → p ∈ O)
    (hapart : ∀ p ∈ n.place?.toList, p ∉ ks.flatMap workPlaces) (hahead : Ahead O ks s.2)
    (hs : s.2.Clear O) :
    MeetsChild e n.unshared (Interpretation.bare s) (done.map unshared) (ks.map unshared) i
      (Interpretation.bare s₁) k.unshared ∧ Ahead O [k] s₁.2 ∧ s₁.2.Clear O := by
  have hprogress : ∀ {s s₁ : World × TagMemory} (x y : Node), s.2.Clear O →
      progress n.place? x e s = (.ok (), s₁) →
      progress n.unshared.place? y e (Interpretation.bare s) = (.ok (), Interpretation.bare s₁) ∧
        s₁.2.Clear O ∧ s.2.GrowsIn n.place?.toList s₁.2 := fun x y hs hrun => by
    obtain ⟨hbare, hs₁, hgrows, -⟩ := (mirrors_progress hs hplace x y).of_ok hrun
    rw [place?_unshared]
    exact ⟨hbare, hs₁, hgrows⟩
  induction h with
  | here hrun =>
    obtain ⟨hbare, hs₁, hgrows⟩ := hprogress _ _ hs hrun
    exact ⟨.here hbare, (hahead.grow hgrows hapart).of_mem List.mem_cons_self, hs₁⟩
  | @later s s₁ s₂ s₃ done ks k v m i hrun hchild _ ih =>
    obtain ⟨hbare, hs₁, hgrows⟩ := hprogress _ _ hs hrun
    have hahead₁ := hahead.grow hgrows hapart
    obtain ⟨hchild', hs₂, hgrows₂, -⟩ :=
      (mirrorsTree k s₁ (hahead₁.of_mem List.mem_cons_self) hs₁).of_ok hchild
    obtain ⟨hrest, hlast⟩ := ih (fun p hp hmem => hapart p hp (by simp_all)) (hahead₁.tail hgrows₂) hs₂
    rw [List.map_append] at hrest
    exact ⟨.later hbare hchild' hrest, hlast⟩

theorem MeetsPart.bare (h : MeetsPart e s index items i s₁ k) (hahead : Ahead O items s.2)
    (hs : s.2.Clear O) :
    MeetsPart e (Interpretation.bare s) index (items.map unshared) i (Interpretation.bare s₁)
      k.unshared ∧ Ahead O [k] s₁.2 ∧ s₁.2.Clear O := by
  induction h with
  | here => exact ⟨.here, hahead.of_mem List.mem_cons_self, hs⟩
  | @later s s₁ s₂ s₃ index i items item v k t hitem hpart _ ih =>
    obtain ⟨hitem', hs₁, hgrows, hv⟩ :=
      (mirrorsTree item s (hahead.of_mem List.mem_cons_self) hs).of_ok hitem
    obtain ⟨hpart', hs₂, hgrows₂, -⟩ := (mirrors_part hs₁ hv index).of_ok hpart
    have hgrows' : s.2.GrowsIn item.workPlaces s₂.2 :=
      hgrows.trans (hgrows₂.trans (.refl _ _) (List.nil_subset _)) (List.Subset.refl _)
    obtain ⟨hrest, hlast⟩ := ih (hahead.tail hgrows') hs₂
    exact ⟨.later hitem' hpart' hrest, hlast⟩

/-- What is met in a document without sharing is met in its tree. -/
theorem Meets.bare (h : Meets e s n a s₁ k) (hahead : Ahead O [n] s.2) (hs : s.2.Clear O) :
    Meets e (Interpretation.bare s) n.unshared a (Interpretation.bare s₁) k.unshared := by
  induction h with
  | self => exact .self
  | @child s s₁ s₂ n k m i a hn hnew hchild _ ih =>
    have hnodup := hahead.nodup
    rw [List.flatMap_singleton, workPlaces_eq] at hnodup
    have hchildren := hahead.children (.refl _ _)
    rw [hn.children_eq false] at hchildren hnodup
    obtain ⟨hmeets, hahead', hs'⟩ := hchild.bare (fun p hp => (hahead.of_place hp).1)
      (fun p hp hmem => (List.nodup_append.1 hnodup).2.2 p hp p hmem rfl) hchildren hs
    refine .child (isContainer_unshared hn) (at?_of_unplaced _ (place?_unshared n)) ?_ (ih hahead' hs')
    rw [unshared_eq, children_mapChildren, ← unshared_eq]
    exact hmeets
  | @part s s₁ s₂ place items k m i a hnew hpart _ ih =>
    have hlist : Ahead O [list place items] s.2 := hahead.children (.refl _ _)
    obtain ⟨hmeets, hahead', hs'⟩ := hpart.bare (hlist.children (.refl _ _)) hs
    rw [unshared, unshared_list]
    exact .part rfl hmeets (ih hahead' hs')
  | @question s s₁ name payload m a hname _ ih =>
    rw [unshared]
    exact .question hname (ih (hahead.children (.refl _ _)) hs)
  | @value s s₁ payload v m id a hnew hid hunknown hvalue _ ih =>
    have hpayload : Ahead O [payload] s.2 := hahead.children (.refl _ _)
    have hmem := mem_children_of_identValue (b := false) hid hvalue
    have hunknown' : (Interpretation.bare s).2.ids.get? id = none := by
      rw [show (Interpretation.bare s).2.ids = s.2.ids.trees from rfl, Idents.get?_trees, hunknown,
        Option.map_none]
    rw [unshared, ← valueIndex_unshared]
    refine .value (at?_of_unplaced _ (place?_unshared payload)) (ident_unshared.2 hid) hunknown' ?_
      (ih ((hpayload.children (.refl _ _)).of_mem hmem) hs)
    rw [identValue_unshared hid, hvalue]
    rfl

/-! ## Known ids -/

/-- At an address, an id is met that is known, and another payload names the same id. -/
def Known (e : Setting) (s : World × TagMemory) (n : Node) (a : List Nat) (payload' : Node) : Prop :=
  ∃ s₁ payload id, Meets e s n a s₁ (tagged "Id" payload) ∧ payload.ident = .ok id ∧
    s₁.2.ids.get? id ≠ none ∧ payload'.ident = .ok id

/-- No container of a node has a place. -/
def Unplaced (n : Node) : Prop := ∀ k ∈ n.parts true, k.place? = none

theorem unplaced_unshared (n : Node) : n.unshared.Unplaced := fun _ => place?_of_mem_unshared

theorem Unplaced.child (h : n.Unplaced) (hk : k ∈ n.children true) : k.Unplaced :=
  fun m hm => h m (mem_parts_of_child hk hm)

theorem Unplaced.place?_eq (h : n.Unplaced) : n.place? = none := h n (self_mem_parts _ _)

theorem bind_congr_at {α β : Type} {b c : Interpretation α} {f g : α → Interpretation β}
    (h : b e s = c e s) (hf : ∀ v s', c e s = (.ok v, s') → f v e s' = g v e s') :
    (b >>= f) e s = (c >>= g) e s := by
  rw [Effect.bind_apply, Effect.bind_apply, h]
  rcases hrun : c e s with ⟨x | v, s'⟩
  · rfl
  · exact hf v s' hrun

/-- Payloads at which known ids are met may be replaced by others without a place. -/
def ReplacesKnown (e : Setting) (s : World × TagMemory) (n : Node) (new : List Nat → Option Node) :
    Prop :=
  ∀ a payload', new a = some payload' → payload'.place? = none ∧ n.Known e s a payload'

/-- The interpretation of a tree stays the same if payloads of known ids are replaced. -/
def IgnoresPayloads (e : Setting) (n : Node) : Prop :=
  ∀ s new, n.Unplaced → n.ReplacesKnown e s new → (n.withPayloads new).interpret e s = n.interpret e s

theorem interpretChildren_withPayloads {n' : Node} (hn : n.place? = none) (hn' : n'.place? = none) :
    ∀ (ks : List Node) (done : List Node) (s : World × TagMemory) (index : Nat),
      (∀ k ∈ ks, k.IgnoresPayloads e) → (∀ k ∈ ks, k.Unplaced) →
      (∀ i a payload', new ((index + i) :: a) = some payload' → payload'.place? = none ∧
        ∃ s₁ k, MeetsChild e n s done ks i s₁ k ∧ k.Known e s₁ a payload') →
      interpretChildren n' done (itemsWithPayloads new index ks) e s
        = interpretChildren n done ks e s
  | [], done, s, index, _, _, _ => by
    rw [itemsWithPayloads, interpretChildren, interpretChildren]
  | k :: ks, done, s, index, hks, hplaces, hnew => by
    rw [itemsWithPayloads, interpretChildren, interpretChildren, hn, hn']
    have hfirst : (k.withPayloads fun a => new (index :: a)).interpret e s = k.interpret e s := by
      refine hks k List.mem_cons_self s _ (hplaces k List.mem_cons_self) fun a payload' ha => ?_
      obtain ⟨hplace, s₁, k', hmeets, hknown⟩ := hnew 0 a payload' ha
      refine ⟨hplace, ?_⟩
      cases hmeets with
      | here hprogress =>
        rw [hn] at hprogress
        cases hprogress
        exact hknown
    -- Without a place, no progress is noted.
    show ((k.withPayloads fun a => new (index :: a)).interpret >>= fun v =>
        interpretChildren n' (done ++ [v]) (itemsWithPayloads new (index + 1) ks)) e s
      = (k.interpret >>= fun v => interpretChildren n (done ++ [v]) ks) e s
    refine bind_congr_at hfirst fun v s₂ hrun => ?_
    refine interpretChildren_withPayloads hn hn' ks (done ++ [v]) s₂ (index + 1)
      (fun x hx => hks x (List.mem_cons_of_mem _ hx))
      (fun x hx => hplaces x (List.mem_cons_of_mem _ hx)) fun i a payload' ha => ?_
    obtain ⟨hplace, s₁, k', hmeets, hknown⟩ := hnew (i + 1) a payload' (by
      rwa [Nat.add_right_comm] at ha)
    refine ⟨hplace, s₁, k', ?_, hknown⟩
    cases hmeets with
    | later hprogress hchild hrest =>
      rw [hn] at hprogress
      cases hprogress
      rw [hrun] at hchild
      cases hchild
      exact hrest

theorem ignoresPayloads_container (hn : n.IsContainer)
    (ih : ∀ k ∈ n.children true, k.IgnoresPayloads e) : n.IgnoresPayloads e := by
  intro s new hplaces hnew
  have hplace := hplaces.place?_eq
  have hplace' : (n.withPayloads new).place? = none := (place?_withPayloads hn new).trans hplace
  rw [interpret_of_new hn (at?_of_unplaced _ hplace),
    interpret_of_new (isContainer_withPayloads hn new) (at?_of_unplaced _ hplace'),
    children_withPayloads hn, hplace, hplace']
  simp only [refill_withPayloads hn]
  refine bind_congr_at (interpretChildren_withPayloads hplace hplace' _ [] s 0 ih
    (fun k hk => hplaces.child hk) ?_) fun _ _ _ => rfl
  intro i a payload' ha
  rw [Nat.zero_add] at ha
  obtain ⟨hplace, s₁, payload, id, hmeets, hknown⟩ := hnew _ payload' ha
  refine ⟨hplace, ?_⟩
  cases hmeets with
  | child _ _ hchild hrest => exact ⟨_, _, hchild, _, _, _, hrest, hknown⟩
  | _ => cases hn

theorem interpretParts_withPayloads :
    ∀ (items : List Node) (s : World × TagMemory) (index start : Nat),
      (∀ k ∈ items, k.IgnoresPayloads e) → (∀ k ∈ items, k.Unplaced) →
      (∀ i a payload', new ((start + i) :: a) = some payload' → payload'.place? = none ∧
        ∃ s₁ k, MeetsPart e s index items i s₁ k ∧ k.Known e s₁ a payload') →
      interpretParts index (itemsWithPayloads new start items) e s = interpretParts index items e s
  | [], s, index, start, _, _, _ => by rw [itemsWithPayloads]
  | item :: items, s, index, start, hitems, hplaces, hnew => by
    have hfirst : (item.withPayloads fun a => new (start :: a)).interpret e s
        = item.interpret e s := by
      refine hitems item List.mem_cons_self s _ (hplaces item List.mem_cons_self) fun a payload' ha => ?_
      obtain ⟨hplace, s₁, k', hmeets, hknown⟩ := hnew 0 a payload' ha
      refine ⟨hplace, ?_⟩
      cases hmeets with
      | here => exact hknown
    rw [itemsWithPayloads, interpretParts, interpretParts]
    refine bind_congr_at hfirst fun v s₂ hrun => bind_congr_at rfl fun t s₃ hpart => ?_
    refine bind_congr_at (interpretParts_withPayloads items s₃ (index + 1) (start + 1)
      (fun x hx => hitems x (List.mem_cons_of_mem _ hx))
      (fun x hx => hplaces x (List.mem_cons_of_mem _ hx)) ?_) fun _ _ _ => rfl
    intro i a payload' ha
    obtain ⟨hplace, s₁, k', hmeets, hknown⟩ := hnew (i + 1) a payload' (by
      rwa [Nat.add_right_comm] at ha)
    refine ⟨hplace, s₁, k', ?_, hknown⟩
    cases hmeets with
    | later hitem' hpart' hrest =>
      rw [hrun] at hitem'
      cases hitem'
      rw [hpart] at hpart'
      cases hpart'
      exact hrest

theorem interpretJoin_withPayloads (hplaces : payload.Unplaced)
    (ih : ∀ k ∈ payload.children false, k.IgnoresPayloads e)
    (hnew : (tagged "StrF" payload).ReplacesKnown e s new) :
    (payload.withPayloads fun a => new (0 :: a)).interpretJoin e s = payload.interpretJoin e s := by
  cases payload with
  | list place items =>
    obtain rfl : place = none := hplaces.place?_eq
    have hparts : interpretParts 0 (itemsWithPayloads (fun a => new (0 :: a)) 0 items) e s
        = interpretParts 0 items e s := by
      refine interpretParts_withPayloads items s 0 0 ih (fun k hk => hplaces.child hk) ?_
      intro i a payload' ha
      rw [Nat.zero_add] at ha
      obtain ⟨hplace, s₁, payload, id, hmeets, hknown⟩ := hnew _ payload' ha
      obtain ⟨place, items', j, a', s₂, m, hlist, -, hat, hpart, hrest⟩ := hmeets.of_strF
      cases hlist
      cases hat
      exact ⟨hplace, s₂, m, hpart, s₁, payload, id, hrest, hknown⟩
    rw [withPayloads, interpretJoin_list, interpretJoin_list]
    exact bind_congr_at hparts fun _ _ _ => rfl
  | _ =>
    have hnone : ∀ a, new (0 :: a) = none := fun a => by
      cases ha : new (0 :: a) with
      | none => rfl
      | some payload' =>
        obtain ⟨-, s₁, payload, id, hmeets, -⟩ := hnew _ payload' ha
        obtain ⟨_, _, _, _, _, _, hlist, -⟩ := hmeets.of_strF
        cases hlist
    rw [withPayloads_of_none _ _ hnone]

/-- A payload names its id also if what it holds is replaced, but for texts. -/
theorem ident_of_texts {f : Node → Node} (hf : ∀ t, f (text t) = text t) (h : n.ident = .ok id) :
    (n.mapChildren f).ident = .ok id := by
  cases n with
  | list place items =>
    cases items with
    | nil => cases h
    | cons item items =>
      obtain rfl := asIdent_eq_ok_iff.1 h
      rw [mapChildren, List.map_cons, ident, hf]
      rfl
  | map place entries =>
    rw [ident] at h
    rw [mapChildren, ident, get?_mapValues]
    cases hid : Entries.get? entries "id" with
    | none =>
      rw [hid] at h
      cases h
    | some value =>
      rw [hid] at h
      obtain rfl := asIdent_eq_ok_iff.1 h
      rw [Option.map_some, hf]
      rfl
  | _ => cases h

/-- An id is identified as the one that its payload names, if that has not been worked through. -/
theorem interpretIdent_of_ident (hnew : s.2.settled.at? n.place? = none) (hid : n.ident = .ok id) :
    n.interpretIdent e s = identify id (check n.identValue >>= interpret) e s := by
  have hview : (n.mapChildren s.2.view).ident = .ok id :=
    ident_of_texts (fun t => asItStands_scalar _ _) hid
  rw [interpretIdent_of_new hnew, hview]
  rfl

theorem interpretIdent_withPayloads (hplaces : payload.Unplaced)
    (ih : ∀ k ∈ payload.children false, k.IgnoresPayloads e)
    (hnew : (tagged "Id" payload).ReplacesKnown e s new) :
    (payload.withPayloads fun a => new (0 :: a)).interpretIdent e s
      = payload.interpretIdent e s := by
  by_cases hnone : ∀ a, new (0 :: a) = none
  · rw [withPayloads_of_none _ _ hnone]
  -- Something is met below the payload only if the value of the id is to be found.
  obtain ⟨a, ha⟩ := not_forall.1 hnone
  obtain ⟨payload', ha⟩ := Option.ne_none_iff_exists'.1 ha
  obtain ⟨-, _, _, _, hmeets, -⟩ := hnew _ payload' ha
  obtain ⟨id, v, -, -, -, hid, hunknown, hvalue, -⟩ := hmeets.of_id
  have hvalued : (v.withPayloads fun a => new (0 :: payload.valueIndex :: a)).interpret e s
      = v.interpret e s := by
    have hmem : v ∈ payload.children false := mem_children_of_identValue hid hvalue
    refine ih v hmem s _ (hplaces.child (mem_children_true hmem)) fun a payload' ha => ?_
    obtain ⟨hplace, s₁, payload₁, id₁, hmeets, hknown⟩ := hnew _ payload' ha
    obtain ⟨_, v', a', -, hat, -, -, hvalue', hrest⟩ := hmeets.of_id
    cases hat
    cases hvalue.symm.trans hvalue'
    exact ⟨hplace, s₁, payload₁, id₁, hrest, hknown⟩
  have hcontainer : payload.IsContainer := by
    cases payload with
    | list => exact .list _ _
    | map => exact .map _ _
    | _ => cases hid
  have hplace' : (payload.withPayloads fun a => new (0 :: a)).place? = none :=
    (place?_withPayloads hcontainer _).trans hplaces.place?_eq
  rw [interpretIdent_of_ident (at?_of_unplaced _ hplaces.place?_eq) hid,
    interpretIdent_of_ident (at?_of_unplaced _ hplace') (ident_withPayloads hid _),
    identify_of_new hunknown, identify_of_new hunknown, hvalue, identValue_withPayloads hid hvalue]
  exact bind_congr_at hvalued fun _ _ _ => rfl

/-- A payload that names a known id may be replaced by any other that names it. -/
theorem interpretIdent_of_known (hplace : payload.place? = none) (hplace' : payload'.place? = none)
    (hid : payload.ident = .ok id) (hid' : payload'.ident = .ok id)
    (hknown : s.2.ids.get? id ≠ none) : payload'.interpretIdent e s = payload.interpretIdent e s := by
  obtain ⟨v, hv⟩ := Option.ne_none_iff_exists'.1 hknown
  rw [interpretIdent_of_ident (at?_of_unplaced _ hplace) hid,
    interpretIdent_of_ident (at?_of_unplaced _ hplace') hid', identify_of_known hv,
    identify_of_known hv]

theorem ignoresPayloads_tagged (ih : ∀ k ∈ payload.parts false, k.IgnoresPayloads e) :
    (tagged name payload).IgnoresPayloads e := by
  intro s new hplaces hnew
  have hpayload : payload.Unplaced := hplaces.child (List.mem_singleton_self payload)
  have hchildren : ∀ k ∈ payload.children false, k.IgnoresPayloads e :=
    fun k hk => ih k (mem_parts_of_child hk (self_mem_parts _ _))
  cases hroot : new [] with
  | some payload' =>
    obtain ⟨hplace', s₁, payload₁, id, hmeets, hid, hknown, hid'⟩ := hnew [] payload' hroot
    cases hmeets
    rw [withPayloads, hroot, Option.getD_some, interpret_id, interpret_id]
    exact under_congr (interpretIdent_of_known hpayload.place?_eq hplace' hid hid' hknown)
  | none =>
    have hquestion : ∀ hidden, name = "Input" ∨ name = "HiddenInput" →
        ((payload.withPayloads fun a => new (0 :: a)).interpret >>= input hidden) e s
          = (payload.interpret >>= input hidden) e s := fun hidden hname => by
      have hself : (payload.withPayloads fun a => new (0 :: a)).interpret e s
          = payload.interpret e s := by
        refine ih payload (self_mem_parts _ _) s _ hpayload fun a payload' ha => ?_
        obtain ⟨hplace, s₁, payload₁, id, hmeets, hknown⟩ := hnew _ payload' ha
        exact ⟨hplace, s₁, payload₁, id, (hmeets.of_question hname).2, hknown⟩
      exact bind_congr_at hself fun _ _ _ => rfl
    rw [withPayloads, hroot, Option.getD_none, interpret, interpret]
    split
    · next hname =>
      subst hname
      exact under_congr (interpretJoin_withPayloads hpayload hchildren hnew)
    split
    · next hname => exact under_congr (hquestion false (.inl hname))
    split
    · next hname => exact under_congr (hquestion true (.inr hname))
    split
    · next hname =>
      subst hname
      exact under_congr (interpretIdent_withPayloads hpayload hchildren hnew)
    · rfl

/-- The interpretation of a tree stays the same if payloads of known ids are replaced. -/
theorem ignoresPayloads (n : Node) : n.IgnoresPayloads e := by
  induction n using inductionOnParts false with
  | h n ih =>
    have hchildren : ∀ k ∈ n.children false, k.IgnoresPayloads e :=
      fun k hk => ih k hk k (self_mem_parts _ _)
    cases n with
    | list place items => exact ignoresPayloads_container (.list _ _) hchildren
    | map place entries => exact ignoresPayloads_container (.map _ _) hchildren
    | tagged name payload =>
      exact ignoresPayloads_tagged (ih payload (List.mem_singleton_self payload))
    | pair _ _ | scalar _ | set _ =>
      intro s new _ _
      rw [withPayloads]

/-! ## Whole documents -/

/-- Two documents without sharing come to the same, or fail with the same failure, ask the same and
    leave the same ids behind, if they differ only in payloads at which known ids are met. -/
theorem resolve_withPayloads {n' : Node} (hn : n.Separate ids) (hn' : n'.Separate ids)
    (hnew : ∀ a payload', new a = some payload' → n.Known e (w, .start ids) a payload')
    (htree : n'.unshared = (n.withPayloads new).unshared) :
    n'.resolve e (w, ids) = n.resolve e (w, ids) := by
  have hreplaces : n.unshared.ReplacesKnown e (w, .start ids.trees) fun a =>
      (new a).map unshared := by
    intro a payload' ha
    obtain ⟨payload', hat, rfl⟩ := Option.map_eq_some_iff.1 ha
    obtain ⟨s₁, payload, id, hmeets, hid, hknown, hid'⟩ := hnew a payload' hat
    have hmeets' : Meets e (w, .start ids.trees) n.unshared a (bare s₁) (tagged "Id" payload).unshared :=
      hmeets.bare hn.ahead hn.clear
    refine ⟨place?_unshared payload', bare s₁, payload.unshared, id, hmeets', ident_unshared.2 hid, ?_,
      ident_unshared.2 hid'⟩
    show s₁.2.ids.trees.get? id ≠ none
    rwa [Idents.get?_trees, ne_eq, Option.map_eq_none_iff]
  rw [resolve_of_separate hn', resolve_of_separate hn, htree, unshared_withPayloads]
  have hrun := ignoresPayloads n.unshared (w, .start ids.trees) _ (unplaced_unshared n) hreplaces
  rw [resolve, resolve, hrun]

/-- A document in which an id is known at its second occurrence, with what stands there. -/
def repeatedIdent (payload : Node) : Node :=
  list (some 0) [tagged "Id" (list (some 1) [text "x", text "v"]), tagged "Id" payload]

/-- An id with a question beside it. -/
def askedPayload : Node := list (some 2) [text "x", tagged "Input" (text "Name: ")]

/-- The same id with a tag of no known name beside it. -/
def unknownPayload : Node :=
  map (some 3) [(.text "value", list (some 4) [tagged "Nope" (text "")]), (.text "id", text "x")]

theorem resolve_withPayloads_sample :
    (repeatedIdent askedPayload).Separate [] ∧ (repeatedIdent unknownPayload).Separate [] ∧
      (repeatedIdent askedPayload).Known .calm (.initial (.dir []) [], .start []) [1]
        unknownPayload ∧
      (repeatedIdent askedPayload).resolve .calm (.initial (.dir []) [], [])
        = (.ok (list none [text "v", text "v"]), (.initial (.dir []) [], [("x", text "v")])) ∧
      (repeatedIdent unknownPayload).resolve .calm (.initial (.dir []) [], [])
        = (.ok (list none [text "v", text "v"]), (.initial (.dir []) [], [("x", text "v")])) := by
  have hasked : (repeatedIdent askedPayload).Separate [] := ⟨by decide, nofun⟩
  have hunknown : (repeatedIdent unknownPayload).Separate [] := ⟨by decide, nofun⟩
  have hfirst : ∀ w pending, (tagged "Id" (list (some 1) [text "x", text "v"])).interpret .calm
      (w, ⟨[], [], pending⟩) = (.ok (text "v"), (w, ⟨[("x", text "v")], [], pending⟩)) := by
    intro w pending
    simp [interpret, interpretIdent, interpretSecond, identify, under, Effect.because,
      Effect.mapFailure, Effect.bind_apply, remember, Contents.at?, Contents.get?, Idents.get?,
      Idents.put, TagMemory.contents, TagMemory.view, text, ident, asIdent, -bind_pure_comp]
  have hmeets : ∃ s₁, Meets .calm (.initial (.dir []) [], .start []) (repeatedIdent askedPayload) [1]
      s₁ (tagged "Id" askedPayload) ∧ s₁.2.ids.get? "x" = some (text "v") :=
    ⟨_, .child (.list _ _) rfl (.later rfl (hfirst _ _) (.here rfl)) .self, rfl⟩
  have hknown : (repeatedIdent askedPayload).Known .calm (.initial (.dir []) [], .start []) [1]
      unknownPayload := by
    obtain ⟨s₁, hmeets, hx⟩ := hmeets
    exact ⟨s₁, askedPayload, "x", hmeets, rfl, by simp [hx], rfl⟩
  have hrun : (repeatedIdent askedPayload).resolve .calm (.initial (.dir []) [], [])
      = (.ok (list none [text "v", text "v"]), (.initial (.dir []) [], [("x", text "v")])) := by
    simp [resolve, repeatedIdent, askedPayload, interpret, interpretItems, interpretIdent,
      interpretSecond, identify, under, Effect.because, Effect.mapFailure, Effect.bind_apply, progress,
      settle, remember, Contents.at?, Contents.get?, Contents.set, Contents.without, Idents.get?,
      Idents.put, TagMemory.start, TagMemory.contents, TagMemory.view, TagMemory.viewIds, text, ident,
      asIdent, Except.map, -bind_pure_comp]
  have hnew : ∀ a payload', (if a = [1] then some unknownPayload else none) = some payload' →
      (repeatedIdent askedPayload).Known .calm (.initial (.dir []) [], .start []) a payload' := by
    intro a payload' ha
    obtain ⟨rfl, rfl⟩ : a = [1] ∧ unknownPayload = payload' := by simpa using ha
    exact hknown
  have hsame := resolve_withPayloads hasked hunknown hnew rfl
  exact ⟨hasked, hunknown, hknown, hrun, hsame.trans hrun⟩

end Node

end Runbook
