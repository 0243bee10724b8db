import Runbook.Tags.Memory
import Runbook.Tags.Payload

set_option autoImplicit false

/-! # Containers and what stands in them

Lists and mappings may stand in several places of a document, and what stands in them changes while
the tags of the document are interpreted. What is seen of a node then depends on the moment. It does
not if all containers below the node are at rest, because nothing in them is tagged or because they
are never worked through: then the node is seen as the tree that it is from the start. -/

namespace Runbook

namespace Node

/-! ## Equality -/

mutual

/-- Whether two documents are the same, with the same sharing. -/
def same : Node → Node → Bool
  | scalar s, scalar t => s == t
  | list p xs, list q ys => p == q && sameItems xs ys
  | map p xs, map q ys => p == q && sameEntries xs ys
  | tagged s m, tagged t n => s == t && same m n
  | pair k v, pair l w => same k l && same v w
  | set xs, set ys => xs == ys
  | _, _ => false

/-- Whether some items are the same. -/
def sameItems : List Node → List Node → Bool
  | [], [] => true
  | x :: xs, y :: ys => same x y && sameItems xs ys
  | _, _ => false

/-- Whether some entries are the same. -/
def sameEntries : List (Scalar × Node) → List (Scalar × Node) → Bool
  | [], [] => true
  | (k, v) :: xs, (l, w) :: ys => k == l && same v w && sameEntries xs ys
  | _, _ => false

end

mutual

theorem same_iff : ∀ m n : Node, same m n = true ↔ m = n
  | scalar _, n | set _, n => by cases n <;> simp [same]
  | list _ xs, n => by cases n <;> simp [same, sameItems_iff xs]
  | map _ xs, n => by cases n <;> simp [same, sameEntries_iff xs]
  | tagged _ m, n => by cases n <;> simp [same, same_iff m]
  | pair k v, n => by cases n <;> simp [same, same_iff k, same_iff v]

theorem sameItems_iff : ∀ xs ys : List Node, sameItems xs ys = true ↔ xs = ys
  | [], ys => by cases ys <;> simp [sameItems]
  | x :: xs, ys => by cases ys <;> simp [sameItems, same_iff x, sameItems_iff xs]

theorem sameEntries_iff : ∀ xs ys : List (Scalar × Node), sameEntries xs ys = true ↔ xs = ys
  | [], ys => by cases ys <;> simp [sameEntries]
  | (_, v) :: xs, ys => by
    rcases ys with _ | ⟨⟨l, w⟩, ys⟩ <;> simp [sameEntries, same_iff v, sameEntries_iff xs]

end

instance : DecidableEq Node := fun m n => decidable_of_iff _ (same_iff m n)

/-! ## The parts of a node -/

/-- The place of a container. -/
def place? : Node → Option Nat
  | list place _ | map place _ => place
  | _ => none

/-- What a node holds directly. What a pair holds counts only if it is asked for. -/
def children (inPairs : Bool) : Node → List Node
  | list _ items => items
  | map _ entries => entries.map (·.2)
  | tagged _ payload => [payload]
  | pair key value => if inPairs then [key, value] else []
  | _ => []

mutual

/-- A node and everything below it. What is below a pair counts only if it is asked for. -/
def parts (inPairs : Bool) : Node → List Node
  | list place items => list place items :: itemParts inPairs items
  | map place entries => map place entries :: entryParts inPairs entries
  | tagged name payload => tagged name payload :: parts inPairs payload
  | pair key value =>
    pair key value :: if inPairs then parts inPairs key ++ parts inPairs value else []
  | n => [n]

/-- The parts of some items. -/
def itemParts (inPairs : Bool) : List Node → List Node
  | [] => []
  | item :: items => parts inPairs item ++ itemParts inPairs items

/-- The parts of some values. -/
def entryParts (inPairs : Bool) : List (Scalar × Node) → List Node
  | [] => []
  | (_, value) :: entries => parts inPairs value ++ entryParts inPairs entries

end

/-- Nothing in a node is tagged. -/
def TagFree (n : Node) : Prop := ∀ name payload, tagged name payload ∉ n.parts true

variable {b : Bool} {n k c key value : Node} {place : Option Nat} {p : Nat} {items : List Node}
  {entries : List (Scalar × Node)}

theorem itemParts_eq (b : Bool) (items : List Node) :
    itemParts b items = items.flatMap (parts b) := by
  induction items with
  | nil => rfl
  | cons item items ih => rw [itemParts, ih, List.flatMap_cons]

theorem entryParts_eq (b : Bool) (entries : List (Scalar × Node)) :
    entryParts b entries = (entries.map (·.2)).flatMap (parts b) := by
  induction entries with
  | nil => rfl
  | cons entry entries ih => rw [entryParts, ih, List.map_cons, List.flatMap_cons]

theorem parts_eq (b : Bool) (n : Node) : n.parts b = n :: (n.children b).flatMap (parts b) := by
  cases n with
  | list place items => rw [parts, itemParts_eq, children]
  | map place entries => rw [parts, entryParts_eq, children]
  | tagged name payload => simp [parts, children]
  | pair key value => cases b <;> simp [parts, children]
  | scalar _ | set _ => simp [parts, children]

theorem mem_parts : k ∈ n.parts b ↔ k = n ∨ ∃ child ∈ n.children b, k ∈ child.parts b := by
  rw [parts_eq, List.mem_cons, List.mem_flatMap]

theorem self_mem_parts (b : Bool) (n : Node) : n ∈ n.parts b := mem_parts.2 (.inl rfl)

theorem mem_parts_of_child (hc : c ∈ n.children b) (h : k ∈ c.parts b) : k ∈ n.parts b :=
  mem_parts.2 (.inr ⟨c, hc, h⟩)

theorem sizeOf_child (h : c ∈ n.children b) : sizeOf c < sizeOf n := by
  cases n with
  | list place items =>
    have : sizeOf c < sizeOf items := List.sizeOf_lt_of_mem h
    simp only [list.sizeOf_spec]
    omega
  | map place entries =>
    obtain ⟨⟨key, value⟩, hmem, rfl⟩ := List.mem_map.1 h
    have := List.sizeOf_lt_of_mem hmem
    simp only [map.sizeOf_spec, Prod.mk.sizeOf_spec] at this ⊢
    omega
  | tagged name payload =>
    obtain rfl := List.mem_singleton.1 h
    simp only [tagged.sizeOf_spec]
    omega
  | pair key value =>
    cases b with
    | false => cases h
    | true =>
      simp only [children, if_true, List.mem_cons, List.not_mem_nil, or_false] at h
      rcases h with rfl | rfl <;> simp only [pair.sizeOf_spec] <;> omega
  | scalar _ | set _ => cases h

/-- What holds of a node if it holds of its children holds of all nodes. -/
theorem inductionOnChildren {motive : Node → Prop} (b : Bool)
    (h : ∀ n : Node, (∀ child ∈ n.children b, motive child) → motive n) (n : Node) : motive n :=
  h n fun child _hchild => inductionOnChildren b h child
termination_by sizeOf n
decreasing_by exact sizeOf_child _hchild

/-- The parts of a part are parts. -/
theorem parts_subset : k ∈ n.parts b → k.parts b ⊆ n.parts b := by
  induction n using inductionOnChildren b with
  | h n ih =>
    intro hk
    rcases mem_parts.1 hk with rfl | ⟨child, hchild, hk⟩
    · exact fun _ => id
    · exact fun _ hm => mem_parts_of_child hchild (ih child hchild hk hm)

/-- What holds of a node if it holds of all parts of its children holds of all nodes. -/
theorem inductionOnParts {motive : Node → Prop} (b : Bool)
    (h : ∀ n : Node, (∀ child ∈ n.children b, ∀ k ∈ child.parts b, motive k) → motive n) (n : Node) :
    motive n := by
  suffices hparts : ∀ k ∈ n.parts b, motive k from hparts n (self_mem_parts b n)
  induction n using inductionOnChildren b with
  | h n ih =>
    intro k hk
    rcases mem_parts.1 hk with rfl | ⟨child, hchild, hk⟩
    · exact h k ih
    · exact ih child hchild k hk

/-- Parts that are not below pairs are parts. -/
theorem mem_parts_true : k ∈ n.parts false → k ∈ n.parts true := by
  induction n using inductionOnChildren false with
  | h n ih =>
    intro hk
    rcases mem_parts.1 hk with rfl | ⟨child, hchild, hk⟩
    · exact self_mem_parts _ _
    · refine mem_parts_of_child (c := child) ?_ (ih child hchild hk)
      cases n with
      | pair key value => cases hchild
      | _ => exact hchild

theorem TagFree.child (h : n.TagFree) (hc : c ∈ n.children true) : c.TagFree :=
  fun name payload hmem => h name payload (mem_parts_of_child hc hmem)

/-! ## Trees -/

/-- A node with others in place of its children, and with no place. -/
def mapChildren (f : Node → Node) : Node → Node
  | list _ items => list none (items.map f)
  | map _ entries => map none (entries.map fun (key, value) => (key, f value))
  | tagged name payload => tagged name (f payload)
  | pair key value => pair (f key) (f value)
  | n => n

theorem mapChildren_congr {f g : Node → Node} (h : ∀ c ∈ n.children true, f c = g c) :
    n.mapChildren f = n.mapChildren g := by
  cases n with
  | list place items => exact congrArg _ (List.map_congr_left h)
  | map place entries =>
    refine congrArg _ (List.map_congr_left fun (key, value) hentry => ?_)
    exact congrArg _ (h value (List.mem_map_of_mem hentry))
  | tagged name payload => exact congrArg _ (h payload (by simp [children]))
  | pair key value =>
    rw [mapChildren, mapChildren, h key (by simp [children]), h value (by simp [children])]
  | scalar _ | set _ => rfl

theorem unsharedItems_eq (items : List Node) : unsharedItems items = items.map unshared := by
  induction items with
  | nil => rfl
  | cons item items ih => rw [unsharedItems, ih, List.map_cons]

theorem unsharedEntries_eq (entries : List (Scalar × Node)) :
    unsharedEntries entries = entries.map fun (key, value) => (key, value.unshared) := by
  induction entries with
  | nil => rfl
  | cons entry entries ih => rw [unsharedEntries, ih, List.map_cons]

theorem unshared_eq (n : Node) : n.unshared = n.mapChildren unshared := by
  cases n with
  | list place items => rw [unshared, unsharedItems_eq, mapChildren]
  | map place entries => rw [unshared, unsharedEntries_eq, mapChildren]
  | tagged _ _ | pair _ _ | scalar _ | set _ => rfl

theorem unshared_list (place : Option Nat) (items : List Node) :
    (list place items).unshared = list none (items.map unshared) := unshared_eq _

theorem unshared_map (place : Option Nat) (entries : List (Scalar × Node)) :
    (map place entries).unshared = map none (entries.map fun (key, value) => (key, value.unshared)) :=
  unshared_eq _

theorem children_mapChildren (b : Bool) (f : Node → Node) (n : Node) :
    (n.mapChildren f).children b = (n.children b).map f := by
  cases n with
  | map place entries => simp [mapChildren, children]
  | pair key value => cases b <;> rfl
  | list _ _ | tagged _ _ | scalar _ | set _ => rfl

theorem place?_mapChildren (f : Node → Node) (n : Node) : (n.mapChildren f).place? = none := by
  cases n <;> rfl

/-- No container of a tree has a place. -/
theorem place?_of_mem_unshared : k ∈ n.unshared.parts b → k.place? = none := by
  induction n using inductionOnChildren b with
  | h n ih =>
    intro hk
    rw [unshared_eq] at hk
    rcases mem_parts.1 hk with rfl | ⟨child, hchild, hk⟩
    · exact place?_mapChildren _ _
    · rw [children_mapChildren, List.mem_map] at hchild
      obtain ⟨child, hchild, rfl⟩ := hchild
      exact ih child hchild hk

end Node

/-! ## What is kept -/

namespace Contents

variable {c : Contents} {p q : Nat} {n : Node}

theorem get?_without : (c.without p).get? q = if q = p then none else c.get? q := by
  induction c with
  | nil => simp [without, get?]
  | cons entry c ih =>
    obtain ⟨i, k⟩ := entry
    by_cases hi : i = p
    · subst hi
      rw [show without ((i, k) :: c) i = without c i by simp [without], ih]
      by_cases hq : q = i
      · simp [hq]
      · simp [get?, hq, Ne.symm hq]
    · rw [show without ((i, k) :: c) p = (i, k) :: without c p by simp [without, hi]]
      by_cases hq : q = i
      · subst hq
        simp [get?, hi]
      · simpa [get?, Ne.symm hq] using ih

theorem get?_set : (c.set p n).get? q = if q = p then some n else c.get? q := by
  by_cases hq : q = p
  · simp [set, get?, hq]
  · rw [if_neg hq, ← (get?_without (c := c) (p := p) (q := q)).trans (if_neg hq)]
    simp [set, get?, Ne.symm hq]

theorem get?_append (c d : Contents) (p : Nat) : (c ++ d).get? p = (c.get? p).or (d.get? p) := by
  simp [get?, List.find?_append, Option.map_or]

end Contents

namespace Idents

variable {ids : Idents} {id id' : String} {n : Node}

theorem get?_put : (ids.put id n).get? id' = if id' = id then some n else ids.get? id' := by
  induction ids with
  | nil =>
    by_cases h : id' = id
    · simp [put, get?, h]
    · simp [put, get?, h, Ne.symm h]
  | cons entry ids ih =>
    obtain ⟨i, old⟩ := entry
    by_cases hi : i = id
    · subst hi
      by_cases h : id' = i
      · simp [put, get?, h]
      · simp [put, get?, h, Ne.symm h]
    · rw [put, if_neg hi]
      by_cases h : id' = i
      · subst h
        simp [get?, hi]
      · simpa [get?, Ne.symm h] using ih

theorem mem_of_get? (h : ids.get? id = some n) : n ∈ ids.map (·.2) := by
  obtain ⟨entry, hentry, rfl⟩ := Option.map_eq_some_iff.1 h
  exact List.mem_map_of_mem (List.mem_of_find?_eq_some hentry)

/-- The values after one is set. -/
theorem mem_put {x : Node} (h : x ∈ (ids.put id n).map (·.2)) : x = n ∨ x ∈ ids.map (·.2) := by
  induction ids with
  | nil => exact .inl (List.mem_singleton.1 h)
  | cons entry ids ih =>
    obtain ⟨i, old⟩ := entry
    rw [put] at h
    split at h
    · exact (List.mem_cons.1 h).imp_right (List.mem_cons_of_mem _)
    · rcases List.mem_cons.1 h with rfl | h
      · exact .inr List.mem_cons_self
      · exact (ih h).imp_right (List.mem_cons_of_mem _)

theorem get?_map (f : Node → Node) :
    get? (ids.map fun (id, n) => (id, f n)) id = (ids.get? id).map f := by
  simp [get?, List.find?_map, Function.comp_def]

/-- All ids that are known stay so, with their values. -/
def Grows (ids ids' : Idents) : Prop := ∀ id n, ids.get? id = some n → ids'.get? id = some n

theorem Grows.refl (ids : Idents) : ids.Grows ids := fun _ _ h => h

theorem Grows.trans {ids₁ ids₂ ids₃ : Idents} (h : ids₁.Grows ids₂) (h' : ids₂.Grows ids₃) :
    ids₁.Grows ids₃ :=
  fun id n hn => h' id n (h id n hn)

/-- A value for an id that is not known changes no other. -/
theorem grows_put (h : ids.get? id = none) : ids.Grows (ids.put id n) := by
  intro id' n' hn'
  rw [get?_put, if_neg, hn']
  rintro rfl
  rw [h] at hn'
  cases hn'

end Idents

/-! ## Nodes at rest

A relation tells what stands in some places throughout, as a tree. -/

section

variable (holds : Nat → Node → Prop)

/-- Every container below a node stands in a place that holds it throughout. -/
def Node.AtRest (n : Node) : Prop := ∀ k ∈ n.parts true, ∀ p, k.place? = some p → holds p k.unshared

/-- What may stand in a place: a container which itself has none, and where something is held
    throughout, nothing else. -/
structure Stands (p : Nat) (n : Node) : Prop where
  container : (∃ items, n = .list none items) ∨ ∃ entries, n = .map none entries
  tree : ∀ t, holds p t → n.unshared = t ∧ n.AtRest holds

/-- Everything may stand where it stands. -/
def Contents.Keeps (c : Contents) : Prop := ∀ p n, c.get? p = some n → Stands holds p n

end

variable {holds : Nat → Node → Prop} {c d : Contents} {n : Node} {p : Nat}

namespace Node

theorem AtRest.child (h : n.AtRest holds) {k : Node} (hk : k ∈ n.children true) : k.AtRest holds :=
  fun m hm => h m (mem_parts_of_child hk hm)

theorem atRest_of_children (hplace : ∀ p, n.place? = some p → holds p n.unshared)
    (h : ∀ k ∈ n.children true, k.AtRest holds) : n.AtRest holds := by
  intro m hm p hp
  rcases mem_parts.1 hm with rfl | ⟨k, hk, hm⟩
  · exact hplace p hp
  · exact h k hk m hm p hp

theorem atRest_scalar (s : Scalar) : (scalar s).AtRest holds :=
  atRest_of_children (fun _ h => by cases h) fun _ h => by cases h

theorem atRest_set (members : List Scalar) : (set members).AtRest holds :=
  atRest_of_children (fun _ h => by cases h) fun _ h => by cases h

/-- Trees are at rest. -/
theorem atRest_unshared (n : Node) : n.unshared.AtRest holds := by
  intro k hk p hp
  rw [place?_of_mem_unshared hk] at hp
  cases hp

end Node

theorem Contents.Keeps.without (h : c.Keeps holds) (p : Nat) : (c.without p).Keeps holds := by
  intro q n hq
  rw [get?_without] at hq
  split at hq
  · cases hq
  · exact h q n hq

theorem Contents.Keeps.append (h : c.Keeps holds) (h' : d.Keeps holds) : (c ++ d).Keeps holds := by
  intro p n hp
  rw [get?_append, Option.or_eq_some_iff] at hp
  rcases hp with hp | ⟨-, hp⟩
  · exact h p n hp
  · exact h' p n hp

namespace Node

theorem itemsAsTheyStand_eq (c : Contents) (items : List Node) :
    itemsAsTheyStand c items = items.map (asItStands c) := by
  induction items with
  | nil => rw [itemsAsTheyStand, List.map_nil]
  | cons item items ih => rw [itemsAsTheyStand, ih, List.map_cons]

theorem entriesAsTheyStand_eq (c : Contents) (entries : List (Scalar × Node)) :
    entriesAsTheyStand c entries = entries.map fun (key, value) => (key, asItStands c value) := by
  induction entries with
  | nil => rw [entriesAsTheyStand, List.map_nil]
  | cons entry entries ih => rw [entriesAsTheyStand, ih, List.map_cons]

@[simp] theorem asItStands_scalar (c : Contents) (s : Scalar) :
    asItStands c (scalar s) = scalar s := by
  rw [asItStands]

@[simp] theorem asItStands_list_none (c : Contents) (items : List Node) :
    asItStands c (list none items) = list none (items.map (asItStands c)) := by
  simp [asItStands, itemsAsTheyStand_eq]

@[simp] theorem asItStands_map_none (c : Contents) (entries : List (Scalar × Node)) :
    asItStands c (map none entries)
      = map none (entries.map fun (key, value) => (key, asItStands c value)) := by
  simp [asItStands, entriesAsTheyStand_eq]

@[simp] theorem asItStands_tagged (c : Contents) (name : String) (payload : Node) :
    asItStands c (tagged name payload) = tagged name (asItStands c payload) := by
  rw [asItStands]

@[simp] theorem asItStands_pair (c : Contents) (key value : Node) :
    asItStands c (pair key value) = pair (asItStands c key) (asItStands c value) := by
  rw [asItStands]

theorem asItStands_list (c : Contents) (p : Nat) (items : List Node) :
    asItStands c (list (some p) items) = match c.get? p with
      | some n => asItStands (c.without p) n
      | none => list none (items.map (asItStands c)) := by
  rw [asItStands]
  dsimp only
  split <;> simp [*, itemsAsTheyStand_eq]

theorem asItStands_map (c : Contents) (p : Nat) (entries : List (Scalar × Node)) :
    asItStands c (map (some p) entries) = match c.get? p with
      | some n => asItStands (c.without p) n
      | none => map none (entries.map fun (key, value) => (key, asItStands c value)) := by
  rw [asItStands]
  dsimp only
  split <;> simp [*, entriesAsTheyStand_eq]

/-- A container that has been worked on is seen as what stands in its place. -/
theorem asItStands_of_get? {m : Node} (hplace : n.place? = some p) (h : c.get? p = some m) :
    asItStands c n = asItStands (c.without p) m := by
  cases n with
  | list place items =>
    obtain rfl : place = some p := hplace
    rw [asItStands_list, h]
  | map place entries =>
    obtain rfl : place = some p := hplace
    rw [asItStands_map, h]
  | _ => cases hplace

/-- Everything else is seen as what it holds is seen. -/
theorem asItStands_of_at? (h : c.at? n.place? = none) :
    asItStands c n = n.mapChildren (asItStands c) := by
  cases n with
  | list place items =>
    cases place with
    | none => exact asItStands_list_none c items
    | some p => rw [asItStands_list, show c.get? p = none from h, mapChildren]
  | map place entries =>
    cases place with
    | none => exact asItStands_map_none c entries
    | some p => rw [asItStands_map, show c.get? p = none from h, mapChildren]
  | tagged _ _ | pair _ _ | scalar _ | set _ => simp [asItStands, mapChildren]

/-- A node at rest is seen as the tree that it is, whatever stands in other places. -/
theorem asItStands_of_atRest {c : Contents} {n : Node} (hc : c.Keeps holds) (h : n.AtRest holds) :
    asItStands c n = n.unshared := by
  cases hat : c.at? n.place? with
  | some m =>
    obtain ⟨p, hplace, hp⟩ := Option.bind_eq_some_iff.1 hat
    obtain ⟨htree, hrest⟩ := (hc p m hp).tree _ (h n (self_mem_parts _ _) p hplace)
    -- What stands in a place is seen with one place less to look up.
    have := Contents.length_without_lt hp
    rw [asItStands_of_get? hplace hp, asItStands_of_atRest (hc.without p) hrest, htree]
  | none =>
    rw [asItStands_of_at? hat, unshared_eq]
    refine mapChildren_congr fun k hk => ?_
    have := sizeOf_child hk
    exact asItStands_of_atRest hc (h.child hk)
termination_by (c.length, sizeOf n)
decreasing_by
  · exact .right _ this
  · exact .left _ _ this

/-- What is seen as a scalar is one: only containers come to stand in the place of a container. -/
theorem asItStands_eq_scalar_iff (hc : c.Keeps holds) {s : Scalar} :
    asItStands c n = scalar s ↔ n = scalar s := by
  cases hat : c.at? n.place? with
  | some m =>
    obtain ⟨p, hplace, hp⟩ := Option.bind_eq_some_iff.1 hat
    rw [asItStands_of_get? hplace hp]
    have hn : n ≠ scalar s := by
      rintro rfl
      cases hplace
    obtain ⟨items, rfl⟩ | ⟨entries, rfl⟩ := (hc p m hp).container
    · simp [hn]
    · simp [hn]
  | none =>
    rw [asItStands_of_at? hat]
    cases n <;> simp [mapChildren]

theorem get?_mapValues (f : Node → Node) (entries : List (Scalar × Node)) (key : String) :
    Entries.get? (entries.map fun (key, value) => (key, f value)) key
      = (Entries.get? entries key).map f := by
  simp [Entries.get?, List.find?_map, Function.comp_def]

theorem asIdent_eq_ok_iff {id : String} : n.asIdent = .ok id ↔ n = text id := by
  unfold asIdent
  split
  · simp [text]
  · next hne =>
    refine ⟨fun h => ?_, fun h => absurd h (hne id)⟩
    unfold showing at h
    split at h <;> cases h

/-- A payload names the same id if what it holds is replaced, but for texts. -/
theorem ident_mapChildren {f : Node → Node} (hf : ∀ x s, f x = scalar s ↔ x = scalar s)
    {id : String} :
    (n.mapChildren f).ident = .ok id ↔ n.ident = .ok id := by
  have hident : ∀ x : Node, (f x).asIdent = .ok id ↔ x.asIdent = .ok id := fun x => by
    rw [asIdent_eq_ok_iff, asIdent_eq_ok_iff, text, hf]
  cases n with
  | list place items =>
    cases items with
    | nil => rfl
    | cons item items => exact hident item
  | map place entries =>
    rw [mapChildren, ident, ident, get?_mapValues]
    cases Entries.get? entries "id" with
    | none => rfl
    | some value => exact hident value
  | tagged _ _ | pair _ _ => rfl
  | scalar _ | set _ => rfl

theorem unshared_eq_scalar_iff {s : Scalar} : n.unshared = scalar s ↔ n = scalar s := by
  cases n <;> simp [unshared]

/-- The value beside an id is held by the payload. -/
theorem mem_children_of_identValue {b : Bool} {v : Node} {id : String} (hid : n.ident = .ok id)
    (h : n.identValue = .ok v) : v ∈ n.children b := by
  cases n with
  | list place items =>
    simp only [identValue, parts?] at h
    split at h
    · next hitems =>
      cases h
      cases hitems
      simp [children]
    · cases h
    · cases h
  | map place entries =>
    rw [identValue] at h
    split at h
    · cases h
    · next value hvalue =>
      cases h
      obtain ⟨entry, hentry, rfl⟩ := Option.map_eq_some_iff.1 hvalue
      exact List.mem_map_of_mem (List.mem_of_find?_eq_some hentry)
  | scalar _ | set _ => cases hid
  | tagged _ _ | pair _ _ => cases hid

/-- The value beside an id in a tree is a tree. -/
theorem identValue_unshared {id : String} (hid : n.ident = .ok id) :
    n.unshared.identValue = n.identValue.map unshared := by
  cases n with
  | list place items =>
    rw [unshared_list]
    rcases items with _ | ⟨x, _ | ⟨y, _ | ⟨z, items⟩⟩⟩ <;> simp [identValue, parts?, Except.map]
  | map place entries =>
    rw [unshared_map, identValue, identValue, get?_mapValues]
    cases Entries.get? entries "value" <;> rfl
  | scalar _ | set _ => cases hid
  | tagged _ _ | pair _ _ => cases hid

end Node
end Runbook
