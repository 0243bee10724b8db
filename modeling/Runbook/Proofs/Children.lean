import Runbook.Proofs.Identifiers

set_option autoImplicit false

/-! # Lists and mappings alike

A list and a mapping are worked through in the same way, one child after the other: a mapping only
keeps its keys beside them. So what holds of both is said once, of a container that is filled with
other children. -/

namespace Runbook.Node

open Interpretation

/-- Lists and mappings. -/
inductive IsContainer : Node → Prop
  | list (place : Option Nat) (items : List Node) : IsContainer (list place items)
  | map (place : Option Nat) (entries : List (Scalar × Node)) : IsContainer (map place entries)

/-- A container with other children, and with no place. A mapping keeps its keys. -/
def refill : Node → List Node → Node
  | list _ _, ks => list none ks
  | map _ entries, ks => map none ((entries.map (·.1)).zip ks)
  | n, _ => n

variable {e : Setting} {s s' s₁ : World × TagMemory} {n k v : Node} {ks ks' done : List Node}
  {b : Bool}

/-! ## Other children -/

theorem zip_keys (entries : List (Scalar × Node)) :
    (entries.map (·.1)).zip (entries.map (·.2)) = entries := by
  rw [List.zip_map']
  exact List.map_id _

theorem IsContainer.refill (hn : n.IsContainer) (ks : List Node) : (n.refill ks).IsContainer := by
  cases hn with
  | list => exact .list _ _
  | map => exact .map _ _

theorem IsContainer.ne_tagged (hn : n.IsContainer) (name : String) (payload : Node) :
    n ≠ tagged name payload := by
  rintro rfl
  cases hn

theorem mem_children_true (hk : k ∈ n.children b) : k ∈ n.children true := by
  cases n with
  | pair key value =>
    cases b with
    | false => cases hk
    | true => exact hk
  | _ => exact hk

/-- Nothing of a container is below a pair. -/
theorem IsContainer.children_eq (hn : n.IsContainer) (b : Bool) : n.children b = n.children true := by
  cases hn <;> rfl

theorem children_refill (hn : n.IsContainer) (hlength : ks.length = (n.children true).length) :
    (n.refill ks).children b = ks := by
  cases hn with
  | list place items => rfl
  | map place entries =>
    refine List.map_snd_zip (Nat.le_of_eq ?_)
    simpa [children] using hlength

theorem place?_refill (hn : n.IsContainer) (ks : List Node) : (n.refill ks).place? = none := by
  cases hn <;> rfl

theorem refill_map_children (hn : n.IsContainer) (f : Node → Node) :
    n.refill ((n.children true).map f) = n.mapChildren f := by
  cases hn with
  | list place items => rfl
  | map place entries =>
    simp [Node.refill, children, mapChildren, List.zip_map', Function.comp_def]

theorem unshared_refill (hn : n.IsContainer) (ks : List Node) :
    (n.refill ks).unshared = n.refill (ks.map unshared) := by
  cases hn with
  | list place items => exact unshared_list _ _
  | map place entries => simp [Node.refill, unshared_map, List.zip_map_right]

/-- What stands in a mapping when some of its entries are done. -/
theorem refill_entries (place : Option Nat) {all done rest : List (Scalar × Node)} {key : Scalar}
    {value : Node} (hkeys : all.map (·.1) = (done ++ (key, value) :: rest).map (·.1)) :
    (map place all).refill (done.map (·.2) ++ value :: rest.map (·.2))
      = map none (done ++ (key, value) :: rest) := by
  have hvalues : done.map (·.2) ++ value :: rest.map (·.2)
      = (done ++ (key, value) :: rest).map (·.2) := by simp
  rw [Node.refill, hkeys, hvalues, zip_keys]

/-! ## Working through a container -/

/-- Interprets some children of a container after some that are done. -/
def interpretChildren (n : Node) (done : List Node) : List Node → Interpretation (List Node)
  | [] => pure done
  | k :: ks => do
    progress n.place? (n.refill (done ++ k :: ks))
    let new ← interpret k
    interpretChildren n (done ++ [new]) ks

theorem interpretItems_eq (place : Option Nat) (items : List Node) :
    interpretItems place = interpretChildren (list place items) := by
  funext done rest
  induction rest generalizing done with
  | nil => rfl
  | cons k ks ih =>
    rw [interpretItems, interpretChildren]
    simp only [ih]
    rfl

/-- The entries of a mapping are its keys with what its children come to. -/
theorem interpretEntries_eq (place : Option Nat) (all : List (Scalar × Node)) :
    ∀ (rest done : List (Scalar × Node)), all.map (·.1) = (done ++ rest).map (·.1) →
      interpretEntries place done rest
        = (fun ks => (all.map (·.1)).zip ks) <$>
          interpretChildren (map place all) (done.map (·.2)) (rest.map (·.2))
  | [], done, hkeys => by
    rw [List.append_nil] at hkeys
    rw [interpretEntries, List.map_nil, interpretChildren, map_pure, hkeys, zip_keys]
  | (key, value) :: rest, done, hkeys => by
    rw [interpretEntries, List.map_cons, interpretChildren, map_bind, refill_entries place hkeys]
    refine congrArg _ (funext fun _ => ?_)
    rw [map_bind]
    refine congrArg _ (funext fun new => ?_)
    have hnext := interpretEntries_eq place all rest (done ++ [(key, new)])
      (by simpa using hkeys)
    rw [hnext, List.map_append]
    rfl

theorem interpret_of_settled (hn : n.IsContainer) (h : s.2.settled.at? n.place? = some v) :
    n.interpret e s = (.ok v, s) := by
  cases hn with
  | list => exact interpret_list_of_settled h
  | map => exact interpret_map_of_settled h

/-- A container that is new is filled with what its children come to. -/
theorem interpret_of_new (hn : n.IsContainer) (h : s.2.settled.at? n.place? = none) :
    n.interpret e s = (interpretChildren n [] (n.children true) >>= fun ks => do
      settle n.place? (n.refill ks)
      return n.refill ks) e s := by
  cases hn with
  | list place items =>
    have hnew : s.2.settled.at? place = none := h
    rw [interpret_list_of_new hnew, interpretItems_eq place items]
    rfl
  | map place entries =>
    have hnew : s.2.settled.at? place = none := h
    rw [interpret_map_of_new hnew, interpretEntries_eq place entries entries [] rfl,
      bind_map_left]
    rfl

/-- Of the children of a container, one is interpreted, in some state. -/
inductive StartsChild (e : Setting) (n : Node) :
    World × TagMemory → List Node → List Node → World × TagMemory → Node → Prop
  | here {s s₁ : World × TagMemory} {done ks : List Node} {k : Node}
      (hprogress : progress n.place? (n.refill (done ++ k :: ks)) e s = (.ok (), s₁)) :
      StartsChild e n s done (k :: ks) s₁ k
  | later {s s₁ s₂ s₃ : World × TagMemory} {done ks : List Node} {k new m : Node}
      (hprogress : progress n.place? (n.refill (done ++ k :: ks)) e s = (.ok (), s₁))
      (hchild : k.interpret e s₁ = (.ok new, s₂))
      (hrest : StartsChild e n s₂ (done ++ [new]) ks s₃ m) : StartsChild e n s done (k :: ks) s₃ m

theorem StartsChild.startsItem {place : Option Nat} {items : List Node}
    (h : StartsChild e (list place items) s done ks s₁ k) : StartsItem e place s done ks s₁ k := by
  induction h with
  | here hprogress => exact .here hprogress
  | later hprogress hchild _ ih => exact .later hprogress hchild ih

theorem StartsChild.startsEntry {place : Option Nat} {all : List (Scalar × Node)}
    (h : StartsChild e (map place all) s done ks s₁ k) :
    ∀ before rest : List (Scalar × Node), all.map (·.1) = (before ++ rest).map (·.1) →
      before.map (·.2) = done → rest.map (·.2) = ks → StartsEntry e place s before rest s₁ k := by
  induction h with
  | here hprogress =>
    rintro before (_ | ⟨⟨key, value⟩, rest⟩) hkeys rfl hrest <;> cases hrest
    rw [refill_entries place hkeys] at hprogress
    exact .here hprogress
  | @later _ _ _ _ _ _ _ new _ hprogress hchild _ ih =>
    rintro before (_ | ⟨⟨key, value⟩, rest⟩) hkeys rfl hrest <;> cases hrest
    rw [refill_entries place hkeys] at hprogress
    refine .later hprogress hchild (ih (before ++ [(key, new)]) rest ?_ ?_ rfl)
    · simpa using hkeys
    · simp

/-- A child that is interpreted is started by its container. -/
theorem StartsChild.starts (hn : n.IsContainer) (hnew : s.2.settled.at? n.place? = none)
    (h : StartsChild e n s [] (n.children true) s₁ k) : Starts e s n [] s₁ k := by
  cases hn with
  | list place items => exact .item hnew h.startsItem
  | map place entries => exact .entry hnew (h.startsEntry [] entries rfl rfl rfl)

end Runbook.Node
