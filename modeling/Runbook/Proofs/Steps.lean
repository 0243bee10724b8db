import Runbook.Proofs.Separate

set_option autoImplicit false

/-! # The steps of an interpretation

All that the interpretation of tags does is built from a few steps, and the notes that it takes are of
the containers of the node that is interpreted. What holds of every step, with the notes restricted to
those places, therefore holds of the interpretation of a node, however deep its tags are. One such
property is which containers count as worked through: they stay so, and only containers of the node are
added to them. -/

namespace Runbook

namespace Interpretation

/-- What holds of each step from which the interpretation of tags is built, and of what is built from
    such steps, where notes are taken of some places only. -/
structure HoldsOfStepsAt (T : Nat → Prop) (P : ∀ {α : Type}, Interpretation α → Prop) : Prop where
  pure : ∀ {α : Type} (a : α), P (Pure.pure a : Interpretation α)
  bind : ∀ {α β : Type} {a : Interpretation α} {f : α → Interpretation β},
    P a → (∀ v, P (f v)) → P (a >>= f)
  memory : P memory
  progress : ∀ (place : Option Nat) (n : Node), (∀ p ∈ place, T p) → P (progress place n)
  settle : ∀ (place : Option Nat) (n : Node), (∀ p ∈ place, T p) → P (settle place n)
  put : ∀ (id : String) (v : Node), P (remember fun m => { m with ids := m.ids.put id v })
  check : ∀ {α : Type} (r : Except TagProblem α), P (check r)
  answer : ∀ hidden q, P (answer hidden q)
  under : ∀ {α : Type} {a : Interpretation α} (tag : String), P a → P (under tag a)

namespace HoldsOfStepsAt

variable {T : Nat → Prop} {P : ∀ {α : Type}, Interpretation α → Prop} (hP : HoldsOfStepsAt T P)

include hP

theorem settled? (place : Option Nat) : P (Interpretation.settled? place) :=
  hP.bind hP.memory fun _ => hP.pure _

theorem input (hidden : Bool) (payload : Node) : P (Interpretation.input hidden payload) :=
  hP.bind (hP.check _) fun q => hP.bind (hP.answer hidden q) fun _ => hP.pure _

theorem identify (id : String) {first : Interpretation Node} (h : P first) :
    P (Interpretation.identify id first) := by
  refine hP.bind hP.memory fun m => ?_
  split
  · exact hP.bind hP.memory fun _ => hP.pure _
  · exact hP.bind h fun v => hP.bind (hP.put id v) fun _ => hP.bind hP.memory fun _ => hP.pure _

theorem part (index : Nat) (item : Node) : P (Interpretation.part index item) := by
  unfold Interpretation.part
  split
  · exact hP.pure _
  · exact hP.bind hP.memory fun _ => hP.check _

theorem joinSettled (items : List Node) : ∀ index, P (Interpretation.joinSettled index items) := by
  induction items with
  | nil => exact fun _ => hP.pure _
  | cons item items ih =>
    exact fun index => hP.bind (hP.part index item) fun _ => hP.bind (ih (index + 1)) fun _ => hP.pure _

end HoldsOfStepsAt
end Interpretation

open Interpretation

namespace Node

variable {T : Nat → Prop} {P : ∀ {α : Type}, Interpretation α → Prop} {n k : Node}
  {place : Option Nat} {items : List Node} {entries : List (Scalar × Node)}

/-- The containers of a node that are worked through have places of some kind. -/
def WorksIn (T : Nat → Prop) (n : Node) : Prop := ∀ p ∈ n.workPlaces, T p

theorem WorksIn.own (h : n.WorksIn T) : ∀ p ∈ n.place?, T p := by
  intro p hp
  refine h p ?_
  rw [workPlaces_eq]
  exact List.mem_append_left _ (Option.mem_toList.2 hp)

theorem WorksIn.child (h : n.WorksIn T) (hk : k ∈ n.children false) : k.WorksIn T := by
  intro p hp
  refine h p ?_
  rw [workPlaces_eq]
  exact List.mem_append_right _ (List.mem_flatMap.2 ⟨k, hk, hp⟩)

theorem WorksIn.item (h : (list place items).WorksIn T) : ∀ k ∈ items, k.WorksIn T :=
  fun _ hk => h.child hk

theorem WorksIn.value (h : (map place entries).WorksIn T) : ∀ x ∈ entries, x.2.WorksIn T :=
  fun _ hx => h.child (List.mem_map_of_mem hx)

mutual

/-- What holds of each step with notes of some places holds of the interpretation of a node that works
    in these places. -/
theorem holds_interpret_at (hP : HoldsOfStepsAt T P) : ∀ n : Node, n.WorksIn T → P n.interpret
  | scalar _, _ | pair _ _, _ | set _, _ => by
    rw [interpret]
    exact hP.pure _
  | list place items, h => by
    rw [interpret]
    refine hP.bind (hP.settled? place) fun found => ?_
    split
    · exact hP.pure _
    · exact hP.bind (holds_interpretItems_at hP place h.own [] items h.item) fun _ =>
        hP.bind (hP.settle place _ h.own) fun _ => hP.pure _
  | map place entries, h => by
    rw [interpret]
    refine hP.bind (hP.settled? place) fun found => ?_
    split
    · exact hP.pure _
    · exact hP.bind (holds_interpretEntries_at hP place h.own [] entries h.value) fun _ =>
        hP.bind (hP.settle place _ h.own) fun _ => hP.pure _
  | tagged name payload, h => by
    have hpayload : payload.WorksIn T := h.child (List.mem_singleton_self payload)
    rw [interpret]
    split
    · exact hP.under name (holds_interpretJoin_at hP payload hpayload)
    split
    · exact hP.under name (hP.bind (holds_interpret_at hP payload hpayload) fun _ => hP.input false _)
    split
    · exact hP.under name (hP.bind (holds_interpret_at hP payload hpayload) fun _ => hP.input true _)
    split
    · exact hP.under name (holds_interpretIdent_at hP payload hpayload)
    · exact hP.check _

theorem holds_interpretItems_at (hP : HoldsOfStepsAt T P) (place : Option Nat)
    (hplace : ∀ p ∈ place, T p) (done : List Node) :
    ∀ items : List Node, (∀ k ∈ items, k.WorksIn T) → P (interpretItems place done items)
  | [], _ => by
    rw [interpretItems]
    exact hP.pure _
  | item :: items, h => by
    obtain ⟨hitem, hitems⟩ := List.forall_mem_cons.1 h
    rw [interpretItems]
    exact hP.bind (hP.progress place _ hplace) fun _ => hP.bind (holds_interpret_at hP item hitem)
      fun _ => holds_interpretItems_at hP place hplace _ items hitems

theorem holds_interpretEntries_at (hP : HoldsOfStepsAt T P) (place : Option Nat)
    (hplace : ∀ p ∈ place, T p) (done : List (Scalar × Node)) :
    ∀ entries : List (Scalar × Node), (∀ x ∈ entries, x.2.WorksIn T) →
      P (interpretEntries place done entries)
  | [], _ => by
    rw [interpretEntries]
    exact hP.pure _
  | (key, value) :: entries, h => by
    obtain ⟨hvalue, hentries⟩ := List.forall_mem_cons.1 h
    rw [interpretEntries]
    exact hP.bind (hP.progress place _ hplace) fun _ => hP.bind (holds_interpret_at hP value hvalue)
      fun _ => holds_interpretEntries_at hP place hplace _ entries hentries

theorem holds_interpretJoin_at (hP : HoldsOfStepsAt T P) :
    ∀ payload : Node, payload.WorksIn T → P payload.interpretJoin
  | list place items, h => by
    rw [interpretJoin]
    refine hP.bind (hP.settled? place) fun found => ?_
    split
    · exact hP.bind (hP.joinSettled _ 0) fun _ => hP.pure _
    · exact hP.bind (holds_interpretParts_at hP 0 items h.item) fun _ => hP.pure _
  | scalar _, _ | map _ _, _ | tagged _ _, _ | pair _ _, _ | set _, _ => by
    rw [interpretJoin]
    · exact hP.check _
    · simp

theorem holds_interpretParts_at (hP : HoldsOfStepsAt T P) (index : Nat) :
    ∀ items : List Node, (∀ k ∈ items, k.WorksIn T) → P (interpretParts index items)
  | [], _ => by
    rw [interpretParts]
    exact hP.pure _
  | item :: items, h => by
    obtain ⟨hitem, hitems⟩ := List.forall_mem_cons.1 h
    rw [interpretParts]
    exact hP.bind (holds_interpret_at hP item hitem) fun _ => hP.bind (hP.part index _) fun _ =>
      hP.bind (holds_interpretParts_at hP (index + 1) items hitems) fun _ => hP.pure _

theorem holds_interpretIdent_at (hP : HoldsOfStepsAt T P) :
    ∀ payload : Node, payload.WorksIn T → P payload.interpretIdent
  | list place items, h => by
    rw [interpretIdent]
    refine hP.bind (hP.settled? place) fun found => ?_
    split
    · exact hP.bind (hP.check _) fun id => hP.identify id (hP.check _)
    · exact hP.bind hP.memory fun _ => hP.bind (hP.check _) fun id =>
        hP.identify id (holds_interpretSecond_at hP items h.item)
  | map place entries, h => by
    rw [interpretIdent]
    refine hP.bind (hP.settled? place) fun found => ?_
    split
    · exact hP.bind (hP.check _) fun id => hP.identify id (hP.check _)
    · exact hP.bind hP.memory fun _ => hP.bind (hP.check _) fun id =>
        hP.identify id (holds_interpretField_at hP "value" entries h.value)
  | scalar _, _ | tagged _ _, _ | pair _ _, _ | set _, _ => by
    rw [interpretIdent]
    · exact hP.check _
    · simp
    · simp

theorem holds_interpretSecond_at (hP : HoldsOfStepsAt T P) :
    ∀ items : List Node, (∀ k ∈ items, k.WorksIn T) → P (interpretSecond items)
  | [_, value], h => by
    rw [interpretSecond]
    exact holds_interpret_at hP value (h value (by simp))
  | [], _ | [_], _ | _ :: _ :: _ :: _, _ => by
    rw [interpretSecond]
    · exact hP.check _
    · simp

theorem holds_interpretField_at (hP : HoldsOfStepsAt T P) (key : String) :
    ∀ entries : List (Scalar × Node), (∀ x ∈ entries, x.2.WorksIn T) → P (interpretField key entries)
  | [], _ => by
    rw [interpretField]
    exact hP.check _
  | (k, value) :: entries, h => by
    obtain ⟨hvalue, hentries⟩ := List.forall_mem_cons.1 h
    rw [interpretField]
    split
    · exact holds_interpret_at hP value hvalue
    · exact holds_interpretField_at hP key entries hentries

end

end Node

/-! ## What has been worked through -/

/-- What has been worked through stays so, and what is worked through now has places of some kind. -/
structure TagMemory.SettlesIn (T : Nat → Prop) (m m' : TagMemory) : Prop where
  stays : ∀ p, m'.settled.get? p = none → m.settled.get? p = none
  within : ∀ p, m.settled.get? p = none → ¬ T p → m'.settled.get? p = none

namespace TagMemory.SettlesIn

variable {T : Nat → Prop} {m m' m'' : TagMemory}

theorem refl (T : Nat → Prop) (m : TagMemory) : m.SettlesIn T m := ⟨fun _ h => h, fun _ h _ => h⟩

theorem trans (h : m.SettlesIn T m') (h' : m'.SettlesIn T m'') : m.SettlesIn T m'' :=
  ⟨fun p hp => h.stays p (h'.stays p hp), fun p hp hT => h'.within p (h.within p hp hT) hT⟩

theorem settle {p : Nat} {n : Node} (hp : T p) :
    m.SettlesIn T { m with pending := m.pending.without p, settled := m.settled.set p n } := by
  constructor
  · intro q hq
    rw [Contents.get?_set] at hq
    split at hq
    · cases hq
    · exact hq
  · intro q hq hT
    rw [Contents.get?_set, if_neg, hq]
    rintro rfl
    exact hT hp

end TagMemory.SettlesIn

namespace Interpretation

/-- An interpretation works through containers with places of some kind only. -/
def Settles (T : Nat → Prop) {α : Type} (a : Interpretation α) : Prop :=
  ∀ (e : Setting) (s : World × TagMemory), s.2.SettlesIn T (a e s).2.2

variable {α β : Type} {T : Nat → Prop} {a : Interpretation α} {f : α → Interpretation β}

theorem Settles.of_same (h : ∀ e s, (a e s).2.2 = s.2) : a.Settles T := by
  intro e s
  rw [h e s]
  exact .refl T s.2

theorem Settles.bind (ha : a.Settles T) (hf : ∀ v, (f v).Settles T) : (a >>= f).Settles T := by
  intro e s
  have hfirst := ha e s
  rcases hrun : a e s with ⟨x | v, s'⟩ <;> rw [hrun] at hfirst
  · rw [Effect.bind_of_error hrun]
    exact hfirst
  · rw [Effect.bind_of_ok hrun]
    exact hfirst.trans (hf v e s')

theorem settles_settle {place : Option Nat} (n : Node) (hplace : ∀ p ∈ place, T p) :
    (settle place n).Settles T := by
  cases place with
  | none => exact .of_same fun _ _ => rfl
  | some p => exact fun _ _ => .settle (hplace p rfl)

theorem settles_progress (place : Option Nat) (n : Node) : (progress place n).Settles T := by
  intro e s
  cases place with
  | none => exact .refl T s.2
  | some p => exact ⟨fun _ h => h, fun _ h _ => h⟩

theorem settles_steps (T : Nat → Prop) : HoldsOfStepsAt T fun {α} (a : Interpretation α) => a.Settles T where
  pure _ := .of_same fun _ _ => rfl
  bind := .bind
  memory := .of_same fun _ _ => rfl
  progress place n _ := settles_progress place n
  settle _ n hplace := settles_settle n hplace
  put _ _ _ _ := ⟨fun _ h => h, fun _ h _ => h⟩
  check r := .of_same fun _ _ => by cases r <;> rfl
  answer _ _ := .bind (.of_same fun _ _ => rfl) fun _ => .of_same fun _ _ => rfl
  under tag ha e s := by
    rw [Interpretation.under, Effect.because_snd]
    exact ha e s

end Interpretation

/-- The interpretation of a node works through containers of the node only. -/
theorem Node.settles_interpret {T : Nat → Prop} {n : Node} (h : n.WorksIn T) :
    n.interpret.Settles T :=
  holds_interpret_at (settles_steps T) n h

end Runbook
