import Runbook.Proofs.Questions

set_option autoImplicit false

/-! # Failing parts

How the parts of a pass fail, each in turn: the items that are joined to a text, the children of a
container, the payload of a question, and the value beside an id. What fails has come up to one part that
fails, behind some that have succeeded, and a part that fails makes the whole fail. -/

namespace Runbook

open Interpretation

/-! ## What failure says -/

/-- What fails fails in its first part, or goes on from there. -/
theorem Effect.error_of_bind {σ α β : Type} {a : Effect σ α} {f : α → Effect σ β} {e : Setting}
    {s s' : σ} {x : Failure} (h : (a >>= f) e s = (.error x, s')) :
    a e s = (.error x, s') ∨ ∃ u s₁, a e s = (.ok u, s₁) ∧ f u e s₁ = (.error x, s') := by
  rcases ha : a e s with ⟨y | u, s₁⟩
  · rw [bind_of_error ha] at h
    cases h
    exact .inl rfl
  · rw [bind_of_ok ha] at h
    exact .inr ⟨u, s₁, rfl, h⟩

namespace Interpretation

variable {α : Type} {e : Setting} {s s' : World × TagMemory} {f : Failure}

theorem error_of_under {a : Interpretation α} {name : String}
    (h : under name a e s = (.error f, s')) : ∃ g, a e s = (.error g, s') ∧ f = g.inTag name := by
  rcases ha : a e s with ⟨g | v, s₁⟩
  · rw [under_of_error ha, ← Failure.inTag] at h
    cases h
    exact ⟨g, rfl, rfl⟩
  · rw [under, Effect.because_of_ok ha] at h
    cases h

theorem error_of_check {r : Except TagProblem α} (h : check r e s = (.error f, s')) :
    ∃ p, r = .error p ∧ f = .of (.tag p) ∧ s' = s := by
  cases r with
  | error p =>
    cases h
    exact ⟨p, rfl, rfl, rfl⟩
  | ok v => cases h

/-- The text of an item is taken, or it is reported that it is none. The state stays as it is. -/
theorem part_apply (index : Nat) (v : Node) (e : Setting) (s : World × TagMemory) :
    part index v e s = (match v.asText? with
      | some t => .ok t
      | none => .error (.of (.tag ((s.2.view v).showing (.joinElement index) .unwritable))), s) := by
  unfold part
  split
  · rfl
  · next hother =>
    have hnone : v.asText? = none := by
      unfold Node.asText?
      split
      · next t => exact absurd rfl (hother t)
      · rfl
    rw [hnone]
    rfl

theorem ok_of_part {index : Nat} {v : Node} {t : String} (h : part index v e s = (.ok t, s')) :
    v.asText? = some t ∧ s' = s := by
  rw [part_apply] at h
  cases hv : v.asText? <;> rw [hv] at h <;> cases h
  exact ⟨rfl, rfl⟩

theorem error_of_part {index : Nat} {v : Node} (h : part index v e s = (.error f, s')) :
    v.asText? = none ∧ f = .of (.tag ((s.2.view v).showing (.joinElement index) .unwritable)) ∧
      s' = s := by
  rw [part_apply] at h
  cases hv : v.asText? <;> rw [hv] at h <;> cases h
  exact ⟨rfl, rfl, rfl⟩

/-- An id that cannot be identified is not known, and finding its value fails. -/
theorem error_of_identify {id : String} {first : Interpretation Node}
    (h : identify id first e s = (.error f, s')) :
    s.2.ids.get? id = none ∧ first e s = (.error f, s') := by
  cases hid : s.2.ids.get? id with
  | some v =>
    rw [identify_of_known hid] at h
    cases h
  | none =>
    rw [identify_of_new hid] at h
    rcases Effect.error_of_bind h with hfirst | ⟨v, s₁, -, hend⟩
    · exact ⟨rfl, hfirst⟩
    · cases hend

end Interpretation

/-- What the id of a payload is read from: what stands in the payload by now, if it has been worked
    through elsewhere, or else the payload with its parts as they stand by now. -/
def TagMemory.seen (m : TagMemory) (payload : Node) : Node :=
  (m.settled.at? payload.place?).getD (payload.mapChildren m.view)

/-- A problem with what a tag is applied to: its shape, or a part that is missing. -/
def TagProblem.IsOfPayload (p : TagProblem) : Prop := p.kind.isA .shape = true ∨ p.kind = .missingField

namespace Node

variable {e : Setting} {s s' s₁ : World × TagMemory} {n k v payload root : Node} {f : Failure}
  {p : TagProblem} {place : Option Nat} {items ks : List Node} {index : Nat} {t id name : String}

/-! ## Items of a text -/

/-- Items that are joined to a text are interpreted one after the other. -/
theorem inTurn_of_interpretParts (h : interpretParts index ks e s = (.ok t, s')) :
    InTurn e s ks s' := by
  induction ks generalizing index s t with
  | nil =>
    rw [interpretParts] at h
    cases h
    exact .nil (.refl _)
  | cons k ks ih =>
    rw [interpretParts] at h
    obtain ⟨v, s₁, hk, h⟩ := Effect.exists_of_bind h
    obtain ⟨t, s₂, hpart, h⟩ := Effect.exists_of_bind h
    obtain ⟨t', s₃, hks, hend⟩ := Effect.exists_of_bind h
    cases hend
    obtain ⟨-, rfl⟩ := ok_of_part hpart
    exact .cons (.refl s) hk (ih hks)

/-- Items that cannot be joined go up to one that fails, or that comes to something else than a text. -/
theorem error_of_interpretParts (h : interpretParts index items e s = (.error f, s')) :
    ∃ ks k later t s₁, items = ks ++ k :: later ∧ interpretParts index ks e s = (.ok t, s₁) ∧
      (k.interpret e s₁ = (.error f, s') ∨
        ∃ v, k.interpret e s₁ = (.ok v, s') ∧ v.asText? = none ∧
          f = .of (.tag ((s'.2.view v).showing (.joinElement (index + ks.length)) .unwritable))) := by
  induction items generalizing index s with
  | nil =>
    rw [interpretParts] at h
    cases h
  | cons k items ih =>
    have hnone : interpretParts index [] e s = (.ok "", s) := by
      rw [interpretParts]
      rfl
    rw [interpretParts] at h
    rcases Effect.error_of_bind h with hk | ⟨v, s₁, hk, hrest⟩
    · exact ⟨[], k, items, "", s, rfl, hnone, .inl hk⟩
    rcases Effect.error_of_bind hrest with hpart | ⟨t, s₂, hpart, hrest⟩
    · obtain ⟨hv, rfl, rfl⟩ := error_of_part hpart
      exact ⟨[], k, items, "", s, rfl, hnone, .inr ⟨v, hk, hv, rfl⟩⟩
    rcases Effect.error_of_bind hrest with hitems | ⟨t', s₃, -, hend⟩
    · obtain ⟨ks, m, later, t', s₃, rfl, hks, hm⟩ := ih hitems
      refine ⟨k :: ks, m, later, t ++ t', s₃, rfl, ?_, ?_⟩
      · rw [interpretParts, Effect.bind_of_ok hk, Effect.bind_of_ok hpart, Effect.bind_of_ok hks]
        rfl
      · rwa [List.length_cons, Nat.add_comm ks.length, ← Nat.add_assoc]
    · cases hend

theorem error_of_joinSettled (h : joinSettled index items e s = (.error f, s')) :
    ∃ ks v later, items = ks ++ v :: later ∧ (∀ k ∈ ks, k.asText? ≠ none) ∧ v.asText? = none ∧
      f = .of (.tag ((s.2.view v).showing (.joinElement (index + ks.length)) .unwritable)) ∧
      s' = s := by
  induction items generalizing index s with
  | nil => cases h
  | cons k items ih =>
    rw [joinSettled] at h
    rcases Effect.error_of_bind h with hpart | ⟨t, s₁, hpart, hrest⟩
    · obtain ⟨hk, rfl, rfl⟩ := error_of_part hpart
      exact ⟨[], k, items, rfl, by simp, hk, rfl, rfl⟩
    obtain ⟨hk, rfl⟩ := ok_of_part hpart
    rcases Effect.error_of_bind hrest with hitems | ⟨t', s₂, -, hend⟩
    · obtain ⟨ks, v, later, rfl, hks, hv, rfl, rfl⟩ := ih hitems
      have hbefore : ∀ x ∈ k :: ks, x.asText? ≠ none := by
        simp only [List.forall_mem_cons, hk]
        exact ⟨nofun, hks⟩
      refine ⟨k :: ks, v, later, rfl, hbefore, hv, ?_, rfl⟩
      rw [List.length_cons, Nat.add_comm ks.length, ← Nat.add_assoc]
    · cases hend

/-- Items are joined up to the first that fails. -/
theorem interpretParts_of_error {rest : List Node} (hks : interpretParts index ks e s = (.ok t, s₁))
    (h : interpretParts (index + ks.length) rest e s₁ = (.error f, s')) :
    interpretParts index (ks ++ rest) e s = (.error f, s') := by
  induction ks generalizing index s t with
  | nil =>
    rw [interpretParts] at hks
    cases hks
    exact h
  | cons k ks ih =>
    rw [interpretParts] at hks
    obtain ⟨v, s₂, hk, hks⟩ := Effect.exists_of_bind hks
    obtain ⟨u, s₃, hpart, hks⟩ := Effect.exists_of_bind hks
    obtain ⟨u', s₄, hks, hend⟩ := Effect.exists_of_bind hks
    cases hend
    rw [List.length_cons, Nat.add_comm ks.length, ← Nat.add_assoc] at h
    rw [List.cons_append, interpretParts, Effect.bind_of_ok hk, Effect.bind_of_ok hpart]
    exact Effect.bind_of_error (ih hks h)

theorem joinSettled_of_error {rest : List Node} (hks : ∀ k ∈ ks, k.asText? ≠ none)
    (h : joinSettled (index + ks.length) rest e s = (.error f, s')) :
    joinSettled index (ks ++ rest) e s = (.error f, s') := by
  induction ks generalizing index with
  | nil => exact h
  | cons k ks ih =>
    obtain ⟨hk, hks⟩ := List.forall_mem_cons.1 hks
    obtain ⟨t, ht⟩ := Option.ne_none_iff_exists'.1 hk
    have hpart : part index k e s = (.ok t, s) := by rw [part_apply, ht]
    rw [List.length_cons, Nat.add_comm ks.length, ← Nat.add_assoc] at h
    rw [List.cons_append, joinSettled, Effect.bind_of_ok hpart]
    exact Effect.bind_of_error (ih hks h)

/-! ## Children of a container -/

/-- A container is worked through after some children that are done: some more are interpreted, each to a
    value that is noted in its place, and then come the rest. -/
inductive WorksUpTo (e : Setting) (n : Node) :
    World × TagMemory → List Node → List Node → List Node → World × TagMemory → Prop
  | here {s s₁ : World × TagMemory} {done rest : List Node}
      (hprogress : progress n.place? (n.refill (done ++ rest)) e s = (.ok (), s₁)) :
      WorksUpTo e n s done [] rest s₁
  | later {s s₁ s₂ s₃ : World × TagMemory} {done ks rest : List Node} {k new : Node}
      (hprogress : progress n.place? (n.refill (done ++ k :: (ks ++ rest))) e s = (.ok (), s₁))
      (hk : k.interpret e s₁ = (.ok new, s₂)) (hmore : WorksUpTo e n s₂ (done ++ [new]) ks rest s₃) :
      WorksUpTo e n s done (k :: ks) rest s₃

theorem onlyNotes_of_progress (h : progress place n e s = (.ok (), s')) : OnlyNotes s s' := by
  obtain ⟨s₁, hprogress, hnotes, -⟩ := progress_notes place n e s
  cases hprogress.symm.trans h
  exact hnotes

theorem WorksUpTo.inTurn {done rest : List Node} (h : WorksUpTo e n s done ks rest s') :
    InTurn e s ks s' := by
  induction h with
  | here hprogress => exact .nil (onlyNotes_of_progress hprogress)
  | later hprogress hk _ ih => exact .cons (onlyNotes_of_progress hprogress) hk ih

theorem error_of_interpretChildren {done : List Node}
    (h : interpretChildren n done ks e s = (.error f, s')) :
    ∃ before k later s₁, ks = before ++ k :: later ∧ WorksUpTo e n s done before (k :: later) s₁ ∧
      k.interpret e s₁ = (.error f, s') := by
  induction ks generalizing done s with
  | nil => cases h
  | cons k ks ih =>
    obtain ⟨s₁, hprogress, -⟩ := progress_notes n.place? (n.refill (done ++ k :: ks)) e s
    rw [interpretChildren, Effect.bind_of_ok hprogress] at h
    rcases Effect.error_of_bind h with hk | ⟨new, s₂, hk, hks⟩
    · exact ⟨[], k, ks, s₁, rfl, .here hprogress, hk⟩
    · obtain ⟨before, m, later, s₃, rfl, hworks, hm⟩ := ih hks
      exact ⟨k :: before, m, later, s₃, rfl, .later hprogress hk hworks, hm⟩

theorem WorksUpTo.interpretChildren_eq {done later : List Node}
    (h : WorksUpTo e n s done ks (k :: later) s₁) (hk : k.interpret e s₁ = (.error f, s')) :
    interpretChildren n done (ks ++ k :: later) e s = (.error f, s') := by
  -- the induction needs the rest as a variable
  generalize hrest : k :: later = rest at h
  induction h with
  | here hprogress =>
    subst hrest
    rw [List.nil_append, interpretChildren, Effect.bind_of_ok hprogress]
    exact Effect.bind_of_error hk
  | later hprogress hfirst _ ih =>
    subst hrest
    rw [List.cons_append, interpretChildren, Effect.bind_of_ok hprogress, Effect.bind_of_ok hfirst]
    exact ih hk rfl

/-- A container fails where one of its children does, behind some that succeed. -/
theorem IsContainer.error_of_interpret (hn : n.IsContainer) (h : n.interpret e s = (.error f, s')) :
    s.2.settled.at? n.place? = none ∧ ∃ before k later s₁,
      n.children true = before ++ k :: later ∧ WorksUpTo e n s [] before (k :: later) s₁ ∧
        k.interpret e s₁ = (.error f, s') := by
  cases hfound : s.2.settled.at? n.place? with
  | some v =>
    rw [interpret_of_settled hn hfound] at h
    cases h
  | none =>
    rw [interpret_of_new hn hfound] at h
    rcases Effect.error_of_bind h with hchildren | ⟨ks, s₁, -, hend⟩
    · exact ⟨rfl, error_of_interpretChildren hchildren⟩
    · obtain ⟨s₂, hsettle, -⟩ := settle_notes n.place? (n.refill ks) e s₁
      rw [Effect.bind_of_ok hsettle] at hend
      cases hend

/-! ## Payloads -/

theorem isContainer_of_ident (h : n.ident = .ok id) : n.IsContainer := by
  cases n with
  | list place items => exact .list place items
  | map place entries => exact .map place entries
  | scalar _ | set _ => cases h
  | tagged _ _ | pair _ _ => cases h

theorem isContainer_of_mapChildren {g : Node → Node} (h : (n.mapChildren g).IsContainer) :
    n.IsContainer := by
  cases n with
  | list place items => exact .list place items
  | map place entries => exact .map place entries
  | scalar _ | set _ => cases h
  | tagged _ _ | pair _ _ => cases h

theorem IsContainer.mem_of_identValue {b : Bool} (hn : n.IsContainer) (h : n.identValue = .ok v) :
    v ∈ n.children b := by
  cases hn with
  | list place items =>
    rcases items with _ | ⟨x, _ | ⟨y, _ | ⟨z, items⟩⟩⟩ <;> cases h
    simp [children]
  | map place entries =>
    rw [identValue] at h
    split at h <;> cases h
    next hvalue =>
    obtain ⟨entry, hentry, rfl⟩ := Option.map_eq_some_iff.1 hvalue
    exact List.mem_map_of_mem (List.mem_of_find?_eq_some hentry)

theorem IsContainer.isOfPayload_identValue (hn : n.IsContainer) (h : n.identValue = .error p) :
    p.IsOfPayload := by
  cases hn with
  | list place items =>
    rcases items with _ | ⟨x, _ | ⟨y, _ | ⟨z, items⟩⟩⟩ <;> cases h <;> exact .inl rfl
  | map place entries =>
    rw [identValue] at h
    split at h <;> cases h
    exact .inr rfl

theorem isOfPayload_asIdent (h : n.asIdent = .error p) : p.IsOfPayload ∨ p = .unwritable := by
  unfold asIdent showing at h
  split at h
  · cases h
  · split at h <;> cases h
    · exact .inl (.inl rfl)
    · exact .inr rfl

theorem isOfPayload_ident (h : n.ident = .error p) : p.IsOfPayload ∨ p = .unwritable := by
  unfold ident at h
  split at h
  · split at h
    · cases h
      exact .inl (.inr rfl)
    · exact isOfPayload_asIdent h
  · cases h
    exact .inl (.inr rfl)
  · exact isOfPayload_asIdent h
  · cases h
    exact .inl (.inl rfl)

theorem interpret_ofQuestion (hidden : Bool) (payload : Node) :
    (tagged (Question.tag hidden) payload).interpret
      = under (Question.tag hidden) (payload.interpret >>= input hidden) := by
  cases hidden with
  | false => exact interpret_input payload
  | true => exact interpret_hiddenInput payload

theorem interpretJoin_of_parts (hnew : ∀ place' found, s.2.settled.at? place ≠ some (list place' found))
    (h : interpretParts 0 items e s = (.error f, s')) :
    (list place items).interpretJoin e s = (.error f, s') := by
  rw [interpretJoin_list]
  refine Effect.bind_of_error ?_
  generalize s.2.settled.at? place = stored at hnew
  split
  · next place' found => exact absurd rfl (hnew place' found)
  · exact h

/-- The value beside an id is at hand, if the payload has been worked through, or else interpreted. -/
def valueBeside (m : TagMemory) (payload : Node) : Interpretation Node :=
  match m.settled.at? payload.place? with
  | some found => check found.identValue
  | none => check payload.identValue >>= interpret

theorem interpretIdent_apply (payload : Node) (e : Setting) (s : World × TagMemory) :
    payload.interpretIdent e s = (check (s.2.seen payload).ident >>= fun id =>
      identify id (payload.valueBeside s.2)) e s := by
  cases hplace : s.2.settled.at? payload.place? with
  | some found =>
    rw [interpretIdent_of_settled rfl hplace]
    simp only [TagMemory.seen, valueBeside, hplace, Option.getD_some]
  | none =>
    rw [interpretIdent_of_new hplace]
    simp only [TagMemory.seen, valueBeside, hplace, Option.getD_none]

theorem interpretIdent_of_seen (hid : (s.2.seen payload).ident = .ok id)
    (hunknown : s.2.ids.get? id = none) (h : payload.valueBeside s.2 e s = (.error f, s')) :
    payload.interpretIdent e s = (.error f, s') := by
  rw [interpretIdent_apply, hid, Effect.bind_of_ok (check_ok id e s), identify_of_new hunknown]
  exact Effect.bind_of_error h

/-- Where a payload gives no value, either there is none beside the id, or the payload has not been
    worked through and interpreting the value fails. -/
theorem error_of_valueBeside (h : payload.valueBeside s.2 e s = (.error f, s')) :
    (∃ p, (s.2.reached payload).identValue = .error p ∧ f = .of (.tag p) ∧ s' = s) ∨
      (s.2.settled.at? payload.place? = none ∧
        ∃ value, payload.identValue = .ok value ∧ value.interpret e s = (.error f, s')) := by
  unfold TagMemory.reached
  unfold valueBeside at h
  cases hplace : s.2.settled.at? payload.place? with
  | some found =>
    rw [hplace] at h
    exact .inl (error_of_check h)
  | none =>
    rw [hplace] at h
    rcases Effect.error_of_bind h with hcheck | ⟨value, s₁, hcheck, hinterpret⟩
    · exact .inl (error_of_check hcheck)
    · obtain ⟨hvalue, rfl⟩ := of_check hcheck
      exact .inr ⟨rfl, value, hvalue, hinterpret⟩

theorem valueBeside_of_error (h : (s.2.reached payload).identValue = .error p) :
    payload.valueBeside s.2 e s = (.error (.of (.tag p)), s) := by
  unfold TagMemory.reached at h
  unfold valueBeside
  cases hplace : s.2.settled.at? payload.place? with
  | some found =>
    rw [hplace, Option.getD_some] at h
    simp only [h]
    rfl
  | none =>
    rw [hplace, Option.getD_none] at h
    simp only [h]
    rfl

theorem valueBeside_of_new (hnew : s.2.settled.at? payload.place? = none)
    (hvalue : payload.identValue = .ok v) :
    payload.valueBeside s.2 e s = v.interpret e s := by
  unfold valueBeside
  simp only [hnew, hvalue]
  exact Effect.bind_of_ok (check_ok v e s)

/-- Where a payload names an id, what stands in it by now is a list or a mapping, and so is the payload if
    it has not been worked through. -/
theorem isContainer_reached (h : (s.2.seen payload).ident = .ok id) :
    (s.2.reached payload).IsContainer := by
  have hseen := isContainer_of_ident h
  unfold TagMemory.seen at hseen
  unfold TagMemory.reached
  cases hplace : s.2.settled.at? payload.place? with
  | some found =>
    rw [hplace] at hseen
    exact hseen
  | none =>
    rw [hplace] at hseen
    exact isContainer_of_mapChildren hseen

end Node
end Runbook
