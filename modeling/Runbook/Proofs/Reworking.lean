import Runbook.Proofs.Outlines

set_option autoImplicit false

/-! # Documents that are reworked

What is known in the middle of a pass over a document, and after it, however it ends. Whatever has
come to stand in a place may have become of what stood there at the beginning, and nothing in it is
tagged if nothing was. What has been worked through, and each value of an id, has no tags left; and
what has become the value of an id was found in full. What is below pairs is not worked through: it
counts here only if nothing there is tagged to begin with. -/

namespace Runbook

/-! ## However an interpretation ends -/

/-- However an interpretation ends, a condition holds of the memory, and another one of the value, if
    there is one. -/
def Interpretation.Leaves {α : Type} (a : Interpretation α) (e : Setting) (s : World × TagMemory)
    (I : TagMemory → Prop) (Q : α → Prop) : Prop :=
  ∀ r s', a e s = (r, s') → I s'.2 ∧ ∀ v, r = .ok v → Q v

namespace Interpretation

namespace Leaves

variable {α β : Type} {a : Interpretation α} {f : α → Interpretation β} {e : Setting}
  {s : World × TagMemory} {I : TagMemory → Prop} {P Q : α → Prop} {R : β → Prop}

theorem pure {v : α} (hs : I s.2) (h : Q v) : Leaves (Pure.pure v) e s I Q := by
  intro r s' hrun
  cases hrun
  exact ⟨hs, fun v' hv' => by cases hv'; exact h⟩

theorem bind (ha : a.Leaves e s I P)
    (hf : ∀ v s', a e s = (.ok v, s') → I s'.2 → P v → (f v).Leaves e s' I R) :
    (a >>= f).Leaves e s I R := by
  intro r s' hrun
  rcases hfirst : a e s with ⟨x | v, s₁⟩
  · obtain ⟨hI, -⟩ := ha _ _ hfirst
    rw [Effect.bind_of_error hfirst] at hrun
    cases hrun
    exact ⟨hI, nofun⟩
  · obtain ⟨hI, hP⟩ := ha _ _ hfirst
    rw [Effect.bind_of_ok hfirst] at hrun
    exact hf v s₁ hfirst hI (hP v rfl) r s' hrun

theorem imp (ha : a.Leaves e s I P) (h : ∀ v, P v → Q v) : a.Leaves e s I Q :=
  fun r s' hrun => (ha r s' hrun).imp_right fun hP v hv => h v (hP v hv)

theorem of_eq {b : Interpretation α} (h : a e s = b e s) (hb : b.Leaves e s I Q) :
    a.Leaves e s I Q :=
  fun r s' hrun => hb r s' (h ▸ hrun)

theorem memory {f : TagMemory → Interpretation β} (h : (f s.2).Leaves e s I R) :
    (Interpretation.memory >>= f).Leaves e s I R :=
  h

theorem remember {f : TagMemory → TagMemory} (h : I (f s.2)) :
    (Interpretation.remember f).Leaves e s I fun _ => True := by
  intro r s' hrun
  cases hrun
  exact ⟨h, fun _ _ => trivial⟩

theorem ofAction {a : Action α} (hs : I s.2) :
    (Interpretation.ofAction a).Leaves e s I fun _ => True := by
  intro r s' hrun
  obtain ⟨-, rfl⟩ := Prod.mk.inj hrun
  exact ⟨hs, fun _ _ => trivial⟩

theorem check {r : Except TagProblem α} (hs : I s.2) (h : ∀ v, r = .ok v → Q v) :
    (Interpretation.check r).Leaves e s I Q := by
  intro r' s' hrun
  cases r <;> cases hrun
  · exact ⟨hs, nofun⟩
  · exact ⟨hs, fun v hv => h v (by cases hv; rfl)⟩

theorem check_error {x : TagProblem} (hs : I s.2) :
    (Interpretation.check (.error x)).Leaves e s I Q :=
  .check hs fun _ h => by cases h

theorem under {tag : String} (ha : a.Leaves e s I Q) :
    (Interpretation.under tag a).Leaves e s I Q := by
  intro r s' hrun
  rcases hfirst : a e s with ⟨x | v, s₁⟩
  · obtain ⟨y, hy⟩ : ∃ y, Interpretation.under tag a e s = (.error y, s₁) :=
      Effect.because_of_error hfirst
    rw [hy] at hrun
    cases hrun
    exact ⟨(ha _ _ hfirst).1, nofun⟩
  · rw [Interpretation.under, Effect.because_of_ok hfirst] at hrun
    cases hrun
    exact ha _ _ hfirst

end Leaves

variable {e : Setting} {s : World × TagMemory} {I : TagMemory → Prop}

/-- An answer is a text. -/
theorem leaves_input (hs : I s.2) (hidden : Bool) (payload : Node) :
    (input hidden payload).Leaves e s I fun v => ∃ t, v = .text t := by
  refine Leaves.bind (P := fun _ => True) (.check hs fun _ _ => trivial) fun q s₁ _ hs₁ _ => ?_
  refine Leaves.bind (P := fun _ => True) ?_ fun t s₂ _ hs₂ _ => .pure hs₂ ⟨t, rfl⟩
  exact Leaves.bind (.ofAction hs₁) fun _ _ _ hs₂ _ => .pure hs₂ trivial

theorem leaves_part (hs : I s.2) (index : Nat) (item : Node) :
    (part index item).Leaves e s I fun _ => True := by
  unfold part
  split
  · exact .pure hs trivial
  · exact .memory (.check_error hs)

theorem leaves_joinSettled : ∀ (index : Nat) (items : List Node) (s : World × TagMemory), I s.2 →
    (joinSettled index items).Leaves e s I fun _ => True
  | _, [], _, hs => .pure hs trivial
  | index, item :: items, _, hs => (leaves_part hs index item).bind fun _ _ _ hs _ =>
    (leaves_joinSettled (index + 1) items _ hs).bind fun _ _ _ hs _ => .pure hs trivial

end Interpretation

/-! ## What has come to stand in places -/

section

variable (holds : Nat → Node → Prop) (b : Bool)

/-- What may have come to stand in a place, given what was held there. -/
structure Reworked (p : Nat) (x : Node) : Prop where
  container : (∃ items, x = .list none items) ∨ ∃ entries, x = .map none entries
  atRest : x.AtRest holds
  becomes : ∀ t, holds p t → t.Becomes x
  untagged : ∀ t, holds p t → t.Untagged b → x.Untagged b

/-- Everything has come to stand where it may. -/
def Contents.Reworks (c : Contents) : Prop := ∀ p x, c.get? p = some x → Reworked holds b p x

end

variable {holds : Nat → Node → Prop} {b : Bool} {c d : Contents} {n k x : Node} {p : Nat}

namespace Contents.Reworks

theorem without (h : c.Reworks holds b) (p : Nat) : (c.without p).Reworks holds b := by
  intro q x hq
  rw [get?_without] at hq
  split at hq
  · cases hq
  · exact h q x hq

theorem append (h : c.Reworks holds b) (h' : d.Reworks holds b) : (c ++ d).Reworks holds b := by
  intro p x hp
  rw [get?_append, Option.or_eq_some_iff] at hp
  rcases hp with hp | ⟨-, hp⟩
  · exact h p x hp
  · exact h' p x hp

theorem set (h : c.Reworks holds b) (hx : Reworked holds b p x) : (c.set p x).Reworks holds b := by
  intro q k hk
  rw [get?_set] at hk
  split at hk
  · next hq =>
    cases hk
    exact hq ▸ hx
  · exact h q k hk

theorem keeps (h : c.Reworks holds b) : c.Keeps fun _ _ => False :=
  fun p x hp => ⟨(h p x hp).container, fun _ => False.elim⟩

end Contents.Reworks

namespace Node

/-- What is seen of a node may have become of it. -/
theorem becomes_asItStands {c : Contents} {n : Node} (hc : c.Reworks holds b) (h : n.AtRest holds) :
    n.Becomes (asItStands c n) ∧ (n.Untagged b → (asItStands c n).Untagged b) := by
  cases hat : c.at? n.place? with
  | some m =>
    obtain ⟨p, hplace, hp⟩ := Option.bind_eq_some_iff.1 hat
    have hm := hc p m hp
    have hheld := h n (self_mem_parts _ _) p hplace
    have := Contents.length_without_lt hp
    obtain ⟨hbecomes, huntagged⟩ := becomes_asItStands (hc.without p) hm.atRest
    rw [asItStands_of_get? hplace hp]
    refine ⟨?_, fun hn => huntagged (hm.untagged _ hheld (untagged_unshared.2 hn))⟩
    exact ((Becomes.of_unshared_eq (unshared_unshared n)).trans (hm.becomes _ hheld)).trans hbecomes
  | none =>
    rw [asItStands_of_at? hat]
    have hchild : ∀ k ∈ n.children true,
        k.Becomes (asItStands c k) ∧ (k.Untagged b → (asItStands c k).Untagged b) := fun k hk =>
      have := sizeOf_child hk
      becomes_asItStands hc (h.child hk)
    refine ⟨.mapChildren fun k hk => (hchild k hk).1, fun hn => ?_⟩
    exact untagged_mapChildren hn fun k hk => (hchild k (mem_children_true hk)).2 (hn.child hk)
termination_by (c.length, sizeOf n)
decreasing_by
  · exact .right _ this
  · exact .left _ _ this

end Node

/-! ## What is known in the middle of a pass -/

namespace Node

/-- The interpretation of a node comes to interpret another, in some state. -/
def Visited (e : Setting) (s₀ : World × TagMemory) (root : Node) (s : World × TagMemory) (k : Node) :
    Prop :=
  ∃ under, Visits e s₀ root under s k

/-- What stands beside an id that is not known yet, which is interpreted, unless it has been worked
    through elsewhere. -/
inductive Finds (e : Setting) (s : World × TagMemory) (payload : Node) (id : String) : Node → Prop
  | interpreted {value x : Node} {s₁ : World × TagMemory}
      (hnew : s.2.settled.at? payload.place? = none) (hid : payload.ident = .ok id)
      (hunknown : s.2.ids.get? id = none) (hvalue : payload.identValue = .ok value)
      (hrun : value.interpret e s = (.ok x, s₁)) : Finds e s payload id x
  | settled {done x : Node} (hdone : s.2.settled.at? payload.place? = some done)
      (hid : done.ident = .ok id) (hunknown : s.2.ids.get? id = none)
      (hvalue : done.identValue = .ok x) : Finds e s payload id x

end Node

section

variable (holds : Nat → Node → Prop) (b : Bool) (e : Setting) (s₀ : World × TagMemory) (root : Node)

/-- What is known in the middle of a pass, and at its end. -/
structure TagMemory.Orderly (m : TagMemory) : Prop where
  pending : m.pending.Reworks holds b
  settled : m.settled.Reworks holds b
  results : ∀ p x, m.settled.get? p = some x → x.Untagged b
  values : ∀ x ∈ m.ids.map (·.2), x.Untagged b ∧ x.AtRest holds
  grows : s₀.2.ids.Grows m.ids
  found : ∀ id x, m.ids.get? id = some x → s₀.2.ids.get? id = some x ∨
    ∃ s payload, Node.Visited e s₀ root s (.tagged "Id" payload) ∧ Node.Finds e s payload id x

/-- A node that may be worked through: its containers stand where they did at the beginning, and what
    is below its pairs has no tags. -/
structure Node.Workable (n : Node) : Prop where
  atRest : n.AtRest holds
  pairs : ∀ key value, .pair key value ∈ n.parts false → (Node.pair key value).Untagged b

/-- What a node may be turned into. -/
structure Node.TurnsInto (n v : Node) : Prop where
  untagged : v.Untagged b
  atRest : v.AtRest holds
  becomes : n.Becomes v

/-- Some children of a container are done and others are not. -/
structure Node.PartlyDone (n : Node) (done ks : List Node) : Prop where
  becomes : List.Forall₂ Node.Becomes (n.children true) (done ++ ks)
  done : ∀ k ∈ done, k.Untagged b ∧ k.AtRest holds
  rest : ∀ k ∈ ks, k.Workable holds b
  untagged : n.Untagged b → ∀ k ∈ ks, k.Untagged b

end

/-- Wherever a node is visited, its interpretation leaves order behind. -/
def Node.LeavesOrder (n : Node) (holds : Nat → Node → Prop) (b : Bool) (e : Setting)
    (s₀ : World × TagMemory) (root : Node) : Prop :=
  ∀ s, Node.Visited e s₀ root s n → n.Workable holds b → s.2.Orderly holds b e s₀ root →
    n.interpret.Leaves e s (TagMemory.Orderly holds b e s₀ root) (n.TurnsInto holds b)

variable {e : Setting} {s₀ s s₁ s₂ : World × TagMemory} {root payload v : Node} {m : TagMemory}
  {done ks : List Node} {under found : List String} {name id : String}

namespace Node

/-- What is started by something that is visited is visited. -/
theorem Visits.starts (h : Visits e s n under s₁ k) (hstart : Starts e s₁ k found s₂ x) :
    Visits e s n (under ++ found) s₂ x := by
  induction h with
  | self =>
    rw [List.nil_append, ← List.append_nil found]
    exact .step hstart .self
  | step hfirst _ ih =>
    rw [List.append_assoc]
    exact .step hfirst (ih hstart)

theorem Visited.starts (h : Visited e s₀ root s k) (hstart : Starts e s k found s₁ x) :
    Visited e s₀ root s₁ x := by
  obtain ⟨under, h⟩ := h
  exact ⟨_, h.starts hstart⟩

theorem Workable.child (h : n.Workable holds b) (hk : k ∈ n.children false) : k.Workable holds b :=
  ⟨h.atRest.child (mem_children_true hk),
    fun key value hpair => h.pairs key value (mem_parts_of_child hk hpair)⟩

theorem turnsInto_text (name : String) (payload : Node) (t : String) :
    (tagged name payload).TurnsInto holds b (text t) :=
  ⟨untagged_text t, atRest_scalar _, .tagged _ _ _⟩

/-! ### Containers -/

theorem atRest_refill (hn : n.IsContainer) (hlength : ks.length = (n.children true).length)
    (h : ∀ k ∈ ks, k.AtRest holds) : (n.refill ks).AtRest holds := by
  refine atRest_of_children (fun q hq => ?_) fun k hk => ?_
  · rw [place?_refill hn] at hq
    cases hq
  · rw [children_refill hn hlength] at hk
    exact h k hk

/-- What stands in a container while it is worked through. -/
theorem PartlyDone.reworked (h : n.PartlyDone holds b done ks) (hn : n.IsContainer)
    (hrest : n.AtRest holds) (hone : ∀ p t t', holds p t → holds p t' → t = t')
    (hplace : n.place? = some p) : Reworked holds b p (n.refill (done ++ ks)) := by
  have hlength := h.becomes.length_eq.symm
  have hheld := hrest n (self_mem_parts _ _) p hplace
  refine ⟨?_, atRest_refill hn hlength fun k hk => ?_, fun t ht => ?_, fun t ht htags => ?_⟩
  · cases hn with
    | list => exact .inl ⟨_, rfl⟩
    | map => exact .inr ⟨_, rfl⟩
  · exact (List.mem_append.1 hk).elim (fun hk => (h.done k hk).2) fun hk => (h.rest k hk).atRest
  · obtain rfl := hone p _ _ hheld ht
    exact (Becomes.of_unshared_eq (unshared_unshared n).symm).trans (.refill hn h.becomes)
  · obtain rfl := hone p _ _ hheld ht
    refine untagged_refill hn hlength fun k hk => ?_
    exact (List.mem_append.1 hk).elim (fun hk => (h.done k hk).1)
      (h.untagged (untagged_unshared.1 htags) k)

theorem PartlyDone.turnsInto (h : n.PartlyDone holds b done []) (hn : n.IsContainer) :
    n.TurnsInto holds b (n.refill done) := by
  have hbecomes : List.Forall₂ Becomes (n.children true) done := by simpa using h.becomes
  have hlength := hbecomes.length_eq.symm
  exact ⟨untagged_refill hn hlength fun k hk => (h.done k hk).1,
    atRest_refill hn hlength fun k hk => (h.done k hk).2, .refill hn hbecomes⟩

theorem PartlyDone.start (hn : n.IsContainer) (h : n.Workable holds b) :
    n.PartlyDone holds b [] (n.children true) where
  becomes := List.forall₂_same.2 fun _ _ => .refl _
  done := nofun
  rest _ hk := h.child (hn.children_eq false ▸ hk)
  untagged htags _ hk := htags.child (hn.children_eq b ▸ hk)

theorem PartlyDone.next (h : n.PartlyDone holds b done (k :: ks)) (hv : k.TurnsInto holds b v) :
    n.PartlyDone holds b (done ++ [v]) ks where
  becomes := by
    rw [List.append_assoc]
    exact Becomes.replace h.becomes hv.becomes
  done x hx := by
    rcases List.mem_append.1 hx with hx | hx
    · exact h.done x hx
    · exact List.mem_singleton.1 hx ▸ ⟨hv.untagged, hv.atRest⟩
  rest x hx := h.rest x (List.mem_cons_of_mem _ hx)
  untagged htags x hx := h.untagged htags x (List.mem_cons_of_mem _ hx)

end Node

namespace TagMemory.Orderly

open Node

theorem view (h : m.Orderly holds b e s₀ root) (hx : x.AtRest holds) :
    x.Becomes (m.view x) ∧ (x.Untagged b → (m.view x).Untagged b) :=
  becomes_asItStands (h.pending.append h.settled) hx

/-- A copy of a value. -/
theorem turnsInto_view (h : m.Orderly holds b e s₀ root) (htags : x.Untagged b)
    (hx : x.AtRest holds) : (tagged name payload).TurnsInto holds b (m.view x) := by
  refine ⟨(h.view hx).2 htags, ?_, .tagged _ _ _⟩
  rw [TagMemory.view, ← unshared_asItStands]
  exact atRest_unshared _

/-- A value without tags is seen as the tree that it is. -/
theorem view_eq (h : m.Orderly holds b e s₀ root) (htags : x.TagFree) (hx : x.AtRest holds) :
    m.view x = x.unshared := by
  rw [← (h.view hx).1.unshared_eq htags, TagMemory.view, unshared_asItStands]

theorem settled_of_at? (h : m.Orderly holds b e s₀ root) (hrest : n.AtRest holds)
    (hplace : m.settled.at? n.place? = some v) : n.TurnsInto holds b v := by
  obtain ⟨p, hp, hv⟩ := Option.bind_eq_some_iff.1 hplace
  have hreworked := h.settled p v hv
  have hbecomes := hreworked.becomes _ (hrest n (self_mem_parts _ _) p hp)
  exact ⟨h.results p v hv, hreworked.atRest,
    (Becomes.of_unshared_eq (unshared_unshared n)).trans hbecomes⟩

/-- An id that was not known gets a value that was found. -/
theorem put (h : m.Orderly holds b e s₀ root) (hnew : s₀.2.ids.get? id = none)
    (htags : x.Untagged b) (hx : x.AtRest holds)
    (hvisited : Visited e s₀ root s (.tagged "Id" payload)) (hfinds : Finds e s payload id x) :
    TagMemory.Orderly holds b e s₀ root { m with ids := m.ids.put id x } where
  pending := h.pending
  settled := h.settled
  results := h.results
  values x' hmem := by
    rcases Idents.mem_put hmem with rfl | hmem
    · exact ⟨htags, hx⟩
    · exact h.values x' hmem
  grows id' x' hid := by
    rw [Idents.get?_put, if_neg, h.grows id' x' hid]
    rintro rfl
    rw [hnew] at hid
    cases hid
  found id' x' hid := by
    rw [Idents.get?_put] at hid
    split at hid
    · next hid' =>
      cases hid
      exact .inr ⟨s, payload, hvisited, hid' ▸ hfinds⟩
    · exact h.found id' x' hid

end TagMemory.Orderly

/-! ## What a pass leaves behind -/

namespace Node

open Interpretation

theorem leaves_progress (place : Option Nat) (hs : s.2.Orderly holds b e s₀ root)
    (h : ∀ p, place = some p → Reworked holds b p x) :
    (progress place x).Leaves e s (TagMemory.Orderly holds b e s₀ root) fun _ => True := by
  cases place with
  | none => exact .pure hs trivial
  | some p =>
    simp only [progress]
    refine .remember (I := TagMemory.Orderly holds b e s₀ root) ?_
    exact ⟨hs.pending.set (h p rfl), hs.settled, hs.results, hs.values, hs.grows, hs.found⟩

theorem leaves_settle {place : Option Nat} (hs : s.2.Orderly holds b e s₀ root)
    (h : ∀ p, place = some p → Reworked holds b p x) (hx : x.Untagged b) :
    (settle place x).Leaves e s (TagMemory.Orderly holds b e s₀ root) fun _ => True := by
  cases place with
  | none => exact .pure hs trivial
  | some p =>
    simp only [settle]
    refine .remember (I := TagMemory.Orderly holds b e s₀ root) ?_
    refine ⟨hs.pending.without p, hs.settled.set (h p rfl), fun q k hk => ?_, hs.values, hs.grows,
      hs.found⟩
    rw [Contents.get?_set] at hk
    split at hk
    · cases hk
      exact hx
    · exact hs.results q k hk

/-- The children of a container, one after the other. -/
theorem leaves_interpretChildren (hn : n.IsContainer) (hrest : n.AtRest holds)
    (hone : ∀ p t t', holds p t → holds p t' → t = t') :
    ∀ (ks done : List Node) (s : World × TagMemory), (∀ k ∈ ks, k.LeavesOrder holds b e s₀ root) →
      (∀ s₁ k, StartsChild e n s done ks s₁ k → Visited e s₀ root s₁ k) →
      n.PartlyDone holds b done ks → s.2.Orderly holds b e s₀ root →
      (interpretChildren n done ks).Leaves e s (TagMemory.Orderly holds b e s₀ root)
        fun ks' => n.PartlyDone holds b ks' []
  | [], _, _, _, _, hdone, hs => .pure hs hdone
  | k :: ks, done, s, hks, hvisited, hdone, hs => by
    have hprogress := leaves_progress n.place? hs fun p hp =>
      hdone.reworked hn hrest hone hp
    refine hprogress.bind fun _ s₁ hrun hs₁ _ => ?_
    have hk := hks k List.mem_cons_self s₁ (hvisited s₁ k (.here hrun))
      (hdone.rest k List.mem_cons_self) hs₁
    refine hk.bind fun v s₂ hv hs₂ hturns => ?_
    refine leaves_interpretChildren hn hrest hone ks (done ++ [v]) s₂
      (fun x hx => hks x (List.mem_cons_of_mem _ hx)) (fun s₃ x hx => ?_) (hdone.next hturns) hs₂
    exact hvisited s₃ x (.later hrun hv hx)

theorem leavesOrder_container (hn : n.IsContainer)
    (hone : ∀ p t t', holds p t → holds p t' → t = t')
    (ih : ∀ k ∈ n.children true, k.LeavesOrder holds b e s₀ root) :
    n.LeavesOrder holds b e s₀ root := by
  intro s hvisited hwork hs
  cases hplace : s.2.settled.at? n.place? with
  | some v =>
    refine .of_eq (interpret_of_settled hn hplace) (.pure hs ?_)
    exact hs.settled_of_at? hwork.atRest hplace
  | none =>
    refine .of_eq (interpret_of_new hn hplace) ?_
    refine (leaves_interpretChildren hn hwork.atRest hone (n.children true) [] s ih
      (fun s₁ k hk => hvisited.starts (hk.starts hn hplace)) (.start hn hwork) hs).bind ?_
    intro ks s₁ _ hs₁ hdone
    have hturns := hdone.turnsInto hn
    refine (leaves_settle hs₁ (fun p hp => ?_) hturns.untagged).bind fun _ _ _ hs₂ _ =>
      .pure hs₂ hturns
    have hreworked := hdone.reworked hn hwork.atRest hone hp
    rwa [List.append_nil] at hreworked

/-- The parts of a text, one after the other. -/
theorem leaves_interpretParts : ∀ (items : List Node) (index : Nat) (s : World × TagMemory),
    (∀ k ∈ items, k.LeavesOrder holds b e s₀ root) → (∀ k ∈ items, k.Workable holds b) →
    (∀ s₁ k, StartsPart e s index items s₁ k → Visited e s₀ root s₁ k) →
    s.2.Orderly holds b e s₀ root →
    (interpretParts index items).Leaves e s (TagMemory.Orderly holds b e s₀ root) fun _ => True
  | [], _, _, _, _, _, hs => by
    rw [interpretParts]
    exact .pure hs trivial
  | item :: items, index, s, hitems, hwork, hvisited, hs => by
    have hparts : interpretParts index (item :: items)
        = ((item.interpret >>= part index) >>= fun t => do
          return t ++ (← interpretParts (index + 1) items)) := by
      rw [interpretParts, bind_assoc]
    rw [hparts]
    have hitem := hitems item List.mem_cons_self s (hvisited s item .here)
      (hwork item List.mem_cons_self) hs
    have hpart := hitem.bind fun v _ _ hs₁ _ => leaves_part hs₁ index v
    refine hpart.bind fun t s₁ hrun hs₁ _ => ?_
    refine (leaves_interpretParts items (index + 1) s₁ (fun k hk => hitems k (List.mem_cons_of_mem _ hk))
      (fun k hk => hwork k (List.mem_cons_of_mem _ hk)) (fun s₂ k hk => ?_) hs₁).bind ?_
    · exact hvisited s₂ k (.later hrun hk)
    · exact fun _ _ _ hs₂ _ => .pure hs₂ trivial

theorem leaves_interpretJoin (hvisited : Visited e s₀ root s (tagged "StrF" payload))
    (ih : ∀ k ∈ payload.children false, k.LeavesOrder holds b e s₀ root)
    (hwork : payload.Workable holds b) (hs : s.2.Orderly holds b e s₀ root) :
    payload.interpretJoin.Leaves e s (TagMemory.Orderly holds b e s₀ root)
      ((tagged "StrF" payload).TurnsInto holds b) := by
  cases payload with
  | list place items =>
    refine .of_eq interpretJoin_list (Leaves.bind (P := fun _ => True) ?_
      fun t _ _ hs₁ _ => .pure hs₁ (turnsInto_text _ _ t))
    cases hplace : s.2.settled.at? place with
    | none =>
      refine leaves_interpretParts items 0 s ih (fun k hk => hwork.child hk) (fun s₁ k hk => ?_) hs
      exact hvisited.starts (.part hplace hk)
    | some v =>
      -- What a list has become is a list.
      have hbecomes := (hs.settled_of_at? (n := list place items) hwork.atRest hplace).becomes
      obtain ⟨_, items', rfl, -⟩ := hbecomes.keepsOutline.length place items rfl
      exact leaves_joinSettled 0 items' s hs
  | _ =>
    rw [interpretJoin]
    · exact .check_error hs
    · simp

/-- What an id gives a value, or has it. -/
theorem leaves_identify {first : Interpretation Node} (hs : s.2.Orderly holds b e s₀ root)
    (hvisited : Visited e s₀ root s (tagged "Id" payload))
    (hfirst : s.2.ids.get? id = none → first.Leaves e s (TagMemory.Orderly holds b e s₀ root)
      fun x => x.Untagged b ∧ x.AtRest holds)
    (hfinds : s.2.ids.get? id = none → ∀ x s₁, first e s = (.ok x, s₁) → Finds e s payload id x) :
    (identify id first).Leaves e s (TagMemory.Orderly holds b e s₀ root)
      ((tagged "Id" payload).TurnsInto holds b) := by
  cases hid : s.2.ids.get? id with
  | some x =>
    obtain ⟨htags, hx⟩ := hs.values x (Idents.mem_of_get? hid)
    exact .of_eq (identify_of_known hid first) (.pure hs (hs.turnsInto_view htags hx))
  | none =>
    refine .of_eq (identify_of_new hid first) ((hfirst hid).bind fun x s₁ hrun hs₁ ⟨htags, hx⟩ => ?_)
    have hnew : s₀.2.ids.get? id = none := by
      cases h : s₀.2.ids.get? id with
      | none => rfl
      | some v => exact (hs.grows id v h).symm.trans hid
    have hput := hs₁.put hnew htags hx hvisited (hfinds hid x s₁ hrun)
    exact (Leaves.remember hput).bind fun _ s₂ hput₁ hs₂ _ =>
      .memory (.pure hs₂ (hs₂.turnsInto_view htags hx))

theorem leaves_interpretIdent (hvisited : Visited e s₀ root s (tagged "Id" payload))
    (ih : ∀ k ∈ payload.children false, k.LeavesOrder holds b e s₀ root)
    (hwork : payload.Workable holds b) (hs : s.2.Orderly holds b e s₀ root) :
    payload.interpretIdent.Leaves e s (TagMemory.Orderly holds b e s₀ root)
      ((tagged "Id" payload).TurnsInto holds b) := by
  cases hplace : s.2.settled.at? payload.place? with
  | some done =>
    -- What stands beside the id has been interpreted elsewhere, and is taken as it is.
    refine .of_eq (interpretIdent_of_settled rfl hplace) ?_
    refine Leaves.bind (P := fun id => done.ident = .ok id) (.check hs fun _ h => h) ?_
    intro id s₁ hrun hs₁ hid
    obtain ⟨-, rfl⟩ := of_check hrun
    have hturns := hs.settled_of_at? hwork.atRest hplace
    refine leaves_identify hs hvisited (fun _ => .check hs fun x hx => ?_) fun hunknown x s₁ hx => ?_
    · exact ⟨hturns.untagged.child (mem_children_of_identValue hid hx),
        hturns.atRest.child (mem_children_of_identValue hid hx)⟩
    · obtain ⟨hx, -⟩ := of_check hx
      exact .settled hplace hid hunknown hx
  | none =>
    refine .of_eq (interpretIdent_of_new hplace) ?_
    -- The id is read from what is seen of the payload, which has texts where the payload has them.
    have hkeeps := (hs.pending.append hs.settled).keeps
    refine Leaves.bind (P := fun id => payload.ident = .ok id) (.check hs fun id hid => ?_) ?_
    · exact (ident_mapChildren fun x c => asItStands_eq_scalar_iff hkeeps).1 hid
    intro id s₁ hrun hs₁ hid
    obtain ⟨-, rfl⟩ := of_check hrun
    refine leaves_identify hs hvisited (fun hunknown => ?_) fun hunknown x s₂ hx => ?_
    · refine Leaves.bind (P := fun value => payload.identValue = .ok value) (.check hs fun _ h => h) ?_
      intro value s₂ hrun _ hvalue
      obtain ⟨-, rfl⟩ := of_check hrun
      have hmem := mem_children_of_identValue (b := false) hid hvalue
      have hvalued := hvisited.starts (.value hplace hid hunknown hvalue)
      exact (ih value hmem s₂ hvalued (hwork.child hmem) hs).imp fun x hx => ⟨hx.untagged, hx.atRest⟩
    · obtain ⟨value, s₃, hcheck, hfirst⟩ := Effect.exists_of_bind hx
      obtain ⟨hvalue, rfl⟩ := of_check hcheck
      exact .interpreted hplace hid hunknown hvalue hfirst

theorem leavesOrder_tagged
    (ih : ∀ k ∈ payload.parts false, k.LeavesOrder holds b e s₀ root) :
    (tagged name payload).LeavesOrder holds b e s₀ root := by
  intro s hvisited hwork hs
  have hpayload := hwork.child (k := payload) (List.mem_singleton_self payload)
  have hself := ih payload (self_mem_parts _ _)
  have hchildren : ∀ k ∈ payload.children false, k.LeavesOrder holds b e s₀ root :=
    fun k hk => ih k (mem_parts_of_child hk (self_mem_parts _ _))
  rw [interpret]
  split
  · next hname =>
    subst hname
    exact .under (leaves_interpretJoin hvisited hchildren hpayload hs)
  split
  · next hname =>
    refine .under ((hself s (hvisited.starts (.question (.inl hname))) hpayload hs).bind ?_)
    exact fun v _ _ hs₁ _ => (leaves_input hs₁ _ v).imp fun _ ⟨t, ht⟩ => ht ▸ turnsInto_text _ _ t
  split
  · next hname =>
    refine .under ((hself s (hvisited.starts (.question (.inr hname))) hpayload hs).bind ?_)
    exact fun v _ _ hs₁ _ => (leaves_input hs₁ _ v).imp fun _ ⟨t, ht⟩ => ht ▸ turnsInto_text _ _ t
  split
  · next hname =>
    subst hname
    exact .under (leaves_interpretIdent hvisited hchildren hpayload hs)
  · exact .check_error hs

/-- Every node leaves order behind, also if its interpretation fails. -/
theorem leavesOrder (hone : ∀ p t t', holds p t → holds p t' → t = t') (n : Node) :
    n.LeavesOrder holds b e s₀ root := by
  induction n using inductionOnParts false with
  | h n ih =>
    have hchildren : ∀ k ∈ n.children false, k.LeavesOrder holds b e s₀ root :=
      fun k hk => ih k hk k (self_mem_parts _ _)
    cases n with
    | list place items => exact leavesOrder_container (.list _ _) hone hchildren
    | map place entries => exact leavesOrder_container (.map _ _) hone hchildren
    | tagged name payload => exact leavesOrder_tagged (ih payload (List.mem_singleton_self payload))
    | pair key value =>
      intro s _ hwork hs
      rw [interpret]
      exact .pure hs ⟨hwork.pairs key value (self_mem_parts _ _), hwork.atRest, .refl _⟩
    | scalar _ | set _ =>
      intro s _ hwork hs
      rw [interpret]
      exact .pure hs ⟨untagged_iff.2 ⟨nofun, nofun⟩, hwork.atRest, .refl _⟩

/-! ## Whole documents -/

/-- What the places of some nodes hold. -/
def standsIn (ns : List Node) (p : Nat) (t : Node) : Prop :=
  ∃ k ∈ ns.flatMap (parts true), k.place? = some p ∧ k.unshared = t

variable {ns : List Node} {ids : Idents} {w : World}

theorem Consistent.standsIn_unique (h : Consistent ns) :
    ∀ p t t', standsIn ns p t → standsIn ns p t' → t = t' := by
  rintro p _ _ ⟨k, hk, hp, rfl⟩ ⟨k', hk', hp', rfl⟩
  rw [h k hk k' hk' p hp hp']

theorem atRest_standsIn (hn : n ∈ ns) : n.AtRest (standsIn ns) :=
  fun k hk _ hp => ⟨k, List.mem_flatMap.2 ⟨n, hn, hk⟩, hp, rfl⟩

/-- A pass leaves order behind, however it ends. -/
theorem leaves_interpret (hplaces : Consistent (n :: ids.map (·.2)))
    (hcache : ∀ v ∈ ids.map (·.2), v.Untagged b)
    (hpairs : ∀ key value, pair key value ∈ n.parts false → (pair key value).Untagged b) :
    n.interpret.Leaves e (w, .start ids)
      (TagMemory.Orderly (standsIn (n :: ids.map (·.2))) b e (w, .start ids) n)
      (n.TurnsInto (standsIn (n :: ids.map (·.2))) b) := by
  refine leavesOrder hplaces.standsIn_unique n _ ⟨[], .self⟩ ⟨?_, hpairs⟩ ?_
  · exact atRest_standsIn List.mem_cons_self
  · exact ⟨nofun, nofun, nofun,
      fun v hv => ⟨hcache v hv, atRest_standsIn (List.mem_cons_of_mem _ hv)⟩, .refl _,
      fun id v hv => .inl hv⟩

end Node

end Runbook
