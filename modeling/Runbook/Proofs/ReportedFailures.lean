import Runbook.Proofs.Children
import Runbook.Proofs.Failing
import Runbook.Proofs.References

set_option autoImplicit false

/-! # Failures that are reported

What the interpretation of tags and the search for jobs fail with. Almost every failure of theirs is one
that a workflow reports itself, with nothing behind it that could not be written. The one that is not
says that a value cannot be shown in a message, and then there is such a value in the document already;
and a question at a terminal may be aborted. A payload is never used as something that it is not,
because what has been worked through is always a list or a mapping. -/

namespace Runbook

namespace Failure

/-- A failure that a workflow reports itself, and the messages of which can be written. -/
structure IsReportable (f : Failure) : Prop where
  workflow : f.isWorkflow = true
  writable : ∀ c ∈ f.links, c.isWritable = true

theorem isReportable_of {c : Cause} (hkind : c.kind.isA .workflow = true)
    (hwritable : c.isWritable = true) : (Failure.of c).IsReportable :=
  ⟨hkind, by simpa using hwritable⟩

theorem IsReportable.because {f : Failure} (h : f.IsReportable) {c : Cause}
    (hkind : c.kind.isA .workflow = true) (hwritable : c.isWritable = true) :
    (f.because c).IsReportable :=
  ⟨hkind, by simpa using ⟨hwritable, h.writable⟩⟩

end Failure

/-! ## What can be shown -/

namespace Node

theorem isWritable_of_mem_children {n k : Node} {b : Bool} (h : n.isWritable = true)
    (hk : k ∈ n.children b) : k.isWritable = true := by
  cases n with
  | list place items => exact areWritable_iff.1 (by rwa [isWritable] at h) k hk
  | map place entries =>
    rw [isWritable] at h
    obtain ⟨x, hx, rfl⟩ := List.mem_map.1 hk
    exact (entriesAreWritable_iff.1 h x hx).2
  | tagged name payload =>
    rw [List.mem_singleton.1 hk]
    rwa [isWritable] at h
  | pair key value =>
    rw [isWritable, Bool.and_eq_true] at h
    cases b with
    | false => cases hk
    | true =>
      simp only [children, if_true, List.mem_cons, List.not_mem_nil, or_false] at hk
      rcases hk with rfl | rfl
      · exact h.1
      · exact h.2
  | scalar _ | set _ => cases hk

theorem isWritable_mapChildren {n : Node} {f : Node → Node} (h : n.isWritable = true)
    (hf : ∀ k ∈ n.children true, (f k).isWritable = true) : (n.mapChildren f).isWritable = true := by
  cases n with
  | list place items =>
    rw [mapChildren, isWritable, areWritable_iff]
    exact List.forall_mem_map.2 hf
  | map place entries =>
    rw [isWritable, entriesAreWritable_iff] at h
    rw [mapChildren, isWritable, entriesAreWritable_iff]
    refine List.forall_mem_map.2 fun x hx => ⟨(h x hx).1, ?_⟩
    exact hf x.2 (List.mem_map_of_mem hx)
  | tagged name payload =>
    rw [mapChildren, isWritable]
    exact hf payload (by simp [children])
  | pair key value =>
    rw [mapChildren, isWritable, hf key (by simp [children]), hf value (by simp [children])]
    rfl
  | scalar _ | set _ => exact h

/-- A node can be shown as it stands by now, if it can be shown and so can what stands in places. -/
theorem isWritable_asItStands {c : Contents} {n : Node}
    (hc : ∀ p k, c.get? p = some k → k.isWritable = true) (h : n.isWritable = true) :
    (asItStands c n).isWritable = true := by
  cases hat : c.at? n.place? with
  | some m =>
    obtain ⟨p, hplace, hp⟩ := Option.bind_eq_some_iff.1 hat
    have := Contents.length_without_lt hp
    rw [asItStands_of_get? hplace hp]
    refine isWritable_asItStands (fun q k hq => ?_) (hc p m hp)
    rw [Contents.get?_without] at hq
    split at hq
    · cases hq
    · exact hc q k hq
  | none =>
    rw [asItStands_of_at? hat]
    refine isWritable_mapChildren h fun k hk => ?_
    have := sizeOf_child hk
    exact isWritable_asItStands hc (isWritable_of_mem_children h hk)
termination_by (c.length, sizeOf n)
decreasing_by
  · exact .right _ this
  · exact .left _ _ this

/-- A node can be shown, if something is given. -/
def ShownIf (given : Prop) (n : Node) : Prop := given → n.isWritable = true

variable {given : Prop} {n k : Node} {items : List Node} {entries : List (Scalar × Node)}

theorem ShownIf.child {b : Bool} (h : n.ShownIf given) (hk : k ∈ n.children b) : k.ShownIf given :=
  fun hgiven => isWritable_of_mem_children (h hgiven) hk

theorem shownIf_text (s : String) : (text s).ShownIf given := fun _ => rfl

theorem shownIf_list {place : Option Nat} :
    (list place items).ShownIf given ↔ ∀ k ∈ items, k.ShownIf given := by
  simp only [ShownIf, isWritable, areWritable_iff]
  exact ⟨fun h k hk hgiven => h hgiven k hk, fun h hgiven k hk => h k hk hgiven⟩

theorem shownIf_map {place : Option Nat} : (map place entries).ShownIf given ↔
    ∀ x ∈ entries, (scalar x.1).ShownIf given ∧ x.2.ShownIf given := by
  simp only [ShownIf, isWritable, entriesAreWritable_iff]
  exact ⟨fun h x hx => ⟨fun hgiven => (h hgiven x hx).1, fun hgiven => (h hgiven x hx).2⟩,
    fun h hgiven x hx => ⟨(h x hx).1 hgiven, (h x hx).2 hgiven⟩⟩

end Node

/-! ## Tags -/

/-- A failure of the interpretation of tags: it can be reported, or a value cannot be shown although
    something is given, or a question at a terminal has been aborted. -/
def Failure.IsOfTags (given : Prop) (e : Setting) (f : Failure) : Prop :=
  f.IsReportable ∨ (f = .of (.tag .unwritable) ∧ ¬ given) ∨
    (f = .of .aborted ∧ e.operator = .terminal)

/-- A problem with a tag that is no misuse of its payload, and shows all values in it if something is
    given. -/
structure TagProblem.IsProper (given : Prop) (p : TagProblem) : Prop where
  noMisuse : ∀ m, p ≠ .misuse m
  writable : given → p ≠ .unwritable

theorem TagProblem.IsProper.isOfTags {given : Prop} {p : TagProblem} {e : Setting}
    (h : p.IsProper given) : (Failure.of (.tag p)).IsOfTags given e := by
  cases p with
  | misuse m => exact absurd rfl (h.noMisuse m)
  | unwritable => exact .inr (.inl ⟨rfl, fun hgiven => h.writable hgiven rfl⟩)
  | _ => exact .inl (Failure.isReportable_of rfl rfl)

namespace Node

variable {given : Prop} {n : Node} {p : TagProblem}

theorem isProper_showing (hn : n.ShownIf given) {say : String → TagProblem}
    (h : ∀ s, (say s).IsProper given) : (n.showing say .unwritable).IsProper given := by
  unfold showing
  split
  · exact h _
  · next hwritable => exact ⟨nofun, fun hgiven => absurd (hn hgiven) hwritable⟩

theorem isProper_asIdent (hn : n.ShownIf given) (h : n.asIdent = .error p) : p.IsProper given := by
  unfold asIdent at h
  split at h <;> cases h
  exact isProper_showing hn fun _ => ⟨nofun, fun _ => nofun⟩

theorem isProper_ident (hn : n.ShownIf given) (h : n.ident = .error p) : p.IsProper given := by
  unfold ident at h
  split at h
  · split at h
    · cases h
      exact ⟨nofun, fun _ => nofun⟩
    · next id hid =>
      obtain ⟨x, hx, rfl⟩ := Option.map_eq_some_iff.1 hid
      exact isProper_asIdent (shownIf_map.1 hn x (List.mem_of_find?_eq_some hx)).2 h
  · cases h
    exact ⟨nofun, fun _ => nofun⟩
  · exact isProper_asIdent (shownIf_list.1 hn _ List.mem_cons_self) h
  · cases h
    exact ⟨nofun, fun _ => nofun⟩

/-- A list and a mapping can be asked for what is beside the id. -/
theorem IsContainer.isProper_identValue (hn : n.IsContainer) (h : n.identValue = .error p) :
    p.IsProper given := by
  cases hn with
  | list place items =>
    unfold identValue at h
    dsimp only [parts?] at h
    split at h
    · cases h
    · cases h
      exact ⟨nofun, fun _ => nofun⟩
    · next hparts => cases hparts
  | map place entries =>
    unfold identValue at h
    dsimp only at h
    split at h <;> cases h
    exact ⟨nofun, fun _ => nofun⟩

end Node

theorem Question.isProper_ofNode {given : Prop} {n : Node} {p : TagProblem}
    (h : ofNode n = .error p) : p.IsProper given := by
  unfold ofNode at h
  split at h
  · cases h
  · unfold ofItems at h
    split at h <;> cases h <;> exact ⟨nofun, fun _ => nofun⟩
  · unfold ofEntries at h
    split at h
    · cases h
      exact ⟨nofun, fun _ => nofun⟩
    · split at h <;> cases h
      exact ⟨nofun, fun _ => nofun⟩
    · cases h
      exact ⟨nofun, fun _ => nofun⟩
  · cases h
    exact ⟨nofun, fun _ => nofun⟩

/-! ## What is remembered -/

namespace TagMemory

/-- Only containers have been worked through, and all that is remembered can be shown if something is
    given. -/
structure Shows (given : Prop) (m : TagMemory) : Prop where
  containers : ∀ p n, m.settled.get? p = some n → n.IsContainer
  settled : ∀ p n, m.settled.get? p = some n → n.ShownIf given
  pending : ∀ p n, m.pending.get? p = some n → n.ShownIf given
  ids : ∀ id n, m.ids.get? id = some n → n.ShownIf given

variable {given : Prop} {m : TagMemory} {n : Node} {p : Nat}

theorem shows_start : (start []).Shows given :=
  ⟨fun _ _ h => (nomatch h), fun _ _ h => (nomatch h), fun _ _ h => (nomatch h),
    fun _ _ h => (nomatch h)⟩

theorem Shows.view (h : m.Shows given) (hn : n.ShownIf given) : (m.view n).ShownIf given := by
  refine fun hgiven => Node.isWritable_asItStands (fun p k hk => ?_) (hn hgiven)
  rw [contents, Contents.get?_append, Option.or_eq_some_iff] at hk
  rcases hk with hk | ⟨-, hk⟩
  · exact h.pending p k hk hgiven
  · exact h.settled p k hk hgiven

theorem Shows.progress (h : m.Shows given) (hn : n.ShownIf given) :
    ({ m with pending := m.pending.set p n } : TagMemory).Shows given := by
  refine ⟨h.containers, h.settled, fun q k hk => ?_, h.ids⟩
  rw [Contents.get?_set] at hk
  split at hk
  · cases hk
    exact hn
  · exact h.pending q k hk

theorem Shows.settle (h : m.Shows given) (hn : n.ShownIf given) (hcontainer : n.IsContainer) :
    ({ m with pending := m.pending.without p, settled := m.settled.set p n } : TagMemory).Shows
      given := by
  refine ⟨fun q k hk => ?_, fun q k hk => ?_, fun q k hk => ?_, h.ids⟩
  · rw [Contents.get?_set] at hk
    split at hk
    · cases hk
      exact hcontainer
    · exact h.containers q k hk
  · rw [Contents.get?_set] at hk
    split at hk
    · cases hk
      exact hn
    · exact h.settled q k hk
  · rw [Contents.get?_without] at hk
    split at hk
    · cases hk
    · exact h.pending q k hk

theorem Shows.put (h : m.Shows given) (hn : n.ShownIf given) (id : String) :
    ({ m with ids := m.ids.put id n } : TagMemory).Shows given := by
  refine ⟨h.containers, h.settled, h.pending, fun id' k hk => ?_⟩
  rw [Idents.get?_put] at hk
  split at hk
  · cases hk
    exact hn
  · exact h.ids id' k hk

end TagMemory

/-! ## Interpretations -/

/-- No fault strikes a question. -/
def Setting.SparesQuestions (e : Setting) : Prop :=
  ∀ past text, e.fault past (.prompt text) = none ∧ e.fault past (.hiddenPrompt text) = none

/-- An interpretation keeps what is remembered as it should be, yields values that satisfy a condition,
    and fails in the ways of tags only. -/
def Interpretation.FailsByTags {α : Type} (given : Prop) (e : Setting) (a : Interpretation α)
    (Q : α → Prop) : Prop :=
  ∀ s, s.2.Shows given → (a e s).2.2.Shows given ∧
    (∀ v, (a e s).1 = .ok v → Q v) ∧ ∀ f, (a e s).1 = .error f → f.IsOfTags given e

namespace Interpretation

namespace FailsByTags

variable {α β : Type} {a : Interpretation α} {f : α → Interpretation β} {e : Setting} {given : Prop}
  {P Q : α → Prop} {R : β → Prop}

theorem pure {v : α} (h : Q v) : FailsByTags given e (Pure.pure v) Q :=
  fun _ hs => ⟨hs, fun _ hv => by cases hv; exact h, nofun⟩

theorem bind (ha : FailsByTags given e a Q) (hf : ∀ v, Q v → FailsByTags given e (f v) R) :
    FailsByTags given e (a >>= f) R := by
  intro s hs
  obtain ⟨hshows, hvalue, hfails⟩ := ha s hs
  rcases hr : a e s with ⟨x | v, s'⟩ <;> rw [hr] at hshows hvalue hfails
  · rw [Effect.bind_of_error hr]
    exact ⟨hshows, nofun, fun g hg => hfails g (by cases hg; rfl)⟩
  · rw [Effect.bind_of_ok hr]
    exact hf v (hvalue v rfl) s' hshows

theorem memory {f : TagMemory → Interpretation β}
    (hf : ∀ m, m.Shows given → FailsByTags given e (f m) R) :
    FailsByTags given e (Interpretation.memory >>= f) R := fun s hs => hf s.2 hs s hs

theorem remember {f : TagMemory → TagMemory}
    (h : ∀ m : TagMemory, m.Shows given → (f m).Shows given) :
    FailsByTags given e (Interpretation.remember f) fun _ => True :=
  fun _ hs => ⟨h _ hs, fun _ _ => trivial, fun _ hf => by cases hf⟩

theorem check {r : Except TagProblem α} (hok : ∀ v, r = .ok v → Q v)
    (herror : ∀ p, r = .error p → p.IsProper given) :
    FailsByTags given e (Interpretation.check r) Q := by
  intro s hs
  cases r with
  | ok v => exact ⟨hs, fun _ hv => by cases hv; exact hok v rfl, nofun⟩
  | error p =>
    refine ⟨hs, nofun, fun f hf => ?_⟩
    cases hf
    exact (herror p rfl).isOfTags

theorem check_error {p : TagProblem} (h : p.IsProper given) :
    FailsByTags given e (Interpretation.check (.error p : Except TagProblem α)) Q :=
  .check (fun _ hv => by cases hv) fun _ hp => by cases hp; exact h

theorem ofAction {m : Action α} (hm : m.FailsOnly e (Failure.IsOfTags given e)) :
    FailsByTags given e (Interpretation.ofAction m) fun _ => True :=
  fun s hs => ⟨hs, fun _ _ => trivial, hm s.1⟩

/-- What a tag is put in front of can be reported as well. -/
theorem under (ha : FailsByTags given e a Q) (tag : String) :
    FailsByTags given e (Interpretation.under tag a) Q := by
  intro s hs
  obtain ⟨hshows, hvalue, hfails⟩ := ha s hs
  rcases hr : a e s with ⟨x | v, s'⟩ <;> rw [hr] at hshows hvalue hfails
  · rw [Interpretation.under, Effect.because_eq_of_error hr]
    refine ⟨hshows, (fun _ hv => by cases hv), fun f hf => ?_⟩
    rcases hfails x rfl with hx | ⟨rfl, hgiven⟩ | ⟨rfl, hterminal⟩
    · rw [if_pos (by simp [hx.workflow])] at hf
      cases hf
      exact .inl (hx.because rfl rfl)
    · cases hf
      exact .inr (.inl ⟨rfl, hgiven⟩)
    · cases hf
      exact .inr (.inr ⟨rfl, hterminal⟩)
  · rw [Interpretation.under, Effect.because_of_ok hr]
    exact ⟨hshows, hvalue, hfails⟩

theorem progress (place : Option Nat) {n : Node} (hn : n.ShownIf given) :
    FailsByTags given e (Interpretation.progress place n) fun _ => True := by
  cases place with
  | none => exact .pure trivial
  | some p => exact .remember fun _ hm => hm.progress hn

theorem settle (place : Option Nat) {n : Node} (hn : n.ShownIf given) (hcontainer : n.IsContainer) :
    FailsByTags given e (Interpretation.settle place n) fun _ => True := by
  cases place with
  | none => exact .pure trivial
  | some p => exact .remember fun _ hm => hm.settle hn hcontainer

/-- What has been worked through is at hand, and it is a container. -/
theorem settled?_bind {place : Option Nat} {f : Option Node → Interpretation β}
    (hsome : ∀ n : Node, n.IsContainer → n.ShownIf given → FailsByTags given e (f (some n)) R)
    (hnone : FailsByTags given e (f none) R) : FailsByTags given e (settled? place >>= f) R := by
  intro s hs
  rw [Effect.bind_of_ok (rfl : settled? place e s = (.ok (s.2.settled.at? place), s))]
  cases hfound : s.2.settled.at? place with
  | none => exact hnone s hs
  | some n =>
    obtain ⟨p, -, hp⟩ := Option.bind_eq_some_iff.1 hfound
    exact hsome n (hs.containers p n hp) (hs.settled p n hp) s hs

theorem identify {first : Interpretation Node}
    (h : FailsByTags given e first (Node.ShownIf given)) (id : String) :
    FailsByTags given e (Interpretation.identify id first) (Node.ShownIf given) := by
  refine .memory fun m hm => ?_
  split
  · next value hvalue => exact .memory fun _ hm' => .pure (hm'.view (hm.ids id value hvalue))
  · refine h.bind fun value hvalue => ?_
    have hput : FailsByTags given e (Interpretation.remember fun m : TagMemory =>
        { m with ids := m.ids.put id value }) fun _ => True :=
      remember fun _ hm => hm.put hvalue id
    exact hput.bind fun _ _ => .memory fun _ hm => .pure (hm.view hvalue)

end FailsByTags

/-! ## Questions -/

section

variable {e : Setting} {P : Failure → Prop}

theorem failsOnly_perform_of_spared {call : Event} (h : ∀ past, e.fault past call = none) :
    (Action.perform call).FailsOnly e P :=
  Action.failsOnly_perform fun past x hx => by rw [h past] at hx; cases hx

theorem failsOnly_nextLine : Action.nextLine.FailsOnly e P := by
  intro w f hf
  unfold Action.nextLine at hf
  split at hf <;> cases hf

theorem failsOnly_nextHidden : Action.nextHidden.FailsOnly e P := by
  intro w f hf
  unfold Action.nextHidden at hf
  split at hf <;> cases hf

end

variable {e : Setting} {given : Prop}

/-- A question is answered, or it is aborted at a terminal. -/
theorem failsOnly_question (he : e.SparesQuestions) (hidden : Bool) (text : String) :
    (if hidden then Action.askHidden text else Action.ask text).FailsOnly e
      (Failure.IsOfTags given e) := by
  refine .ite (.setting ?_) (.setting ?_)
  · cases hoperator : e.operator with
    | terminal =>
      refine .bind (.modify _) fun _ => .bind (.modify _) fun _ => .get fun w => ?_
      split
      · exact .bind (.modify _) fun _ => .fail (.inr (.inr ⟨rfl, hoperator⟩))
      · exact .bind (.modify _) fun _ => .pure _
    | scripted =>
      exact (failsOnly_perform_of_spared fun past => (he past text).2).bind fun _ =>
        failsOnly_nextHidden
  · cases e.operator with
    | terminal => exact .bind (.modify _) fun _ => failsOnly_nextLine
    | scripted =>
      exact (failsOnly_perform_of_spared fun past => (he past text).1).bind fun _ =>
        failsOnly_nextLine

theorem failsByTags_input (he : e.SparesQuestions) (hidden : Bool) (payload : Node) :
    FailsByTags given e (input hidden payload) (Node.ShownIf given) := by
  have hquestion : FailsByTags given e (check (Question.ofNode payload)) fun _ => True :=
    .check (fun _ _ => trivial) fun p hp => Question.isProper_ofNode hp
  refine hquestion.bind fun q _ => ?_
  have hline : FailsByTags given e (Interpretation.ofAction
      (if hidden then Action.askHidden q.prompt else Action.ask q.prompt)) fun _ => True :=
    .ofAction (failsOnly_question he hidden q.prompt)
  have hanswer : FailsByTags given e (answer hidden q) fun _ => True :=
    hline.bind fun _ _ => .pure trivial
  exact hanswer.bind fun _ _ => .pure (Node.shownIf_text _)

/-! ## Whole documents -/

theorem failsByTags_part (index : Nat) {item : Node} (hitem : item.ShownIf given) :
    FailsByTags given e (part index item) fun _ => True := by
  unfold part
  split
  · exact .pure trivial
  · exact .memory fun m hm =>
      .check_error (Node.isProper_showing (hm.view hitem) fun _ => ⟨nofun, fun _ => nofun⟩)

theorem failsByTags_joinSettled {items : List Node} (hitems : ∀ k ∈ items, k.ShownIf given) :
    ∀ index : Nat, FailsByTags given e (joinSettled index items) fun _ => True := by
  induction items with
  | nil => exact fun _ => .pure trivial
  | cons item items ih =>
    obtain ⟨hitem, hitems⟩ := List.forall_mem_cons.1 hitems
    exact fun index => (failsByTags_part index hitem).bind fun _ _ =>
      (ih hitems (index + 1)).bind fun _ _ => .pure trivial

end Interpretation

namespace Node

open Interpretation

variable {e : Setting} {given : Prop}

/-- The id of a container that has been worked through, and the value beside it. -/
theorem failsByTags_identOfSettled {n : Node} (hcontainer : n.IsContainer) (hn : n.ShownIf given) :
    FailsByTags given e (check n.ident >>= fun id => identify id (check n.identValue))
      (ShownIf given) := by
  have hident : FailsByTags given e (check n.ident) fun id => n.ident = .ok id :=
    .check (fun _ hid => hid) fun _ hp => isProper_ident hn hp
  refine hident.bind fun id hid => .identify (.check (fun v hv => ?_) fun _ hp => ?_) id
  · exact hn.child (b := true) (mem_children_of_identValue hid hv)
  · exact hcontainer.isProper_identValue hp

/-- The id of a container that has not been worked through. -/
theorem failsByTags_identOfNew {n : Node} (hn : n.ShownIf given) {first : Interpretation Node}
    (hfirst : FailsByTags given e first (ShownIf given)) :
    FailsByTags given e (memory >>= fun m => check (m.view n).ident >>= fun id => identify id first)
      (ShownIf given) :=
  .memory fun _ hm => (FailsByTags.check (Q := fun _ => True) (fun _ _ => trivial)
    fun _ hp => isProper_ident (hm.view hn) hp).bind fun id _ => .identify hfirst id

/-- Items among which one has been interpreted can be shown. -/
theorem shownIf_items_next {done items : List Node} {item new : Node}
    (h : ∀ k ∈ done ++ item :: items, k.ShownIf given) (hnew : new.ShownIf given) :
    ∀ k ∈ done ++ [new] ++ items, k.ShownIf given := by
  simp only [List.forall_mem_append, List.forall_mem_cons] at h ⊢
  exact ⟨⟨h.1, hnew, by simp⟩, h.2.2⟩

mutual

/-- The interpretation of a node fails in the ways of tags only. -/
theorem failsByTags_interpret (he : e.SparesQuestions) : ∀ n : Node, n.ShownIf given →
    FailsByTags given e n.interpret (ShownIf given)
  | scalar s, hn => by
    rw [interpret]
    exact .pure hn
  | pair key value, hn => by
    rw [interpret]
    exact .pure hn
  | set members, hn => by
    rw [interpret]
    exact .pure hn
  | list place items, hn => by
    rw [interpret]
    refine .settled?_bind (fun n _ hsettled => .pure hsettled) ?_
    refine (failsByTags_interpretItems he place [] items (shownIf_list.1 hn)).bind fun items' h => ?_
    have hlist : (list none items').ShownIf given := shownIf_list.2 h
    exact (FailsByTags.settle place hlist (.list _ _)).bind fun _ _ => .pure hlist
  | map place entries, hn => by
    rw [interpret]
    refine .settled?_bind (fun n _ hsettled => .pure hsettled) ?_
    refine (failsByTags_interpretEntries he place [] entries (shownIf_map.1 hn)).bind
      fun entries' h => ?_
    have hmap : (map none entries').ShownIf given := shownIf_map.2 h
    exact (FailsByTags.settle place hmap (.map _ _)).bind fun _ _ => .pure hmap
  | tagged name payload, hn => by
    have hpayload : payload.ShownIf given := hn.child (b := true) (by simp [children])
    rw [interpret]
    split
    · exact .under (failsByTags_interpretJoin he payload hpayload) name
    split
    · exact .under ((failsByTags_interpret he payload hpayload).bind fun v _ =>
        failsByTags_input he false v) name
    split
    · exact .under ((failsByTags_interpret he payload hpayload).bind fun v _ =>
        failsByTags_input he true v) name
    split
    · exact .under (failsByTags_interpretIdent he payload hpayload) name
    · exact .check_error ⟨nofun, fun _ => nofun⟩

theorem failsByTags_interpretItems (he : e.SparesQuestions) (place : Option Nat) (done : List Node) :
    ∀ items : List Node, (∀ k ∈ done ++ items, k.ShownIf given) →
      FailsByTags given e (interpretItems place done items) fun items' =>
        ∀ k ∈ items', k.ShownIf given
  | [], h => by
    rw [interpretItems]
    exact .pure (by simpa using h)
  | item :: items, h => by
    rw [interpretItems]
    have hitem : item.ShownIf given := h item (by simp)
    refine (FailsByTags.progress place (shownIf_list.2 h)).bind fun _ _ => ?_
    refine (failsByTags_interpret he item hitem).bind fun new hnew => ?_
    exact failsByTags_interpretItems he place (done ++ [new]) items (shownIf_items_next h hnew)

theorem failsByTags_interpretEntries (he : e.SparesQuestions) (place : Option Nat)
    (done : List (Scalar × Node)) : ∀ entries : List (Scalar × Node),
      (∀ x ∈ done ++ entries, (scalar x.1).ShownIf given ∧ x.2.ShownIf given) →
      FailsByTags given e (interpretEntries place done entries) fun entries' =>
        ∀ x ∈ entries', (scalar x.1).ShownIf given ∧ x.2.ShownIf given
  | [], h => by
    rw [interpretEntries]
    exact .pure (by simpa using h)
  | (key, value) :: entries, h => by
    rw [interpretEntries]
    have hentry := h (key, value) (by simp)
    refine (FailsByTags.progress place (shownIf_map.2 h)).bind fun _ _ => ?_
    refine (failsByTags_interpret he value hentry.2).bind fun new hnew => ?_
    refine failsByTags_interpretEntries he place (done ++ [(key, new)]) entries ?_
    simp only [List.forall_mem_append, List.forall_mem_cons] at h ⊢
    exact ⟨⟨h.1, ⟨hentry.1, hnew⟩, by simp⟩, h.2.2⟩

theorem failsByTags_interpretJoin (he : e.SparesQuestions) : ∀ payload : Node,
    payload.ShownIf given → FailsByTags given e payload.interpretJoin (ShownIf given)
  | list place items, hn => by
    rw [interpretJoin]
    have hparts := failsByTags_interpretParts he 0 items (shownIf_list.1 hn)
    refine .settled?_bind (fun n _ hsettled => ?_) (hparts.bind fun _ _ => .pure (shownIf_text _))
    cases n with
    | list _ items =>
      exact (failsByTags_joinSettled (shownIf_list.1 hsettled) 0).bind fun _ _ =>
        .pure (shownIf_text _)
    | _ => exact hparts.bind fun _ _ => .pure (shownIf_text _)
  | scalar _, _ | map _ _, _ | tagged _ _, _ | pair _ _, _ | set _, _ => by
    rw [interpretJoin]
    · exact .check_error ⟨nofun, fun _ => nofun⟩
    · simp

theorem failsByTags_interpretParts (he : e.SparesQuestions) (index : Nat) : ∀ items : List Node,
    (∀ k ∈ items, k.ShownIf given) →
      FailsByTags given e (interpretParts index items) fun _ => True
  | [], _ => by
    rw [interpretParts]
    exact .pure trivial
  | item :: items, h => by
    rw [interpretParts]
    obtain ⟨hitem, hitems⟩ := List.forall_mem_cons.1 h
    refine (failsByTags_interpret he item hitem).bind fun v hv => ?_
    exact (failsByTags_part index hv).bind fun _ _ =>
      (failsByTags_interpretParts he (index + 1) items hitems).bind fun _ _ => .pure trivial

theorem failsByTags_interpretIdent (he : e.SparesQuestions) : ∀ payload : Node,
    payload.ShownIf given → FailsByTags given e payload.interpretIdent (ShownIf given)
  | list place items, hn => by
    rw [interpretIdent]
    exact .settled?_bind (fun n => failsByTags_identOfSettled) (failsByTags_identOfNew
      (shownIf_list.2 (shownIf_list.1 hn))
      (failsByTags_interpretSecond he items (shownIf_list.1 hn)))
  | map place entries, hn => by
    rw [interpretIdent]
    exact .settled?_bind (fun n => failsByTags_identOfSettled) (failsByTags_identOfNew
      (shownIf_map.2 (shownIf_map.1 hn))
      (failsByTags_interpretField he "value" entries (shownIf_map.1 hn)))
  | scalar _, _ | tagged _ _, _ | pair _ _, _ | set _, _ => by
    rw [interpretIdent]
    · exact .check_error ⟨nofun, fun _ => nofun⟩
    · simp
    · simp

theorem failsByTags_interpretSecond (he : e.SparesQuestions) : ∀ items : List Node,
    (∀ k ∈ items, k.ShownIf given) → FailsByTags given e (interpretSecond items) (ShownIf given)
  | [_, value], h => by
    rw [interpretSecond]
    exact failsByTags_interpret he value (h value (by simp))
  | [], _ | [_], _ | _ :: _ :: _ :: _, _ => by
    rw [interpretSecond]
    · exact .check_error ⟨nofun, fun _ => nofun⟩
    · simp

theorem failsByTags_interpretField (he : e.SparesQuestions) (key : String) :
    ∀ entries : List (Scalar × Node),
      (∀ x ∈ entries, (scalar x.1).ShownIf given ∧ x.2.ShownIf given) →
      FailsByTags given e (interpretField key entries) (ShownIf given)
  | [], _ => by
    rw [interpretField]
    exact .check_error ⟨nofun, fun _ => nofun⟩
  | (k, value) :: entries, h => by
    rw [interpretField]
    obtain ⟨hentry, hentries⟩ := List.forall_mem_cons.1 h
    split
    · exact failsByTags_interpret he value hentry.2
    · exact failsByTags_interpretField he key entries hentries

end

/-- The tags of a document are interpreted, or that fails in one of their ways. What can be shown can
    still be shown after that. -/
theorem resolveAlone_cases (he : e.SparesQuestions) (n : Node) (w : World) :
    (∀ v, (n.resolveAlone e w).1 = .ok v → n.isWritable = true → v.isWritable = true) ∧
    ∀ f, (n.resolveAlone e w).1 = .error f → f.IsOfTags (n.isWritable = true) e := by
  have hn : n.ShownIf (n.isWritable = true) := id
  obtain ⟨hshows, hvalue, hfails⟩ :=
    failsByTags_interpret he n hn (w, .start []) TagMemory.shows_start
  unfold resolveAlone resolve
  rcases hr : n.interpret e (w, .start []) with ⟨f | v, s⟩ <;> rw [hr] at hshows hvalue hfails
  · exact ⟨nofun, fun g hg => hfails g (by cases hg; rfl)⟩
  · refine ⟨fun u hu hwritable => ?_, fun _ hf => by cases hf⟩
    cases hu
    exact hshows.view (hvalue v rfl) hwritable

end Node

/-! ## Jobs -/

open Parsed

/-- A failure of the search for jobs in a document: it can be reported, or something in the document
    cannot be shown. -/
def Failure.IsOfGrammar (n : Node) (f : Failure) : Prop :=
  f.IsReportable ∨ (f = .of (.grammar .unwritable) ∧ n.isWritable = false)

theorem holdsOfParts_isOfGrammar (n : Node) : HoldsOfParts (Failure.IsOfGrammar n) where
  problem := by
    intro p hp
    cases p with
    | misuse m => exact absurd rfl (hp.proper m)
    | unwritable => exact absurd rfl hp.writable
    | _ => exact .inl (Failure.isReportable_of rfl rfl)
  inside := by
    rintro p f hp (hf | ⟨rfl, hn⟩)
    · have hkind : (Cause.grammar p).kind.isA .workflow = true := by
        rw [Cause.kind, hp]
        rfl
      rw [if_pos hf.workflow]
      exact .inl (hf.because hkind rfl)
    · exact .inr ⟨rfl, hn⟩

theorem Node.shownOr_isOfGrammar (n : Node) : n.ShownOr (Failure.IsOfGrammar n) := by
  cases hn : n.isWritable with
  | true => exact .inl hn
  | false => exact .inr (.inr ⟨rfl, hn⟩)

namespace Entries

variable {d : TaskDefaults} {root : Entries} {place : Option Nat}

/-- A job is found below a chain of references, or the search fails in one of its ways. -/
theorem refusesWith_job (place : Option Nat) (stack : List String) (name : String) :
    RefusesWith (Failure.IsOfGrammar (.map place root)) (job d root stack name) := by
  have hP := holdsOfParts_isOfGrammar (.map place root)
  induction stack, name using inductionOnChain root with
  | h stack name ih =>
    by_cases hname : name ∈ stack
    · rw [job_of_mem hname]
      exact refusesWith_refuse (.inl (Failure.isReportable_of rfl rfl))
    · rw [job_of_not_mem hname]
      cases hvalue : root.get? name with
      | none =>
        rw [jobWith_of_get?_eq_none hvalue]
        exact refusesWith_refuse (.inl (Failure.isReportable_of rfl rfl))
      | some value =>
        have href : ∀ other, RefusesWith (Failure.IsOfGrammar (.map place root))
            (referenceFrom d root (stack ++ [name]) other) :=
          fun other => (ih value hname hvalue other).map Job.task
        rw [jobWith, hvalue]
        refine RefusesWith.inside ?_ hP rfl
        refine (Node.refusesWith_requireItems hP.problems _ _).bind fun body hbody => ?_
        have hroot := Node.shownOr_isOfGrammar (.map place root)
        have hshown := (hroot.field hvalue).of_requireItems hbody
        have htasks : RefusesWith (Failure.IsOfGrammar (.map place root))
            (Node.tasks d (referenceFrom d root (stack ++ [name])) name 0 body) :=
          Node.refusesWith_tasks hP (fun n hn => Node.refusesWith_task hP (hshown n hn) href) 0
        exact htasks.bind fun _ _ => refusesWith_pure _

theorem refusesWith_jobsBy {jobAt : String → Parsed Job} {P : Failure → Prop} (hP : HoldsOfParts P)
    (hjob : ∀ name, RefusesWith P (jobAt name)) {es : Entries}
    (hkeys : ∀ x ∈ es, (Node.scalar x.1).ShownOr P) : RefusesWith P (jobsBy jobAt es) := by
  induction es with
  | nil => exact refusesWith_ok _
  | cons e es ih =>
    obtain ⟨key, value⟩ := e
    obtain ⟨hkey, hothers⟩ := List.forall_mem_cons.1 hkeys
    have hrest := ih hothers
    cases key with
    | text name =>
      rw [jobsBy]
      split
      · exact hrest
      · exact (hjob name).bind fun j _ => hrest.bind fun js _ => refusesWith_pure _
    | _ =>
      refine Node.refusesWith_showing hP.problems hkey isOwnProblem_jobNameNotText fun _ h => ?_
      cases h

end Entries

/-- The jobs of a document are found, or the search fails in one of its ways. -/
theorem Node.refusesWith_jobs (d : TaskDefaults) (n : Node) :
    RefusesWith (Failure.IsOfGrammar n) (n.jobs d) := by
  have hP := holdsOfParts_isOfGrammar n
  cases n with
  | map place root =>
    rw [jobs_map]
    refine Entries.refusesWith_jobsBy hP (Entries.refusesWith_job place []) fun x hx => ?_
    exact ((Node.shownOr_isOfGrammar _).entry hx).1
  | _ => exact refusesWith_refuse (hP.problem ⟨nofun, nofun, nofun⟩)

end Runbook
