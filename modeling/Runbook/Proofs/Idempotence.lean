import Runbook.Proofs.Reworking

set_option autoImplicit false

/-! # Documents that are interpreted again

A document in which no tag is left, but for those below pairs, is a fixed point: its interpretation
yields it, asks nothing and finds no id, whatever is known and however its containers are shared.
What a pass that succeeds yields is such a document, with the outline of the one that it is made of. -/

namespace Runbook

/-! ## Interpretations that do nothing -/

/-- An interpretation yields a value that satisfies a condition, does nothing to the world and finds
    no id, and what is held stays held. -/
def Interpretation.Idles {α : Type} (a : Interpretation α) (holds : Nat → Node → Prop) (e : Setting)
    (s : World × TagMemory) (Q : α → Prop) : Prop :=
  ∃ v m, a e s = (.ok v, (s.1, m)) ∧ m.ids = s.2.ids ∧ m.Sound holds ∧ Q v

variable {holds : Nat → Node → Prop} {e : Setting} {s : World × TagMemory} {n k v : Node}
  {done ks : List Node} {place : Option Nat}

namespace Interpretation.Idles

variable {α β : Type} {a : Interpretation α} {f : α → Interpretation β} {P : α → Prop} {R : β → Prop}

theorem pure {v : α} (hs : s.2.Sound holds) (h : P v) : Idles (Pure.pure v) holds e s P :=
  ⟨v, s.2, rfl, rfl, hs, h⟩

theorem bind (ha : a.Idles holds e s P)
    (hf : ∀ v m, m.Sound holds → P v → (f v).Idles holds e (s.1, m) R) :
    (a >>= f).Idles holds e s R := by
  obtain ⟨v, m, hrun, hids, hm, hP⟩ := ha
  obtain ⟨u, m', hrun', hids', hm', hR⟩ := hf v m hm hP
  exact ⟨u, m', (Effect.bind_of_ok hrun).trans hrun', hids'.trans hids, hm', hR⟩

theorem of_eq {b : Interpretation α} (h : a e s = b e s) (hb : b.Idles holds e s P) :
    a.Idles holds e s P := by
  obtain ⟨v, m, hrun, hrest⟩ := hb
  exact ⟨v, m, h.trans hrun, hrest⟩

end Interpretation.Idles

namespace Node

open Interpretation

theorem idles_progress (hs : s.2.Sound holds) (h : ∀ p, place = some p → Stands holds p n) :
    (progress place n).Idles holds e s fun _ => True := by
  cases place with
  | none => exact .pure hs trivial
  | some p => exact ⟨(), _, rfl, rfl, (yields_progress hs h (e := e) () _ rfl).sound, trivial⟩

theorem idles_settle (hs : s.2.Sound holds) (h : ∀ p, place = some p → Stands holds p n)
    (hn : n.AtRest holds) : (settle place n).Idles holds e s fun _ => True := by
  cases place with
  | none => exact .pure hs trivial
  | some p => exact ⟨(), _, rfl, rfl, (yields_settle hs h hn (e := e) () _ rfl).sound, trivial⟩

/-! ## Nodes without tags -/

/-- The children of a container, of which some are done, are at rest and of the same trees as they were
    at first. -/
structure Unchanged (holds : Nat → Node → Prop) (n : Node) (ks : List Node) : Prop where
  atRest : ∀ k ∈ ks, k.AtRest holds
  trees : ks.map unshared = (n.children true).map unshared

theorem Unchanged.length_eq (h : Unchanged holds n ks) : ks.length = (n.children true).length := by
  simpa using congrArg List.length h.trees

theorem Unchanged.unshared_refill (h : Unchanged holds n ks) (hn : n.IsContainer) :
    (n.refill ks).unshared = n.unshared := by
  rw [Node.unshared_refill hn, h.trees, refill_map_children hn, ← unshared_eq]

theorem Unchanged.stands (h : Unchanged holds n ks) (hn : n.IsContainer) (hrest : n.AtRest holds)
    (hone : ∀ p t t', holds p t → holds p t' → t = t') :
    ∀ p, n.place? = some p → Stands holds p (n.refill ks) := by
  refine fun p hp => ⟨?_, fun t ht => ⟨?_, atRest_refill hn h.length_eq h.atRest⟩⟩
  · cases hn with
    | list => exact .inl ⟨_, rfl⟩
    | map => exact .inr ⟨_, rfl⟩
  · rw [h.unshared_refill hn]
    exact hone p _ _ (hrest n (self_mem_parts _ _) p hp) ht

theorem Unchanged.next (h : Unchanged holds n (done ++ k :: ks)) (hv : v.AtRest holds)
    (htree : v.unshared = k.unshared) : Unchanged holds n (done ++ [v] ++ ks) where
  atRest x hx := by
    simp only [List.append_assoc, List.singleton_append, List.mem_append, List.mem_cons] at hx
    rcases hx with hx | rfl | hx
    · exact h.atRest x (by simp [hx])
    · exact hv
    · exact h.atRest x (by simp [hx])
  trees := by
    rw [← h.trees]
    simp [htree]

/-- The interpretation of a node does nothing. -/
def IdlesAlways (holds : Nat → Node → Prop) (e : Setting) (n : Node) : Prop :=
  ∀ s : World × TagMemory, s.2.Sound holds →
    n.interpret.Idles holds e s fun v => v.AtRest holds ∧ v.unshared = n.unshared

theorem idles_interpretChildren (hn : n.IsContainer) (hrest : n.AtRest holds)
    (hone : ∀ p t t', holds p t → holds p t' → t = t') :
    ∀ (ks done : List Node) (s : World × TagMemory), (∀ k ∈ ks, IdlesAlways holds e k) →
      Unchanged holds n (done ++ ks) → s.2.Sound holds →
      (interpretChildren n done ks).Idles holds e s (Unchanged holds n)
  | [], done, _, _, hready, hs => .pure hs (List.append_nil done ▸ hready)
  | k :: ks, done, s, hks, hready, hs => by
    refine (idles_progress hs (hready.stands hn hrest hone)).bind fun _ m hm _ => ?_
    refine (hks k List.mem_cons_self _ hm).bind fun v m' hm' ⟨hv, htree⟩ => ?_
    exact idles_interpretChildren hn hrest hone ks (done ++ [v]) _
      (fun x hx => hks x (List.mem_cons_of_mem _ hx)) (hready.next hv htree) hm'

theorem idles_container (hn : n.IsContainer) (hrest : n.AtRest holds)
    (hone : ∀ p t t', holds p t → holds p t' → t = t')
    (ih : ∀ k ∈ n.children true, IdlesAlways holds e k) : IdlesAlways holds e n := by
  intro s hs
  cases hplace : s.2.settled.at? n.place? with
  | some v =>
    refine .of_eq (interpret_of_settled hn hplace) (.pure hs ?_)
    exact ⟨atRest_of_settled hs hplace, unshared_of_settled hs hplace hrest⟩
  | none =>
    refine .of_eq (interpret_of_new hn hplace) ?_
    have hstart : Unchanged holds n ([] ++ n.children true) := ⟨fun k hk => hrest.child hk, rfl⟩
    refine (idles_interpretChildren hn hrest hone _ [] s ih hstart hs).bind fun ks m hm hks => ?_
    have hdone := atRest_refill hn hks.length_eq hks.atRest
    refine (idles_settle hm (hks.stands hn hrest hone) hdone).bind fun _ m' hm' _ => ?_
    exact .pure hm' ⟨hdone, hks.unshared_refill hn⟩

/-- A node without tags is not changed. -/
theorem idles_interpret (hone : ∀ p t t', holds p t → holds p t' → t = t')
    (htags : n.Untagged false) (hrest : n.AtRest holds) : IdlesAlways holds e n := by
  induction n using inductionOnChildren false with
  | h n ih =>
    have hchildren : ∀ k ∈ n.children false, IdlesAlways holds e k := fun k hk =>
      ih k hk (htags.child hk) (hrest.child (mem_children_true hk))
    cases n with
    | list place items => exact idles_container (.list _ _) hrest hone hchildren
    | map place entries => exact idles_container (.map _ _) hrest hone hchildren
    | tagged name payload => exact absurd htags not_untagged_tagged
    | pair _ _ | scalar _ | set _ =>
      intro s hs
      rw [interpret]
      exact .pure hs ⟨hrest, rfl⟩

/-! ## Two passes -/

variable {ids ids' : Idents} {w w' : World} {r : Node}

/-- A document without tags is yielded as it is, and nothing else happens. -/
theorem resolve_untagged (htags : n.Untagged false) (hplaces : Consistent (n :: ids.map (·.2))) :
    n.resolve e (w, ids) = (.ok n.unshared, (w, ids.trees)) := by
  have hone := hplaces.standsIn_unique
  have hvalues : ∀ v ∈ ids.map (·.2), v.AtRest (standsIn (n :: ids.map (·.2))) := fun v hv =>
    atRest_standsIn (List.mem_cons_of_mem _ hv)
  have hstart : (TagMemory.start ids).Sound (standsIn (n :: ids.map (·.2))) :=
    .start fun id v hv => hvalues v (Idents.mem_of_get? hv)
  obtain ⟨v, m, hrun, hids, hm, hv, htree⟩ :=
    idles_interpret (e := e) hone htags (atRest_standsIn List.mem_cons_self) (w, .start ids) hstart
  have hids' : m.viewIds = ids.trees := by
    rw [TagMemory.viewIds, hids]
    exact Idents.map_eq_trees fun v hv => hm.view (hvalues v hv)
  rw [resolve_of_ok hrun, hm.view hv, htree, hids']

/-- What a pass yields has no tags left, but for those below pairs, and is what may become of the
    document. -/
theorem of_resolve_ok (hplaces : Consistent (n :: ids.map (·.2)))
    (hcache : ∀ v ∈ ids.map (·.2), v.Untagged false)
    (h : n.resolve e (w, ids) = (.ok r, (w', ids'))) : r.Untagged false ∧ n.Becomes r := by
  rcases hrun : n.interpret e (w, .start ids) with ⟨x | v, s'⟩
  · rw [resolve_of_error hrun] at h
    cases h
  rw [resolve_of_ok hrun] at h
  cases h
  obtain ⟨hs', hv⟩ := leaves_interpret hplaces hcache (fun _ _ _ => untagged_pair_false) _ _ hrun
  obtain ⟨htags, hrest, hbecomes⟩ := hv v rfl
  exact ⟨(hs'.view hrest).2 htags, hbecomes.trans (hs'.view hrest).1⟩

/-- What a pass that succeeds yields is a fixed point: to interpret it again, whatever is known and
    however it is shared by now, yields the same, does nothing to the world and leaves what is known
    as it is. And it has the outline of the document. -/
theorem resolve_resolve (hplaces : Consistent (n :: ids.map (·.2)))
    (hcache : ∀ v ∈ ids.map (·.2), v.Untagged false)
    (h : n.resolve e (w, ids) = (.ok r, (w', ids'))) :
    (∀ (r' : Node) (e' : Setting) (w₁ : World) (ids₁ : Idents), r'.unshared = r →
      Consistent (r' :: ids₁.map (·.2)) →
      r'.resolve e' (w₁, ids₁) = (.ok r, (w₁, ids₁.trees))) ∧
    n.Becomes r := by
  obtain ⟨htags, hbecomes⟩ := of_resolve_ok hplaces hcache h
  refine ⟨fun r' e' w₁ ids₁ htree hplaces' => ?_, hbecomes⟩
  have htags' : r'.Untagged false := untagged_unshared.1 (htree ▸ htags)
  rw [← htree]
  exact resolve_untagged htags' hplaces'

/-- A list that stands in two places, with an answer that has an id. -/
def namedList : Node :=
  list (some 1) [tagged "Id" (list (some 2) [text "x", tagged "Input" (text "Name: ")])]

/-- What has become of it. -/
def answeredList : Node := list (some 1) [text "me"]

/-- A document with such a list. -/
def askingSample : Node := map (some 0) [(.text "a", namedList), (.text "b", namedList)]

/-- What has become of it, with the list in both places. -/
def answeredSample : Node := map (some 0) [(.text "a", answeredList), (.text "b", answeredList)]

/-- The operator types a name. -/
def beforeAnswer : World := { World.initial (.dir []) [] with lines := ["me"] }

/-- The operator has typed the name. -/
def afterAnswer : World := { World.initial (.dir []) [] with events := [.prompt "Name: "] }

theorem resolve_resolve_sample :
    Consistent [askingSample, text "v"] ∧ (text "v").Untagged false ∧
      askingSample.resolve .calm (beforeAnswer, [("k", text "v")])
        = (.ok answeredSample.unshared, (afterAnswer, [("k", text "v"), ("x", text "me")])) ∧
      Consistent [answeredSample, answeredList] ∧
      answeredSample.resolve .calm (beforeAnswer, [("y", answeredList)])
        = (.ok answeredSample.unshared, (beforeAnswer, [("y", list none [text "me"])])) ∧
      askingSample.Becomes answeredSample.unshared := by
  have hplaces : Consistent [askingSample, text "v"] := by
    simp [Consistent, askingSample, namedList, parts, itemParts, entryParts, place?, text]
  have hplaces' : Consistent [answeredSample, answeredList] := by
    simp [Consistent, answeredSample, answeredList, parts, itemParts, entryParts, place?, text]
  have hask : Action.ask "Name: " .calm beforeAnswer = (.ok "me", afterAnswer) := rfl
  have hanswer : Text.stripLineEnd "me" = "me" := by decide
  have hrun : askingSample.resolve .calm (beforeAnswer, [("k", text "v")])
      = (.ok answeredSample.unshared, (afterAnswer, [("k", text "v"), ("x", text "me")])) := by
    simp [resolve, askingSample, namedList, answeredSample, answeredList, unshared_map,
      unsharedItems, interpret, interpretItems, interpretEntries, interpretIdent, interpretSecond,
      input, answer, ofAction, hask, hanswer, Question.ofNode, Question.answer, identify, under,
      Effect.because, Effect.mapFailure, Effect.bind_apply, progress, settle, remember,
      Contents.at?, Contents.get?, Contents.set, Contents.without, Idents.get?, Idents.put,
      TagMemory.start, TagMemory.contents, TagMemory.view, TagMemory.viewIds, text, ident, asIdent,
      Except.map, unshared, -bind_pure_comp]
  have hvalues : ∀ v ∈ [("k", text "v")].map (·.2), v.Untagged false := by
    simpa using untagged_text "v"
  obtain ⟨hagain, hbecomes⟩ := resolve_resolve (e := .calm) hplaces hvalues hrun
  exact ⟨hplaces, untagged_text "v", hrun, hplaces',
    hagain answeredSample .calm beforeAnswer [("y", answeredList)] rfl hplaces', hbecomes⟩

end Node
end Runbook
