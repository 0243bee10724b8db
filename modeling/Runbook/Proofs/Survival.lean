import Runbook.Proofs.Reworking

set_option autoImplicit false

/-! # Ids across passes

The ids that are known are handed from one pass to the next, and a pass may fail anywhere. However it
ends, what was known before it is known after it, with the same values, also if such a value is a
container that is still worked on; and what has become known has a value without tags, which is all
that stood beside its id, interpreted to the end. -/

namespace Runbook

open Node Interpretation

variable {e : Setting} {n : Node} {w w' : World} {ids ids' : Idents} {r : Except Failure Node}
  {id : String}

/-- What is known of ids after some passes over documents in which nothing is tagged below pairs. The
    values of ids may share their containers with the next document. -/
inductive Idents.LeftByPasses : Idents → Prop
  | nothing : LeftByPasses []
  | pass {n : Node} {e : Setting} {w w' : World} {ids ids' : Idents} {r : Except Failure Node}
      (h : LeftByPasses ids.trees)
      (hplaces : Consistent (n :: ids.map (·.2)))
      (hpairs : ∀ key value, pair key value ∈ n.parts false → (pair key value).TagFree)
      (hrun : n.resolve e (w, ids) = (r, (w', ids'))) : LeftByPasses ids'

namespace Node

/-- The ids that are known after a pass, and what is remembered then of all places. -/
theorem exists_orderly (hplaces : Consistent (n :: ids.map (·.2)))
    (hcache : ∀ v ∈ ids.map (·.2), v.TagFree)
    (hpairs : ∀ key value, pair key value ∈ n.parts false → (pair key value).TagFree)
    (hrun : n.resolve e (w, ids) = (r, (w', ids'))) :
    ∃ m, TagMemory.Orderly (standsIn (n :: ids.map (·.2))) true e (w, .start ids) n m ∧
      ids' = m.ids.trees := by
  rcases hinterpret : n.interpret e (w, .start ids) with ⟨r', s⟩
  obtain ⟨hs, -⟩ := leaves_interpret (b := true) hplaces hcache hpairs _ _ hinterpret
  refine ⟨s.2, hs, ?_⟩
  have hids : ids' = s.2.viewIds := by
    rw [resolve, hinterpret] at hrun
    cases hrun
    rfl
  rw [hids, TagMemory.viewIds]
  -- A value without tags is seen as the same tree whatever is remembered of its places.
  refine Idents.map_eq_trees fun v hv => ?_
  obtain ⟨htags, hrest⟩ := hs.values v hv
  exact hs.view_eq htags hrest

end Node

/-- What is known of ids between passes has no tags. -/
theorem Idents.LeftByPasses.tagFree (h : ids.LeftByPasses) : ∀ v ∈ ids.map (·.2), v.TagFree := by
  induction h with
  | nothing => simp
  | pass _ hplaces hpairs hrun ih =>
    obtain ⟨m, hm, rfl⟩ := exists_orderly hplaces (untagged_trees.1 ih) hpairs hrun
    exact untagged_trees.2 fun v hv => (hm.values v hv).1

namespace Node

/-- A pass, however it ends, changes no id that is known, and an id that has become known has a value
    without tags, which is what stood beside the id, interpreted to the end. -/
theorem resolve_ids (hids : ids.trees.LeftByPasses) (hplaces : Consistent (n :: ids.map (·.2)))
    (hpairs : ∀ key value, pair key value ∈ n.parts false → (pair key value).TagFree)
    (hrun : n.resolve e (w, ids) = (r, (w', ids'))) :
    (∀ id v, ids.get? id = some v → ids'.get? id = some v.unshared) ∧
    ∀ id v, ids.get? id = none → ids'.get? id = some v →
      v.TagFree ∧ ∃ s payload x, Visited e (w, .start ids) n s (tagged "Id" payload) ∧
        Finds e s payload id x ∧ v = x.unshared := by
  have hcache : ∀ v ∈ ids.map (·.2), v.TagFree := Idents.untagged_trees.1 hids.tagFree
  obtain ⟨m, hm, rfl⟩ := exists_orderly hplaces hcache hpairs hrun
  refine ⟨fun id v hv => ?_, fun id v hnew hv => ?_⟩
  · rw [Idents.get?_trees, hm.grows id v hv, Option.map_some]
  · rw [Idents.get?_trees, Option.map_eq_some_iff] at hv
    obtain ⟨x, hx, rfl⟩ := hv
    refine ⟨untagged_unshared.2 (hm.values x (Idents.mem_of_get? hx)).1, ?_⟩
    rcases hm.found id x hx with hold | ⟨s, payload, hvisited, hfinds⟩
    · cases hnew.symm.trans hold
    · exact ⟨s, payload, x, hvisited, hfinds, rfl⟩

/-- What gives an id a list. -/
def listSample : Node := tagged "Id" (list (some 0) [text "x", list (some 1) [text "q"]])

/-- A list with a text that is joined. -/
def joinedList : Node := list (some 2) [tagged "StrF" (list (some 3) [text "a", text "b"])]

/-- A document that holds the same list beside an id and elsewhere, and the value of another id, and
    fails in the end. -/
def failingSample : Node :=
  list (some 0) [tagged "Id" (list (some 4) [text "y", joinedList]), joinedList,
    list (some 1) [text "q"], tagged "Nope" (text "")]

theorem resolve_ids_sample :
    Idents.LeftByPasses [("x", list none [text "q"])] ∧
      Consistent [failingSample, list (some 1) [text "q"]] ∧
      (∀ key value, pair key value ∈ failingSample.parts false → (pair key value).TagFree) ∧
      failingSample.resolve .calm (.initial (.dir []) [], [("x", list (some 1) [text "q"])])
        = (.error (.of (.tag (.unknown "Nope"))), (.initial (.dir []) [],
          [("x", list none [text "q"]), ("y", list none [text "ab"])])) ∧
      (list none [text "ab"]).TagFree ∧
      ∃ s payload x, Visited .calm (.initial (.dir []) [], .start [("x", list (some 1) [text "q"])])
          failingSample s (tagged "Id" payload) ∧
        Finds .calm s payload "y" x ∧ list none [text "ab"] = x.unshared := by
  have hfirst : listSample.resolve .calm (.initial (.dir []) [], [])
      = (.ok (list none [text "q"]), (.initial (.dir []) [], [("x", list none [text "q"])])) := by
    simp [resolve, listSample, interpret, interpretItems, interpretIdent, interpretSecond, identify,
      under, Effect.because, Effect.mapFailure, Effect.bind_apply, progress, settle, remember,
      asItStands_list, Contents.at?, Contents.get?, Contents.set, Contents.without, Idents.get?,
      Idents.put, TagMemory.start, TagMemory.contents, TagMemory.view, TagMemory.viewIds, text, ident,
      asIdent, Except.map, -bind_pure_comp]
  have hids : Idents.LeftByPasses [("x", list none [text "q"])] := by
    have hnothing : (Idents.trees []).LeftByPasses := .nothing
    refine .pass hnothing ?_ ?_ hfirst
    · simp [Consistent, listSample, parts, itemParts, place?, text]
    · simp [listSample, parts, itemParts, text]
  have hplaces : Consistent [failingSample, list (some 1) [text "q"]] := by
    simp [Consistent, failingSample, joinedList, parts, itemParts, place?, text]
  have hpairs : ∀ key value, pair key value ∈ failingSample.parts false →
      (pair key value).TagFree := by
    simp [failingSample, joinedList, parts, itemParts, text]
  have hrun : failingSample.resolve .calm
      (.initial (.dir []) [], [("x", list (some 1) [text "q"])])
      = (.error (.of (.tag (.unknown "Nope"))), (.initial (.dir []) [],
        [("x", list none [text "q"]), ("y", list none [text "ab"])])) := by
    simp [resolve, failingSample, joinedList, interpret, interpretItems, interpretIdent,
      interpretSecond, interpretJoin, interpretParts, part, identify, under, Effect.because,
      Effect.mapFailure, Effect.bind_apply, progress, settle, remember, asItStands_list, check,
      Effect.ofExcept, Except.mapError, Contents.at?, Contents.get?, Contents.set, Contents.without,
      Idents.get?, Idents.put, TagMemory.start, TagMemory.contents, TagMemory.view,
      TagMemory.viewIds, text, ident, asIdent, Except.map, -bind_pure_comp]
  have htrees : Idents.trees [("x", list (some 1) [text "q"])] = [("x", list none [text "q"])] := rfl
  obtain ⟨-, hfound⟩ := resolve_ids (htrees ▸ hids) hplaces hpairs hrun
  obtain ⟨htags, hfinds⟩ := hfound "y" (list none [text "ab"]) rfl rfl
  exact ⟨hids, hplaces, hpairs, hrun, htags, hfinds⟩

end Node
end Runbook
