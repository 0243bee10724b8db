import Runbook.Proofs.Idempotence
import Runbook.Proofs.KnownIdents

set_option autoImplicit false

/-! # Tags that are left

A pass that succeeds leaves no tag behind that lists and mappings lead to. It does not look into pairs.
If no pair of the document has a tag in it, none is left anywhere, nor in what is known of the ids. But
a pair that stands below lists and mappings only stays as it is written, with its tags. -/

namespace Runbook

namespace Node

open Interpretation

variable {e : Setting} {s s' : World × TagMemory} {w w' : World} {ids ids' : Idents}
  {n k v r key value : Node} {ks done : List Node} {a : List Nat} {b : Bool}

/-! ## What lists and mappings lead to -/

/-- A document yields no tags, nor do they come up in the values of ids, if there are none in its pairs
    or what is below pairs does not count. -/
theorem untagged_of_resolve (hplaces : Consistent (n :: ids.map (·.2)))
    (hcache : ∀ v ∈ ids.map (·.2), v.Untagged b)
    (hpairs : ∀ key value, pair key value ∈ n.parts false → (pair key value).Untagged b)
    (h : n.resolve e (w, ids) = (.ok r, (w', ids'))) :
    r.Untagged b ∧ ∀ v ∈ ids'.map (·.2), v.Untagged b := by
  rcases hrun : n.interpret e (w, .start ids) with ⟨x | v, s⟩
  · rw [resolve_of_error hrun] at h
    cases h
  rw [resolve_of_ok hrun] at h
  cases h
  obtain ⟨hs, hv⟩ := leaves_interpret hplaces hcache hpairs _ _ hrun
  obtain ⟨htags, hrest, -⟩ := hv v rfl
  refine ⟨(hs.view hrest).2 htags, fun u hu => ?_⟩
  rw [TagMemory.viewIds, List.map_map] at hu
  obtain ⟨⟨id, x⟩, hx, rfl⟩ := List.mem_map.1 hu
  obtain ⟨hxtags, hxrest⟩ := hs.values x (List.mem_map_of_mem hx)
  exact (hs.view hxrest).2 hxtags

theorem Untagged.of_tagFree (h : n.TagFree) : n.Untagged b := by
  cases b with
  | true => exact h
  | false => exact fun name payload hmem => h name payload (mem_parts_true hmem)

theorem TagFree.of_mem_parts (h : n.TagFree) (hk : k ∈ n.parts true) : k.TagFree :=
  fun name payload hmem => h name payload (parts_subset hk hmem)

/-- What is at an address is a part. -/
theorem mem_parts_of_at? (h : n.at? a = some k) : k ∈ n.parts true := by
  induction a generalizing n with
  | nil =>
    obtain rfl := Option.some.inj ((at?_nil n).symm.trans h)
    exact self_mem_parts _ _
  | cons i a ih =>
    by_cases hn : ∃ name payload, n = tagged name payload
    · obtain ⟨name, payload, rfl⟩ := hn
      simp at h
    · rw [at?_cons fun name payload h => hn ⟨_, _, h⟩, Option.bind_eq_some_iff] at h
      obtain ⟨c, hc, hk⟩ := h
      exact mem_parts_of_child (List.mem_of_getElem? hc) (ih hk)

/-! ## What pairs hold -/

/-- A node has the pairs of another at the same addresses. -/
def KeepsPairs (n v : Node) : Prop :=
  ∀ a key value, n.at? a = some (pair key value) → v.at? a = some (pair key value)

theorem KeepsPairs.refill (hn : n.IsContainer)
    (h : List.Forall₂ KeepsPairs (n.children true) ks) : n.KeepsPairs (n.refill ks) := by
  rintro (_ | ⟨i, a⟩) key value hat
  · rw [at?_nil] at hat
    cases hat
    cases hn
  · rw [at?_cons hn.ne_tagged, Option.bind_eq_some_iff] at hat
    obtain ⟨c, hc, hat⟩ := hat
    obtain ⟨hi, rfl⟩ := List.getElem?_eq_some_iff.1 hc
    have hi' := h.length_eq ▸ hi
    rw [at?_cons (hn.refill ks).ne_tagged, children_refill hn h.length_eq.symm,
      List.getElem?_eq_getElem hi', Option.bind_some]
    exact h.get hi hi' a key value hat

theorem yields_keepsPairs (n : Node) : ∀ (ks done : List Node) (s : World × TagMemory),
    (∀ k ∈ ks, ∀ s, k.interpret.Yields e s fun v _ => k.KeepsPairs v) →
    (interpretChildren n done ks).Yields e s fun ks' _ =>
      ∃ new, ks' = done ++ new ∧ List.Forall₂ KeepsPairs ks new
  | [], done, _, _ => .pure ⟨[], (List.append_nil done).symm, .nil⟩
  | k :: ks, done, s, hks => by
    refine Yields.bind (P := fun _ _ => True) (fun _ _ _ => trivial) fun _ s₁ _ => ?_
    refine (hks k List.mem_cons_self s₁).bind fun v s₂ hv => ?_
    refine (yields_keepsPairs n ks (done ++ [v]) s₂ fun x hx =>
      hks x (List.mem_cons_of_mem _ hx)).imp ?_
    rintro ks' m ⟨new, rfl, hnew⟩
    exact ⟨v :: new, by simp, .cons hv hnew⟩

theorem yields_keepsPairs_container (hn : n.IsContainer) (hplace : n.place? = none)
    (ih : ∀ k ∈ n.children true, ∀ s, k.interpret.Yields e s fun v _ => k.KeepsPairs v)
    (s : World × TagMemory) : n.interpret.Yields e s fun v _ => n.KeepsPairs v := by
  refine .of_eq (interpret_of_new hn (at?_of_unplaced _ hplace)) ?_
  refine (yields_keepsPairs n _ [] s ih).bind ?_
  rintro ks s₁ ⟨new, rfl, hnew⟩
  refine Yields.bind (P := fun _ _ => True) (fun _ _ _ => trivial) fun _ s₂ _ => .pure ?_
  exact .refill hn hnew

/-- A tree keeps its pairs, which are not interpreted. Below a tag there are no addresses. -/
theorem yields_interpret_keepsPairs (hplaces : n.Unplaced) (s : World × TagMemory) :
    n.interpret.Yields e s fun v _ => n.KeepsPairs v := by
  induction n using inductionOnChildren true generalizing s with
  | h n ih =>
    have hchildren : ∀ k ∈ n.children true, ∀ s, k.interpret.Yields e s fun v _ => k.KeepsPairs v :=
      fun k hk s => ih k hk (hplaces.child hk) s
    cases n with
    | list place items =>
      exact yields_keepsPairs_container (.list _ _) hplaces.place?_eq hchildren s
    | map place entries =>
      exact yields_keepsPairs_container (.map _ _) hplaces.place?_eq hchildren s
    | tagged name payload =>
      -- whatever the value is, the only address in a tag is that of the tag itself
      intro v s' _
      rintro (_ | ⟨i, a⟩) key value hat
      · rw [at?_nil] at hat
        cases hat
      · simp at hat
    | pair _ _ | scalar _ | set _ =>
      rw [interpret]
      exact .pure fun _ _ _ hat => hat

/-- A document that shares nothing keeps its pairs. -/
theorem at?_of_resolve (h : n.resolve e (w, ids) = (.ok r, (w', ids'))) (hseparate : n.Separate ids)
    (hat : n.at? a = some (pair key value)) : r.at? a = some (pair key value).unshared := by
  obtain ⟨outcome, s, hrun, htree, hs, -, hquiet⟩ :=
    mirrorsTree (e := e) n (w, .start ids) hseparate.ahead hseparate.clear
  cases outcome with
  | error x =>
    rw [resolve_of_error hrun] at h
    cases h
  | ok v =>
    rw [resolve_of_ok hrun, hs.view (hquiet v rfl)] at h
    cases h
    refine yields_interpret_keepsPairs (unplaced_unshared n) _ v.unshared _ htree a _ _ ?_
    rw [at?_unshared, hat]
    rfl

/-! ## Whole documents -/

/-- What a pass that succeeds leaves of tags. Lists and mappings lead to none, in the document and in the
    values of ids. Nor do pairs, if no pair of the document holds a tag. If the document shares nothing,
    a pair at an address stays as it is written: then a tag in it is left. -/
theorem resolve_leaves_tags_in_pairs (hplaces : Consistent (n :: ids.map (·.2)))
    (hcache : ∀ v ∈ ids.map (·.2), v.TagFree) (h : n.resolve e (w, ids) = (.ok r, (w', ids'))) :
    (r.Untagged false ∧ ∀ v ∈ ids'.map (·.2), v.Untagged false) ∧
    ((∀ key value, pair key value ∈ n.parts false → (pair key value).TagFree) →
      r.TagFree ∧ ∀ v ∈ ids'.map (·.2), v.TagFree) ∧
    (n.Separate ids → ∀ a key value, n.at? a = some (pair key value) →
      r.at? a = some (pair key value).unshared ∧ (r.TagFree → (pair key value).TagFree)) := by
  refine ⟨untagged_of_resolve hplaces (fun v hv => .of_tagFree (hcache v hv))
    (fun _ _ _ => untagged_pair_false) h, fun hpairs => untagged_of_resolve hplaces hcache hpairs h,
    fun hseparate a key value hat => ?_⟩
  have hstays := at?_of_resolve h hseparate hat
  exact ⟨hstays, fun htags => untagged_unshared.1 (htags.of_mem_parts (mem_parts_of_at? hstays))⟩

/-- What is written as an ordered mapping is read as a list of pairs, here with a tag in one. -/
def orderedSample : Node :=
  map (some 0) [(.text "a",
      list (some 2) [pair (text "k") (tagged "StrF" (list (some 5) [text "x"]))]),
    (.text "b", tagged "StrF" (list (some 8) [text "y", text "z"]))]

/-- What a pass makes of it. -/
def orderedResult : Node :=
  map none [(.text "a", list none [pair (text "k") (tagged "StrF" (list none [text "x"]))]),
    (.text "b", text "yz")]

theorem orderedSample_resolves : orderedSample.resolve .calm (.initial .empty [], [])
    = (.ok orderedResult, (.initial .empty [], [])) := by
  simp [resolve, orderedSample, orderedResult, interpret, interpretEntries, interpretItems,
    interpretJoin, interpretParts, part, under, Effect.because, Effect.mapFailure, Effect.bind_apply,
    progress, settle, remember, Contents.at?, Contents.get?, Contents.set, Contents.without,
    TagMemory.start, TagMemory.contents, TagMemory.view, TagMemory.viewIds, text, asItStands_list,
    Except.map, -bind_pure_comp]

theorem resolve_leaves_tags_sample :
    Consistent [orderedSample] ∧ orderedResult.Untagged false ∧ ¬ orderedResult.TagFree := by
  have hseparate : orderedSample.Separate [] := ⟨by decide, nofun⟩
  have hplaces : Consistent [orderedSample] := by
    simp [Consistent, orderedSample, parts, itemParts, entryParts, place?, text]
  have hcache : ∀ v ∈ ([] : Idents).map (·.2), v.TagFree := by simp
  obtain ⟨⟨hlists, -⟩, -, hpairs⟩ :=
    resolve_leaves_tags_in_pairs hplaces hcache orderedSample_resolves
  have hat : orderedSample.at? [0, 0]
      = some (pair (text "k") (tagged "StrF" (list (some 5) [text "x"]))) := by
    simp [orderedSample, at?, children]
  refine ⟨hplaces, hlists, fun htags => ?_⟩
  have hpair := (hpairs hseparate [0, 0] _ _ hat).2 htags
  exact hpair "StrF" (list (some 5) [text "x"]) (by simp [parts, text])

/-- The pass succeeds, and a tag is left. -/
theorem exists_tag_orderedResult :
    orderedSample.resolve .calm (.initial .empty [], [])
      = (.ok orderedResult, (.initial .empty [], [])) ∧
    tagged "StrF" (list none [text "x"]) ∈ orderedResult.parts true :=
  ⟨orderedSample_resolves, by simp [orderedResult, parts, itemParts, entryParts]⟩

end Node
end Runbook
