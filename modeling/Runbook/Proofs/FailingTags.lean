import Runbook.Proofs.FailingParts
import Runbook.Proofs.ReportedFailures
import Runbook.Proofs.Sequences

set_option autoImplicit false

/-! # Failing tags

Where a pass over a document fails, and what its failure says. The pass goes down from the document to one
node that fails on its own account: a tag of no known name, a tag that does not accept its payload, or one
whose question gets no answer. All that the pass reaches before has succeeded. The failure names each tag
on the way down, the outermost first, with what is wrong at the end of it. There is one exception, a value
that a message would show and that holds an integer that is not written: then no tag is named. -/

namespace Runbook

open Interpretation

/-! ## Tags around a failure -/

namespace Failure

variable {f : Failure}

/-- A failure in the contexts of some tags, the outermost first. -/
def inTags (f : Failure) (names : List String) : Failure := names.foldr inTag f

theorem inTag_eq (h : f.isWorkflow = true ∨ f.isA .system = true) (name : String) :
    f.inTag name = f.because (.tag (.failed name)) := by
  rw [inTag, if_pos]
  rwa [Bool.or_eq_true]

/-- What is put into the context of a tag once is put into those of all tags around it. -/
theorem links_inTags (h : f.isWorkflow = true ∨ f.isA .system = true) (names : List String) :
    (f.inTags names).links = names.map (fun name => .tag (.failed name)) ++ f.links := by
  have hboth : ((f.inTags names).isWorkflow = true ∨ (f.inTags names).isA .system = true) ∧
      (f.inTags names).links = names.map (fun name => .tag (.failed name)) ++ f.links := by
    induction names with
    | nil => exact ⟨h, rfl⟩
    | cons name names ih =>
      have hname : f.inTags (name :: names) = (f.inTags names).because (.tag (.failed name)) :=
        inTag_eq ih.1 name
      rw [hname, links_because, ih.2]
      -- a context is one that a workflow reports, so the next tag around applies to it
      exact ⟨.inl rfl, rfl⟩
  exact hboth.2

theorem eq_of_links {g : Failure} (h : f.links = g.links) : f = g := by
  obtain ⟨head, behind⟩ := f
  obtain ⟨head', behind'⟩ := g
  obtain ⟨rfl, rfl⟩ := List.cons.inj h
  rfl

theorem inTags_of_other (hworkflow : f.isWorkflow = false) (hsystem : f.isA .system = false)
    (names : List String) : f.inTags names = f := by
  induction names with
  | nil => rfl
  | cons name names ih =>
    have hname : f.inTags (name :: names) = (f.inTags names).inTag name := rfl
    rw [hname, ih, inTag, hworkflow, hsystem]
    rfl

end Failure

namespace Node

variable {e : Setting} {s s' s₁ : World × TagMemory} {n k v payload root : Node} {f : Failure}
  {p : TagProblem} {place : Option Nat} {items ks : List Node} {index : Nat} {t id name : String}

/-! ## Where a pass fails -/

/-- A tag does not accept its payload, after it has interpreted some of it: what is to be joined is no list
    of texts, what is to be asked is no question, or what is to name an id does not, or has no value for an
    id that is not known. -/
inductive Refuses (e : Setting) :
    World × TagMemory → String → Node → List Node → TagProblem → World × TagMemory → Prop
  | noList {s : World × TagMemory} {payload : Node}
      (h : ∀ place items, payload ≠ list place items) : Refuses e s "StrF" payload [] .joinNeedsList s
  | element {s s₁ s' : World × TagMemory} {place : Option Nat} {ks later : List Node} {k v : Node}
      {t : String} (hnew : ∀ place' found, s.2.settled.at? place ≠ some (list place' found))
      (hks : interpretParts 0 ks e s = (.ok t, s₁)) (hk : k.interpret e s₁ = (.ok v, s'))
      (hv : v.asText? = none) :
      Refuses e s "StrF" (list place (ks ++ k :: later)) (ks ++ [k])
        ((s'.2.view v).showing (.joinElement ks.length) .unwritable) s'
  | foundElement {s : World × TagMemory} {place place' : Option Nat} {items ks later : List Node}
      {v : Node} (hfound : s.2.settled.at? place = some (list place' (ks ++ v :: later)))
      (hks : ∀ k ∈ ks, k.asText? ≠ none) (hv : v.asText? = none) :
      Refuses e s "StrF" (list place items) []
        ((s.2.view v).showing (.joinElement ks.length) .unwritable) s
  | question {s s' : World × TagMemory} {hidden : Bool} {payload v : Node} {p : TagProblem}
      (hpayload : payload.interpret e s = (.ok v, s')) (hv : Question.ofNode v = .error p) :
      Refuses e s (Question.tag hidden) payload [payload] p s'
  | ident {s : World × TagMemory} {payload : Node} {p : TagProblem}
      (hid : (s.2.seen payload).ident = .error p) : Refuses e s "Id" payload [] p s
  | value {s : World × TagMemory} {payload : Node} {id : String} {p : TagProblem}
      (hid : (s.2.seen payload).ident = .ok id) (hunknown : s.2.ids.get? id = none)
      (hvalue : (s.2.reached payload).identValue = .error p) : Refuses e s "Id" payload [] p s

/-- A pass over a node goes down to one that fails on its own account. Given are the nodes that it
    interprets before, in their order, the names of the tags on the way down, the outermost first, and what
    the one at the end fails with. -/
inductive FailsIn (e : Setting) :
    World × TagMemory → Node → List Node → List String → Failure → World × TagMemory → Prop
  | child {s s₁ s' : World × TagMemory} {n k : Node} {ks later before : List Node}
      {names : List String} {root : Failure} (hn : n.IsContainer)
      (hnew : s.2.settled.at? n.place? = none) (hks : n.children true = ks ++ k :: later)
      (hworks : WorksUpTo e n s [] ks (k :: later) s₁) (h : FailsIn e s₁ k before names root s') :
      FailsIn e s n (ks ++ before) names root s'
  | part {s s₁ s' : World × TagMemory} {place : Option Nat} {k : Node} {ks later before : List Node}
      {t : String} {names : List String} {root : Failure}
      (hnew : ∀ place' found, s.2.settled.at? place ≠ some (list place' found))
      (hks : interpretParts 0 ks e s = (.ok t, s₁)) (h : FailsIn e s₁ k before names root s') :
      FailsIn e s (tagged "StrF" (list place (ks ++ k :: later))) (ks ++ before) ("StrF" :: names) root
        s'
  | payload {s s' : World × TagMemory} {hidden : Bool} {payload : Node} {before : List Node}
      {names : List String} {root : Failure} (h : FailsIn e s payload before names root s') :
      FailsIn e s (tagged (Question.tag hidden) payload) before (Question.tag hidden :: names) root s'
  | value {s s' : World × TagMemory} {payload value : Node} {id : String} {before : List Node}
      {names : List String} {root : Failure} (hid : (s.2.seen payload).ident = .ok id)
      (hunknown : s.2.ids.get? id = none) (hnew : s.2.settled.at? payload.place? = none)
      (hvalue : payload.identValue = .ok value) (h : FailsIn e s value before names root s') :
      FailsIn e s (tagged "Id" payload) before ("Id" :: names) root s'
  | unknown {s : World × TagMemory} {name : String} {payload : Node}
      (hname : name ∉ ["StrF", "Input", "HiddenInput", "Id"]) :
      FailsIn e s (tagged name payload) [] [] (.of (.tag (.unknown name))) s
  | refused {s s' : World × TagMemory} {name : String} {payload : Node} {before : List Node}
      {p : TagProblem} (h : Refuses e s name payload before p s') :
      FailsIn e s (tagged name payload) before [name] (.of (.tag p)) s'
  | unanswered {s : World × TagMemory} {w w' : World} {m : TagMemory} {hidden : Bool} {payload v : Node}
      {q : Question} {f : Failure} (hpayload : payload.interpret e s = (.ok v, (w, m)))
      (hq : v.Poses q) (hread : Action.reader hidden q.prompt e w = (.error f, w')) :
      FailsIn e s (tagged (Question.tag hidden) payload) [payload] [Question.tag hidden] f (w', m)

/-- A failure is what the pass goes down to, in the contexts of the tags on the way. -/
def FailsWith (e : Setting) (s : World × TagMemory) (n : Node) (f : Failure) (s' : World × TagMemory) :
    Prop :=
  ∃ before names root, FailsIn e s n before names root s' ∧ f = root.inTags names

/-- Wherever a pass over a node fails, it goes down to what fails. -/
def Descends (e : Setting) (n : Node) : Prop :=
  ∀ s f s', n.interpret e s = (.error f, s') → FailsWith e s n f s'

theorem Refuses.failsWith {before : List Node} (h : Refuses e s name payload before p s') :
    FailsWith e s (tagged name payload) ((Failure.of (.tag p)).inTag name) s' :=
  ⟨before, [name], _, .refused h, rfl⟩

theorem IsContainer.descends (hn : n.IsContainer) (hchildren : ∀ k ∈ n.children true, k.Descends e) :
    n.Descends e := by
  intro s f s' h
  obtain ⟨hnew, ks, k, later, s₁, hks, hworks, hk⟩ := hn.error_of_interpret h
  have hmem : k ∈ n.children true := by
    rw [hks]
    simp
  obtain ⟨before, names, root, hfails, hf⟩ := hchildren k hmem s₁ f s' hk
  exact ⟨ks ++ before, names, root, .child hn hnew hks hworks hfails, hf⟩

/-- A text that cannot be joined. -/
theorem failsWith_join (hitems : ∀ k ∈ payload.children false, k.Descends e)
    (h : payload.interpretJoin e s = (.error f, s')) :
    FailsWith e s (tagged "StrF" payload) (f.inTag "StrF") s' := by
  by_cases hlist : ∃ place items, payload = list place items
  · obtain ⟨place, items, rfl⟩ := hlist
    rw [interpretJoin_list] at h
    generalize hfound : s.2.settled.at? place = found at h
    rcases Effect.error_of_bind h with hjoin | ⟨t, s₁, -, hend⟩
    · split at hjoin
      · -- the list has been worked through elsewhere, and nothing in it is interpreted again
        obtain ⟨ks, v, later, rfl, hks, hv, rfl, rfl⟩ := error_of_joinSettled hjoin
        rw [Nat.zero_add]
        exact (Refuses.foundElement hfound hks hv).failsWith
      · next hother =>
        have hnew : ∀ place' found, s.2.settled.at? place ≠ some (list place' found) := by
          rintro place' found heq
          exact hother place' found (hfound.symm.trans heq)
        obtain ⟨ks, k, later, t, s₁, rfl, hks, hk | ⟨v, hk, hv, rfl⟩⟩ := error_of_interpretParts hjoin
        · obtain ⟨before, names, root, hfails, rfl⟩ := hitems k (by simp [children]) s₁ f s' hk
          exact ⟨ks ++ before, "StrF" :: names, root, .part hnew hks hfails, rfl⟩
        · rw [Nat.zero_add]
          exact (Refuses.element hnew hks hk hv).failsWith
    · cases hend
  · have hjoin : payload.interpretJoin = check (.error .joinNeedsList) := by
      rw [interpretJoin]
      rintro place items rfl
      exact hlist ⟨place, items, rfl⟩
    rw [hjoin] at h
    cases h
    exact (Refuses.noList fun place items heq => hlist ⟨place, items, heq⟩).failsWith

/-- A question that is not answered. -/
theorem failsWith_question (hidden : Bool) (hpayload : payload.Descends e)
    (h : (payload.interpret >>= input hidden) e s = (.error f, s')) :
    FailsWith e s (tagged (Question.tag hidden) payload) (f.inTag (Question.tag hidden)) s' := by
  rcases Effect.error_of_bind h with hfirst | ⟨v, ⟨w, m⟩, hv, hinput⟩
  · obtain ⟨before, names, root, hfails, rfl⟩ := hpayload s f s' hfirst
    exact ⟨before, Question.tag hidden :: names, root, .payload hfails, rfl⟩
  cases hq : Question.ofNode v with
  | error p =>
    rw [input_of_error hq] at hinput
    cases hinput
    exact (Refuses.question hv hq).failsWith
  | ok q =>
    rw [input_of_ok hq] at hinput
    rcases Effect.error_of_bind hinput with hanswer | ⟨a, s₁, -, hend⟩
    · rw [answer_apply] at hanswer
      split at hanswer
      · next w' hread =>
        cases hanswer
        have hposes : v.Poses q := Question.ofNode_eq_ok.1 hq
        exact ⟨[payload], [Question.tag hidden], f, .unanswered hv hposes hread, rfl⟩
      · cases hanswer
    · cases hend

/-- An id that cannot be evaluated. -/
theorem failsWith_ident (hparts : ∀ k ∈ payload.children false, k.Descends e)
    (h : payload.interpretIdent e s = (.error f, s')) :
    FailsWith e s (tagged "Id" payload) (f.inTag "Id") s' := by
  rw [interpretIdent_apply] at h
  rcases Effect.error_of_bind h with hident | ⟨id, s₁, hident, hidentify⟩
  · obtain ⟨p, hp, rfl, rfl⟩ := error_of_check hident
    exact (Refuses.ident hp).failsWith
  obtain ⟨hid, rfl⟩ := of_check hident
  obtain ⟨hunknown, hfirst⟩ := error_of_identify hidentify
  rcases error_of_valueBeside hfirst with ⟨p, hp, rfl, rfl⟩ | ⟨hnew, value, hvalue, hinterpret⟩
  · exact (Refuses.value hid hunknown hp).failsWith
  · have hcontainer := isContainer_reached hid
    rw [TagMemory.reached, hnew, Option.getD_none] at hcontainer
    have hmem : value ∈ payload.children false := hcontainer.mem_of_identValue hvalue
    obtain ⟨before, names, root, hfails, rfl⟩ := hparts value hmem _ _ _ hinterpret
    exact ⟨before, "Id" :: names, root, .value hid hunknown hnew hvalue hfails, rfl⟩

theorem descends_tagged (hparts : ∀ k ∈ payload.parts false, k.Descends e) :
    (tagged name payload).Descends e := by
  intro s f s' h
  have hpayload : payload.Descends e := hparts payload (self_mem_parts _ _)
  have hchildren : ∀ k ∈ payload.children false, k.Descends e :=
    fun k hk => hparts k (mem_parts_of_child hk (self_mem_parts _ _))
  rw [interpret] at h
  split at h
  · next hname =>
    subst hname
    obtain ⟨g, hg, rfl⟩ := error_of_under h
    exact failsWith_join hchildren hg
  split at h
  · next hname =>
    subst hname
    obtain ⟨g, hg, rfl⟩ := error_of_under h
    exact failsWith_question false hpayload hg
  split at h
  · next hname =>
    subst hname
    obtain ⟨g, hg, rfl⟩ := error_of_under h
    exact failsWith_question true hpayload hg
  split at h
  · next hname =>
    subst hname
    obtain ⟨g, hg, rfl⟩ := error_of_under h
    exact failsWith_ident hchildren hg
  · next hjoin hinput hhidden hid =>
    cases h
    exact ⟨[], [], _, .unknown (by simp [hjoin, hinput, hhidden, hid]), rfl⟩

/-- Every failure of a pass is one that it goes down to. -/
theorem descends (n : Node) : n.Descends e := by
  -- a tag leads on to children of its payload, so more than its children is needed
  induction n using inductionOnParts false with
  | h n ih =>
    have container (hn : n.IsContainer) : n.Descends e := by
      refine hn.descends fun k hk => ?_
      rw [← hn.children_eq false] at hk
      exact ih k hk k (self_mem_parts _ _)
    cases n with
    | list place items => exact container (.list place items)
    | map place entries => exact container (.map place entries)
    | tagged name payload => exact descends_tagged (ih payload (List.mem_singleton_self payload))
    | scalar _ | pair _ _ | set _ =>
      intro s f s' h
      rw [interpret] at h
      cases h

/-! ### The way down determines the failure -/

theorem Refuses.interpret_eq {before : List Node} (h : Refuses e s name payload before p s') :
    (tagged name payload).interpret e s = (.error ((Failure.of (.tag p)).inTag name), s') := by
  cases h with
  | noList hlist =>
    rw [interpret_strF]
    refine under_of_error ?_
    rw [interpretJoin]
    · rfl
    · exact hlist
  | element hnew hks hk hv =>
    rw [interpret_strF]
    refine under_of_error (interpretJoin_of_parts hnew (interpretParts_of_error hks ?_))
    rw [interpretParts, Effect.bind_of_ok hk]
    refine Effect.bind_of_error ?_
    rw [part_apply, hv, Nat.zero_add]
  | foundElement hfound hks hv =>
    rw [interpret_strF]
    refine under_of_error ?_
    rw [interpretJoin_list, hfound]
    refine Effect.bind_of_error (joinSettled_of_error hks ?_)
    rw [joinSettled]
    refine Effect.bind_of_error ?_
    rw [part_apply, hv, Nat.zero_add]
  | question hpayload hv =>
    rw [interpret_ofQuestion]
    refine under_of_error ?_
    rw [Effect.bind_of_ok hpayload]
    exact input_of_error hv _
  | ident hid =>
    rw [interpret_id]
    refine under_of_error ?_
    rw [interpretIdent_apply, hid]
    rfl
  | value hid hunknown hvalue =>
    rw [interpret_id]
    exact under_of_error (interpretIdent_of_seen hid hunknown (valueBeside_of_error hvalue))

/-- A pass that goes down to a tag fails, with what this fails with and the tags on the way. -/
theorem FailsIn.interpret_eq {before : List Node} {names : List String} {root : Failure}
    (h : FailsIn e s n before names root s') :
    n.interpret e s = (.error (root.inTags names), s') := by
  induction h with
  | child hn hnew hks hworks _ ih =>
    rw [interpret_of_new hn hnew, hks]
    exact Effect.bind_of_error (hworks.interpretChildren_eq ih)
  | part hnew hks _ ih =>
    rw [interpret_strF]
    refine under_of_error (interpretJoin_of_parts hnew (interpretParts_of_error hks ?_))
    rw [interpretParts]
    exact Effect.bind_of_error ih
  | payload _ ih =>
    rw [interpret_ofQuestion]
    exact under_of_error (Effect.bind_of_error ih)
  | value hid hunknown hnew hvalue _ ih =>
    rw [interpret_id]
    refine under_of_error (interpretIdent_of_seen hid hunknown ?_)
    rw [valueBeside_of_new hnew hvalue]
    exact ih
  | unknown hname =>
    simp only [List.mem_cons, List.not_mem_nil, or_false, not_or] at hname
    obtain ⟨hjoin, hinput, hhidden, hid⟩ := hname
    rw [interpret, if_neg hjoin, if_neg hinput, if_neg hhidden, if_neg hid]
    rfl
  | refused h => exact h.interpret_eq
  | unanswered hpayload hq hread =>
    rw [interpret_ofQuestion]
    refine under_of_error ?_
    rw [Effect.bind_of_ok hpayload, input_of_ok (Question.ofNode_eq_ok.2 hq)]
    refine Effect.bind_of_error ?_
    rw [answer_apply, hread]
    rfl

end Node

/-! ## What is at the end -/

/-- What a tag fails with on its own account: a problem with it or with its payload, a value that cannot be
    shown in the message of one, or what reading an answer fails with. The question is put then, once, and
    nothing else happens. -/
inductive Failure.IsOfOneTag (e : Setting) : Failure → World → World → Prop
  | problem {w : World} {p : TagProblem} (hp : p.IsOfPayload ∨ p.kind = .unknownTag) :
      IsOfOneTag e (.of (.tag p)) w w
  | unwritable {w : World} : IsOfOneTag e (.of (.tag .unwritable)) w w
  | reader {w w' : World} {hidden : Bool} {prompt : String} {f : Failure}
      (hread : Action.reader hidden prompt e w = (.error f, w')) (hasked : w.Asked e hidden prompt w') :
      IsOfOneTag e f w w'

namespace Node

variable {e : Setting} {s s' : World × TagMemory} {n v payload : Node} {f root : Failure}
  {p : TagProblem} {name id : String} {before : List Node} {names : List String} {w w' : World}
  {ids ids' : Idents}

theorem isOfOneTag_payload (h : p.IsOfPayload ∨ p = .unwritable) (w : World) :
    (Failure.of (.tag p)).IsOfOneTag e w w := by
  rcases h with hp | rfl
  · exact .problem (.inl hp)
  · exact .unwritable

theorem isOfOneTag_element (v : Node) (index : Nat) (w : World) :
    (Failure.of (.tag (v.showing (.joinElement index) .unwritable))).IsOfOneTag e w w := by
  unfold showing
  split
  · exact .problem (.inl (.inl rfl))
  · exact .unwritable

theorem Refuses.isOfOneTag (h : Refuses e s name payload before p s') :
    InTurn e s before s' ∧ (Failure.of (.tag p)).IsOfOneTag e s'.1 s'.1 := by
  cases h with
  | noList => exact ⟨.nil (.refl s), .problem (.inl (.inl rfl))⟩
  | element hnew hks hk hv =>
    have hlast := InTurn.cons (.refl _) hk (.nil (.refl s'))
    exact ⟨(inTurn_of_interpretParts hks).append hlast, isOfOneTag_element _ _ _⟩
  | foundElement => exact ⟨.nil (.refl s), isOfOneTag_element _ _ _⟩
  | question hpayload hv =>
    refine ⟨.cons (.refl s) hpayload (.nil (.refl s')), .problem (.inl ?_)⟩
    rcases Question.kind_of_ofNode_error hv with hp | hp | hp
    · exact .inl (by rw [hp]; rfl)
    · exact .inl (by rw [hp]; rfl)
    · exact .inr hp
  | ident hid => exact ⟨.nil (.refl s), isOfOneTag_payload (isOfPayload_ident hid) _⟩
  | value hid _ hvalue =>
    have hpayload := (isContainer_reached hid).isOfPayload_identValue hvalue
    exact ⟨.nil (.refl s), .problem (.inl hpayload)⟩

/-- All that is interpreted before succeeds, and then one tag fails on its own account. -/
theorem FailsIn.isOfOneTag (h : FailsIn e s n before names root s') :
    ∃ s₁, InTurn e s before s₁ ∧ root.IsOfOneTag e s₁.1 s'.1 := by
  induction h with
  | child _ _ _ hworks _ ih =>
    obtain ⟨s₁, hbelow, hroot⟩ := ih
    exact ⟨s₁, hworks.inTurn.append hbelow, hroot⟩
  | part _ hks _ ih =>
    obtain ⟨s₁, hbelow, hroot⟩ := ih
    exact ⟨s₁, (inTurn_of_interpretParts hks).append hbelow, hroot⟩
  | payload _ ih => exact ih
  | value _ _ _ _ _ ih => exact ih
  | @unknown s name payload hname => exact ⟨s, .nil (.refl s), .problem (.inr rfl)⟩
  | @refused _ s' _ _ _ _ h => exact ⟨s', h.isOfOneTag⟩
  | @unanswered s w w' m hidden payload v q f hpayload hq hread =>
    have hasked := asked_reader hidden q.prompt e w
    rw [hread] at hasked
    exact ⟨(w, m), .cons (.refl s) hpayload (.nil (.refl _)), .reader hread hasked⟩

end Node

theorem TagProblem.IsOfPayload.isA_workflow {p : TagProblem} (h : p.IsOfPayload) :
    p.kind.isA .workflow = true := by
  rcases h with h | h
  · cases hkind : p.kind <;> rw [hkind] at h <;> first | rfl | cases h
  · rw [h]
    rfl

/-- What one tag fails with is named by all tags around it, unless it cannot be written. -/
theorem Failure.IsOfOneTag.applies {e : Setting} {w w' : World} {root : Failure}
    (h : root.IsOfOneTag e w w') (hwritable : root ≠ .of (.tag .unwritable))
    (hreader : ∀ hidden prompt, (Action.reader hidden prompt).FailsOnly e (·.isA .system = true)) :
    root.isWorkflow = true ∨ root.isA .system = true := by
  cases h with
  | @problem _ p hp =>
    refine .inl ?_
    change p.kind.isA .workflow = true
    rcases hp with hp | hp
    · exact hp.isA_workflow
    · rw [hp]
      rfl
  | unwritable => exact absurd rfl hwritable
  | reader hread => exact .inr (hreader _ _ w root (congrArg Prod.fst hread))

/-- What one tag fails with is found behind all tags around it, unless it is that a value cannot be shown:
    this is reported alone. -/
theorem Failure.IsOfOneTag.eq_inTags_iff {e : Setting} {w w' : World} {root f : Failure}
    {names : List String} (h : root.IsOfOneTag e w w')
    (hreader : ∀ hidden prompt, (Action.reader hidden prompt).FailsOnly e (·.isA .system = true)) :
    f = root.inTags names ↔
      (root ≠ .of (.tag .unwritable) →
        f.links = names.map (fun name => .tag (.failed name)) ++ root.links) ∧
      (root = .of (.tag .unwritable) → f = root) := by
  by_cases hroot : root = .of (.tag .unwritable)
  · -- tags only handle what a workflow reports and errors of the operating system
    subst hroot
    rw [inTags_of_other rfl rfl]
    simp
  · have hlinks := links_inTags (h.applies hroot hreader) names
    simp only [ne_eq, hroot, not_false_eq_true, true_imp_iff, false_imp_iff, and_true, ← hlinks]
    exact ⟨fun hf => congrArg links hf, eq_of_links⟩

namespace Node

/-! ## Whole documents -/

variable {e : Setting} {n : Node} {f : Failure} {w w' : World} {ids ids' : Idents}

/-- The interpretation of a document fails just where it goes down to one tag that fails on its own
    account, and all that it reaches before has been interpreted. Readers may fail with errors of the
    operating system. The failure is then a chain with each tag on the way down, the outermost first, and
    behind them what that one tag fails with. Only if this is that a value cannot be shown, it stands
    alone. -/
theorem resolve_error_iff_failsIn
    (hreader : ∀ hidden prompt, (Action.reader hidden prompt).FailsOnly e (·.isA .system = true)) :
    n.resolve e (w, ids) = (.error f, (w', ids')) ↔
    ∃ before names root s₁ s', FailsIn e (w, .start ids) n before names root s' ∧
      s'.1 = w' ∧ s'.2.viewIds = ids' ∧
      InTurn e (w, .start ids) before s₁ ∧ root.IsOfOneTag e s₁.1 w' ∧
      (root ≠ .of (.tag .unwritable) →
        f.links = names.map (fun name => .tag (.failed name)) ++ root.links) ∧
      (root = .of (.tag .unwritable) → f = root) := by
  constructor
  · intro h
    rcases hrun : n.interpret e (w, .start ids) with ⟨x | v, s'⟩
    · rw [resolve_of_error hrun] at h
      cases h
      obtain ⟨before, names, root, hfails, hf⟩ := n.descends _ _ _ hrun
      obtain ⟨s₁, hturn, hroot⟩ := hfails.isOfOneTag
      exact ⟨before, names, root, s₁, s', hfails, rfl, rfl, hturn, hroot,
        (hroot.eq_inTags_iff hreader).1 hf⟩
    · rw [resolve_of_ok hrun] at h
      cases h
  · rintro ⟨before, names, root, s₁, s', hfails, rfl, rfl, -, hroot, hchain⟩
    rw [resolve_of_error hfails.interpret_eq, (hroot.eq_inTags_iff hreader).2 hchain]

/-- A setting in which no hidden question is answered. -/
def mutedSetting : Setting :=
  { Setting.calm with fault := fun _ call => match call with
      | .hiddenPrompt _ => some (.of (.system 5 "Input/output error" none))
      | _ => none }

theorem mutedSetting_reader (hidden : Bool) (prompt : String) :
    (Action.reader hidden prompt).FailsOnly mutedSetting (·.isA .system = true) := by
  cases hidden with
  | false =>
    refine .setting (.bind (Action.failsOnly_perform fun past x hx => ?_) fun _ => failsOnly_nextLine)
    cases hx
  | true =>
    refine .setting (.bind (Action.failsOnly_perform fun past x hx => ?_) fun _ => failsOnly_nextHidden)
    cases hx
    rfl

/-- An id with a value that is to be asked for. -/
def askedIdent : Node := tagged "Id" (list none [text "x", tagged "HiddenInput" (text "Word: ")])

/-- A question, and behind it a text of which such an id is a part. -/
def unansweredSample : Node :=
  list none [tagged "Input" (text "Name: "), tagged "StrF" (list none [text "a", askedIdent])]

/-- What reading the answer fails with, below all tags around the question. -/
def unansweredFailure : Failure :=
  ⟨.tag (.failed "StrF"), [.tag (.failed "Id"), .tag (.failed "HiddenInput"),
    .system 5 "Input/output error" none]⟩

theorem interpret_askedIdent (w : World) : askedIdent.interpret mutedSetting (w, .start [])
    = (.error ⟨.tag (.failed "Id"), unansweredFailure.behind.tail⟩,
      (w.after [.hiddenPrompt "Word: "], .start [])) := by
  have hview : (TagMemory.start []).view (list none [text "x", tagged "HiddenInput" (text "Word: ")])
      = list none [text "x", tagged "HiddenInput" (text "Word: ")] := by
    rw [TagMemory.view_start]
    rfl
  rw [askedIdent, interpret_id]
  refine under_of_error (f := ⟨.tag (.failed "HiddenInput"), _⟩) ?_
  rw [interpretIdent_list_of_new rfl, hview]
  rfl

theorem resolve_unansweredSample : unansweredSample.resolve mutedSetting (.initial .empty [], [])
    = (.error unansweredFailure,
      ((World.initial .empty []).after [.prompt "Name: ", .hiddenPrompt "Word: "], [])) := by
  have hasked : (tagged "Input" (text "Name: ")).interpret mutedSetting (.initial .empty [], .start [])
      = (.ok (text ""), ((World.initial .empty []).after [.prompt "Name: "], .start [])) := rfl
  have hfirst : ∀ w, (text "a").interpret mutedSetting (w, .start []) = (.ok (text "a"), (w, .start [])) :=
    fun _ => by rw [text, interpret]; rfl
  have hparts : ∀ w, interpretParts 0 [text "a", askedIdent] mutedSetting (w, .start [])
      = (.error ⟨.tag (.failed "Id"), unansweredFailure.behind.tail⟩,
        (w.after [.hiddenPrompt "Word: "], .start [])) := by
    intro w
    have hpart : part 0 (text "a") mutedSetting (w, .start []) = (.ok "a", (w, .start [])) := rfl
    rw [interpretParts, Effect.bind_of_ok (hfirst w), Effect.bind_of_ok hpart, interpretParts]
    exact Effect.bind_of_error (Effect.bind_of_error (interpret_askedIdent w))
  have htext : ∀ w, (tagged "StrF" (list none [text "a", askedIdent])).interpret mutedSetting
      (w, .start []) = (.error unansweredFailure, (w.after [.hiddenPrompt "Word: "], .start [])) := by
    intro w
    rw [interpret_strF]
    refine under_of_error (f := ⟨.tag (.failed "Id"), _⟩) ?_
    rw [interpretJoin_list]
    exact Effect.bind_of_error (hparts w)
  refine resolve_of_error (s := (_, .start [])) ?_
  rw [unansweredSample, interpret_list_of_new rfl]
  refine Effect.bind_of_error ?_
  simp only [interpretItems, progress, pure_bind, Effect.bind_of_ok hasked]
  rw [Effect.bind_of_error (htext _), World.after_after]
  rfl

theorem resolve_error_iff_failsIn_sample :
    (∀ hidden prompt, (Action.reader hidden prompt).FailsOnly mutedSetting (·.isA .system = true)) ∧
    ∃ before names root s₁ s',
      FailsIn mutedSetting (.initial .empty [], .start []) unansweredSample before names root s' ∧
      InTurn mutedSetting (.initial .empty [], .start []) before s₁ ∧
      names.map (fun name => .tag (.failed name)) ++ root.links = unansweredFailure.links := by
  obtain ⟨before, names, root, s₁, s', hfails, -, -, hturn, -, hlinks, hother⟩ :=
    (resolve_error_iff_failsIn mutedSetting_reader).1 resolve_unansweredSample
  have hwritable : root ≠ .of (.tag .unwritable) := by
    intro hroot
    cases (hother hroot).trans hroot
  exact ⟨mutedSetting_reader, before, names, root, s₁, s', hfails, hturn, (hlinks hwritable).symm⟩

/-- A text with a part that is an integer. -/
def numberedText (number : Int) : Node := tagged "StrF" (list none [scalar (.int number)])

theorem resolve_numberedText {number : Int} (h : Numeral.isWritable number = false) :
    (numberedText number).resolve .calm (.initial .empty [], [])
      = (.error (.of (.tag .unwritable)), (.initial .empty [], [])) := by
  have hshown : (TagMemory.start []).view (scalar (.int number)) = scalar (.int number) := by
    rw [TagMemory.view_start, unshared]
  have hpart : part 0 (scalar (.int number)) .calm (.initial .empty [], .start [])
      = (.error (.of (.tag .unwritable)), (.initial .empty [], .start [])) := by
    simp only [part, Effect.bind_of_ok (memory_apply _ _), hshown, showing, isWritable,
      Scalar.isWritable, h]
    rfl
  have hjoin : (list none [scalar (.int number)]).interpretJoin .calm (.initial .empty [], .start [])
      = (.error (.of (.tag .unwritable)), (.initial .empty [], .start [])) := by
    rw [interpretJoin_list]
    refine Effect.bind_of_error ?_
    change interpretParts 0 [scalar (.int number)] .calm (.initial .empty [], .start []) = _
    rw [interpretParts, interpret, pure_bind]
    exact Effect.bind_of_error hpart
  refine resolve_of_error (s := (.initial .empty [], .start [])) ?_
  rw [numberedText, interpret_strF, under_of_error hjoin]
  rfl

/-- The failure to show an integer of too many digits is none that a workflow reports, so no tag is named,
    and none of the operating system. -/
theorem resolve_error_unshown :
    ∃ f, (numberedText (tenPow Numeral.digitLimit)).resolve .calm (.initial .empty [], [])
        = (.error f, (.initial .empty [], [])) ∧
      ∀ c ∈ f.links, c.isA .workflow = false ∧ c.isA .system = false := by
  refine ⟨_, resolve_numberedText (Task.isWritable_eq_false (Nat.le_refl _)), fun c hc => ?_⟩
  obtain rfl := List.mem_singleton.1 hc
  exact ⟨rfl, rfl⟩

end Node
end Runbook
