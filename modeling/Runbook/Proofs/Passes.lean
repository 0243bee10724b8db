import Runbook.Proofs.Containers
import Runbook.Proofs.Runs
import Runbook.Tags.Interpret

set_option autoImplicit false

/-! # Passes over a document

What one pass of the interpretation keeps: the ids that are known stay known, with the same values,
and containers that are at rest stay at rest. So the values of the ids, which are at rest, are seen
the same throughout. This is shown of every interpretation that succeeds, from its equations. -/

namespace Runbook

namespace Interpretation

variable {α β : Type} {e : Setting} {s : World × TagMemory} {place : Option Nat} {id : String}

/-! ## Equations -/

@[simp] theorem memory_apply (e : Setting) (s : World × TagMemory) : memory e s = (.ok s.2, s) := rfl

@[simp] theorem check_ok {α : Type} (v : α) (e : Setting) (s : World × TagMemory) :
    check (.ok v) e s = (.ok v, s) := rfl

@[simp] theorem settled?_apply (place : Option Nat) (e : Setting) (s : World × TagMemory) :
    settled? place e s = (.ok (s.2.settled.at? place), s) := rfl

theorem identify_of_known {n : Node} (h : s.2.ids.get? id = some n) (first : Interpretation Node) :
    identify id first e s = (.ok (s.2.view n), s) := by
  rw [identify, Effect.bind_of_ok (memory_apply e s), h]
  rfl

theorem identify_of_new (h : s.2.ids.get? id = none) (first : Interpretation Node) :
    identify id first e s = (first >>= fun value => do
      remember fun m => { m with ids := m.ids.put id value }
      return (← memory).view value) e s := by
  rw [identify, Effect.bind_of_ok (memory_apply e s), h]

end Interpretation

namespace Node

open Interpretation

variable {e : Setting} {s : World × TagMemory} {place : Option Nat} {n : Node} {items : List Node}
  {entries : List (Scalar × Node)}

theorem interpret_strF (payload : Node) :
    (tagged "StrF" payload).interpret = under "StrF" payload.interpretJoin := by
  rw [interpret, if_pos rfl]

example (e : Setting) (s : World × TagMemory) :
    (tagged "StrF" (list none [text "a", text "b"])).interpret e s = (.ok (text "ab"), s) := by
  cbv

theorem interpret_list_of_settled (h : s.2.settled.at? place = some n) :
    (list place items).interpret e s = (.ok n, s) := by
  rw [interpret, Effect.bind_of_ok (settled?_apply place e s), h]
  rfl

theorem interpret_map_of_settled (h : s.2.settled.at? place = some n) :
    (map place entries).interpret e s = (.ok n, s) := by
  rw [interpret, Effect.bind_of_ok (settled?_apply place e s), h]
  rfl

theorem interpret_list_of_new (h : s.2.settled.at? place = none) :
    (list place items).interpret e s = (interpretItems place [] items >>= fun items => do
      settle place (list none items)
      return list none items) e s := by
  rw [interpret, Effect.bind_of_ok (settled?_apply place e s), h]

theorem interpret_map_of_new (h : s.2.settled.at? place = none) :
    (map place entries).interpret e s = (interpretEntries place [] entries >>= fun entries => do
      settle place (map none entries)
      return map none entries) e s := by
  rw [interpret, Effect.bind_of_ok (settled?_apply place e s), h]

theorem interpret_input (payload : Node) :
    (tagged "Input" payload).interpret = under "Input" (payload.interpret >>= input false) := by
  rw [interpret, if_neg (by decide), if_pos rfl]

theorem interpret_hiddenInput (payload : Node) : (tagged "HiddenInput" payload).interpret
    = under "HiddenInput" (payload.interpret >>= input true) := by
  rw [interpret, if_neg (by decide), if_neg (by decide), if_pos rfl]

theorem interpret_id (payload : Node) :
    (tagged "Id" payload).interpret = under "Id" payload.interpretIdent := by
  rw [interpret, if_neg (by decide), if_neg (by decide), if_neg (by decide), if_pos rfl]

theorem interpretJoin_list :
    (list place items).interpretJoin e s = ((match s.2.settled.at? place with
      | some (list _ items) => joinSettled 0 items
      | _ => interpretParts 0 items) >>= fun t => pure (text t)) e s := by
  rw [interpretJoin, Effect.bind_of_ok (settled?_apply place e s)]
  generalize s.2.settled.at? place = found
  rcases found with _ | ⟨_ | _ | _⟩ <;> rfl

theorem interpretIdent_list_of_new (h : s.2.settled.at? place = none) :
    (list place items).interpretIdent e s = (check (s.2.view (list none items)).ident >>= fun id =>
      identify id (interpretSecond items)) e s := by
  rw [interpretIdent, Effect.bind_of_ok (settled?_apply place e s), h]
  rfl

theorem interpretIdent_map_of_new (h : s.2.settled.at? place = none) :
    (map place entries).interpretIdent e s = (check (s.2.view (map none entries)).ident >>= fun id =>
      identify id (interpretField "value" entries)) e s := by
  rw [interpretIdent, Effect.bind_of_ok (settled?_apply place e s), h]
  rfl

theorem interpretSecond_eq (place : Option Nat) (items : List Node) :
    interpretSecond items = check (list place items).identValue >>= interpret := by
  rcases items with _ | ⟨x, _ | ⟨y, _ | ⟨z, items⟩⟩⟩
  · rfl
  · rfl
  · rw [interpretSecond]
    rfl
  · rfl

theorem interpretField_eq (place : Option Nat) (entries : List (Scalar × Node)) :
    interpretField "value" entries = check (map place entries).identValue >>= interpret := by
  rw [identValue]
  induction entries with
  | nil => rfl
  | cons entry entries ih =>
    obtain ⟨key, value⟩ := entry
    rw [interpretField, Entries.get?, List.find?_cons]
    by_cases hkey : key.isText "value" = true
    · rw [if_pos hkey, hkey]
      rfl
    · rw [if_neg hkey, ih, eq_false_of_ne_true hkey]
      rfl

/-- The id of a payload that has not been worked through, and the value beside it. -/
theorem interpretIdent_of_new {payload : Node} (h : s.2.settled.at? payload.place? = none) :
    payload.interpretIdent e s = (check (payload.mapChildren s.2.view).ident >>= fun id =>
      identify id (check payload.identValue >>= interpret)) e s := by
  cases payload with
  | list place items =>
    rw [interpretIdent_list_of_new (show s.2.settled.at? place = none from h),
      interpretSecond_eq place, TagMemory.view, asItStands_list_none]
    rfl
  | map place entries =>
    rw [interpretIdent_map_of_new (show s.2.settled.at? place = none from h),
      interpretField_eq place, TagMemory.view, asItStands_map_none]
    rfl
  | scalar _ | set _ => rfl
  | tagged _ _ | pair _ _ => rfl

theorem interpretIdent_of_settled {payload : Node} (hplace : payload.place? = place)
    (h : s.2.settled.at? place = some n) :
    payload.interpretIdent e s
      = (check n.ident >>= fun id => identify id (check n.identValue)) e s := by
  cases payload with
  | list _ _ | map _ _ =>
    obtain rfl := hplace
    rw [interpretIdent, Effect.bind_of_ok (settled?_apply _ e s)]
    dsimp only [place?] at h
    rw [h]
  | _ =>
    obtain rfl := hplace
    cases h

theorem resolve_of_ok {ids : Idents} {w : World} {v : Node}
    (h : n.interpret e (w, .start ids) = (.ok v, s)) :
    n.resolve e (w, ids) = (.ok (s.2.view v), (s.1, s.2.viewIds)) := by
  rw [resolve, h]
  rfl

theorem resolve_of_error {ids : Idents} {w : World} {x : Failure}
    (h : n.interpret e (w, .start ids) = (.error x, s)) :
    n.resolve e (w, ids) = (.error x, (s.1, s.2.viewIds)) := by
  rw [resolve, h]
  rfl

end Node

/-! ## What success says -/

/-- If an interpretation succeeds, then with a value and a memory that satisfy a condition. -/
def Interpretation.Yields {α : Type} (a : Interpretation α) (e : Setting) (s : World × TagMemory)
    (Q : α → TagMemory → Prop) : Prop :=
  ∀ v s', a e s = (.ok v, s') → Q v s'.2

/-- What succeeds succeeds in its first part, and goes on from there. -/
theorem Effect.exists_of_bind {σ α β : Type} {a : Effect σ α} {f : α → Effect σ β} {e : Setting}
    {s s' : σ} {v : β} (h : (a >>= f) e s = (.ok v, s')) :
    ∃ u s₁, a e s = (.ok u, s₁) ∧ f u e s₁ = (.ok v, s') := by
  rcases ha : a e s with ⟨x | u, s₁⟩
  · rw [bind_of_error ha] at h
    cases h
  · rw [bind_of_ok ha] at h
    exact ⟨u, s₁, rfl, h⟩

theorem Interpretation.of_under {α : Type} {tag : String} {a : Interpretation α} {e : Setting}
    {s s' : World × TagMemory} {v : α} (h : under tag a e s = (.ok v, s')) : a e s = (.ok v, s') := by
  rcases ha : a e s with ⟨x | u, s₁⟩
  · obtain ⟨y, hy⟩ : ∃ y, under tag a e s = (.error y, s₁) := Effect.because_of_error ha
    rw [hy] at h
    cases h
  · rw [under, Effect.because_of_ok ha] at h
    exact h

theorem Interpretation.under_of_error {α : Type} {tag : String} {a : Interpretation α} {e : Setting}
    {s s' : World × TagMemory} {f : Failure} (h : a e s = (.error f, s')) :
    under tag a e s = (.error
      (if f.isWorkflow || f.isA .system then f.because (.tag (.failed tag)) else f), s') := by
  unfold under Effect.because Effect.mapFailure
  rw [h]

theorem Interpretation.under_congr {α : Type} {tag : String} {a b : Interpretation α} {e : Setting}
    {s s' : World × TagMemory} (h : a e s = b e s') : under tag a e s = under tag b e s' := by
  unfold under Effect.because Effect.mapFailure
  rw [h]

theorem Interpretation.of_check {α : Type} {r : Except TagProblem α} {e : Setting}
    {s s' : World × TagMemory} {v : α} (h : check r e s = (.ok v, s')) : r = .ok v ∧ s' = s := by
  cases r with
  | error x => cases h
  | ok u =>
    cases h
    exact ⟨rfl, rfl⟩

namespace Interpretation.Yields

variable {α β : Type} {a : Interpretation α} {f : α → Interpretation β} {e : Setting}
  {s : World × TagMemory} {P Q : α → TagMemory → Prop} {R : β → TagMemory → Prop}

theorem pure {v : α} (h : Q v s.2) : Yields (Pure.pure v) e s Q := by
  intro v' s' hrun
  cases hrun
  exact h

theorem bind (ha : a.Yields e s P) (hf : ∀ v s', P v s'.2 → (f v).Yields e s' R) :
    (a >>= f).Yields e s R := by
  intro v' s' hrun
  obtain ⟨v, s₁, hfirst, hrest⟩ := Effect.exists_of_bind hrun
  exact hf v s₁ (ha v s₁ hfirst) v' s' hrest

theorem imp (ha : a.Yields e s P) (h : ∀ v m, P v m → Q v m) : a.Yields e s Q :=
  fun v s' hrun => h v s'.2 (ha v s' hrun)

theorem of_eq {b : Interpretation α} (h : a e s = b e s) (hb : b.Yields e s Q) : a.Yields e s Q :=
  fun v s' hrun => hb v s' (h ▸ hrun)

theorem memory {f : TagMemory → Interpretation β} (h : (f s.2).Yields e s R) :
    (Interpretation.memory >>= f).Yields e s R :=
  h

theorem remember {f : TagMemory → TagMemory} {Q : Unit → TagMemory → Prop} (h : Q () (f s.2)) :
    (Interpretation.remember f).Yields e s Q := by
  intro v s' hrun
  cases hrun
  exact h

theorem ofAction {a : Action α} (h : ∀ v, Q v s.2) : (Interpretation.ofAction a).Yields e s Q := by
  intro v s' hrun
  obtain ⟨-, rfl⟩ := Prod.mk.inj hrun
  exact h v

theorem check {r : Except TagProblem α} (h : ∀ v, r = .ok v → Q v s.2) :
    (Interpretation.check r).Yields e s Q := by
  intro v s' hrun
  obtain ⟨hr, rfl⟩ := of_check hrun
  exact h v hr

theorem under {tag : String} (ha : a.Yields e s Q) : (under tag a).Yields e s Q :=
  fun v s' hrun => ha v s' (of_under hrun)

end Interpretation.Yields

/-! ## What is kept -/

section

variable (holds : Nat → Node → Prop)

/-- What is remembered agrees with what is held throughout. -/
structure TagMemory.Sound (m : TagMemory) : Prop where
  pending : m.pending.Keeps holds
  settled : m.settled.Keeps holds
  results : ∀ p n, m.settled.get? p = some n → n.AtRest holds
  values : ∀ id n, m.ids.get? id = some n → n.AtRest holds

/-- One memory comes after another in a pass. -/
structure TagMemory.Leads (m m' : TagMemory) : Prop where
  sound : m'.Sound holds
  grows : m.ids.Grows m'.ids

/-- A node may be interpreted: its containers, but for those below pairs, are at rest or not as it is
    told, and what is below pairs is at rest. -/
structure Node.Fits (n : Node) : Prop where
  containers : ∀ k ∈ n.parts false, ∀ p, k.place? = some p → ∀ t, holds p t →
    k.TagFree ∧ k.AtRest holds ∧ k.unshared = t
  pairs : ∀ key value, .pair key value ∈ n.parts false → (Node.pair key value).AtRest holds

end

variable {holds : Nat → Node → Prop} {m m' m'' : TagMemory} {n k : Node} {p : Nat} {id : String}

namespace TagMemory

theorem Leads.trans (h : m.Leads holds m') (h' : m'.Leads holds m'') : m.Leads holds m'' :=
  ⟨h'.sound, h.grows.trans h'.grows⟩

theorem Sound.leads (h : m.Sound holds) : m.Leads holds m := ⟨h, .refl _⟩

/-- Values at rest are seen as the trees that they are. -/
theorem Sound.view (h : m.Sound holds) (hn : n.AtRest holds) : m.view n = n.unshared :=
  Node.asItStands_of_atRest (h.pending.append h.settled) hn

theorem Sound.viewIds (h : m.Sound holds) :
    m.viewIds.get? id = (m.ids.get? id).map Node.unshared := by
  rw [TagMemory.viewIds, Idents.get?_map]
  cases hid : m.ids.get? id with
  | none => rfl
  | some n => exact congrArg some (h.view (h.values id n hid))

theorem Sound.start {ids : Idents} (h : ∀ id n, ids.get? id = some n → n.AtRest holds) :
    (TagMemory.start ids).Sound holds :=
  ⟨fun _ _ h => (nomatch h), fun _ _ h => (nomatch h), fun _ _ h => (nomatch h), h⟩

/-- What is seen when a document is begun are the trees themselves. -/
theorem view_start (ids : Idents) (n : Node) : (TagMemory.start ids).view n = n.unshared := by
  have hsound : (TagMemory.start ids).Sound fun _ _ => True := .start fun _ _ _ _ _ _ _ => trivial
  exact hsound.view fun _ _ _ _ => trivial

/-- An id that was not known may be given a value at rest, also if it has got another one since. -/
theorem Leads.put (h : m.Leads holds m') (hn : n.AtRest holds) (hnew : m.ids.get? id = none) :
    m.Leads holds { m' with ids := m'.ids.put id n } := by
  refine ⟨⟨h.sound.pending, h.sound.settled, h.sound.results, fun id' n' hid => ?_⟩,
    fun id' n' hid => ?_⟩
  · rw [Idents.get?_put] at hid
    split at hid
    · cases hid
      exact hn
    · exact h.sound.values id' n' hid
  · rw [Idents.get?_put, if_neg, h.grows id' n' hid]
    rintro rfl
    rw [hnew] at hid
    cases hid

end TagMemory

namespace Node

theorem Fits.child (h : n.Fits holds) (hk : k ∈ n.children false) : k.Fits holds :=
  ⟨fun c hc => h.containers c (mem_parts_of_child hk hc),
    fun key value hpair => h.pairs key value (mem_parts_of_child hk hpair)⟩

theorem Fits.payload {name : String} {payload : Node} (h : (tagged name payload).Fits holds) :
    payload.Fits holds :=
  h.child (List.mem_singleton_self payload)

theorem atRest_list_none {items : List Node} (h : ∀ x ∈ items, x.AtRest holds) :
    (list none items).AtRest holds :=
  atRest_of_children (fun _ hp => (nomatch hp)) h

theorem atRest_map_none {entries : List (Scalar × Node)} (h : ∀ x ∈ entries, x.2.AtRest holds) :
    (map none entries).AtRest holds := by
  refine atRest_of_children (fun _ hp => (nomatch hp)) fun k hk => ?_
  obtain ⟨x, hx, rfl⟩ := List.mem_map.1 hk
  exact h x hx

end Node

namespace Interpretation

open Node

variable {e : Setting} {s : World × TagMemory} {place : Option Nat}

/-- What stands in a place for the time being. -/
theorem yields_progress (hs : s.2.Sound holds) (h : ∀ p, place = some p → Stands holds p n) :
    (progress place n).Yields e s fun _ m => s.2.Leads holds m := by
  cases place with
  | none => exact .pure hs.leads
  | some p =>
    simp only [progress]
    refine .remember ?_
    refine ⟨⟨fun q k hk => ?_, hs.settled, hs.results, hs.values⟩, .refl _⟩
    rw [Contents.get?_set] at hk
    split at hk
    · next hq =>
      cases hk
      exact hq ▸ h p rfl
    · exact hs.pending q k hk

/-- What stands in a place in the end. -/
theorem yields_settle (hs : s.2.Sound holds) (h : ∀ p, place = some p → Stands holds p n)
    (hn : n.AtRest holds) : (settle place n).Yields e s fun _ m => s.2.Leads holds m := by
  cases place with
  | none => exact .pure hs.leads
  | some p =>
    simp only [settle]
    refine .remember ?_
    refine ⟨⟨hs.pending.without p, fun q k hk => ?_, fun q k hk => ?_, hs.values⟩, .refl _⟩
    · rw [Contents.get?_set] at hk
      split at hk
      · next hq =>
        cases hk
        exact hq ▸ h p rfl
      · exact hs.settled q k hk
    · rw [Contents.get?_set] at hk
      split at hk
      · cases hk
        exact hn
      · exact hs.results q k hk

/-- An answer is a text. -/
theorem yields_input {hidden : Bool} {payload : Node} {m : TagMemory} (h : m.Leads holds s.2) :
    (input hidden payload).Yields e s fun v m' => m.Leads holds m' ∧ v.AtRest holds := by
  refine Yields.bind (P := fun _ m' => m.Leads holds m') (.check fun _ _ => h) fun q s₁ h => ?_
  refine Yields.bind (P := fun _ m' => m.Leads holds m') ?_ fun t s₂ h => ?_
  · exact Yields.bind (P := fun _ m' => m.Leads holds m') (.ofAction fun _ => h) fun _ _ h => .pure h
  · exact .pure ⟨h, atRest_scalar _⟩

/-- The text of a part. -/
theorem yields_part {m : TagMemory} (h : m.Leads holds s.2) (index : Nat) (item : Node) :
    (part index item).Yields e s fun _ m' => m.Leads holds m' := by
  unfold part
  split
  · exact .pure h
  · exact .memory (.check fun _ _ => h)

theorem yields_joinSettled {m : TagMemory} : ∀ (index : Nat) (items : List Node)
    (s : World × TagMemory), m.Leads holds s.2 →
    (joinSettled index items).Yields e s fun _ m' => m.Leads holds m'
  | _, [], _, h => .pure h
  | index, item :: items, _, h => (yields_part h index item).bind fun _ _ h =>
    (yields_joinSettled (index + 1) items _ h).bind fun _ _ h => .pure h

/-- An id has a value at rest. -/
theorem yields_identify (hs : s.2.Sound holds) {first : Interpretation Node}
    (hfirst : first.Yields e s fun v m => s.2.Leads holds m ∧ v.AtRest holds) :
    (identify id first).Yields e s fun v m => s.2.Leads holds m ∧ v.AtRest holds := by
  cases hid : s.2.ids.get? id with
  | some n =>
    refine .of_eq (identify_of_known hid first) (.pure ⟨hs.leads, ?_⟩)
    rw [hs.view (hs.values id n hid)]
    exact atRest_unshared n
  | none =>
    -- The id was not known at the start. If it has become known since, its value is replaced.
    refine .of_eq (identify_of_new hid first) (hfirst.bind fun v s₁ ⟨hleads, hv⟩ => ?_)
    refine (Yields.remember (Q := fun _ m => s.2.Leads holds m) (hleads.put hv hid)).bind ?_
    intro _ s₂ hleads
    refine .memory (.pure ⟨hleads, ?_⟩)
    rw [hleads.sound.view hv]
    exact atRest_unshared v

end Interpretation

namespace Node

open Interpretation

variable {e : Setting}

/-- Nothing in some nodes is tagged, and they are at rest. -/
def Stay (holds : Nat → Node → Prop) (ns : List Node) : Prop := ∀ n ∈ ns, n.TagFree ∧ n.AtRest holds

/-- What has been worked through. -/
theorem unshared_of_settled {s : World × TagMemory} (hs : s.2.Sound holds) {v : Node}
    (h : s.2.settled.at? n.place? = some v) (hn : n.AtRest holds) : v.unshared = n.unshared := by
  obtain ⟨p, hplace, hp⟩ := Option.bind_eq_some_iff.1 h
  exact ((hs.settled p v hp).tree _ (hn n (self_mem_parts _ _) p hplace)).1

theorem atRest_of_settled {s : World × TagMemory} (hs : s.2.Sound holds) {v : Node}
    {place : Option Nat} (h : s.2.settled.at? place = some v) : v.AtRest holds := by
  obtain ⟨p, -, hp⟩ := Option.bind_eq_some_iff.1 h
  exact hs.results p v hp

/-- Items of which some are done: the others may be interpreted, and what stands in their container is
    what is held there throughout. -/
structure ReadyItems (holds : Nat → Node → Prop) (place : Option Nat) (done items : List Node) :
    Prop where
  fits : ∀ x ∈ items, x.Fits holds
  atRest : ∀ x ∈ done, x.AtRest holds
  whole : ∀ p, place = some p → ∀ t, holds p t →
    Stay holds items ∧ (list none (done ++ items)).unshared = t

/-- The same of the entries of a mapping. -/
structure ReadyEntries (holds : Nat → Node → Prop) (place : Option Nat)
    (done entries : List (Scalar × Node)) : Prop where
  fits : ∀ x ∈ entries, x.2.Fits holds
  atRest : ∀ x ∈ done, x.2.AtRest holds
  whole : ∀ p, place = some p → ∀ t, holds p t →
    Stay holds (entries.map (·.2)) ∧ (map none (done ++ entries)).unshared = t

section

variable {place : Option Nat} {done items : List Node} {item new key value : Node} {k : Scalar}
  {doneEntries entries : List (Scalar × Node)}

theorem Stay.tail (h : Stay holds (item :: items)) : Stay holds items :=
  fun x hx => h x (List.mem_cons_of_mem _ hx)

theorem Stay.children (htags : n.TagFree) (hrest : n.AtRest holds) : Stay holds (n.children true) :=
  fun _ hx => ⟨htags.child hx, hrest.child hx⟩

theorem Fits.readyItems (h : (list place items).Fits holds) : ReadyItems holds place [] items where
  fits _ hx := h.child hx
  atRest := by simp
  whole p hp t ht := by
    obtain ⟨htags, hrest, rfl⟩ := h.containers _ (self_mem_parts _ _) p hp t ht
    exact ⟨.children htags hrest, rfl⟩

theorem Fits.readyEntries (h : (map place entries).Fits holds) :
    ReadyEntries holds place [] entries where
  fits _ hx := h.child (List.mem_map_of_mem hx)
  atRest := by simp
  whole p hp t ht := by
    obtain ⟨htags, hrest, rfl⟩ := h.containers _ (self_mem_parts _ _) p hp t ht
    exact ⟨.children htags hrest, rfl⟩

theorem ReadyItems.stands (h : ReadyItems holds place done items) :
    ∀ p, place = some p → Stands holds p (list none (done ++ items)) := by
  refine fun p hp => ⟨.inl ⟨_, rfl⟩, fun t ht => ?_⟩
  obtain ⟨hstay, htree⟩ := h.whole p hp t ht
  refine ⟨htree, atRest_list_none fun x hx => ?_⟩
  exact (List.mem_append.1 hx).elim (h.atRest x) fun hx => (hstay x hx).2

theorem ReadyEntries.stands (h : ReadyEntries holds place doneEntries entries) :
    ∀ p, place = some p → Stands holds p (map none (doneEntries ++ entries)) := by
  refine fun p hp => ⟨.inr ⟨_, rfl⟩, fun t ht => ?_⟩
  obtain ⟨hstay, htree⟩ := h.whole p hp t ht
  refine ⟨htree, atRest_map_none fun x hx => ?_⟩
  exact (List.mem_append.1 hx).elim (h.atRest x) fun hx => (hstay _ (List.mem_map_of_mem hx)).2

/-- An item at rest without tags is replaced by the same tree. -/
theorem unshared_items_next (hsame : item.TagFree → item.AtRest holds → new.unshared = item.unshared)
    (hstay : Stay holds (item :: items)) :
    (list none (done ++ [new] ++ items)).unshared = (list none (done ++ item :: items)).unshared := by
  obtain ⟨htags, hrest⟩ := hstay item List.mem_cons_self
  simp [unshared_list, hsame htags hrest]

theorem unshared_entries_next
    (hsame : value.TagFree → value.AtRest holds → new.unshared = value.unshared)
    (hstay : Stay holds (((k, value) :: entries).map (·.2))) :
    (map none (doneEntries ++ [(k, new)] ++ entries)).unshared
      = (map none (doneEntries ++ (k, value) :: entries)).unshared := by
  obtain ⟨htags, hrest⟩ := hstay value List.mem_cons_self
  simp [unshared_map, hsame htags hrest]

theorem ReadyItems.next (h : ReadyItems holds place done (item :: items)) (hnew : new.AtRest holds)
    (hsame : item.TagFree → item.AtRest holds → new.unshared = item.unshared) :
    ReadyItems holds place (done ++ [new]) items where
  fits x hx := h.fits x (List.mem_cons_of_mem _ hx)
  atRest x hx := by
    rcases List.mem_append.1 hx with hx | hx
    · exact h.atRest x hx
    · exact List.mem_singleton.1 hx ▸ hnew
  whole p hp t ht := by
    obtain ⟨hstay, htree⟩ := h.whole p hp t ht
    exact ⟨hstay.tail, (unshared_items_next hsame hstay).trans htree⟩

theorem ReadyEntries.next (h : ReadyEntries holds place doneEntries ((k, value) :: entries))
    (hnew : new.AtRest holds)
    (hsame : value.TagFree → value.AtRest holds → new.unshared = value.unshared) :
    ReadyEntries holds place (doneEntries ++ [(k, new)]) entries where
  fits x hx := h.fits x (List.mem_cons_of_mem _ hx)
  atRest x hx := by
    rcases List.mem_append.1 hx with hx | hx
    · exact h.atRest x hx
    · exact List.mem_singleton.1 hx ▸ hnew
  whole p hp t ht := by
    obtain ⟨hstay, htree⟩ := h.whole p hp t ht
    exact ⟨hstay.tail, (unshared_entries_next hsame hstay).trans htree⟩

end

theorem yields_identOfSettled {s : World × TagMemory} {place : Option Nat} (hs : s.2.Sound holds)
    (h : s.2.settled.at? place = some n) :
    (check n.ident >>= fun id => identify id (check n.identValue)).Yields e s fun v m =>
      s.2.Leads holds m ∧ v.AtRest holds := by
  refine Yields.bind (P := fun id m => m = s.2 ∧ n.ident = .ok id) (.check fun _ hid => ⟨rfl, hid⟩) ?_
  rintro id s₁ ⟨hs₁, hid⟩
  rw [← hs₁] at hs h ⊢
  refine yields_identify hs (.check fun v hv => ⟨hs.leads, ?_⟩)
  exact (atRest_of_settled hs h).child (mem_children_of_identValue hid hv)

mutual

/-- An interpretation of a node keeps what is to be kept, and yields a value at rest. Nothing changes
    in a node at rest without tags. -/
theorem yields_interpret : ∀ (n : Node) (s : World × TagMemory), n.Fits holds → s.2.Sound holds →
    n.interpret.Yields e s fun v m =>
      (s.2.Leads holds m ∧ v.AtRest holds) ∧ (n.TagFree → n.AtRest holds → v.unshared = n.unshared)
  | scalar c, s, _, hs => by
    rw [interpret]
    exact .pure ⟨⟨hs.leads, atRest_scalar c⟩, fun _ _ => rfl⟩
  | pair key value, s, hfits, hs => by
    rw [interpret]
    exact .pure ⟨⟨hs.leads, hfits.pairs key value (self_mem_parts _ _)⟩, fun _ _ => rfl⟩
  | set members, s, _, hs => by
    rw [interpret]
    exact .pure ⟨⟨hs.leads, atRest_set members⟩, fun _ _ => rfl⟩
  | list place items, s, hfits, hs => by
    cases hplace : s.2.settled.at? place with
    | some v =>
      refine .of_eq (interpret_list_of_settled hplace) (.pure ⟨⟨hs.leads, ?_⟩, fun _ hrest => ?_⟩)
      · exact atRest_of_settled hs hplace
      · exact unshared_of_settled hs (n := list place items) hplace hrest
    | none =>
      refine .of_eq (interpret_list_of_new hplace) ?_
      refine (yields_interpretItems place [] items s hfits.readyItems hs).bind ?_
      rintro items' s₁ ⟨⟨hleads, hrest⟩, htree⟩
      refine (yields_settle hleads.sound (fun p hp => ⟨.inl ⟨_, rfl⟩, fun t ht => ?_⟩)
        (atRest_list_none hrest)).bind ?_
      · -- A place that holds something throughout is one of a list that stays as it is.
        obtain ⟨hstay, rfl⟩ := hfits.readyItems.whole p hp t ht
        exact ⟨htree hstay, atRest_list_none hrest⟩
      · intro _ s₂ hleads'
        exact .pure ⟨⟨hleads.trans hleads', atRest_list_none hrest⟩,
          fun htags hrest => htree (.children htags hrest)⟩
  | map place entries, s, hfits, hs => by
    cases hplace : s.2.settled.at? place with
    | some v =>
      refine .of_eq (interpret_map_of_settled hplace) (.pure ⟨⟨hs.leads, ?_⟩, fun _ hrest => ?_⟩)
      · exact atRest_of_settled hs hplace
      · exact unshared_of_settled hs (n := map place entries) hplace hrest
    | none =>
      refine .of_eq (interpret_map_of_new hplace) ?_
      refine (yields_interpretEntries place [] entries s hfits.readyEntries hs).bind ?_
      rintro entries' s₁ ⟨⟨hleads, hrest⟩, htree⟩
      refine (yields_settle hleads.sound (fun p hp => ⟨.inr ⟨_, rfl⟩, fun t ht => ?_⟩)
        (atRest_map_none hrest)).bind ?_
      · obtain ⟨hstay, rfl⟩ := hfits.readyEntries.whole p hp t ht
        exact ⟨htree hstay, atRest_map_none hrest⟩
      · intro _ s₂ hleads'
        exact .pure ⟨⟨hleads.trans hleads', atRest_map_none hrest⟩,
          fun htags hrest => htree (.children htags hrest)⟩
  | tagged name payload, s, hfits, hs => by
    have hpayload := hfits.payload
    refine Interpretation.Yields.imp (P := fun v m => s.2.Leads holds m ∧ v.AtRest holds) ?_
      fun v m h => ⟨h, fun htags _ => absurd (self_mem_parts _ _) (htags name payload)⟩
    rw [interpret]
    split
    · exact .under (yields_interpretJoin payload s hpayload hs)
    split
    · refine .under ((yields_interpret payload s hpayload hs).bind fun v s₁ ⟨⟨hleads, _⟩, _⟩ => ?_)
      exact yields_input hleads
    split
    · refine .under ((yields_interpret payload s hpayload hs).bind fun v s₁ ⟨⟨hleads, _⟩, _⟩ => ?_)
      exact yields_input hleads
    split
    · exact .under (yields_interpretIdent payload s hpayload hs)
    · exact .check fun _ h => (nomatch h)

/-- Items that are worked through together with some that are done. -/
theorem yields_interpretItems (place : Option Nat) (done : List Node) :
    ∀ (items : List Node) (s : World × TagMemory), ReadyItems holds place done items →
      s.2.Sound holds →
      (interpretItems place done items).Yields e s fun items' m =>
        (s.2.Leads holds m ∧ ∀ x ∈ items', x.AtRest holds) ∧
        (Stay holds items → (list none items').unshared = (list none (done ++ items)).unshared)
  | [], s, hready, hs => by
    rw [interpretItems]
    exact .pure ⟨⟨hs.leads, hready.atRest⟩, fun _ => by rw [List.append_nil]⟩
  | item :: items, s, hready, hs => by
    rw [interpretItems]
    refine (yields_progress hs hready.stands).bind fun _ s₁ hleads => ?_
    refine (yields_interpret item s₁ (hready.fits item List.mem_cons_self) hleads.sound).bind ?_
    rintro new s₂ ⟨⟨hleads', hnew⟩, hsame⟩
    refine (yields_interpretItems place (done ++ [new]) items s₂ (hready.next hnew hsame)
      hleads'.sound).imp ?_
    rintro items' m ⟨⟨hleads'', hrest⟩, hsame'⟩
    exact ⟨⟨(hleads.trans hleads').trans hleads'', hrest⟩,
      fun hstay => (hsame' hstay.tail).trans (unshared_items_next hsame hstay)⟩

/-- Values that are worked through together with some that are done. -/
theorem yields_interpretEntries (place : Option Nat) (done : List (Scalar × Node)) :
    ∀ (entries : List (Scalar × Node)) (s : World × TagMemory), ReadyEntries holds place done entries →
      s.2.Sound holds →
      (interpretEntries place done entries).Yields e s fun entries' m =>
        (s.2.Leads holds m ∧ ∀ x ∈ entries', x.2.AtRest holds) ∧
        (Stay holds (entries.map (·.2)) →
          (map none entries').unshared = (map none (done ++ entries)).unshared)
  | [], s, hready, hs => by
    rw [interpretEntries]
    exact .pure ⟨⟨hs.leads, hready.atRest⟩, fun _ => by rw [List.append_nil]⟩
  | (key, value) :: entries, s, hready, hs => by
    rw [interpretEntries]
    refine (yields_progress hs hready.stands).bind fun _ s₁ hleads => ?_
    refine (yields_interpret value s₁ (hready.fits _ List.mem_cons_self) hleads.sound).bind ?_
    rintro new s₂ ⟨⟨hleads', hnew⟩, hsame⟩
    refine (yields_interpretEntries place (done ++ [(key, new)]) entries s₂ (hready.next hnew hsame)
      hleads'.sound).imp ?_
    rintro entries' m ⟨⟨hleads'', hrest⟩, hsame'⟩
    exact ⟨⟨(hleads.trans hleads').trans hleads'', hrest⟩,
      fun hstay => (hsame' hstay.tail).trans (unshared_entries_next hsame hstay)⟩

theorem yields_interpretJoin : ∀ (payload : Node) (s : World × TagMemory), payload.Fits holds →
    s.2.Sound holds →
    payload.interpretJoin.Yields e s fun v m => s.2.Leads holds m ∧ v.AtRest holds
  | list place items, s, hfits, hs => by
    refine .of_eq interpretJoin_list (Yields.bind (P := fun _ m => s.2.Leads holds m) ?_
      fun t s₁ hleads => .pure ⟨hleads, atRest_scalar _⟩)
    split
    · exact yields_joinSettled 0 _ s hs.leads
    · exact yields_interpretParts 0 items s (fun x hx => hfits.child hx) hs
  | scalar _, _, _, _ | map _ _, _, _, _ | tagged _ _, _, _, _ | pair _ _, _, _, _
  | set _, _, _, _ => by
    rw [interpretJoin]
    · exact .check fun _ h => (nomatch h)
    · simp

theorem yields_interpretParts (index : Nat) : ∀ (items : List Node) (s : World × TagMemory),
    (∀ x ∈ items, x.Fits holds) → s.2.Sound holds →
    (interpretParts index items).Yields e s fun _ m => s.2.Leads holds m
  | [], s, _, hs => by
    rw [interpretParts]
    exact .pure hs.leads
  | item :: items, s, hitems, hs => by
    rw [interpretParts]
    refine (yields_interpret item s (hitems item List.mem_cons_self) hs).bind ?_
    rintro v s₁ ⟨⟨hleads, -⟩, -⟩
    refine (yields_part hleads index v).bind fun t s₂ hleads => ?_
    refine (yields_interpretParts (index + 1) items s₂
      (fun x hx => hitems x (List.mem_cons_of_mem _ hx)) hleads.sound).bind ?_
    exact fun _ s₃ hleads' => .pure (hleads.trans hleads')

theorem yields_interpretIdent : ∀ (payload : Node) (s : World × TagMemory), payload.Fits holds →
    s.2.Sound holds →
    payload.interpretIdent.Yields e s fun v m => s.2.Leads holds m ∧ v.AtRest holds
  | list place items, s, hfits, hs => by
    cases hplace : s.2.settled.at? place with
    | some n =>
      refine .of_eq (interpretIdent_of_settled rfl hplace) ?_
      exact yields_identOfSettled hs hplace
    | none =>
      refine .of_eq (interpretIdent_list_of_new hplace) ?_
      refine Yields.bind (P := fun _ m => m = s.2) (.check fun _ _ => rfl) fun id s₁ hs₁ => ?_
      rw [← hs₁] at hs ⊢
      exact yields_identify hs (yields_interpretSecond items s₁ (fun x hx => hfits.child hx) hs)
  | map place entries, s, hfits, hs => by
    cases hplace : s.2.settled.at? place with
    | some n =>
      refine .of_eq (interpretIdent_of_settled rfl hplace) ?_
      exact yields_identOfSettled hs hplace
    | none =>
      refine .of_eq (interpretIdent_map_of_new hplace) ?_
      refine Yields.bind (P := fun _ m => m = s.2) (.check fun _ _ => rfl) fun id s₁ hs₁ => ?_
      rw [← hs₁] at hs ⊢
      exact yields_identify hs (yields_interpretField "value" entries s₁
        (fun x hx => hfits.child (List.mem_map_of_mem hx)) hs)
  | scalar _, _, _, _ | tagged _ _, _, _, _ | pair _ _, _, _, _ | set _, _, _, _ => by
    rw [interpretIdent]
    · exact .check fun _ h => (nomatch h)
    · simp
    · simp

theorem yields_interpretSecond : ∀ (items : List Node) (s : World × TagMemory),
    (∀ x ∈ items, x.Fits holds) → s.2.Sound holds →
    (interpretSecond items).Yields e s fun v m => s.2.Leads holds m ∧ v.AtRest holds
  | [_, value], s, hitems, hs => by
    rw [interpretSecond]
    exact (yields_interpret value s (hitems value (by simp)) hs).imp fun _ _ h => h.1
  | [], _, _, _ | [_], _, _, _ | _ :: _ :: _ :: _, _, _, _ => by
    rw [interpretSecond]
    · exact .check fun _ h => (nomatch h)
    · simp

theorem yields_interpretField (key : String) : ∀ (entries : List (Scalar × Node))
    (s : World × TagMemory), (∀ x ∈ entries, x.2.Fits holds) → s.2.Sound holds →
    (interpretField key entries).Yields e s fun v m => s.2.Leads holds m ∧ v.AtRest holds
  | [], _, _, _ => by
    rw [interpretField]
    exact .check fun _ h => (nomatch h)
  | (k, value) :: entries, s, hentries, hs => by
    rw [interpretField]
    split
    · exact (yields_interpret value s (hentries _ List.mem_cons_self) hs).imp fun _ _ h => h.1
    · exact yields_interpretField key entries s
        (fun x hx => hentries x (List.mem_cons_of_mem _ hx)) hs

end

end Node
end Runbook
