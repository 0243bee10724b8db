import Runbook.Proofs.Passes

set_option autoImplicit false

/-! # One value for each id

In a pass that succeeds, an id has one value: the one that is known before, or the one that the first
occurrence yields, which all others repeat. While the value of an id is being found, though, the id is
not known, and an occurrence of the same id in what is evaluated then has a value of its own, which
does not last. A value with pairs may not last either, as nothing is interpreted below a pair, and a
container there may be worked through elsewhere. These two are the only exceptions. -/

namespace Runbook

namespace Node

open Interpretation

/-! ## What is interpreted, and when -/

/-- Of some items, one is interpreted, in some state. -/
inductive StartsItem (e : Setting) (place : Option Nat) :
    World × TagMemory → List Node → List Node → World × TagMemory → Node → Prop
  | here {s s₁ : World × TagMemory} {done items : List Node} {item : Node}
      (hprogress : progress place (list none (done ++ item :: items)) e s = (.ok (), s₁)) :
      StartsItem e place s done (item :: items) s₁ item
  | later {s s₁ s₂ s₃ : World × TagMemory} {done items : List Node} {item new k : Node}
      (hprogress : progress place (list none (done ++ item :: items)) e s = (.ok (), s₁))
      (hitem : item.interpret e s₁ = (.ok new, s₂))
      (hrest : StartsItem e place s₂ (done ++ [new]) items s₃ k) :
      StartsItem e place s done (item :: items) s₃ k

/-- Of the values of some entries, one is interpreted, in some state. -/
inductive StartsEntry (e : Setting) (place : Option Nat) :
    World × TagMemory → List (Scalar × Node) → List (Scalar × Node) → World × TagMemory → Node → Prop
  | here {s s₁ : World × TagMemory} {done entries : List (Scalar × Node)} {key : Scalar} {value : Node}
      (hprogress : progress place (map none (done ++ (key, value) :: entries)) e s = (.ok (), s₁)) :
      StartsEntry e place s done ((key, value) :: entries) s₁ value
  | later {s s₁ s₂ s₃ : World × TagMemory} {done entries : List (Scalar × Node)} {key : Scalar}
      {value new k : Node}
      (hprogress : progress place (map none (done ++ (key, value) :: entries)) e s = (.ok (), s₁))
      (hvalue : value.interpret e s₁ = (.ok new, s₂))
      (hrest : StartsEntry e place s₂ (done ++ [(key, new)]) entries s₃ k) :
      StartsEntry e place s done ((key, value) :: entries) s₃ k

/-- Of the parts of a text, one is interpreted, in some state. -/
inductive StartsPart (e : Setting) :
    World × TagMemory → Nat → List Node → World × TagMemory → Node → Prop
  | here {s : World × TagMemory} {index : Nat} {items : List Node} {item : Node} :
      StartsPart e s index (item :: items) s item
  | later {s s₁ s₂ : World × TagMemory} {index : Nat} {items : List Node} {item k : Node} {t : String}
      (hpart : (item.interpret >>= part index) e s = (.ok t, s₁))
      (hrest : StartsPart e s₁ (index + 1) items s₂ k) : StartsPart e s index (item :: items) s₂ k

/-- The interpretation of a node starts the one of another, in some state, perhaps to find the value
    of an id. -/
inductive Starts (e : Setting) :
    World × TagMemory → Node → List String → World × TagMemory → Node → Prop
  | item {s s₁ : World × TagMemory} {place : Option Nat} {items : List Node} {k : Node}
      (hnew : s.2.settled.at? place = none) (h : StartsItem e place s [] items s₁ k) :
      Starts e s (list place items) [] s₁ k
  | entry {s s₁ : World × TagMemory} {place : Option Nat} {entries : List (Scalar × Node)} {k : Node}
      (hnew : s.2.settled.at? place = none) (h : StartsEntry e place s [] entries s₁ k) :
      Starts e s (map place entries) [] s₁ k
  | part {s s₁ : World × TagMemory} {place : Option Nat} {items : List Node} {k : Node}
      (hnew : s.2.settled.at? place = none) (h : StartsPart e s 0 items s₁ k) :
      Starts e s (tagged "StrF" (list place items)) [] s₁ k
  | question {s : World × TagMemory} {name : String} {payload : Node}
      (hname : name = "Input" ∨ name = "HiddenInput") : Starts e s (tagged name payload) [] s payload
  | value {s : World × TagMemory} {payload value : Node} {id : String}
      (hnew : s.2.settled.at? payload.place? = none) (hid : payload.ident = .ok id)
      (hunknown : s.2.ids.get? id = none) (hvalue : payload.identValue = .ok value) :
      Starts e s (tagged "Id" payload) [id] s value

/-- The interpretation of a node comes to interpret another, in some state, while the values of some
    ids are being found. -/
inductive Visits (e : Setting) :
    World × TagMemory → Node → List String → World × TagMemory → Node → Prop
  | self {s : World × TagMemory} {n : Node} : Visits e s n [] s n
  | step {s s₁ s₂ : World × TagMemory} {n m k : Node} {found under : List String}
      (hstart : Starts e s n found s₁ m) (hrest : Visits e s₁ m under s₂ k) :
      Visits e s n (found ++ under) s₂ k

end Node

/-- What stands in a payload by now, if it has been worked through elsewhere, or else the payload. -/
def TagMemory.reached (m : TagMemory) (payload : Node) : Node :=
  (m.settled.at? payload.place?).getD payload

/-- All ids that are known stay so, with their values, but for some. -/
def Idents.GrowsBeside (under : List String) (ids ids' : Idents) : Prop :=
  ∀ id n, id ∉ under → ids.get? id = some n → ids'.get? id = some n

/-- An interpretation that succeeds in a pass, and what is known at its end stays known, but for some
    ids. -/
structure Node.Completes (holds : Nat → Node → Prop) (e : Setting) (s : World × TagMemory) (n : Node)
    (under : List String) (m : TagMemory) : Prop where
  fits : n.Fits holds
  sound : s.2.Sound holds
  completes : ∃ v s₁, n.interpret e s = (.ok v, s₁) ∧ s₁.2.ids.GrowsBeside under m.ids

variable {holds : Nat → Node → Prop} {e : Setting} {s s' s₁ : World × TagMemory} {n k : Node}
  {under found : List String} {place : Option Nat} {id : String}

namespace Node

open Interpretation

/-! ## One step -/

theorem StartsItem.completes {done items items' : List Node}
    (h : StartsItem e place s done items s₁ k) (hready : ReadyItems holds place done items)
    (hs : s.2.Sound holds) (hrun : interpretItems place done items e s = (.ok items', s')) :
    k.Completes holds e s₁ [] s'.2 := by
  induction h with
  | @here s s₁ done items item hprogress =>
    rw [interpretItems, Effect.bind_of_ok hprogress] at hrun
    obtain ⟨new, s₂, hitem, hrest⟩ := Effect.exists_of_bind hrun
    have hfits := hready.fits item List.mem_cons_self
    have hs₁ := (yields_progress hs hready.stands _ _ hprogress).sound
    obtain ⟨⟨hleads, hnew⟩, hsame⟩ := yields_interpret item s₁ hfits hs₁ _ _ hitem
    obtain ⟨⟨hleads', -⟩, -⟩ :=
      yields_interpretItems place _ items s₂ (hready.next hnew hsame) hleads.sound _ _ hrest
    exact ⟨hfits, hs₁, new, s₂, hitem, fun id n _ => hleads'.grows id n⟩
  | @later s s₁ s₂ s₃ done items item new k hprogress hitem hrest ih =>
    rw [interpretItems, Effect.bind_of_ok hprogress, Effect.bind_of_ok hitem] at hrun
    have hs₁ := (yields_progress hs hready.stands _ _ hprogress).sound
    obtain ⟨⟨hleads, hnew⟩, hsame⟩ :=
      yields_interpret item s₁ (hready.fits item List.mem_cons_self) hs₁ _ _ hitem
    exact ih (hready.next hnew hsame) hleads.sound hrun

theorem StartsEntry.completes {done entries entries' : List (Scalar × Node)}
    (h : StartsEntry e place s done entries s₁ k) (hready : ReadyEntries holds place done entries)
    (hs : s.2.Sound holds) (hrun : interpretEntries place done entries e s = (.ok entries', s')) :
    k.Completes holds e s₁ [] s'.2 := by
  induction h with
  | @here s s₁ done entries key value hprogress =>
    rw [interpretEntries, Effect.bind_of_ok hprogress] at hrun
    obtain ⟨new, s₂, hvalue, hrest⟩ := Effect.exists_of_bind hrun
    have hfits := hready.fits _ List.mem_cons_self
    have hs₁ := (yields_progress hs hready.stands _ _ hprogress).sound
    obtain ⟨⟨hleads, hnew⟩, hsame⟩ := yields_interpret value s₁ hfits hs₁ _ _ hvalue
    obtain ⟨⟨hleads', -⟩, -⟩ :=
      yields_interpretEntries place _ entries s₂ (hready.next hnew hsame) hleads.sound _ _ hrest
    exact ⟨hfits, hs₁, new, s₂, hvalue, fun id n _ => hleads'.grows id n⟩
  | @later s s₁ s₂ s₃ done entries key value new k hprogress hvalue hrest ih =>
    rw [interpretEntries, Effect.bind_of_ok hprogress, Effect.bind_of_ok hvalue] at hrun
    have hs₁ := (yields_progress hs hready.stands _ _ hprogress).sound
    obtain ⟨⟨hleads, hnew⟩, hsame⟩ :=
      yields_interpret value s₁ (hready.fits _ List.mem_cons_self) hs₁ _ _ hvalue
    exact ih (hready.next hnew hsame) hleads.sound hrun

theorem StartsPart.completes {index : Nat} {items : List Node} {t : String}
    (h : StartsPart e s index items s₁ k) (hfits : ∀ x ∈ items, x.Fits holds) (hs : s.2.Sound holds)
    (hrun : interpretParts index items e s = (.ok t, s')) : k.Completes holds e s₁ [] s'.2 := by
  induction h generalizing t with
  | @here s index items item =>
    rw [interpretParts] at hrun
    obtain ⟨v, s₁, hitem, hrest⟩ := Effect.exists_of_bind hrun
    have hfirst := hfits item List.mem_cons_self
    obtain ⟨⟨hleads, -⟩, -⟩ := yields_interpret item s hfirst hs _ _ hitem
    obtain ⟨t, s₂, hpart, hrest⟩ := Effect.exists_of_bind hrest
    have hleads' := yields_part hleads.sound.leads index v _ _ hpart
    obtain ⟨t', s₃, htail, hend⟩ := Effect.exists_of_bind hrest
    have hleads'' := yields_interpretParts (index + 1) items s₂
      (fun x hx => hfits x (List.mem_cons_of_mem _ hx)) hleads'.sound _ _ htail
    cases hend
    exact ⟨hfirst, hs, v, s₁, hitem, fun id n _ => (hleads'.trans hleads'').grows id n⟩
  | @later s s₁ s₂ index items item k t hpart hrest ih =>
    have hparts : interpretParts index (item :: items)
        = ((item.interpret >>= part index) >>= fun t => do
          return t ++ (← interpretParts (index + 1) items)) := by
      rw [interpretParts, bind_assoc]
    rw [hparts, Effect.bind_of_ok hpart] at hrun
    obtain ⟨t', s₃, htail, hend⟩ := Effect.exists_of_bind hrun
    cases hend
    obtain ⟨v, s₄, hitem, hpart⟩ := Effect.exists_of_bind hpart
    obtain ⟨⟨hleads, -⟩, -⟩ := yields_interpret item s (hfits item List.mem_cons_self) hs _ _ hitem
    exact ih (fun x hx => hfits x (List.mem_cons_of_mem _ hx))
      (yields_part hleads index v _ _ hpart).sound htail

theorem settle_ids {u : Unit} (h : settle place n e s = (.ok u, s')) : s'.2.ids = s.2.ids := by
  cases place <;> cases h <;> rfl

/-- An id that is identified has the value it had, or the one that is found for it. -/
theorem identify_ok {first : Interpretation Node} {v : Node}
    (h : identify id first e s = (.ok v, s')) :
    (∃ x, s.2.ids.get? id = some x ∧ v = s.2.view x ∧ s' = s) ∨
      (s.2.ids.get? id = none ∧ ∃ x s₁, first e s = (.ok x, s₁) ∧
        s' = (s₁.1, { s₁.2 with ids := s₁.2.ids.put id x }) ∧ v = s'.2.view x) := by
  cases hid : s.2.ids.get? id with
  | some x =>
    rw [identify_of_known hid] at h
    cases h
    exact .inl ⟨x, rfl, rfl, rfl⟩
  | none =>
    rw [identify_of_new hid] at h
    obtain ⟨x, s₁, hfirst, hrest⟩ := Effect.exists_of_bind h
    cases hrest
    exact .inr ⟨rfl, x, s₁, hfirst, rfl, rfl⟩

theorem growsBeside_put {ids : Idents} {x : Node} : ids.GrowsBeside [id] (ids.put id x) := by
  intro id' n' hne hn'
  rw [Idents.get?_put, if_neg (by simpa using hne), hn']

/-- A payload that has not been worked through names the id that is identified. -/
theorem exists_ident_of_new {payload v : Node} (hs : s.2.Sound holds)
    (hnew : s.2.settled.at? payload.place? = none)
    (h : payload.interpretIdent e s = (.ok v, s')) :
    ∃ id, payload.ident = .ok id ∧
      identify id (check payload.identValue >>= interpret) e s = (.ok v, s') := by
  rw [interpretIdent_of_new hnew] at h
  obtain ⟨id, s₁, hcheck, hrest⟩ := Effect.exists_of_bind h
  obtain ⟨hid, rfl⟩ := of_check hcheck
  have hkeeps := hs.pending.append hs.settled
  exact ⟨id, (ident_mapChildren fun x c => asItStands_eq_scalar_iff hkeeps).1 hid, hrest⟩

theorem exists_ident_of_ok {payload v : Node} (hs : s.2.Sound holds)
    (h : payload.interpretIdent e s = (.ok v, s')) :
    ∃ id first, (s.2.reached payload).ident = .ok id ∧ identify id first e s = (.ok v, s') := by
  cases hplace : s.2.settled.at? payload.place? with
  | some n =>
    rw [interpretIdent_of_settled rfl hplace] at h
    obtain ⟨id, s₁, hcheck, hrest⟩ := Effect.exists_of_bind h
    obtain ⟨hid, rfl⟩ := of_check hcheck
    exact ⟨id, _, by rw [TagMemory.reached, hplace]; exact hid, hrest⟩
  | none =>
    obtain ⟨id, hid, hrest⟩ := exists_ident_of_new hs hplace h
    exact ⟨id, _, by rw [TagMemory.reached, hplace]; exact hid, hrest⟩

/-- An occurrence of an id yields the value that the id then has. -/
theorem value_of_ok {payload v : Node} (hfits : payload.Fits holds) (hs : s.2.Sound holds)
    (hid : (s.2.reached payload).ident = .ok id)
    (h : (tagged "Id" payload).interpret e s = (.ok v, s')) :
    ∃ x, s'.2.ids.get? id = some x ∧ v = x.unshared := by
  rw [interpret_id] at h
  have hrun := of_under h
  obtain ⟨hleads, -⟩ := yields_interpretIdent payload s hfits hs _ _ hrun
  obtain ⟨id', first, hid', hidentify⟩ := exists_ident_of_ok hs hrun
  obtain rfl : id' = id := Except.ok.inj (hid'.symm.trans hid)
  obtain ⟨x, hx, rfl, rfl⟩ | ⟨-, x, s₁, -, rfl, rfl⟩ := identify_ok hidentify
  · exact ⟨x, hx, hs.view (hs.values id' x hx)⟩
  · have hput : (s₁.2.ids.put id' x).get? id' = some x := by rw [Idents.get?_put, if_pos rfl]
    exact ⟨x, hput, hleads.sound.view (hleads.sound.values id' x hput)⟩

theorem Completes.trans {m m' : TagMemory} (h : n.Completes holds e s under m)
    (hgrows : m.ids.GrowsBeside found m'.ids) : n.Completes holds e s (found ++ under) m' := by
  obtain ⟨v, s₁, hrun, hgrows'⟩ := h.completes
  refine ⟨h.fits, h.sound, v, s₁, hrun, fun id x hid hx => ?_⟩
  obtain ⟨hfound, hunder⟩ : id ∉ found ∧ id ∉ under := by simpa using hid
  exact hgrows id x hfound (hgrows' id x hunder hx)

theorem Completes.of_ids_eq {m m' : TagMemory} (h : n.Completes holds e s under m)
    (hids : m'.ids = m.ids) : n.Completes holds e s under m' :=
  ⟨h.fits, h.sound, hids ▸ h.completes⟩

/-- The value that is found for an id is found in full. -/
theorem completes_identify {v : Node} (hfits : k.Fits holds) (hs : s.2.Sound holds)
    (hunknown : s.2.ids.get? id = none) (h : identify id k.interpret e s = (.ok v, s')) :
    k.Completes holds e s [id] s'.2 := by
  obtain ⟨x, hx, -⟩ | ⟨-, x, s₁, hfirst, rfl, -⟩ := identify_ok h
  · rw [hunknown] at hx
    cases hx
  · exact ⟨hfits, hs, x, s₁, hfirst, growsBeside_put⟩

/-- What is started completes, if the whole does. -/
theorem Starts.completes {v : Node} (h : Starts e s n found s₁ k) (hfits : n.Fits holds)
    (hs : s.2.Sound holds) (hrun : n.interpret e s = (.ok v, s')) :
    k.Completes holds e s₁ found s'.2 := by
  cases h with
  | item hnew h =>
    rw [interpret_list_of_new hnew] at hrun
    obtain ⟨items', s₂, hitems, hrest⟩ := Effect.exists_of_bind hrun
    obtain ⟨_, s₃, hsettle, hend⟩ := Effect.exists_of_bind hrest
    cases hend
    exact (h.completes hfits.readyItems hs hitems).of_ids_eq (settle_ids hsettle)
  | entry hnew h =>
    rw [interpret_map_of_new hnew] at hrun
    obtain ⟨entries', s₂, hentries, hrest⟩ := Effect.exists_of_bind hrun
    obtain ⟨_, s₃, hsettle, hend⟩ := Effect.exists_of_bind hrest
    cases hend
    exact (h.completes hfits.readyEntries hs hentries).of_ids_eq (settle_ids hsettle)
  | part hnew h =>
    rw [interpret_strF] at hrun
    have hjoin := of_under hrun
    rw [interpretJoin_list, hnew] at hjoin
    obtain ⟨t, s₂, hparts, hend⟩ := Effect.exists_of_bind hjoin
    cases hend
    exact h.completes (fun x hx => hfits.payload.child hx) hs hparts
  | question hname =>
    have hquestion : ∃ hidden, (k.interpret >>= input hidden) e s = (.ok v, s') := by
      rcases hname with rfl | rfl
      · rw [interpret_input] at hrun
        exact ⟨_, of_under hrun⟩
      · rw [interpret_hiddenInput] at hrun
        exact ⟨_, of_under hrun⟩
    obtain ⟨hidden, hquestion⟩ := hquestion
    obtain ⟨u, s₂, hu, hinput⟩ := Effect.exists_of_bind hquestion
    obtain ⟨⟨hleads, -⟩, -⟩ := yields_interpret k s hfits.payload hs _ _ hu
    obtain ⟨hleads', -⟩ := yields_input hleads.sound.leads _ _ hinput
    exact ⟨hfits.payload, hs, u, s₂, hu, fun id n _ => hleads'.grows id n⟩
  | value hnew hid hunknown hvalue =>
    -- The id gets its value only at the end, so what is known of it in between may be replaced.
    rw [interpret_id] at hrun
    obtain ⟨id', hid', hidentify⟩ := exists_ident_of_new hs hnew (of_under hrun)
    obtain rfl := Except.ok.inj (hid'.symm.trans hid)
    rw [hvalue] at hidentify
    exact completes_identify (hfits.payload.child (mem_children_of_identValue hid hvalue)) hs hunknown
      hidentify

/-- What is visited completes, if the whole does, and what is known at its end stays known but for the
    ids whose values are being found. -/
theorem Visits.completes (h : Visits e s n under s₁ k) {v : Node} (hfits : n.Fits holds)
    (hs : s.2.Sound holds) (hrun : n.interpret e s = (.ok v, s')) :
    k.Completes holds e s₁ under s'.2 := by
  -- Each start succeeds within a run that does, and from there the same is said of the next one.
  induction h generalizing v s' with
  | self => exact ⟨hfits, hs, v, s', hrun, fun _ _ _ h => h⟩
  | step hstart _ ih =>
    obtain ⟨hfits', hs', u, s₂, hu, hgrows⟩ := hstart.completes hfits hs hrun
    exact (ih hfits' hs' hu).trans hgrows

/-! ## The whole pass -/

/-- Nodes with one place are one container. -/
def Consistent (ns : List Node) : Prop :=
  ∀ k ∈ ns.flatMap (parts true), ∀ k' ∈ ns.flatMap (parts true), ∀ p,
    k.place? = some p → k'.place? = some p → k = k'

/-- No container in which something is tagged stands both below a pair and elsewhere. -/
def PairsApart (n : Node) : Prop :=
  ∀ key value, pair key value ∈ n.parts false → ∀ k ∈ (pair key value).parts true,
    ∀ k' ∈ n.parts false, ∀ p, k.place? = some p → k'.place? = some p → k'.TagFree

/-- What some places of a document and of known values hold throughout: containers that are not
    worked through, or in which nothing is tagged. -/
def heldBy (n : Node) (values : List Node) (p : Nat) (t : Node) : Prop :=
  (∃ k ∈ (n :: values).flatMap (parts true), k.place? = some p ∧ k.unshared = t) ∧
    ∀ k ∈ n.parts false, k.place? = some p → k.TagFree

variable {values : List Node}

theorem mem_flatMap_parts {m : Node} (h : m ∈ n :: values) (hk : k ∈ m.parts true) :
    k ∈ (n :: values).flatMap (parts true) :=
  List.mem_flatMap.2 ⟨m, h, hk⟩

theorem TagFree.part (h : n.TagFree) (hk : k ∈ n.parts true) : k.TagFree :=
  fun name payload hmem => h name payload (parts_subset hk hmem)

/-- Nodes in which nothing is tagged are at rest. -/
theorem atRest_heldBy {m : Node} (hplaces : Consistent (n :: values)) (hm : m.TagFree)
    (hmem : ∀ k ∈ m.parts true, k ∈ (n :: values).flatMap (parts true)) :
    m.AtRest (heldBy n values) := by
  refine fun k hk p hp => ⟨⟨k, hmem k hk, hp, rfl⟩, fun k' hk' hp' => ?_⟩
  obtain rfl := hplaces k (hmem k hk) k'
    (mem_flatMap_parts List.mem_cons_self (mem_parts_true hk')) p hp hp'
  exact hm.part hk

theorem fits_heldBy (hplaces : Consistent (n :: values)) (hpairs : n.PairsApart) :
    n.Fits (heldBy n values) := by
  have hmem : ∀ k ∈ n.parts false, ∀ m ∈ k.parts true, m ∈ (n :: values).flatMap (parts true) :=
    fun k hk m hm => mem_flatMap_parts List.mem_cons_self (parts_subset (mem_parts_true hk) hm)
  refine ⟨fun k hk p hp t ht => ?_, fun key value hpair k hk p hp => ?_⟩
  · obtain ⟨⟨k', hk', hp', rfl⟩, hquiet⟩ := ht
    obtain rfl := hplaces k (hmem k hk k (self_mem_parts _ _)) k' hk' p hp hp'
    exact ⟨hquiet k hk hp, atRest_heldBy hplaces (hquiet k hk hp) (hmem k hk), rfl⟩
  · exact ⟨⟨k, hmem _ hpair k hk, hp, rfl⟩,
      fun k' hk' hp' => hpairs key value hpair k hk k' hk' p hp hp'⟩

/-- In a pass that succeeds, what is known of an id at any time is known in the end, and every
    occurrence of the id yields just that, so that all yield the same. Excepted are the times at which
    the value of the id itself is being found. -/
theorem resolve_identifiers {ids ids' : Idents} {w w' : World} {r : Node}
    (hplaces : Consistent (n :: ids.map (·.2))) (hcache : ∀ v ∈ ids.map (·.2), v.TagFree)
    (hpairs : n.PairsApart) (h : n.resolve e (w, ids) = (.ok r, (w', ids')))
    (hvisit : Visits e (w, .start ids) n under s k) :
    (∀ id v, id ∉ under → s.2.viewIds.get? id = some v → ids'.get? id = some v) ∧
    ∀ payload id, k = tagged "Id" payload → (s.2.reached payload).ident = .ok id → id ∉ under →
      ∃ v s₁, k.interpret e s = (.ok v, s₁) ∧ ids'.get? id = some v := by
  have hstart : (TagMemory.start ids).Sound (heldBy n (ids.map (·.2))) := by
    refine .start fun id v hv => ?_
    have hmem := Idents.mem_of_get? hv
    refine atRest_heldBy hplaces (hcache v hmem) fun k hk => ?_
    exact mem_flatMap_parts (List.mem_cons_of_mem _ hmem) hk
  have hfits := fits_heldBy hplaces hpairs
  -- What a failed pass leaves behind is of no concern.
  rcases hrun : n.interpret e (w, .start ids) with ⟨x | u, s'⟩
  · rw [resolve_of_error hrun] at h
    cases h
  rw [resolve_of_ok hrun] at h
  cases h
  obtain ⟨⟨⟨hs', -⟩, -⟩, -⟩ := yields_interpret n _ hfits hstart _ _ hrun
  obtain ⟨hfits', hs, v, s₁, hk, hgrows⟩ := hvisit.completes hfits hstart hrun
  obtain ⟨⟨hleads, -⟩, -⟩ := yields_interpret k s hfits' hs _ _ hk
  refine ⟨fun id x hid hx => ?_, fun payload id hpayload hident hid => ?_⟩
  · rw [hs.viewIds, Option.map_eq_some_iff] at hx
    obtain ⟨x, hx, rfl⟩ := hx
    rw [hs'.viewIds, hgrows id x hid (hleads.grows id x hx), Option.map_some]
  · subst hpayload
    obtain ⟨x, hx, rfl⟩ := value_of_ok hfits'.payload hs hident hk
    exact ⟨_, s₁, hk, by rw [hs'.viewIds, hgrows id x hid hx, Option.map_some]⟩

/-- A document with a shared list, in which an id is found while the value of another is. -/
def sharedSample : Node :=
  map (some 0)
    [(.text "a", list (some 1) [tagged "Id" (list (some 2) [text "x", tagged "StrF" (list (some 3)
        [text "p", tagged "Id" (list (some 4) [text "y", text "q"])])])]),
      (.text "b", list (some 1) [tagged "Id" (list (some 2) [text "x", tagged "StrF" (list (some 3)
        [text "p", tagged "Id" (list (some 4) [text "y", text "q"])])])]),
      (.text "c", tagged "Id" (list (some 5) [text "y", text "z"]))]

/-- What is known of ids before. -/
def knownSample : Idents := [("k", text "v")]

theorem resolve_identifiers_sample :
    Consistent (sharedSample :: knownSample.map (·.2)) ∧ (∀ v ∈ knownSample.map (·.2), v.TagFree) ∧
      sharedSample.PairsApart ∧
      sharedSample.resolve .calm (.initial (.dir []) [], knownSample)
        = (.ok (map none [(.text "a", list none [text "pq"]), (.text "b", list none [text "pq"]),
            (.text "c", text "q")]),
          (.initial (.dir []) [], [("k", text "v"), ("y", text "q"), ("x", text "pq")])) ∧
      ∃ s s₁, Visits .calm (.initial (.dir []) [], .start knownSample) sharedSample ["x"] s
          (tagged "Id" (list (some 4) [text "y", text "q"])) ∧
        (s.2.reached (list (some 4) [text "y", text "q"])).ident = .ok "y" ∧ "y" ∉ ["x"] ∧
        (tagged "Id" (list (some 4) [text "y", text "q"])).interpret .calm s
          = (.ok (text "q"), s₁) := by
  have hplaces : Consistent (sharedSample :: knownSample.map (·.2)) := by
    simp [Consistent, sharedSample, knownSample, parts, itemParts, entryParts, place?, text]
  have hcache : ∀ v ∈ knownSample.map (·.2), v.TagFree := by simp [knownSample, TagFree, parts, text]
  have hpairs : sharedSample.PairsApart := by
    simp [PairsApart, sharedSample, parts, itemParts, entryParts, text]
  have hrun : sharedSample.resolve .calm (.initial (.dir []) [], knownSample)
      = (.ok (map none [(.text "a", list none [text "pq"]), (.text "b", list none [text "pq"]),
          (.text "c", text "q")]),
        (.initial (.dir []) [], [("k", text "v"), ("y", text "q"), ("x", text "pq")])) := by
    simp [resolve, sharedSample, knownSample, interpret, interpretItems, interpretEntries,
      interpretIdent, interpretSecond, interpretJoin, interpretParts, part, identify, under,
      Effect.because, Effect.mapFailure, Effect.bind_apply, progress, settle, remember,
      Contents.at?, Contents.get?, Contents.set, Contents.without, Idents.get?, Idents.put,
      TagMemory.start, TagMemory.contents, TagMemory.view, TagMemory.viewIds, text, ident, asIdent,
      Except.map, -bind_pure_comp]
  have hvisit : ∃ s, Visits .calm (.initial (.dir []) [], .start knownSample) sharedSample ["x"] s
      (tagged "Id" (list (some 4) [text "y", text "q"])) ∧
      (s.2.reached (list (some 4) [text "y", text "q"])).ident = .ok "y" :=
    ⟨_, .step (.entry rfl (.here rfl)) (.step (.item rfl (.here rfl)) (.step (.value rfl rfl rfl rfl)
      (.step (.part rfl (.later (t := "p") rfl .here)) .self))), rfl⟩
  obtain ⟨s, hvisit, hid⟩ := hvisit
  obtain ⟨-, hvalue⟩ := resolve_identifiers hplaces hcache hpairs hrun hvisit
  obtain ⟨v, s₁, hv, hy⟩ := hvalue _ "y" rfl hid (by simp)
  obtain rfl : text "q" = v := Option.some.inj hy
  exact ⟨hplaces, hcache, hpairs, hrun, s, s₁, hvisit, hid, by simp, hv⟩

/-- A document in which the value of an id is found in part by the same id. -/
def nestedSample : Node :=
  map (some 0) [(.text "a", tagged "Id" (list (some 1) [text "x", tagged "StrF" (list (some 2)
    [text "p", tagged "Id" (list (some 3) [text "x", text "q"])])]))]

/-- A document in which the value of an id has a pair that holds a list which also stands elsewhere. -/
def pairSample : Node :=
  map (some 0)
    [(.text "a", tagged "Id" (list (some 1) [text "x",
        list (some 2) [pair (text "k") (list (some 3) [tagged "StrF" (list (some 4) [])])]])),
      (.text "b", list (some 3) [tagged "StrF" (list (some 4) [])]),
      (.text "c", tagged "Id" (list (some 5) [text "x", text "z"]))]

/-- The value of an id that is known while a value of the same id is being found is overwritten, and a
    value with a pair is seen to change, so that two occurrences of the id yield different values. -/
theorem resolve_identifiers_overwritten :
    (∃ s s₁, Visits .calm (.initial (.dir []) [], .start []) nestedSample ["x"] s
        (tagged "Id" (list (some 3) [text "x", text "q"])) ∧
      (tagged "Id" (list (some 3) [text "x", text "q"])).interpret .calm s = (.ok (text "q"), s₁) ∧
      s₁.2.viewIds.get? "x" = some (text "q") ∧
      nestedSample.resolve .calm (.initial (.dir []) [], [])
        = (.ok (map none [(.text "a", text "pq")]), (.initial (.dir []) [], [("x", text "pq")]))) ∧
    (pairSample.resolve .calm (.initial (.dir []) [], [])).1
      = .ok (map none [
        (.text "a", list none [pair (text "k") (list none [tagged "StrF" (list none [])])]),
        (.text "b", list none [text ""]),
        (.text "c", list none [pair (text "k") (list none [text ""])])]) := by
  refine ⟨?_, ?_⟩
  · have hvisit : ∃ s, Visits .calm (.initial (.dir []) [], .start []) nestedSample ["x"] s
        (tagged "Id" (list (some 3) [text "x", text "q"])) ∧ s.2.settled = [] ∧ s.2.ids = [] :=
      ⟨_, .step (.entry rfl (.here rfl)) (.step (.value rfl rfl rfl rfl)
        (.step (.part rfl (.later (t := "p") rfl .here)) .self)), rfl, rfl⟩
    obtain ⟨⟨w, ids, settled, pending⟩, hvisit, rfl, rfl⟩ := hvisit
    refine ⟨_, (w, ⟨[("x", text "q")], [], pending⟩), hvisit, ?_, ?_, ?_⟩
    · simp [interpret, interpretIdent, interpretSecond, identify, under, Effect.because,
        Effect.mapFailure, Effect.bind_apply, remember, Contents.at?, Contents.get?, Idents.get?,
        Idents.put, TagMemory.contents, TagMemory.view, text, ident, asIdent, -bind_pure_comp]
    · simp [TagMemory.viewIds, TagMemory.view, Idents.get?, text]
    · simp [resolve, nestedSample, interpret, interpretEntries, interpretIdent, interpretSecond,
        interpretJoin, interpretParts, part, identify, under, Effect.because, Effect.mapFailure,
        Effect.bind_apply, progress, settle, remember, Contents.at?, Contents.get?, Contents.set,
        Contents.without, Idents.get?, Idents.put, TagMemory.start, TagMemory.contents,
        TagMemory.view, TagMemory.viewIds, text, ident, asIdent, Except.map, -bind_pure_comp]
  · simp [resolve, pairSample, interpret, interpretItems, interpretEntries, interpretIdent,
      interpretSecond, interpretJoin, interpretParts, identify, under, Effect.because,
      Effect.mapFailure, Effect.bind_apply, progress, settle, remember, asItStands_list,
      Contents.at?, Contents.get?, Contents.set, Contents.without, Idents.get?, Idents.put,
      TagMemory.start, TagMemory.contents, TagMemory.view, text, ident, asIdent, Except.map,
      -bind_pure_comp]

end Node
end Runbook
