import Runbook.Task.Grammar

set_option autoImplicit false

/-! # What is accepted and what is reported

A part of a workflow is accepted or refused as a whole: it is accepted where all its parts are, and
the errors it reports are those of one part that is refused, with where that part stands in front of
them. -/

namespace Runbook.Parsed

variable {α β : Type}

/-! ## Acceptance -/

@[simp] theorem pure_eq_ok {a b : α} : (pure a : Parsed α) = .ok b ↔ a = b := by
  simp [pure, Except.pure]

theorem bind_eq_ok {r : Parsed α} {f : α → Parsed β} {b : β} :
    (r >>= f) = .ok b ↔ ∃ a, r = .ok a ∧ f a = .ok b := by
  cases r <;> simp [bind, Except.bind]

theorem map_eq_ok {r : Parsed α} {f : α → β} {b : β} :
    r.map f = .ok b ↔ ∃ a, r = .ok a ∧ f a = b := by
  cases r <;> simp [Except.map]

@[simp] theorem refuse_ne_ok (p : GrammarProblem) (a : α) : (refuse p : Parsed α) ≠ .ok a := by
  simp [refuse]

@[simp] theorem inside_eq_ok {p : GrammarProblem} {r : Parsed α} {a : α} :
    inside p r = .ok a ↔ r = .ok a := by
  cases r with
  | ok b => exact Iff.rfl
  | error f =>
    have hinside : ∃ g, inside p (.error f : Parsed α) = .error g := ⟨_, rfl⟩
    obtain ⟨g, hg⟩ := hinside
    simp [hg]

/-- Something is accepted. -/
def Accepted (r : Parsed α) : Prop := ∃ a, r = .ok a

theorem exists_eq_ok {r : Parsed α} : (∃ a, r = .ok a) ↔ Accepted r := Iff.rfl

@[simp] theorem accepted_ok (a : α) : Accepted (.ok a : Parsed α) := ⟨a, rfl⟩

@[simp] theorem accepted_pure (a : α) : Accepted (pure a : Parsed α) := ⟨a, rfl⟩

@[simp] theorem not_accepted_refuse (p : GrammarProblem) : ¬ Accepted (refuse p : Parsed α) := by
  rintro ⟨a, ha⟩
  exact refuse_ne_ok p a ha

@[simp] theorem accepted_inside {p : GrammarProblem} {r : Parsed α} :
    Accepted (inside p r) ↔ Accepted r := by
  simp [Accepted]

@[simp] theorem accepted_map {r : Parsed α} {f : α → β} : Accepted (r.map f) ↔ Accepted r := by
  cases r <;> simp [Accepted, Except.map]

@[simp] theorem accepted_fmap {r : Parsed α} {f : α → β} : Accepted (f <$> r) ↔ Accepted r :=
  accepted_map

theorem accepted_bind {r : Parsed α} {f : α → Parsed β} :
    Accepted (r >>= f) ↔ ∃ a, r = .ok a ∧ Accepted (f a) := by
  simp only [Accepted, bind_eq_ok]
  exact exists_comm.trans (exists_congr fun a => exists_and_left)

/-- Where what becomes of the rest does not depend on the first part, both have to be accepted. -/
theorem accepted_bind_of_forall {r : Parsed α} {f : α → Parsed β} {p : Prop}
    (h : ∀ a, Accepted (f a) ↔ p) : Accepted (r >>= f) ↔ Accepted r ∧ p := by
  rw [accepted_bind]
  constructor
  · rintro ⟨a, ha, hf⟩
    exact ⟨⟨a, ha⟩, (h a).1 hf⟩
  · rintro ⟨⟨a, ha⟩, hp⟩
    exact ⟨a, ha, (h a).2 hp⟩

/-- A list is accepted where each of its parts is. -/
theorem accepted_all {f : α → Parsed β} {as : List α} :
    Accepted (all f as) ↔ ∀ a ∈ as, Accepted (f a) := by
  induction as with
  | nil => simp [all]
  | cons a as ih =>
    have hrest : ∀ b, Accepted (all f as >>= fun bs => pure (b :: bs)) ↔ Accepted (all f as) := by
      intro b
      rw [accepted_bind_of_forall (p := True) fun bs => iff_true_intro (accepted_pure _), and_true]
    rw [all, accepted_bind_of_forall hrest, ih, List.forall_mem_cons]

/-! ## Reports -/

/-- An error is among those that a refusal reports. -/
def Reports (r : Parsed α) (c : Cause) : Prop := ∃ f, r = .error f ∧ c ∈ f.links

variable {c : Cause}

@[simp] theorem not_reports_ok (a : α) : ¬ Reports (.ok a : Parsed α) c := by
  rintro ⟨f, hf, -⟩
  cases hf

@[simp] theorem not_reports_pure (a : α) : ¬ Reports (pure a : Parsed α) c := not_reports_ok a

@[simp] theorem reports_refuse {p : GrammarProblem} :
    Reports (refuse p : Parsed α) c ↔ c = .grammar p := by
  simp [Reports, refuse]

@[simp] theorem reports_map {r : Parsed α} {f : α → β} : Reports (r.map f) c ↔ Reports r c := by
  cases r <;> simp [Reports, Except.map]

theorem reports_bind {r : Parsed α} {f : α → Parsed β} :
    Reports (r >>= f) c ↔ Reports r c ∨ ∃ a, r = .ok a ∧ Reports (f a) c := by
  cases r <;> simp [Reports, bind, Except.bind]

/-- What is reported from inside something is where that is, or comes from it. -/
theorem reports_of_inside {p : GrammarProblem} {r : Parsed α} (h : Reports (inside p r) c) :
    c = .grammar p ∨ Reports r c := by
  obtain ⟨f, hf, hc⟩ := h
  cases r with
  | ok a => cases hf
  | error g =>
    have hg : (if g.isWorkflow then g.because (.grammar p) else g) = f := Except.error.inj hf
    rw [← hg] at hc
    split at hc
    · rcases List.mem_cons.1 hc with rfl | hc
      · exact Or.inl rfl
      · exact Or.inr ⟨g, rfl, hc⟩
    · exact Or.inr ⟨g, rfl, hc⟩

/-! ## Refusals by themselves -/

/-- Every failure with which something is refused satisfies a condition. -/
def RefusesWith (P : Failure → Prop) (r : Parsed α) : Prop := ∀ f, r = .error f → P f

/-- A problem with a part of a workflow by itself. It is about no cycle of references, no value is used
    in it as something that it is not, and all values in it can be shown. -/
structure IsOwnProblem (p : GrammarProblem) : Prop where
  noCycle : p.kind ≠ .jobCycle
  proper : ∀ m, p ≠ .misuse m
  writable : p ≠ .unwritable

/-- A condition holds of the failures of parts of a workflow by themselves, wherever these stand. -/
structure HoldsOfParts (P : Failure → Prop) : Prop where
  problem : ∀ {p}, IsOwnProblem p → P (.of (.grammar p))
  inside : ∀ {p f}, p.kind = .parse → P f → P (if f.isWorkflow then f.because (.grammar p) else f)

/-- A condition holds of the problems with which a part of a workflow is refused by itself. None of them
    is a context, which says where a part stands. -/
def HoldsOfProblems (P : Failure → Prop) : Prop :=
  ∀ p, IsOwnProblem p → p.kind ≠ .parse → P (.of (.grammar p))

theorem HoldsOfParts.problems {P : Failure → Prop} (hP : HoldsOfParts P) : HoldsOfProblems P :=
  fun _ hp _ => hP.problem hp

section

variable {P : Failure → Prop} {r : Parsed α} {f : α → Parsed β}

theorem refusesWith_ok (a : α) : RefusesWith P (.ok a : Parsed α) := nofun

theorem refusesWith_pure (a : α) : RefusesWith P (pure a : Parsed α) := refusesWith_ok a

theorem refusesWith_refuse {p : GrammarProblem} (h : P (.of (.grammar p))) :
    RefusesWith P (refuse p : Parsed α) := by
  rintro f ⟨⟩
  exact h

theorem RefusesWith.bind (hr : RefusesWith P r) (hf : ∀ a, r = .ok a → RefusesWith P (f a)) :
    RefusesWith P (r >>= f) := by
  cases r with
  | ok a => exact hf a rfl
  | error g => exact fun x hx => hr x (by cases hx; rfl)

theorem RefusesWith.map (hr : RefusesWith P r) (f : α → β) : RefusesWith P (r.map f) := by
  cases r with
  | ok a => exact refusesWith_ok _
  | error g => exact fun x hx => hr x (by cases hx; rfl)

theorem RefusesWith.inside (hr : RefusesWith P r) (hP : HoldsOfParts P) {p : GrammarProblem}
    (hp : p.kind = .parse) : RefusesWith P (Parsed.inside p r) := by
  cases r with
  | ok a => exact refusesWith_ok a
  | error g =>
    rintro x ⟨⟩
    exact hP.inside hp (hr g rfl)

theorem refusesWith_all {as : List α} (h : ∀ a ∈ as, RefusesWith P (f a)) :
    RefusesWith P (all f as) := by
  induction as with
  | nil => exact refusesWith_ok _
  | cons a as ih =>
    obtain ⟨ha, has⟩ := List.forall_mem_cons.1 h
    exact ha.bind fun _ _ => (ih has).bind fun _ _ => refusesWith_pure _

end

/-! ## Refusals that are about no cycle -/

/-- Nothing that is reported is a cycle of references. -/
def NoCycle (r : Parsed α) : Prop := ∀ c, Reports r c → c.kind ≠ .jobCycle

theorem noCycle_iff {r : Parsed α} :
    NoCycle r ↔ RefusesWith (fun f => ∀ c ∈ f.links, c.kind ≠ .jobCycle) r :=
  ⟨fun h f hf c hc => h c ⟨f, hf, hc⟩, fun h c ⟨f, hf, hc⟩ => h f hf c hc⟩

/-- The failures of parts by themselves are about no cycle. -/
theorem holdsOfParts_noCycle : HoldsOfParts fun f => ∀ c ∈ f.links, c.kind ≠ .jobCycle where
  problem hp := by simpa [Cause.kind] using hp.noCycle
  inside hp hf := by
    split
    · simpa [Cause.kind, hp] using hf
    · exact hf

end Runbook.Parsed
