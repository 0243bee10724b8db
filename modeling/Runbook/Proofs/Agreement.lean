import Runbook.Proofs.Passes

set_option autoImplicit false

/-! # Interpretations that agree

Two interpretations are compared, one in the middle of a document and one that begins with the same
ids. They agree if both fail, or both yield the same and leave the same behind: the world with what
has been asked, and the ids. What an interpretation yields anywhere, once some ids are known, it
yields when it is repeated. -/

namespace Runbook

namespace Interpretation

/-! ## Agreement -/

/-- A state in which the same is known of ids, and no container has been met. -/
def fresh (s : World × TagMemory) : World × TagMemory := (s.1, .start s.2.ids)

/-- Two interpretations, one of them from a fresh state, both fail or both yield the same. Then the
    ids and the world are the same as well, and a condition holds of the value and the memory. -/
def Agree {α : Type} (e : Setting) (s : World × TagMemory) (a b : Interpretation α)
    (Q : α → TagMemory → Prop) : Prop :=
  (∃ f s' f' t', a e s = (.error f, s') ∧ b e (fresh s) = (.error f', t')) ∨
    ∃ v s', a e s = (.ok v, s') ∧ b e (fresh s) = (.ok v, fresh s') ∧ Q v s'.2

namespace Agree

variable {α β : Type} {e : Setting} {s : World × TagMemory} {a b : Interpretation α}
  {f g : α → Interpretation β} {P Q : α → TagMemory → Prop} {R : β → TagMemory → Prop}

theorem pure {v : α} (h : Q v s.2) : Agree e s (Pure.pure v) (Pure.pure v) Q :=
  .inr ⟨v, s, rfl, rfl, h⟩

theorem bind (ha : Agree e s a b P)
    (hf : ∀ v s', a e s = (.ok v, s') → P v s'.2 → Agree e s' (f v) (g v) R) :
    Agree e s (a >>= f) (b >>= g) R := by
  rcases ha with ⟨x, s', x', t', hx, hx'⟩ | ⟨v, s', hv, hv', hP⟩
  · exact .inl ⟨x, s', x', t', Effect.bind_of_error hx, Effect.bind_of_error hx'⟩
  · rcases hf v s' hv hP with ⟨x, s₁, x', t₁, hx, hx'⟩ | ⟨u, s₁, hu, hu', hR⟩
    · exact .inl ⟨x, s₁, x', t₁, (Effect.bind_of_ok hv).trans hx, (Effect.bind_of_ok hv').trans hx'⟩
    · exact .inr ⟨u, s₁, (Effect.bind_of_ok hv).trans hu, (Effect.bind_of_ok hv').trans hu', hR⟩

theorem imp (ha : Agree e s a b P) (h : ∀ v s', a e s = (.ok v, s') → P v s'.2 → Q v s'.2) :
    Agree e s a b Q := by
  rcases ha with hfail | ⟨v, s', hv, hv', hP⟩
  · exact .inl hfail
  · exact .inr ⟨v, s', hv, hv', h v s' hv hP⟩

theorem of_eq {a' b' : Interpretation α} (ha : a e s = a' e s) (hb : b e (fresh s) = b' e (fresh s))
    (h : Agree e s a' b' Q) : Agree e s a b Q := by
  rw [Agree, ha, hb]
  exact h

theorem ofAction {a : Action α} (h : ∀ v, Q v s.2) :
    Agree e s (Interpretation.ofAction a) (Interpretation.ofAction a) Q := by
  rcases ha : a e s.1 with ⟨x | v, w⟩
  · refine .inl ⟨x, (w, s.2), x, (w, (fresh s).2), ?_, ?_⟩
    · simp only [Interpretation.ofAction, ha]
    · simp only [Interpretation.ofAction, fresh, ha]
  · refine .inr ⟨v, (w, s.2), ?_, ?_, h v⟩
    · simp only [Interpretation.ofAction, ha]
    · simp only [Interpretation.ofAction, fresh, ha]

theorem check {r r' : Except TagProblem α} (hr : ∀ v, r = .ok v ↔ r' = .ok v)
    (h : ∀ v, r = .ok v → Q v s.2) :
    Agree e s (Interpretation.check r) (Interpretation.check r') Q := by
  cases r with
  | ok v =>
    obtain rfl : r' = .ok v := (hr v).1 rfl
    exact .inr ⟨v, s, rfl, rfl, h v rfl⟩
  | error x =>
    cases r' with
    | ok v => cases (hr v).2 rfl
    | error x' => exact .inl ⟨_, _, _, _, rfl, rfl⟩

theorem under {tag : String} (ha : Agree e s a b Q) :
    Agree e s (Interpretation.under tag a) (Interpretation.under tag b) Q := by
  rcases ha with ⟨x, s', x', t', hx, hx'⟩ | ⟨v, s', hv, hv', hQ⟩
  · obtain ⟨y, hy⟩ : ∃ y, Interpretation.under tag a e s = (.error y, s') :=
      Effect.because_of_error hx
    obtain ⟨y', hy'⟩ : ∃ y', Interpretation.under tag b e (fresh s) = (.error y', t') :=
      Effect.because_of_error hx'
    exact .inl ⟨y, s', y', t', hy, hy'⟩
  · exact .inr ⟨v, s', Effect.because_of_ok hv, Effect.because_of_ok hv', hQ⟩

end Agree

variable {e : Setting} {s : World × TagMemory}

/-- An answer depends on the question only. -/
theorem agree_input (hidden : Bool) (payload : Node) {Q : Node → TagMemory → Prop}
    (h : ∀ t, Q (.text t) s.2) : Agree e s (input hidden payload) (input hidden payload) Q := by
  refine Agree.bind (P := fun _ m => m = s.2) (.check (fun _ => .rfl) fun _ _ => rfl) ?_
  intro q s₁ _ hs₁
  refine Agree.bind (P := fun _ m => m = s.2) ?_ fun t s₂ _ hs₂ => .pure (hs₂ ▸ h _)
  exact Agree.bind (P := fun _ m => m = s.2) (.ofAction fun _ => hs₁) fun _ _ _ hs₂ => .pure hs₂

/-- A part has a text, if it is one. -/
theorem agree_part (index : Nat) (item : Node) {Q : String → TagMemory → Prop}
    (h : ∀ t, item = .text t → Q t s.2) : Agree e s (part index item) (part index item) Q := by
  unfold part
  split
  · exact .pure (h _ rfl)
  · exact .inl ⟨_, _, _, _, rfl, rfl⟩

/-! ## Repetition -/

/-- An interpretation yields a value wherever some ids are known with their values, and changes
    nothing. -/
def Repeats {α : Type} (e : Setting) (ids : Idents) (a : Interpretation α) (v : α) : Prop :=
  ∀ ids', ids.Grows ids' → ∀ w, a e (w, .start ids') = (.ok v, (w, .start ids'))

namespace Repeats

variable {α β : Type} {ids ids' : Idents} {a : Interpretation α} {f : α → Interpretation β} {v : α}
  {u : β}

theorem pure : Repeats e ids (Pure.pure v) v := fun _ _ _ => rfl

theorem bind (ha : Repeats e ids a v) (hf : Repeats e ids (f v) u) : Repeats e ids (a >>= f) u :=
  fun ids' h w => (Effect.bind_of_ok (ha ids' h w)).trans (hf ids' h w)

theorem under {tag : String} (ha : Repeats e ids a v) :
    Repeats e ids (Interpretation.under tag a) v :=
  fun ids' h w => Effect.because_of_ok (ha ids' h w)

theorem mono (ha : Repeats e ids a v) (h : ids.Grows ids') : Repeats e ids' a v :=
  fun ids'' h' => ha ids'' (h.trans h')

end Repeats

end Interpretation

end Runbook
