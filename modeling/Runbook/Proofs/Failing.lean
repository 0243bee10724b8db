import Runbook.Proofs.Runs

set_option autoImplicit false

/-! # How effects fail

What an effect may fail with, whatever state it starts from. A condition on failures that holds of each
part of an effect holds of the whole, so the failures of an operation are known from those of the calls
that it is built from. Where a clean-up fails its own failure stands in front; so a condition that looks
at the outermost error has to hold of both. -/

namespace Runbook

namespace Effect

variable {σ α β : Type} {e : Setting} {P Q : Failure → Prop}

/-- An effect that fails in a context fails with its own failure, or with that in the context. -/
theorem because_eq_of_error {m : Effect σ α} {s s' : σ} {x : Failure} (h : m e s = (.error x, s'))
    (applies : Failure → Bool) (c : Cause) :
    m.because applies c e s = (.error (if applies x then x.because c else x), s') := by
  unfold because mapFailure
  rw [h]

/-- Every failure of an effect in a setting satisfies a condition. -/
def FailsOnly (m : Effect σ α) (e : Setting) (P : Failure → Prop) : Prop :=
  ∀ s f, (m e s).1 = .error f → P f

namespace FailsOnly

variable {m : Effect σ α} {f : α → Effect σ β}

theorem mono (hm : m.FailsOnly e P) (h : ∀ f, P f → Q f) : m.FailsOnly e Q :=
  fun s f hf => h f (hm s f hf)

theorem pure (a : α) : (Pure.pure a : Effect σ α).FailsOnly e P := fun _ _ h => by cases h

theorem fail {x : Failure} (h : P x) : (Effect.fail x : Effect σ α).FailsOnly e P :=
  fun _ _ hf => by cases hf; exact h

theorem modify (change : σ → σ) : (Effect.modify change).FailsOnly e P := fun _ _ h => by cases h

theorem bind (hm : m.FailsOnly e P) (hf : ∀ a, (f a).FailsOnly e P) : (m >>= f).FailsOnly e P := by
  intro s x hx
  rcases hr : m e s with ⟨y | a, s'⟩
  · rw [bind_of_error hr] at hx
    cases hx
    exact hm s x (congrArg Prod.fst hr)
  · rw [bind_of_ok hr] at hx
    exact hf a s' x hx

theorem setting {f : Setting → Effect σ β} (hf : (f e).FailsOnly e P) :
    (Effect.setting >>= f).FailsOnly e P := hf

theorem get {f : σ → Effect σ β} (hf : ∀ s, (f s).FailsOnly e P) :
    (Effect.get >>= f).FailsOnly e P := fun s => hf s s

theorem ite {p : Prop} [Decidable p] {n : Effect σ α} (hm : m.FailsOnly e P)
    (hn : n.FailsOnly e P) : (if p then m else n).FailsOnly e P := by
  split
  · exact hm
  · exact hn

/-- An outcome that is kept as a value is no failure. -/
theorem attempt_bind {f : Except Failure α → Effect σ β} (hm : m.FailsOnly e Q)
    (hok : ∀ a, (f (.ok a)).FailsOnly e P) (herror : ∀ x, Q x → (f (.error x)).FailsOnly e P) :
    (m.attempt >>= f).FailsOnly e P := by
  intro s x hx
  rw [bind_apply, attempt_apply] at hx
  cases hr : (m e s).1 with
  | ok a =>
    rw [hr] at hx
    exact hok a _ x hx
  | error y =>
    rw [hr] at hx
    exact herror y (hm s y hr) _ x hx

/-- An error in front of the failures to which it applies. -/
theorem because {applies : Failure → Bool} {c : Cause} (hm : m.FailsOnly e Q)
    (happlies : ∀ x, Q x → applies x = true → P (x.because c))
    (hother : ∀ x, Q x → applies x = false → P x) : (m.because applies c).FailsOnly e P := by
  intro s x hx
  unfold Effect.because mapFailure at hx
  rcases hr : m e s with ⟨y | a, s'⟩
  · have hy := hm s y (congrArg Prod.fst hr)
    rw [hr] at hx
    dsimp only at hx
    split at hx
    · next h => cases hx; exact happlies _ hy h
    · next h => cases hx; exact hother _ hy (Bool.eq_false_iff.2 h)
  · rw [hr] at hx
    cases hx

/-- Either an effect or its clean-up fails, and the failure of the clean-up stands in front. -/
theorem andThenAlways {cleanUp : Effect σ Unit} (hm : m.FailsOnly e P)
    (hcleanUp : cleanUp.FailsOnly e Q) (hQ : ∀ y, Q y → P y)
    (hduring : ∀ x y, Q y → P (y.during x)) : (m.andThenAlways cleanUp).FailsOnly e P := by
  intro s x hx
  unfold Effect.andThenAlways at hx
  rcases hr : m e s with ⟨y | a, s'⟩ <;> rcases hc : cleanUp e s' with ⟨z | u, s''⟩ <;>
    rw [hr] at hx <;> simp only [hc] at hx <;> cases hx
  · exact hduring _ z (hcleanUp s' z (congrArg Prod.fst hc))
  · exact hm s x (congrArg Prod.fst hr)
  · exact hQ x (hcleanUp s' x (congrArg Prod.fst hc))

end FailsOnly
end Effect

namespace Action

/-- A call fails with the fault that strikes it. -/
theorem failsOnly_perform {e : Setting} {P : Failure → Prop} {call : Event}
    (h : ∀ past x, e.fault past call = some x → P x) : (perform call).FailsOnly e P := by
  intro w f hf
  cases hx : e.fault w.events call with
  | none => rw [perform_of_spared hx] at hf; cases hf
  | some x =>
    rw [perform_of_struck hx] at hf
    cases hf
    exact h _ _ hx

end Action
end Runbook
