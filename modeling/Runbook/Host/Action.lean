import Runbook.Host.World

set_option autoImplicit false

/-! # Effects and actions

An effect runs in a setting and on a state. It yields a value or fails, and leaves a state behind
either way: what was done before a failure stays done. An action is an effect on the world. -/

namespace Runbook

/-- What runs in a setting, changes a state, and yields a value or fails. -/
def Effect (σ α : Type) : Type := Setting → σ → Except Failure α × σ

namespace Effect

variable {σ α β : Type}

/-- Does nothing and yields a value. -/
protected def pure (a : α) : Effect σ α := fun _ s => (.ok a, s)

/-- Goes on with the value of an effect. A failure ends the whole. -/
protected def bind (m : Effect σ α) (f : α → Effect σ β) : Effect σ β := fun e s =>
  match m e s with
  | (.ok a, s) => f a e s
  | (.error x, s) => (.error x, s)

instance : Monad (Effect σ) where
  pure := Effect.pure
  bind := Effect.bind

/-- Fails. -/
def fail (x : Failure) : Effect σ α := fun _ s => (.error x, s)

/-- Fails with an error that has no other behind it. -/
def failWith (c : Cause) : Effect σ α := fail (.of c)

/-- Yields what an outcome holds, or fails with it. -/
def ofExcept (r : Except Failure α) : Effect σ α := fun _ s => (r, s)

/-- The outcome of an effect, as a value. -/
def attempt (m : Effect σ α) : Effect σ (Except Failure α) := fun e s =>
  let (r, s) := m e s
  (.ok r, s)

/-- Replaces the failure of an effect. -/
def mapFailure (m : Effect σ α) (f : Failure → Failure) : Effect σ α := fun e s =>
  match m e s with
  | (.ok a, s) => (.ok a, s)
  | (.error x, s) => (.error (f x), s)

/-- Puts an error in front of the failures that satisfy a condition. -/
def because (m : Effect σ α) (applies : Failure → Bool) (c : Cause) : Effect σ α :=
  m.mapFailure fun x => if applies x then Failure.because c x else x

/-- Ends an effect with a clean-up that takes place in any case. If the clean-up fails as well, its
    failure stands in front. -/
def andThenAlways (m : Effect σ α) (cleanUp : Effect σ Unit) : Effect σ α := fun e s =>
  match m e s with
  | (.ok a, s) =>
    match cleanUp e s with
    | (.ok (), s) => (.ok a, s)
    | (.error x, s) => (.error x, s)
  | (.error x, s) =>
    match cleanUp e s with
    | (.ok (), s) => (.error x, s)
    | (.error y, s) => (.error (y.during x), s)

/-- The setting. -/
def setting : Effect σ Setting := fun e s => (.ok e, s)

/-- The state. -/
def get : Effect σ σ := fun _ s => (.ok s, s)

/-- Changes the state. -/
def modify (f : σ → σ) : Effect σ Unit := fun _ s => (.ok (), f s)

/-- Runs an effect in a changed setting. -/
def within (change : Setting → Setting) (m : Effect σ α) : Effect σ α := fun e s => m (change e) s

/-! ## What each operation does -/

@[simp] theorem pure_apply (a : α) (e : Setting) (s : σ) :
    (pure a : Effect σ α) e s = (.ok a, s) := rfl

theorem bind_apply (m : Effect σ α) (f : α → Effect σ β) (e : Setting) (s : σ) :
    (m >>= f) e s = match m e s with
      | (.ok a, s) => f a e s
      | (.error x, s) => (.error x, s) := rfl

@[simp] theorem fail_apply (x : Failure) (e : Setting) (s : σ) :
    (fail x : Effect σ α) e s = (.error x, s) := rfl

@[simp] theorem setting_apply (e : Setting) (s : σ) :
    (setting : Effect σ Setting) e s = (.ok e, s) := rfl

@[simp] theorem get_apply (e : Setting) (s : σ) : (get : Effect σ σ) e s = (.ok s, s) := rfl

@[simp] theorem modify_apply (f : σ → σ) (e : Setting) (s : σ) :
    modify f e s = (.ok (), f s) := rfl

instance : LawfulMonad (Effect σ) := LawfulMonad.mk' _
  (by
    intro α m; funext e s
    show (m >>= fun a => pure a) e s = m e s
    rw [bind_apply]; rcases m e s with ⟨r | a, s'⟩ <;> rfl)
  (by intros; rfl)
  (by
    intro α β γ m f g; funext e s
    simp only [bind_apply]; rcases m e s with ⟨r | a, s'⟩ <;> rfl)

end Effect

/-- An effect on the world. -/
abbrev Action := Effect World

namespace Action

/-- Makes a call to the outside. It is recorded first; then a fault may strike it. -/
def perform (call : Event) : Action Unit := fun e w =>
  let w' := { w with events := w.events ++ [call] }
  match e.fault w.events call with
  | none => (.ok (), w')
  | some x => (.error x, w')

/-- Makes a call and forgets how it went. -/
def note (call : Event) : Action Unit :=
  Effect.modify fun w => { w with events := w.events ++ [call] }

/-- Writes text to the output. -/
def write (s : String) : Action Unit := Effect.modify fun w => { w with out := w.out ++ s }

/-- Writes a line to the output. -/
def writeLine (s : String) : Action Unit := write (s ++ "\n")

/-- Writes a line to the error output. -/
def writeErrorLine (s : String) : Action Unit :=
  Effect.modify fun w => { w with err := w.err ++ (s ++ "\n") }

end Action
end Runbook
