import Runbook.Remote.Sftp

set_option autoImplicit false

/-! # Runs of actions

What a run of an action leaves behind, for the operations from which the transfers are built. Every
call is recorded, and a fault may strike it; a file session makes three calls before its body and
two after it, and changes nothing else in the world. -/

namespace Runbook

/-! ## Calls and faults -/

namespace World

/-- A world in which some more calls have been made. -/
def after (w : World) (calls : List Event) : World := { w with events := w.events ++ calls }

@[simp] theorem after_files (w : World) (calls : List Event) : (w.after calls).files = w.files :=
  rfl

@[simp] theorem after_events (w : World) (calls : List Event) :
    (w.after calls).events = w.events ++ calls := rfl

@[simp] theorem after_nil (w : World) : w.after [] = w := by simp [after]

@[simp] theorem after_after (w : World) (calls more : List Event) :
    (w.after calls).after more = w.after (calls ++ more) := by simp [after]

end World

namespace Setting

/-- No fault strikes any of some calls that are made one after the other. -/
def Spares (e : Setting) (past : List Event) : List Event → Prop
  | [] => True
  | call :: calls => e.fault past call = none ∧ e.Spares (past ++ [call]) calls

theorem spares_append (e : Setting) (past calls more : List Event) :
    e.Spares past (calls ++ more) ↔ e.Spares past calls ∧ e.Spares (past ++ calls) more := by
  induction calls generalizing past with
  | nil => simp [Spares]
  | cons call calls ih => simp [Spares, ih, and_assoc]

/-- Where no fault strikes at all, every call is spared. -/
theorem spares_of_no_fault {e : Setting} (h : ∀ past call, e.fault past call = none)
    (past calls : List Event) : e.Spares past calls := by
  induction calls generalizing past with
  | nil => trivial
  | cons call calls ih => exact ⟨h past call, ih _⟩

/-- A run from one world to another in which no call is struck by a fault. -/
def SparesRun (e : Setting) (w w' : World) : Prop :=
  ∃ calls, w'.events = w.events ++ calls ∧ e.Spares w.events calls

/-- If no call of a run is struck, none is in either of its parts. -/
theorem SparesRun.split {e : Setting} {w w' w'' : World} (h : e.SparesRun w w'')
    (hfirst : w.events <+: w'.events) (hsecond : w'.events <+: w''.events) :
    e.SparesRun w w' ∧ e.SparesRun w' w'' := by
  obtain ⟨all, hall, hspared⟩ := h
  obtain ⟨calls, hcalls⟩ := hfirst
  obtain ⟨more, hmore⟩ := hsecond
  obtain rfl : all = calls ++ more := by
    rw [← hmore, ← hcalls, List.append_assoc] at hall
    exact (List.append_cancel_left hall).symm
  obtain ⟨hfirst, hsecond⟩ := (e.spares_append _ _ _).1 hspared
  exact ⟨⟨calls, hcalls.symm, hfirst⟩, more, hmore.symm, hcalls ▸ hsecond⟩

theorem SparesRun.spares {e : Setting} {w : World} {calls : List Event}
    (h : e.SparesRun w (w.after calls)) : e.Spares w.events calls := by
  obtain ⟨calls', hcalls, hspared⟩ := h
  obtain rfl : calls = calls' := List.append_cancel_left hcalls
  exact hspared

theorem SparesRun.fault_eq_none {e : Setting} {w : World} {call : Event}
    (h : e.SparesRun w (w.after [call])) : e.fault w.events call = none := h.spares.1

end Setting

namespace Effect

variable {σ α : Type}

theorem bind_of_ok {β : Type} {m : Effect σ α} {f : α → Effect σ β} {e : Setting} {s s' : σ} {a : α}
    (h : m e s = (.ok a, s')) : (m >>= f) e s = f a e s' := by
  rw [bind_apply, h]

theorem bind_of_error {β : Type} {m : Effect σ α} {f : α → Effect σ β} {e : Setting} {s s' : σ}
    {x : Failure} (h : m e s = (.error x, s')) : (m >>= f) e s = (.error x, s') := by
  rw [bind_apply, h]

/-- An action that succeeds succeeds in its first part, and goes on from there. -/
theorem exists_of_bind_ok {β : Type} {m : Effect σ α} {f : α → Effect σ β} {e : Setting} {s : σ}
    {b : β} (h : ((m >>= f) e s).1 = .ok b) :
    ∃ a s', m e s = (.ok a, s') ∧ (f a e s').1 = .ok b := by
  rcases hm : m e s with ⟨x | a, s'⟩
  · rw [bind_of_error hm] at h
    cases h
  · rw [bind_of_ok hm] at h
    exact ⟨a, s', rfl, h⟩

/-- An error that is put in front of failures changes neither a success nor the state. -/
theorem because_of_ok {m : Effect σ α} {applies : Failure → Bool} {c : Cause} {e : Setting}
    {s s' : σ} {a : α} (h : m e s = (.ok a, s')) : m.because applies c e s = (.ok a, s') := by
  unfold because mapFailure
  rw [h]

theorem because_of_error {m : Effect σ α} {applies : Failure → Bool} {c : Cause} {e : Setting}
    {s s' : σ} {x : Failure} (h : m e s = (.error x, s')) :
    ∃ y, m.because applies c e s = (.error y, s') := by
  unfold because mapFailure
  rw [h]
  exact ⟨_, rfl⟩

theorem because_snd (m : Effect σ α) (applies : Failure → Bool) (c : Cause) (e : Setting) (s : σ) :
    (m.because applies c e s).2 = (m e s).2 := by
  unfold because mapFailure
  rcases m e s with ⟨x | a, s'⟩ <;> rfl

/-- An action in two parts succeeds where no fault strikes it, if each of its parts does. -/
theorem ok_of_sparesRun {first second : Effect World Unit} {e : Setting} {w : World}
    (hspared : e.SparesRun w ((first >>= fun _ => second) e w).2)
    (hcalls : w.events <+: (first e w).2.events)
    (hfirst : e.SparesRun w (first e w).2 → (first e w).1 = .ok ())
    (hmore : (first e w).1 = .ok () →
      (first e w).2.events <+: (second e (first e w).2).2.events)
    (hsecond : (first e w).1 = .ok () →
      e.SparesRun (first e w).2 (second e (first e w).2).2 →
      (second e (first e w).2).1 = .ok ()) :
    ((first >>= fun _ => second) e w).1 = .ok () := by
  cases hr : (first e w).1 with
  | error x =>
      rw [bind_of_error (Prod.ext hr rfl)] at hspared
      rw [hfirst hspared] at hr
      cases hr
  | ok u =>
      rw [bind_of_ok (Prod.ext hr rfl)] at hspared ⊢
      exact hsecond hr (hspared.split hcalls (hmore hr)).2

theorem attempt_apply (m : Effect σ α) (e : Setting) (s : σ) :
    m.attempt e s = (.ok (m e s).1, (m e s).2) := rfl

/-- A clean-up is run on whatever state its effect leaves. -/
theorem andThenAlways_snd (m : Effect σ α) (cleanUp : Effect σ Unit) (e : Setting) (s : σ) :
    (m.andThenAlways cleanUp e s).2 = (cleanUp e (m e s).2).2 := by
  unfold andThenAlways
  rcases m e s with ⟨x | a, s'⟩ <;> rcases hc : cleanUp e s' with ⟨y | u, s''⟩ <;> simp only [hc]

theorem ok_of_andThenAlways {m : Effect σ α} {cleanUp : Effect σ Unit} {e : Setting} {s : σ} {a : α}
    (h : (m.andThenAlways cleanUp e s).1 = .ok a) : (m e s).1 = .ok a := by
  unfold andThenAlways at h
  rcases hm : m e s with ⟨x | b, s'⟩ <;> rw [hm] at h <;>
    rcases hc : cleanUp e s' with ⟨y | u, s''⟩ <;> simp_all

/-- A clean-up that succeeds leaves the outcome as it is. -/
theorem andThenAlways_fst {m : Effect σ α} {cleanUp : Effect σ Unit} {e : Setting} {s : σ}
    (h : (cleanUp e (m e s).2).1 = .ok ()) : (m.andThenAlways cleanUp e s).1 = (m e s).1 := by
  unfold andThenAlways
  rcases hm : m e s with ⟨x | b, s'⟩ <;> rw [hm] at h <;>
    rcases hc : cleanUp e s' with ⟨y | u, s''⟩ <;> simp_all

end Effect

namespace Action

theorem perform_of_spared {call : Event} {e : Setting} {w : World}
    (h : e.fault w.events call = none) : perform call e w = (.ok (), w.after [call]) := by
  simp [perform, h, World.after]

theorem perform_of_struck {call : Event} {e : Setting} {w : World} {x : Failure}
    (h : e.fault w.events call = some x) : perform call e w = (.error x, w.after [call]) := by
  simp [perform, h, World.after]

@[simp] theorem perform_snd (call : Event) (e : Setting) (w : World) :
    (perform call e w).2 = w.after [call] := by
  cases h : e.fault w.events call with
  | none => rw [perform_of_spared h]
  | some x => rw [perform_of_struck h]

end Action

/-! ## A setting in which nothing goes wrong -/

/-- A setting in which every call succeeds. -/
def Setting.calm : Setting where
  sshPort := 22
  connectTimeout := .ofNat 30
  stderrTail := 4000
  debug := false
  platform := "linux"
  home _ := none
  cpus := some 4
  process _ _ := ⟨0, "", none⟩
  result _ _ := ⟨[], 0⟩
  fault _ _ := none
  delivery _ := .ascending
  operator := .scripted

/-- A host to which such a setting connects. -/
def Target.sample : Target := ⟨"host", "user", "secret", 22⟩

/-- A world in which nothing has happened yet. -/
def World.initial (files : FileTree) (peer : Peer) : World where
  out := ""
  err := ""
  events := []
  files := files
  peer := peer
  lines := []
  hidden := []

/-! ## Sessions -/

namespace Session

open Action

variable {α : Type}

/-- A call that is made in some context is recorded; it succeeds if it is spared. -/
theorem attempting_perform_of_spared (context : RemoteProblem) {call : Event} {e : Setting}
    {w : World} (h : e.fault w.events call = none) :
    attempting context (perform call) e w = (.ok (), w.after [call]) :=
  Effect.because_of_ok (perform_of_spared h)

theorem attempting_perform_of_struck (context : RemoteProblem) {call : Event} {e : Setting}
    {w : World} {x : Failure} (h : e.fault w.events call = some x) :
    ∃ y, attempting context (perform call) e w = (.error y, w.after [call]) :=
  Effect.because_of_error (perform_of_struck h)

/-- The calls that open a session with a host. -/
def connecting (target : Target) (e : Setting) : List Event :=
  [.policy, .connect target e.connectTimeout]

theorem openClient_of_spared {target : Target} {e : Setting} {w : World}
    (h : e.Spares w.events (connecting target e)) :
    openClient target e w = (.ok (), w.after (connecting target e)) := by
  obtain ⟨hpolicy, hconnect, -⟩ := h
  unfold openClient
  rw [Effect.bind_of_ok (perform_of_spared hpolicy), Effect.bind_apply]
  have hc : perform (.connect target e.connectTimeout) e (w.after [.policy])
      = (.ok (), w.after (connecting target e)) := by
    rw [perform_of_spared hconnect]
    simp [connecting]
  simp only [Effect.setting_apply, Effect.bind_apply, Effect.attempt, hc, Effect.pure_apply]

/-- What is reported when a fault strikes the connection. If the fault is one of a session or of the
    system beneath it, what was made for the session is closed first, and that may fail as well. -/
def connectFailure (target : Target) (e : Setting) (past : List Event) (x : Failure) : Failure :=
  if x.isSessionFault then
    match e.fault (past ++ connecting target e) .close with
    | none => x.because (.onPeer (.connect target.address target.port target.username))
    | some y => y.during x
  else x

/-- A session that cannot be opened is closed again if the fault is one of a session or of the system
    beneath it, and after no other fault. -/
theorem openClient_of_unconnected {target : Target} {e : Setting} {w : World} {x : Failure}
    (hpolicy : e.fault w.events .policy = none)
    (hconnect : e.fault (w.events ++ [.policy]) (.connect target e.connectTimeout) = some x) :
    openClient target e w = (.error (connectFailure target e w.events x),
      w.after (connecting target e ++ if x.isSessionFault then [.close] else [])) := by
  have hc : perform (.connect target e.connectTimeout) e (w.after [.policy])
      = (.error x, w.after (connecting target e)) := by
    rw [perform_of_struck hconnect]
    simp [connecting]
  unfold openClient connectFailure
  rw [Effect.bind_of_ok (perform_of_spared hpolicy), Effect.bind_apply]
  simp only [Effect.setting_apply, Effect.bind_apply, Effect.attempt_apply, hc]
  by_cases hx : x.isSessionFault = true
  · rw [if_pos hx, if_pos hx, if_pos hx, Effect.bind_apply, Effect.attempt_apply]
    cases hclose : e.fault (w.events ++ connecting target e) .close with
    | none =>
      rw [perform_of_spared (w := w.after (connecting target e)) hclose, World.after_after]
      rfl
    | some y =>
      rw [perform_of_struck (w := w.after (connecting target e)) hclose, World.after_after]
      rfl
  · rw [if_neg hx, if_neg hx, if_neg hx, List.append_nil]
    rfl

/-- A session that cannot be opened fails, and leaves nothing but its calls. -/
theorem openClient_of_struck {target : Target} {e : Setting} {w : World}
    (h : ¬ e.Spares w.events (connecting target e)) :
    ∃ x calls, openClient target e w = (.error x, w.after calls) ∧ ¬ e.Spares w.events calls := by
  cases hpolicy : e.fault w.events .policy with
  | some x =>
      refine ⟨x, [.policy], Effect.bind_of_error (perform_of_struck hpolicy), ?_⟩
      simp [Setting.Spares, hpolicy]
  | none =>
    cases hconnect : e.fault (w.events ++ [.policy]) (.connect target e.connectTimeout) with
    | none => exact absurd ⟨hpolicy, hconnect, trivial⟩ h
    | some x =>
      refine ⟨_, _, openClient_of_unconnected hpolicy hconnect, fun hspared => h ?_⟩
      -- whatever is called after the connection, the calls hold the one that was struck
      exact ((e.spares_append _ _ _).1 hspared).1

end Session

namespace Sftp

open Action Session

variable {α : Type}

/-- The calls that open a file session with a host. -/
def opening (target : Target) (e : Setting) : List Event := connecting target e ++ [.openSftp]

/-- The calls that close a file session. -/
def closing : List Event := [.closeSftp, .close]

/-- A file session that cannot be opened fails, and leaves nothing but its calls. -/
theorem session_of_struck {target : Target} (body : Action α) {e : Setting} {w : World}
    (h : ¬ e.Spares w.events (opening target e)) :
    ∃ x calls, withConnection target (withSftp body) e w = (.error x, w.after calls) ∧
      ¬ e.Spares w.events calls := by
  unfold withConnection
  by_cases hc : e.Spares w.events (connecting target e)
  · rw [Effect.bind_of_ok (openClient_of_spared hc)]
    cases hs : e.fault (w.after (connecting target e)).events .openSftp with
    | none =>
      exact absurd ((e.spares_append _ _ [.openSftp]).2 ⟨hc, hs, trivial⟩) h
    | some y =>
      obtain ⟨x, hx⟩ := attempting_perform_of_struck .openSftp hs
      have hb : withSftp body e (w.after (connecting target e))
          = (.error x, w.after (opening target e)) := by
        rw [withSftp, Effect.bind_of_error (show start e _ = _ from hx), World.after_after, opening]
      have hsnd := Effect.andThenAlways_snd (withSftp body) (perform .close) e
        (w.after (connecting target e))
      cases hr : ((withSftp body).andThenAlways (perform .close) e
        (w.after (connecting target e))).1 with
      | ok a =>
        have := Effect.ok_of_andThenAlways hr
        rw [hb] at this
        cases this
      | error z =>
        refine ⟨z, opening target e ++ [.close], Prod.ext hr ?_, fun hspared => ?_⟩
        · rw [hsnd, hb, perform_snd, World.after_after]
        · exact h ((e.spares_append _ _ _).1 hspared).1
  · obtain ⟨x, calls, hx, hstruck⟩ := openClient_of_struck hc
    exact ⟨x, calls, Effect.bind_of_error hx, hstruck⟩

/-- A file session that is opened runs its body, and then closes what was opened. -/
theorem session_of_spared {target : Target} {e : Setting} {w : World} (body : Action α)
    (h : e.Spares w.events (opening target e)) :
    (withConnection target (withSftp body) e w).2
        = (body e (w.after (opening target e))).2.after closing ∧
      (∀ a, (withConnection target (withSftp body) e w).1 = .ok a →
        (body e (w.after (opening target e))).1 = .ok a) ∧
      (e.Spares (body e (w.after (opening target e))).2.events closing →
        (withConnection target (withSftp body) e w).1
          = (body e (w.after (opening target e))).1) := by
  obtain ⟨hc, hs, -⟩ := (e.spares_append _ _ _).1 h
  have hstart : start e (w.after (connecting target e)) = (.ok (), w.after (opening target e)) := by
    unfold start
    rw [attempting_perform_of_spared _ hs, World.after_after]
    rfl
  have houter : withConnection target (withSftp body) e w
      = (withSftp body).andThenAlways (perform .close) e (w.after (connecting target e)) :=
    Effect.bind_of_ok (openClient_of_spared hc)
  have hinner : withSftp body e (w.after (connecting target e))
      = body.andThenAlways (perform .closeSftp) e (w.after (opening target e)) :=
    Effect.bind_of_ok hstart
  have hsnd : (withSftp body e (w.after (connecting target e))).2
      = (body e (w.after (opening target e))).2.after [.closeSftp] := by
    rw [hinner, Effect.andThenAlways_snd, perform_snd]
  rw [houter]
  refine ⟨?_, fun a ha => ?_, fun ⟨hfirst, hlast, _⟩ => ?_⟩
  · rw [Effect.andThenAlways_snd, perform_snd, hsnd, World.after_after]
    rfl
  · have := Effect.ok_of_andThenAlways ha
    rw [hinner] at this
    exact Effect.ok_of_andThenAlways this
  · rw [Effect.andThenAlways_fst, hinner, Effect.andThenAlways_fst]
    · rw [perform_of_spared hfirst]
    · rw [hsnd, perform_of_spared hlast]

/-- A file session that succeeds has been opened, and its body has succeeded. -/
theorem session_of_ok {target : Target} {body : Action α} {e : Setting} {w : World} {a : α}
    (hok : (withConnection target (withSftp body) e w).1 = .ok a) :
    (body e (w.after (opening target e))).1 = .ok a := by
  by_cases hopen : e.Spares w.events (opening target e)
  · exact (session_of_spared body hopen).2.1 a hok
  · obtain ⟨x, calls, hx, -⟩ := session_of_struck body hopen
    rw [hx] at hok
    cases hok

/-- A file session succeeds where no fault strikes it, if its body does. -/
theorem session_ok {target : Target} {body : Action α} {e : Setting} {w : World} {a : α}
    (hspared : e.SparesRun w (withConnection target (withSftp body) e w).2)
    (hcalls : (w.after (opening target e)).events
      <+: (body e (w.after (opening target e))).2.events)
    (hbody : e.Spares w.events (opening target e) →
      e.SparesRun (w.after (opening target e)) (body e (w.after (opening target e))).2 →
      (body e (w.after (opening target e))).1 = .ok a) :
    (withConnection target (withSftp body) e w).1 = .ok a := by
  by_cases hopen : e.Spares w.events (opening target e)
  · obtain ⟨hsnd, -, hclose⟩ := session_of_spared body hopen
    rw [hsnd] at hspared
    obtain ⟨hmain, hclosing⟩ := hspared.split
      ((List.prefix_append _ _).trans hcalls) (List.prefix_append _ closing)
    rw [hclose hclosing.spares, hbody hopen (hmain.split (List.prefix_append _ _) hcalls).2]
  · obtain ⟨x, calls, hx, hstruck⟩ := session_of_struck body hopen
    rw [hx] at hspared
    exact absurd hspared.spares hstruck

/-! ## The status of a path -/

/-- The status of a path is what is seen there, if the call is spared. -/
theorem stat_of_spared {path : Path} (v : Option RemoteView) {e : Setting} {w : World}
    (h : e.fault w.events (.stat path.toText) = none) :
    stat path v e w = (.ok v, w.after [.stat path.toText]) := by
  have hcall : statCall path v e w = (.ok v, w.after [.stat path.toText]) :=
    Effect.bind_of_ok (perform_of_spared h)
  rw [stat, Effect.bind_apply, Effect.attempt_apply, hcall]
  rfl

/-- A fault that strikes the call for a status ends in a failure, or in nothing being found. -/
theorem stat_of_struck {path : Path} (v : Option RemoteView) {e : Setting} {w : World} {x : Failure}
    (h : e.fault w.events (.stat path.toText) = some x) :
    (∃ y, stat path v e w = (.error y, w.after [.stat path.toText])) ∨
      stat path v e w = (.ok none, w.after [.stat path.toText]) := by
  have hcall : statCall path v e w = (.error x, w.after [.stat path.toText]) :=
    Effect.bind_of_error (perform_of_struck h)
  rw [stat, Effect.bind_apply, Effect.attempt_apply, hcall]
  by_cases hx : x.isA .fileNotFound = true
  · refine Or.inr ?_
    simp only [hx, if_true]
    rfl
  · refine Or.inl ?_
    simp only [hx]
    exact Effect.because_of_error (Effect.fail_apply x e _)

end Sftp
end Runbook
