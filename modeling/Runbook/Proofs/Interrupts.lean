import Runbook.Proofs.CleanUps
import Runbook.Proofs.Processes

set_option autoImplicit false

/-! # Interrupts

An interrupt from the keyboard is raised by a call, as a fault is. Nothing that a single task does puts
it into a context or passes over it, but a clean-up that is made for it may raise something else, which
then takes its place. So whether a task ends with an interrupt is seen from its calls: the last of them
that raises anything decides. -/

namespace Runbook

open Action

/-! ## The kind of interrupts -/

namespace Failure

/-- Whether a failure is an interrupt from the keyboard. -/
def isInterrupt (f : Failure) : Bool := f.isA .keyboardInterrupt

/-- An interrupt is of the kinds only that interrupts are of. -/
theorem isA_of_isInterrupt {f : Failure} (h : f.isInterrupt = true) (k : Kind) :
    f.isA k = Kind.keyboardInterrupt.isA k := by
  unfold isInterrupt isA Cause.isA at *
  cases hkind : f.head.kind with
  | keyboardInterrupt => rfl
  | _ => rw [hkind] at h; cases h

theorem not_isInterrupt_of_isA {f : Failure} {k : Kind} (h : f.isA k = true)
    (hk : Kind.keyboardInterrupt.isA k = false) : f.isInterrupt = false := by
  rw [← Bool.not_eq_true]
  intro hf
  rw [isA_of_isInterrupt hf, hk] at h
  cases h

theorem not_isInterrupt_of_isWorkflow {f : Failure} (h : f.isWorkflow = true) :
    f.isInterrupt = false := not_isInterrupt_of_isA h rfl

theorem not_isException_of_isInterrupt {f : Failure} (h : f.isInterrupt = true) :
    f.isException = false := isA_of_isInterrupt h _

theorem not_isSessionFault_of_isInterrupt {f : Failure} (h : f.isInterrupt = true) :
    f.isSessionFault = false := by
  rw [isSessionFault, isA_of_isInterrupt h, isA_of_isInterrupt h]
  rfl

/-- What is put into a context is an interrupt if it has been one, as the context is put in front of
    faults of sessions only. -/
theorem isInterrupt_of_reported {x f : Failure} (h : Reported x f) :
    f.isInterrupt = x.isInterrupt := by
  obtain ⟨context, hcontext, rfl⟩ := h
  cases hx : x.isSessionFault with
  | false => rw [inContext, hx]; rfl
  | true =>
    have hworkflow : (x.inContext context).isWorkflow = true := isWorkflow_inContext hx hcontext
    rw [not_isInterrupt_of_isWorkflow hworkflow]
    cases hinterrupt : x.isInterrupt with
    | false => rfl
    | true =>
      rw [not_isSessionFault_of_isInterrupt hinterrupt] at hx
      cases hx

end Failure

theorem Path.not_isInterrupt_of_ownFailure {root : Path} {f : Failure} (h : root.OwnFailure f) :
    f.isInterrupt = false := by
  rcases h with hnative | ⟨p, -, ⟨-, rfl⟩ | ⟨-, rfl⟩⟩
  · exact Failure.not_isInterrupt_of_isWorkflow (Task.isWorkflow_of_isNative hnative)
  · rfl
  · rfl

/-- An outcome is an interrupt. -/
def Interrupted {α : Type} (r : Except Failure α) : Prop := ∃ f, r = .error f ∧ f.isInterrupt = true

@[simp] theorem interrupted_error {α : Type} {f : Failure} :
    Interrupted (.error f : Except Failure α) ↔ f.isInterrupt = true :=
  ⟨fun ⟨_, hf, h⟩ => by cases hf; exact h, fun h => ⟨f, rfl, h⟩⟩

@[simp] theorem not_interrupted_ok {α : Type} {a : α} : ¬ Interrupted (.ok a : Except Failure α) := by
  rintro ⟨f, hf, -⟩
  cases hf

/-- A failure with an error in front is an interrupt if and only if it has been the same one without
    that error, which is put in front of other failures only. -/
theorem Effect.because_interrupt_iff {σ α : Type} {m : Effect σ α} {e : Setting} {s : σ}
    {applies : Failure → Bool} {c : Cause}
    (happlies : ∀ x : Failure, x.isInterrupt = true → applies x = false)
    (hc : c.isA .keyboardInterrupt = false) (x : Failure) :
    ((m.because applies c e s).1 = .error x ∧ x.isInterrupt = true) ↔
      ((m e s).1 = .error x ∧ x.isInterrupt = true) := by
  rcases hr : m e s with ⟨y | v, s'⟩
  · rw [Effect.because_eq_of_error hr]
    cases hy : applies y with
    | false => simp
    | true =>
      have hnot : y.isInterrupt = false := by
        rw [← Bool.not_eq_true]
        intro hinterrupt
        rw [happlies y hinterrupt] at hy
        cases hy
      have hfront : (y.because c).isInterrupt = false := hc
      rw [if_pos rfl]
      refine iff_of_false ?_ ?_
      · rintro ⟨⟨⟩, hinterrupt⟩
        rw [hfront] at hinterrupt
        cases hinterrupt
      · rintro ⟨⟨⟩, hinterrupt⟩
        rw [hnot] at hinterrupt
        cases hinterrupt
  · rw [Effect.because_of_ok hr]

/-! ## What calls raise -/

/-- Whether a call starts a process. -/
def Event.isSpawn : Event → Bool
  | spawn _ _ => true
  | _ => false

namespace Setting

variable {e : Setting} {past calls more : List Event} {call : Event}

/-- What a call raises: the fault that strikes it, or what keeps the process that it starts from running
    to its end. -/
def raised? (e : Setting) (past : List Event) (call : Event) : Option Failure :=
  (e.fault past call).or (match call with
    | .spawn argv _ => (e.process past argv).fault
    | _ => none)

/-- The last of what some calls raise that are made one after the other. -/
def lastRaised? (e : Setting) (past : List Event) : List Event → Option Failure
  | [] => none
  | call :: calls => (e.lastRaised? (past ++ [call]) calls).or (e.raised? past call)

/-- The last of some calls that raises anything raises an interrupt. -/
def EndsInterrupted (e : Setting) (past calls : List Event) : Prop :=
  ∃ x, e.lastRaised? past calls = some x ∧ x.isInterrupt = true

theorem raised?_of_not_isSpawn (h : call.isSpawn = false) : e.raised? past call = e.fault past call := by
  unfold raised?
  cases call with
  | spawn _ _ => cases h
  | _ => exact Option.or_none

theorem lastRaised?_append (e : Setting) (past calls more : List Event) :
    e.lastRaised? past (calls ++ more)
      = (e.lastRaised? (past ++ calls) more).or (e.lastRaised? past calls) := by
  induction calls generalizing past with
  | nil => simp [lastRaised?]
  | cons call calls ih => simp [lastRaised?, ih, Option.or_assoc]

theorem lastRaised?_singleton (e : Setting) (past : List Event) (call : Event) :
    e.lastRaised? past [call] = e.raised? past call := rfl

@[simp] theorem not_endsInterrupted_nil : ¬ e.EndsInterrupted past [] := by
  rintro ⟨x, hx, -⟩
  cases hx

theorem endsInterrupted_of_lastRaised? {x : Failure} (h : e.lastRaised? past calls = some x) :
    e.EndsInterrupted past calls ↔ x.isInterrupt = true := by
  rw [EndsInterrupted, h]
  simp

/-- Calls after which no interrupt is under way do not matter to what comes after them. -/
theorem endsInterrupted_append (h : ¬ e.EndsInterrupted past calls) :
    e.EndsInterrupted past (calls ++ more) ↔ e.EndsInterrupted (past ++ calls) more := by
  unfold EndsInterrupted at *
  rw [lastRaised?_append]
  cases e.lastRaised? (past ++ calls) more with
  | none => simpa using h
  | some x => simp

/-- What is absorbed is no interrupt. -/
theorem Passes.not_endsInterrupted (h : e.Passes past calls)
    (hspawn : ∀ call ∈ calls, call.isSpawn = false) : ¬ e.EndsInterrupted past calls := by
  induction calls generalizing past with
  | nil => simp
  | cons call calls ih =>
    obtain ⟨hcall, hcalls⟩ := List.forall_mem_cons.1 hspawn
    have hfirst : ¬ e.EndsInterrupted past [call] := by
      rintro ⟨x, hx, hinterrupt⟩
      rw [lastRaised?_singleton, raised?_of_not_isSpawn hcall] at hx
      have habsorbed := h.1 x hx
      cases call with
      | stat _ =>
        rw [Failure.not_isInterrupt_of_isA habsorbed rfl] at hinterrupt
        cases hinterrupt
      | _ => cases habsorbed
    rw [← List.singleton_append, endsInterrupted_append hfirst]
    exact ih h.2 hcalls

end Setting

/-! ## Actions that let interrupts pass -/

/-- An action fails with an interrupt if and only if the last of its calls that raises anything raises
    one. -/
def PassesInterrupts {α : Type} (e : Setting) (m : Action α) : Prop :=
  ∀ w, ∃ calls, (m e w).2.events = w.events ++ calls ∧
    (Interrupted (m e w).1 ↔ e.EndsInterrupted w.events calls)

namespace PassesInterrupts

variable {α β : Type} {e : Setting} {m : Action α} {f : α → Action β} {call : Event}

/-- An action that makes no calls, and does not fail with interrupts of its own. -/
theorem of_quiet (hquiet : ∀ w, (m e w).2.events = w.events)
    (hown : ∀ w, ¬ Interrupted (m e w).1) : PassesInterrupts e m :=
  fun w => ⟨[], by rw [hquiet, List.append_nil], by simp [hown w]⟩

theorem pure (a : α) : PassesInterrupts e (Pure.pure a : Action α) :=
  of_quiet (fun _ => rfl) fun _ => not_interrupted_ok

theorem fail {x : Failure} (h : x.isInterrupt = false) :
    PassesInterrupts e (Effect.fail x : Action α) :=
  of_quiet (fun _ => rfl) fun _ => by simp [h]

theorem perform (h : call.isSpawn = false) : PassesInterrupts e (Action.perform call) := by
  intro w
  refine ⟨[call], by rw [perform_snd, World.after_events], ?_⟩
  have hlast : e.lastRaised? w.events [call] = e.fault w.events call := by
    rw [Setting.lastRaised?_singleton, Setting.raised?_of_not_isSpawn h]
  unfold Setting.EndsInterrupted
  rw [hlast]
  cases hfault : e.fault w.events call with
  | none => simp [perform_of_spared hfault]
  | some x => simp [perform_of_struck hfault]

/-- What an action comes to may be looked at, if what is done about an interrupt is to fail with an
    interrupt at once. -/
theorem attempt_bind {f : Except Failure α → Action β} (hm : PassesInterrupts e m)
    (hok : ∀ a, PassesInterrupts e (f (.ok a)))
    (herror : ∀ x : Failure, x.isInterrupt = false → PassesInterrupts e (f (.error x)))
    (hinterrupt : ∀ (x : Failure) (w : World), x.isInterrupt = true →
      ∃ y, f (.error x) e w = (.error y, w) ∧ y.isInterrupt = true) :
    PassesInterrupts e (m.attempt >>= f) := by
  intro w
  obtain ⟨calls, hevents, hend⟩ := hm w
  rcases hr : m e w with ⟨r, w'⟩
  rw [hr] at hevents hend
  dsimp only at hevents hend
  have hattempt : m.attempt e w = (.ok r, w') := by rw [Effect.attempt_apply, hr]
  rw [Effect.bind_of_ok hattempt]
  by_cases hunder : Interrupted r
  · obtain ⟨x, rfl, hx⟩ := hunder
    obtain ⟨y, hy, hyx⟩ := hinterrupt x w' hx
    rw [hy]
    exact ⟨calls, hevents, iff_of_true (interrupted_error.2 hyx) (hend.1 ⟨x, rfl, hx⟩)⟩
  · -- no interrupt is under way, so only the calls that come now matter
    have hf : PassesInterrupts e (f r) := by
      cases r with
      | ok a => exact hok a
      | error x => exact herror x (by simpa using hunder)
    obtain ⟨more, hmore, hend'⟩ := hf w'
    rw [hevents, List.append_assoc] at hmore
    rw [hevents] at hend'
    have hnot : ¬ e.EndsInterrupted w.events calls := fun h => hunder (hend.2 h)
    exact ⟨calls ++ more, hmore, hend'.trans (Setting.endsInterrupted_append hnot).symm⟩

theorem bind (hm : PassesInterrupts e m) (hf : ∀ a, PassesInterrupts e (f a)) :
    PassesInterrupts e (m >>= f) := by
  have hlooked : m >>= f = m.attempt >>= fun r => match r with
      | .ok a => f a
      | .error x => Effect.fail x := by
    funext e w
    rw [Effect.bind_apply, Effect.bind_apply, Effect.attempt_apply]
    rcases m e w with ⟨x | a, w'⟩ <;> rfl
  rw [hlooked]
  exact .attempt_bind hm hf (fun x hx => .fail hx) fun x w hx => ⟨x, rfl, hx⟩

theorem setting {f : Setting → Action β} (hf : PassesInterrupts e (f e)) :
    PassesInterrupts e (Effect.setting >>= f) := hf

theorem get {f : World → Action β} (hf : ∀ w, PassesInterrupts e (f w)) :
    PassesInterrupts e (Effect.get >>= f) := fun w => hf w w

theorem ite {p : Prop} [Decidable p] {n : Action α} (hm : PassesInterrupts e m)
    (hn : PassesInterrupts e n) : PassesInterrupts e (if p then m else n) := by
  split
  · exact hm
  · exact hn

/-- An error in front of failures other than interrupts. -/
theorem because {applies : Failure → Bool} {c : Cause} (hm : PassesInterrupts e m)
    (happlies : ∀ x : Failure, x.isInterrupt = true → applies x = false)
    (hc : c.isA .keyboardInterrupt = false) : PassesInterrupts e (m.because applies c) := by
  intro w
  obtain ⟨calls, hevents, hend⟩ := hm w
  refine ⟨calls, by rw [Effect.because_snd, hevents], Iff.trans ?_ hend⟩
  exact exists_congr fun x => Effect.because_interrupt_iff happlies hc x

/-- A clean-up that is a call. What it raises takes the place of what it has been made for. -/
theorem andThenAlways (hm : PassesInterrupts e m) (h : call.isSpawn = false) :
    PassesInterrupts e (m.andThenAlways (Action.perform call)) := by
  intro w
  obtain ⟨calls, hevents, hend⟩ := hm w
  have hsnd : (m.andThenAlways (Action.perform call) e w).2.events = w.events ++ (calls ++ [call]) := by
    rw [Effect.andThenAlways_snd, perform_snd, World.after_events, hevents, List.append_assoc]
  refine ⟨calls ++ [call], hsnd, ?_⟩
  have hlast : e.lastRaised? w.events (calls ++ [call])
      = (e.fault (m e w).2.events call).or (e.lastRaised? w.events calls) := by
    rw [Setting.lastRaised?_append, Setting.lastRaised?_singleton, Setting.raised?_of_not_isSpawn h,
      hevents]
  cases hfault : e.fault (m e w).2.events call with
  | none =>
    rw [Effect.andThenAlways_fst (congrArg Prod.fst (perform_of_spared hfault)), hend,
      Setting.EndsInterrupted, Setting.EndsInterrupted, hlast, hfault, Option.none_or]
  | some x =>
    -- the clean-up is the last call, and the failure of the action is only the context of its own
    obtain ⟨z, hz, hhead, -, -⟩ := Effect.andThenAlways_of_error (m := m) (perform_of_struck hfault)
    rw [hfault] at hlast
    rw [hz, Setting.endsInterrupted_of_lastRaised? hlast, interrupted_error, Failure.isInterrupt,
      Failure.isA, hhead]
    rfl

/-- What is accounted for lets interrupts pass, if none of its own failures is one and its reports do
    not hide them. -/
theorem of_accounted {among : Event → Bool} {own : Failure → Prop}
    {report : Failure → Failure → Prop} (hm : Accounted among own report m)
    (hamong : ∀ call, among call = true → call.isSpawn = false)
    (hown : ∀ f, own f → f.isInterrupt = false)
    (hreport : ∀ x f, report x f → f.isInterrupt = x.isInterrupt) : PassesInterrupts e m := by
  intro w
  obtain ⟨calls, hevents, hcalls, hend⟩ := hm e w
  have hspawn : ∀ call ∈ calls, call.isSpawn = false := fun call hc => hamong call (hcalls call hc)
  refine ⟨calls, hevents, ?_⟩
  rcases hend with ⟨hpasses, hfails⟩ | ⟨before, call, x, f, rfl, hx, hf, hxf⟩
  · refine iff_of_false ?_ (hpasses.not_endsInterrupted hspawn)
    rintro ⟨f, hf, hinterrupt⟩
    rw [hown f (hfails f hf)] at hinterrupt
    cases hinterrupt
  · have hlast : e.lastRaised? w.events (before ++ [call]) = some x := by
      rw [Setting.lastRaised?_append, Setting.lastRaised?_singleton,
        Setting.raised?_of_not_isSpawn (hspawn call (by simp)), hx.fault, Option.some_or]
    rw [Setting.endsInterrupted_of_lastRaised? hlast, hf, interrupted_error, hreport x f hxf]

theorem debug (message : String) : PassesInterrupts e (Console.debug message) := by
  have hdebug : Accounted (fun _ => false) (fun _ => False) Eq (Console.debug message) :=
    .debug message
  exact .of_accounted hdebug nofun (fun _ h => h.elim) fun _ _ h => by rw [h]

end PassesInterrupts

/-! ## Sessions -/

namespace Session

variable {α : Type} {e : Setting} {body : Action α}

/-- A session that cannot be opened is closed again, unless an interrupt has kept it from being
    opened. -/
theorem passesInterrupts_openClient (target : Target) : PassesInterrupts e (openClient target) := by
  refine .bind (.perform rfl) fun _ => .setting (.attempt_bind (.perform rfl) (fun _ => .pure ()) ?_ ?_)
  · refine fun x hx => .ite ?_ (.fail hx)
    refine .attempt_bind (.perform rfl) (fun _ => .fail rfl) (fun y hy => .fail hy) ?_
    exact fun y w hy => ⟨y.during x, rfl, hy⟩
  · intro x w hx
    refine ⟨x, ?_, hx⟩
    dsimp only
    rw [if_neg (by simp [Failure.not_isSessionFault_of_isInterrupt hx])]
    rfl

theorem passesInterrupts_withConnection (target : Target) (h : PassesInterrupts e body) :
    PassesInterrupts e (withConnection target body) :=
  (passesInterrupts_openClient target).bind fun _ => h.andThenAlways rfl

end Session

namespace Sftp

variable {α : Type} {e : Setting} {body : Action α}

theorem passesInterrupts_withSftp (h : PassesInterrupts e body) :
    PassesInterrupts e (withSftp body) := by
  refine .bind (.because (.perform rfl) (fun _ => Failure.not_isSessionFault_of_isInterrupt) rfl) ?_
  exact fun _ => h.andThenAlways rfl

end Sftp

namespace Scp

variable {α : Type} {e : Setting} {body : Action α}

theorem passesInterrupts_copying {context : RemoteProblem} (h : PassesInterrupts e body)
    (hcontext : context.kind = .remoteChannel) : PassesInterrupts e (copying context body) := by
  refine .because (.bind (.perform rfl) fun _ => h.andThenAlways rfl) (fun x hx => ?_) ?_
  · rw [isFault, Failure.not_isSessionFault_of_isInterrupt hx, Failure.isA_of_isInterrupt hx]
    rfl
  · have hkind : (Cause.onPeer context).kind = .remoteChannel := hcontext
    rw [Cause.isA, hkind]
    rfl

end Scp

/-! ## Tasks -/

namespace LocalCommand

variable {e : Setting}

theorem passesInterrupts_spawn (c : LocalCommand) : PassesInterrupts e c.spawn := by
  intro w
  have hlast : e.lastRaised? w.events [.spawn c.argv c.workDir] = c.runFault? e w.events := rfl
  refine ⟨[.spawn c.argv c.workDir], by rw [c.spawn_eq, World.after_events], ?_⟩
  rw [c.spawn_eq]
  cases hstart : c.runFault? e w.events with
  | some x =>
    rw [ended_of_fault hstart]
    exact interrupted_error.trans (Setting.endsInterrupted_of_lastRaised? (hlast.trans hstart)).symm
  | none =>
    refine iff_of_false ?_ ?_
    · rintro ⟨f, hf, hinterrupt⟩
      obtain ⟨-, fault, rfl⟩ := undecodable_of_ended hstart hf
      cases hinterrupt
    · rintro ⟨x, hx, -⟩
      rw [hlast, hstart] at hx
      cases hx

theorem passesInterrupts_execute (c : LocalCommand) : PassesInterrupts e c.execute := by
  refine .bind (.debug _) fun _ => .bind (.because c.passesInterrupts_spawn ?_ rfl) fun p => ?_
  · exact fun x hx => Failure.isA_of_isInterrupt hx _
  · exact .ite (.pure ()) (.setting (.fail rfl))

end LocalCommand

namespace Task

variable {e : Setting}

theorem passesInterrupts_transfer (s : Transfer) : PassesInterrupts e (transfer s).execute := by
  obtain ⟨kind, target, remote, localPath⟩ := s
  have hself : (Path.ofText localPath).IsNear (Path.ofText localPath) := .inr (Path.isBelow_refl _)
  have hfile : ∀ call : Event, call.isFileCall = true → call.isSpawn = false := fun call hc => by
    cases call <;> first | rfl | cases hc
  have hcopy : ∀ call : Event, call.isCopyCall = true → call.isSpawn = false := fun call hc => by
    cases call <;> first | rfl | cases hc
  have hown : ∀ f, (Path.ofText localPath).OwnFailure f → f.isInterrupt = false :=
    fun _ => Path.not_isInterrupt_of_ownFailure
  have hreport : ∀ x f : Failure, x.Reported f → f.isInterrupt = x.isInterrupt :=
    fun _ _ => Failure.isInterrupt_of_reported
  cases kind with
  | scpDownload =>
    rw [execute_scpDownload]
    refine .bind (Session.passesInterrupts_withConnection target (Scp.passesInterrupts_copying
      (.of_accounted (Scp.accounted_get remote) hcopy ?_ ?_) rfl)) fun content => ?_
    · rintro _ rfl
      rfl
    · rintro x _ rfl
      rfl
    · exact .of_accounted (Path.accounted_writeFile hself content) hfile hown hreport
  | scpUpload =>
    rw [execute_scpUpload]
    refine .bind ?_ fun content => ?_
    · exact .of_accounted (Path.accounted_call hself rfl _) hfile hown hreport
    · refine Session.passesInterrupts_withConnection target (Scp.passesInterrupts_copying
        (.of_accounted (Scp.accounted_put remote content) hcopy (fun _ h => h.elim) ?_) rfl)
      rintro x _ rfl
      rfl
  | sftpDownload =>
    rw [execute_sftpDownload]
    exact Session.passesInterrupts_withConnection target (Sftp.passesInterrupts_withSftp
      (.of_accounted (Sftp.accounted_downloading _ _) hfile hown hreport))
  | sftpUpload =>
    rw [execute_sftpUpload, Sftp.upload_eq]
    refine .bind ?_ fun _ => Session.passesInterrupts_withConnection target
      (Sftp.passesInterrupts_withSftp (.of_accounted (Sftp.accounted_uploading _ _) hfile hown hreport))
    exact .of_accounted (Sftp.accounted_look _)
      (fun call hc => hfile call (Sftp.isFileCall_of_isWalkCall call hc)) hown hreport

/-- A task that holds no others, and does not fail at will, ends with an interrupt if and only if the
    last of its calls that raises anything raises one. -/
theorem passesInterrupts_execute : ∀ {t : Task}, t.isInner = false →
    (∀ name failure, t ≠ probe name failure) → PassesInterrupts e t.execute
  | print message, _, _ => by
    rw [execute]
    exact .of_quiet (fun _ => rfl) fun _ => not_interrupted_ok
  | run command, _, _ => by
    rw [execute]
    exact command.passesInterrupts_execute
  | ssh target commands, _, _ => by
    rw [execute_ssh]
    refine Session.passesInterrupts_withConnection target (.of_accounted
      (Session.accounted_commands target commands) (fun call hc => ?_) (fun f hf => ?_)
      fun _ _ => Failure.isInterrupt_of_reported)
    · cases call <;> first | rfl | cases hc
    · exact Failure.not_isInterrupt_of_isWorkflow (isWorkflow_of_isNative hf)
  | transfer s, _, _ => passesInterrupts_transfer s
  | probe name failure, _, h => absurd rfl (h name failure)

end Task
end Runbook
