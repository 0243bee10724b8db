import Runbook.Proofs.Sequences
import Runbook.Proofs.Sessions

set_option autoImplicit false

/-! # Batches of commands

The commands of a batch run in one session, each on a channel of its own, and the first that does not
succeed is the last that is run. A command succeeds if no fault strikes the calls of its channel and
it ends with one of its own exit codes. So which commands are run, which calls are made and how the
batch ends can be read off what the peer answers, without running it. -/

namespace Runbook

open Action

/-! ## Calls in a row -/

/-- Some calls that are made in a row are spared, or there is a first one that is struck. -/
theorem Setting.spares_or_struck (e : Setting) (past calls : List Event) :
    e.Spares past calls ∨ ∃ before call after x, calls = before ++ call :: after ∧
      e.Spares past before ∧ e.fault (past ++ before) call = some x := by
  induction calls generalizing past with
  | nil => exact .inl trivial
  | cons call calls ih =>
    cases hfault : e.fault past call with
    | some x => exact .inr ⟨[], call, calls, x, rfl, trivial, by rw [List.append_nil, hfault]⟩
    | none =>
      rcases ih (past ++ [call]) with hspared | ⟨before, struck, after, x, rfl, hspared, hx⟩
      · exact .inl ⟨hfault, hspared⟩
      · exact .inr ⟨call :: before, struck, after, x, rfl, ⟨hfault, hspared⟩, by
          rw [← hx, List.append_assoc, List.singleton_append]⟩

/-- Makes some calls in a row. -/
def Action.performAll : List Event → Action Unit
  | [] => pure ()
  | call :: calls => do
    perform call
    performAll calls

theorem Action.performAll_of_spared {calls : List Event} {e : Setting} {w : World}
    (h : e.Spares w.events calls) : performAll calls e w = (.ok (), w.after calls) := by
  induction calls generalizing w with
  | nil => rw [performAll, Effect.pure_apply, World.after_nil]
  | cons call calls ih =>
    rw [performAll, Effect.bind_of_ok (perform_of_spared h.1), ih h.2, World.after_after,
      List.singleton_append]

theorem Action.performAll_of_struck {before after : List Event} {call : Event} {x : Failure}
    {e : Setting} {w : World} (h : e.Spares w.events before)
    (hx : e.fault (w.events ++ before) call = some x) :
    performAll (before ++ call :: after) e w = (.error x, w.after (before ++ [call])) := by
  induction before generalizing w with
  | nil =>
    rw [List.append_nil] at hx
    rw [List.nil_append, performAll, Effect.bind_of_error (perform_of_struck hx), List.nil_append]
  | cons first before ih =>
    rw [List.cons_append, performAll, Effect.bind_of_ok (perform_of_spared h.1), ih h.2,
      World.after_after, List.singleton_append, List.cons_append]
    rw [← hx, World.after_events, List.append_assoc, List.singleton_append]

/-! ## One command -/

namespace RemoteCommand

/-- The calls of the channel on which a command runs. -/
def calls (c : RemoteCommand) : List Event :=
  [.session, .combineStderr, .exec c.command, .readOutput, .exitStatus, .closeChannel]

/-- What a command yields that is run after some calls. -/
def answer (c : RemoteCommand) (e : Setting) (past : List Event) : CommandResult :=
  e.result (past ++ [.session, .combineStderr]) c.command

/-- A command that is run after some calls succeeds: no fault strikes its channel, and it ends with one of
    its exit codes. -/
structure Succeeds (c : RemoteCommand) (e : Setting) (past : List Event) : Prop where
  spared : e.Spares past c.calls
  allowed : (c.answer e past).code ∈ c.allowed

/-- A command that is run after some calls fails, with the calls it makes and the failure it leaves: it
    ends with an exit code that is none of its own, and the failure holds that and its output; or a
    fault strikes its channel, and is put into the context of the command. -/
inductive Fails (c : RemoteCommand) (e : Setting) (past : List Event) :
    List Event → Failure → Prop
  | refused (hspared : e.Spares past c.calls) (hcode : (c.answer e past).code ∉ c.allowed) :
    Fails c e past c.calls (.of (.remoteCommand c.command (c.answer e past).code
      (Text.decodeLossy (c.answer e past).output)))
  | struck {before after : List Event} {call : Event} {x : Failure}
    (hcalls : c.calls = before ++ call :: after) (hspared : e.Spares past before)
    (hfault : e.fault (past ++ before) call = some x) :
    Fails c e past (before ++ [call])
      (if x.isSessionFault then x.because (.onPeer (.runCommand c.command)) else x)

/-- A command that fails does not succeed. -/
theorem Fails.not_succeeds {c : RemoteCommand} {e : Setting} {past calls : List Event} {f : Failure}
    (h : c.Fails e past calls f) : ¬ c.Succeeds e past := by
  rintro ⟨hspared, hallowed⟩
  cases h with
  | refused _ hcode => exact hcode hallowed
  | struck hcalls _ hfault =>
    rw [hcalls, Setting.spares_append] at hspared
    rw [hspared.2.1] at hfault
    cases hfault

/-- A channel makes its calls in a row, and yields what the peer answers. -/
theorem channel_eq (c : RemoteCommand) (e : Setting) (w : World) :
    Session.channel c.command e w
      = (performAll c.calls >>= fun _ => pure (c.answer e w.events)) e w := by
  unfold Session.channel calls
  simp only [performAll, bind_assoc]
  -- the answer is asked for when the first two calls have been made
  rcases hfirst : perform .session e w with ⟨x | _, w₁⟩
  · rw [Effect.bind_of_error hfirst, Effect.bind_of_error hfirst]
  rcases hsecond : perform .combineStderr e w₁ with ⟨x | _, w₂⟩
  · rw [Effect.bind_of_ok hfirst, Effect.bind_of_ok hfirst, Effect.bind_of_error hsecond,
      Effect.bind_of_error hsecond]
  have hevents : w₂.events = w.events ++ [.session, .combineStderr] := by
    have h₁ := perform_snd .session e w
    have h₂ := perform_snd .combineStderr e w₁
    rw [hfirst] at h₁
    rw [hsecond] at h₂
    subst h₁ h₂
    simp
  rw [Effect.bind_of_ok hfirst, Effect.bind_of_ok hfirst, Effect.bind_of_ok hsecond,
    Effect.bind_of_ok hsecond, Effect.bind_of_ok (Effect.get_apply e w₂), hevents]
  rfl

theorem runCommand_of_spared {c : RemoteCommand} {e : Setting} {w : World}
    (h : e.Spares w.events c.calls) :
    Session.runCommand c.command e w = (.ok (Text.decodeLossy (c.answer e w.events).output,
      (c.answer e w.events).code), w.after c.calls) := by
  have hchannel : Session.channel c.command e w
      = (.ok (c.answer e w.events), w.after c.calls) := by
    rw [channel_eq, Effect.bind_of_ok (performAll_of_spared h), Effect.pure_apply]
  have hattempt : Session.attempting (.runCommand c.command) (Session.channel c.command) e w
      = (.ok (c.answer e w.events), w.after c.calls) := Effect.because_of_ok hchannel
  rw [Session.runCommand, Effect.bind_of_ok hattempt, Effect.pure_apply]

theorem runCommand_of_struck {c : RemoteCommand} {e : Setting} {w : World}
    {before after : List Event} {call : Event} {x : Failure}
    (hcalls : c.calls = before ++ call :: after) (hspared : e.Spares w.events before)
    (hfault : e.fault (w.events ++ before) call = some x) :
    Session.runCommand c.command e w
      = (.error (if x.isSessionFault then x.because (.onPeer (.runCommand c.command)) else x),
        w.after (before ++ [call])) := by
  have hchannel : Session.channel c.command e w = (.error x, w.after (before ++ [call])) := by
    rw [channel_eq, hcalls, Effect.bind_of_error (performAll_of_struck hspared hfault)]
  have hattempt : Session.attempting (.runCommand c.command) (Session.channel c.command) e w
      = (.error (if x.isSessionFault then x.because (.onPeer (.runCommand c.command)) else x),
        w.after (before ++ [call])) := by
    rw [Session.attempting_apply, hchannel]
    rfl
  rw [Session.runCommand, Effect.bind_of_error hattempt]

/-- A command that is run either succeeds and yields its output, or fails. -/
theorem execute_cases (c : RemoteCommand) (e : Setting) (w : World) :
    (c.Succeeds e w.events ∧
      c.execute e w = (.ok (Text.decodeLossy (c.answer e w.events).output), w.after c.calls)) ∨
      ∃ calls f, c.Fails e w.events calls f ∧ c.execute e w = (.error f, w.after calls) := by
  rcases e.spares_or_struck w.events c.calls with
    hspared | ⟨before, call, after, x, hcalls, hspared, hfault⟩
  · have hrun : c.execute e w = _ := Effect.bind_of_ok (runCommand_of_spared hspared)
    by_cases hcode : (c.answer e w.events).code ∈ c.allowed
    · refine .inl ⟨⟨hspared, hcode⟩, hrun.trans ?_⟩
      dsimp only
      rw [if_pos (List.contains_iff_mem.2 hcode), Effect.pure_apply]
    · refine .inr ⟨_, _, .refused hspared hcode, hrun.trans ?_⟩
      dsimp only
      rw [if_neg (mt List.contains_iff_mem.1 hcode)]
      rfl
  · exact .inr ⟨_, _, .struck hcalls hspared hfault,
      Effect.bind_of_error (runCommand_of_struck hcalls hspared hfault)⟩

/-! ## Commands in a row -/

/-- The calls of some commands that run one after the other. -/
def allCalls (cs : List RemoteCommand) : List Event := cs.flatMap calls

@[simp] theorem allCalls_cons (c : RemoteCommand) (cs : List RemoteCommand) :
    allCalls (c :: cs) = c.calls ++ allCalls cs := List.flatMap_cons

/-- Some commands that run one after the other succeed, each after the calls of those before it. -/
def AllSucceed (e : Setting) (past : List Event) : List RemoteCommand → Prop
  | [] => True
  | c :: cs => c.Succeeds e past ∧ AllSucceed e (past ++ c.calls) cs

end RemoteCommand

open RemoteCommand

namespace Session

/-- What is done with the output of a command: it is shown in the trace, if there is any. Then the batch
    goes on. -/
theorem exists_commands_of_ok (target : Target) {c : RemoteCommand} {e : Setting} {w v : World}
    (hv : v.Alike w) (h : c.Succeeds e w.events) (cs : List RemoteCommand) :
    ∃ v', v'.Alike (w.after c.calls) ∧
      commands target (c :: cs) e v = commands target cs e v' := by
  obtain ⟨v₁, hstarted, hv₁⟩ :=
    debug_cases (target.redaction.scrub ("ssh " ++ target.address ++ ": " ++ c.command)) e v
  have hevents : v₁.events = w.events := (hv₁.trans hv).events
  rcases c.execute_cases e v₁ with ⟨-, hrun⟩ | ⟨calls, f, hfails, -⟩
  · have hv₂ : (v₁.after c.calls).Alike (w.after c.calls) := (hv₁.trans hv).after c.calls
    rw [commands, Effect.bind_of_ok hstarted, Effect.bind_of_ok hrun]
    split
    · obtain ⟨v₃, hshown, hv₃⟩ := debug_cases
        (target.redaction.scrub (Text.trimEnd (Text.decodeLossy (c.answer e v₁.events).output))) e
        (v₁.after c.calls)
      exact ⟨v₃, hv₃.trans hv₂, Effect.bind_of_ok hshown⟩
    · exact ⟨_, hv₂, rfl⟩
  · exact absurd h (hevents ▸ hfails.not_succeeds)

theorem exists_commands_of_error (target : Target) {c : RemoteCommand} {e : Setting} {w v : World}
    (hv : v.Alike w) (h : ¬ c.Succeeds e w.events) (cs : List RemoteCommand) :
    ∃ calls f v', c.Fails e w.events calls f ∧ v'.Alike (w.after calls) ∧
      commands target (c :: cs) e v = (.error f, v') := by
  obtain ⟨v₁, hstarted, hv₁⟩ :=
    debug_cases (target.redaction.scrub ("ssh " ++ target.address ++ ": " ++ c.command)) e v
  have hevents : v₁.events = w.events := (hv₁.trans hv).events
  rcases c.execute_cases e v₁ with ⟨hsucceeds, -⟩ | ⟨calls, f, hfails, hrun⟩
  · exact absurd (hevents ▸ hsucceeds) h
  · refine ⟨calls, f, v₁.after calls, hevents ▸ hfails, (hv₁.trans hv).after calls, ?_⟩
    rw [commands, Effect.bind_of_ok hstarted, Effect.bind_of_error hrun]

/-- A batch runs its commands up to the first that fails. -/
theorem commands_cases (target : Target) (cs : List RemoteCommand) (e : Setting) {w v : World}
    (hv : v.Alike w) :
    (AllSucceed e w.events cs ∧ ∃ v', v'.Alike (w.after (allCalls cs)) ∧
        commands target cs e v = (.ok (), v')) ∨
      ∃ before c after calls f v', cs = before ++ c :: after ∧ AllSucceed e w.events before ∧
        c.Fails e (w.events ++ allCalls before) calls f ∧
        v'.Alike (w.after (allCalls before ++ calls)) ∧
        commands target cs e v = (.error f, v') := by
  induction cs generalizing w v with
  | nil => exact .inl ⟨trivial, v, by rwa [allCalls, List.flatMap_nil, World.after_nil], rfl⟩
  | cons c cs ih =>
    by_cases hc : c.Succeeds e w.events
    · obtain ⟨v₁, hv₁, hrun⟩ := exists_commands_of_ok target hv hc cs
      rw [hrun]
      rcases ih hv₁ with ⟨hall, v', hv', hend⟩ |
        ⟨before, d, after, calls, f, v', rfl, hall, hfails, hv', hend⟩
      · refine .inl ⟨⟨hc, hall⟩, v', ?_, hend⟩
        rwa [allCalls_cons, ← World.after_after]
      · refine .inr ⟨c :: before, d, after, calls, f, v', rfl, ⟨hc, hall⟩, ?_, ?_, hend⟩
        · rwa [allCalls_cons, ← List.append_assoc]
        · rwa [allCalls_cons, List.append_assoc, ← World.after_after]
    · obtain ⟨calls, f, v', hfails, hv', hend⟩ :=
        exists_commands_of_error target hv hc cs
      refine .inr ⟨[], c, cs, calls, f, v', rfl, trivial, ?_, hv', hend⟩
      rwa [allCalls, List.flatMap_nil, List.append_nil]

end Session

/-! ## Batches -/

namespace Task

variable {target : Target} {cs : List RemoteCommand} {e : Setting} {w : World}

/-- A run of a batch makes some calls in its one session, and ends in some way if the session can be
    closed. Whatever else is in the world stays, apart from the trace. -/
structure EndsBatch (target : Target) (e : Setting) (w : World) (calls : List Event)
    (r : Except Failure Unit) (run : Except Failure Unit × World) : Prop where
  world : run.2.Alike (w.after (Session.connecting target e ++ calls ++ [.close]))
  outcome : e.fault (w.events ++ Session.connecting target e ++ calls) .close = none → run.1 = r

theorem endsBatch_of_commands (hc : e.Spares w.events (Session.connecting target e))
    {calls : List Event} {r : Except Failure Unit} {v : World}
    (hv : v.Alike ((w.after (Session.connecting target e)).after calls))
    (hr : Session.commands target cs e (w.after (Session.connecting target e)) = (r, v)) :
    EndsBatch target e w calls r ((ssh target cs).execute e w) := by
  rw [execute_ssh, Session.withConnection_of_spared hc]
  rw [World.after_after] at hv
  constructor
  · rw [Effect.andThenAlways_snd, perform_snd, hr, ← World.after_after]
    exact hv.after [.close]
  · intro hclose
    rw [Effect.andThenAlways_fst, hr]
    rw [hr, perform_of_spared]
    rw [hv.events, World.after_events, ← List.append_assoc, hclose]

/-- What a batch of commands runs, once its session is open. Either every command succeeds, all of them
    are run in order, and the batch succeeds. Or there is a first command that fails: those before it
    are run, then it, and none after it; and the batch ends with the failure of that command. Each
    command that is run makes the calls of one channel, which are cut short only where a fault strikes,
    and after them the session is closed. -/
theorem execute_batch (hc : e.Spares w.events (Session.connecting target e)) :
    (AllSucceed e (w.events ++ Session.connecting target e) cs ∧
        EndsBatch target e w (allCalls cs) (.ok ()) ((ssh target cs).execute e w)) ∨
      ∃ before c after calls f, cs = before ++ c :: after ∧
        AllSucceed e (w.events ++ Session.connecting target e) before ∧
        c.Fails e (w.events ++ Session.connecting target e ++ allCalls before) calls f ∧
        EndsBatch target e w (allCalls before ++ calls) (.error f)
          ((ssh target cs).execute e w) := by
  rcases Session.commands_cases target cs e (.refl (w.after (Session.connecting target e))) with
    ⟨hall, v, hv, hrun⟩ | ⟨before, c, after, calls, f, v, rfl, hall, hfails, hv, hrun⟩
  · exact .inl ⟨hall, endsBatch_of_commands hc hv hrun⟩
  · exact .inr ⟨before, c, after, calls, f, rfl, hall, hfails, endsBatch_of_commands hc hv hrun⟩

/-- A setting in which the second channel cannot be opened. -/
def secondChannelSetting : Setting :=
  { Setting.calm with fault := fun past call => match call with
      | .session => if past.contains .closeChannel then some (.of (.reported .ssh none)) else none
      | _ => none }

/-- Of three commands the first makes all its calls, the second the one that is struck, and the third
    none. -/
theorem execute_batch_sample :
    EndsBatch .sample secondChannelSetting (.initial .empty [])
      (calls ⟨"a", [0]⟩ ++ [.session])
      (.error ((Failure.of (.reported .ssh none)).because (.onPeer (.runCommand "b"))))
      ((ssh .sample [⟨"a", [0]⟩, ⟨"b", [0]⟩, ⟨"c", [0]⟩]).execute secondChannelSetting
        (.initial .empty [])) := by
  obtain ⟨run, hrun⟩ : ∃ run, run = (ssh .sample [⟨"a", [0]⟩, ⟨"b", [0]⟩, ⟨"c", [0]⟩]).execute
    secondChannelSetting (.initial .empty []) := ⟨_, rfl⟩
  have hevents : run.2.events = Session.connecting .sample secondChannelSetting
      ++ (calls ⟨"a", [0]⟩ ++ [.session]) ++ [.close] := by
    rw [hrun]
    decide +kernel
  have hfailure : (match run.1 with | .ok _ => none | .error g => some g)
      = some ((Failure.of (.reported .ssh none)).because (.onPeer (.runCommand "b"))) := by
    rw [hrun]
    decide +kernel
  rcases @execute_batch .sample [⟨"a", [0]⟩, ⟨"b", [0]⟩, ⟨"c", [0]⟩] secondChannelSetting
    (.initial .empty []) ⟨rfl, rfl, trivial⟩ with
    ⟨⟨-, hsecond, -⟩, -⟩ | ⟨before, c, after, made, f, -, -, -, hends⟩
  · cases hsecond.spared.1
  · rw [← hrun] at hends ⊢
    have hmade := List.append_cancel_left (List.append_cancel_right
      (hevents.symm.trans hends.world.events))
    rw [hmade]
    refine ⟨hends.world, fun hclose => ?_⟩
    have houtcome := hends.outcome (hmade ▸ hclose)
    rw [houtcome] at hfailure
    rw [houtcome, Option.some.inj hfailure]

end Task
end Runbook
