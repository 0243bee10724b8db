import Runbook.Proofs.Runs
import Runbook.Task.Execution

set_option autoImplicit false

/-! # What tasks do not read

Reports and the trace of a debugging run go to the error output, and nothing that a task does depends
on what stands there. The order in which the tasks of a group are delivered is asked for by groups
only; whatever is no group does not depend on it either. So two runs of such a task, with different
traces or different orders of delivery, yield the same, and leave worlds behind that differ in the
error output only. This is shown of each operation from which the tasks are built. -/

namespace Runbook

/-- Two settings that differ in the order of delivery at most, if it may differ. -/
def Setting.Alike (mayDiffer : Prop) (e e' : Setting) : Prop :=
  ∃ delivery, e' = { e with delivery := delivery } ∧ (¬ mayDiffer → delivery = e.delivery)

namespace Setting.Alike

variable {mayDiffer : Prop}

theorem refl (e : Setting) : e.Alike mayDiffer e := ⟨e.delivery, rfl, fun _ => rfl⟩

theorem eq {e e' : Setting} (h : e.Alike False e') : e' = e := by
  obtain ⟨delivery, rfl, hsame⟩ := h
  rw [hsame id]

end Setting.Alike

/-- Two worlds that differ in their error outputs at most. -/
structure World.Alike (w w' : World) : Prop where
  out : w.out = w'.out
  events : w.events = w'.events
  files : w.files = w'.files
  peer : w.peer = w'.peer
  lines : w.lines = w'.lines
  hidden : w.hidden = w'.hidden

namespace World.Alike

variable {w w' w'' : World}

theorem refl (w : World) : w.Alike w := ⟨rfl, rfl, rfl, rfl, rfl, rfl⟩

theorem symm (h : w.Alike w') : w'.Alike w :=
  ⟨h.out.symm, h.events.symm, h.files.symm, h.peer.symm, h.lines.symm, h.hidden.symm⟩

theorem trans (h : w.Alike w') (h' : w'.Alike w'') : w.Alike w'' :=
  ⟨h.out.trans h'.out, h.events.trans h'.events, h.files.trans h'.files, h.peer.trans h'.peer,
    h.lines.trans h'.lines, h.hidden.trans h'.hidden⟩

theorem after (h : w.Alike w') (calls : List Event) : (w.after calls).Alike (w'.after calls) :=
  ⟨h.out, congrArg (· ++ calls) h.events, h.files, h.peer, h.lines, h.hidden⟩

end World.Alike

/-- An action yields the same in settings and worlds that are alike, and leaves such worlds behind.
    It is said whether the order of delivery may differ. -/
def Steady {α : Type} (mayDiffer : Prop) (m : Action α) : Prop :=
  ∀ e e' w w', Setting.Alike mayDiffer e e' → World.Alike w w' →
    (m e w).1 = (m e' w').1 ∧ (m e w).2.Alike (m e' w').2

variable {mayDiffer : Prop}

/-! ## Operations -/

namespace Steady

variable {α β : Type} {m : Action α} {f : α → Action β}

theorem pure (a : α) : Steady mayDiffer (Pure.pure a : Action α) := fun _ _ _ _ _ h => ⟨rfl, h⟩

theorem fail (x : Failure) : Steady mayDiffer (Effect.fail x : Action α) :=
  fun _ _ _ _ _ h => ⟨rfl, h⟩

theorem ofExcept (r : Except Failure α) : Steady mayDiffer (Effect.ofExcept r : Action α) :=
  fun _ _ _ _ _ h => ⟨rfl, h⟩

theorem modify {g : World → World} (h : ∀ w w', World.Alike w w' → (g w).Alike (g w')) :
    Steady mayDiffer (Effect.modify g) :=
  fun _ _ w w' _ hw => ⟨rfl, h w w' hw⟩

theorem bind (hm : Steady mayDiffer m) (hf : ∀ a, Steady mayDiffer (f a)) :
    Steady mayDiffer (m >>= f) := by
  intro e e' w w' he h
  obtain ⟨hr, hw⟩ := hm e e' w w' he h
  rw [Effect.bind_apply, Effect.bind_apply]
  generalize m e w = first at hr hw
  generalize m e' w' = second at hr hw
  obtain ⟨r, v⟩ := first
  obtain ⟨r', v'⟩ := second
  obtain rfl : r = r' := hr
  cases r with
  | error x => exact ⟨rfl, hw⟩
  | ok a => exact hf a e e' v v' he hw

/-- What is read of the setting may be anything but the order of delivery. -/
theorem setting {f : Setting → Action β} (hf : ∀ e, Steady mayDiffer (f e))
    (hsame : ∀ e e', Setting.Alike mayDiffer e e' → f e = f e') :
    Steady mayDiffer (Effect.setting >>= f) := by
  intro e e' w w' he h
  have hread : ∀ e v, (Effect.setting >>= f) e v = f e e v := fun e v => rfl
  rw [hread, hread, hsame e e' he]
  exact hf e' e e' w w' he h

/-- What is read of the world may be anything but the error output. -/
theorem get {f : World → Action β} (hf : ∀ w, Steady mayDiffer (f w))
    (hsame : ∀ w w', World.Alike w w' → f w = f w') : Steady mayDiffer (Effect.get >>= f) := by
  intro e e' w w' he h
  have hread : ∀ e v, (Effect.get >>= f) e v = f v e v := fun e v => rfl
  rw [hread, hread, hsame w w' h]
  exact hf w' e e' w w' he h

theorem attempt (hm : Steady mayDiffer m) : Steady mayDiffer m.attempt := by
  intro e e' w w' he h
  obtain ⟨hr, hw⟩ := hm e e' w w' he h
  exact ⟨congrArg Except.ok hr, hw⟩

theorem because (hm : Steady mayDiffer m) (applies : Failure → Bool) (c : Cause) :
    Steady mayDiffer (m.because applies c) := by
  intro e e' w w' he h
  obtain ⟨hr, hw⟩ := hm e e' w w' he h
  unfold Effect.because Effect.mapFailure
  generalize m e w = first at hr hw
  generalize m e' w' = second at hr hw
  obtain ⟨r, v⟩ := first
  obtain ⟨r', v'⟩ := second
  obtain rfl : r = r' := hr
  cases r with
  | error x => exact ⟨rfl, hw⟩
  | ok a => exact ⟨rfl, hw⟩

/-- A clean-up in any case is an attempt, the clean-up, and the outcome of both. -/
theorem andThenAlways_eq (m : Action α) (cleanUp : Action Unit) :
    m.andThenAlways cleanUp = m.attempt >>= fun r => cleanUp.attempt >>= fun c =>
      Effect.ofExcept (match r, c with
        | .ok a, .ok () => .ok a
        | .ok _, .error x => .error x
        | .error x, .ok () => .error x
        | .error x, .error y => .error (y.during x)) := by
  funext e w
  unfold Effect.andThenAlways
  simp only [Effect.bind_apply, Effect.attempt]
  rcases m e w with ⟨_ | _, v⟩ <;> simp only <;> rcases cleanUp e v with ⟨_ | _, _⟩ <;> rfl

theorem andThenAlways {cleanUp : Action Unit} (hm : Steady mayDiffer m)
    (hclean : Steady mayDiffer cleanUp) : Steady mayDiffer (m.andThenAlways cleanUp) := by
  rw [andThenAlways_eq]
  exact hm.attempt.bind fun _ => hclean.attempt.bind fun _ => .ofExcept _

theorem ite {p : Prop} [Decidable p] {n : Action α} (hm : Steady mayDiffer m)
    (hn : Steady mayDiffer n) : Steady mayDiffer (if p then m else n) := by
  split
  · exact hm
  · exact hn

end Steady

open Steady

theorem steady_perform (call : Event) : Steady mayDiffer (Action.perform call) := by
  rintro e _ w w' ⟨delivery, rfl, -⟩ h
  have hevents : w.events ++ [call] = w'.events ++ [call] := by rw [h.events]
  have hw : World.Alike { w with events := w.events ++ [call] }
      { w' with events := w'.events ++ [call] } :=
    ⟨h.out, hevents, h.files, h.peer, h.lines, h.hidden⟩
  unfold Action.perform
  dsimp only
  rw [h.events]
  split
  · exact ⟨rfl, h.events ▸ hw⟩
  · exact ⟨rfl, h.events ▸ hw⟩

theorem steady_writeLine (s : String) : Steady mayDiffer (Action.writeLine s) :=
  .modify fun _ _ h => ⟨congrArg (· ++ (s ++ "\n")) h.out, h.events, h.files, h.peer, h.lines,
    h.hidden⟩

theorem steady_debug (message : String) : Steady mayDiffer (Console.debug message) :=
  setting (fun _ => ite
    (.modify fun _ _ h => ⟨h.out, h.events, h.files, h.peer, h.lines, h.hidden⟩) (pure ()))
    fun _ _ ⟨_, he, _⟩ => he ▸ rfl

theorem debug_cases (message : String) (e : Setting) (w : World) :
    ∃ w', Console.debug message e w = (.ok (), w') ∧ w'.Alike w := by
  unfold Console.debug Console.whenDebugging
  rw [Effect.bind_of_ok (Effect.setting_apply e w)]
  by_cases hdebug : e.debug = true
  · rw [if_pos hdebug]
    exact ⟨_, rfl, rfl, rfl, rfl, rfl, rfl, rfl⟩
  · rw [if_neg hdebug]
    exact ⟨w, rfl, .refl w⟩

/-! ## Local commands -/

theorem steady_spawn (c : LocalCommand) : Steady mayDiffer c.spawn := by
  refine .get (fun w => ?_) fun w w' h => ?_
  · refine (steady_perform _).bind fun _ => setting (fun _ => ?_) fun _ _ ⟨_, he, _⟩ => he ▸ rfl
    dsimp only
    split
    · exact .ofExcept _
    · exact .fail _
  · rw [h.events]

theorem steady_localCommand (c : LocalCommand) : Steady mayDiffer c.execute := by
  refine (steady_debug _).bind fun _ => ((steady_spawn c).because _ _).bind fun _ => ?_
  exact ite (.pure _) (setting (fun _ => .fail _) fun _ _ ⟨_, he, _⟩ => he ▸ rfl)

/-! ## Sessions -/

namespace Session

variable {α : Type}

theorem steady_attempting {context : RemoteProblem} {a : Action α} (h : Steady mayDiffer a) :
    Steady mayDiffer (attempting context a) :=
  h.because _ _

theorem steady_openClient (target : Target) : Steady mayDiffer (openClient target) := by
  refine (steady_perform _).bind fun _ => setting (fun _ => ?_) fun _ _ ⟨_, he, _⟩ => he ▸ rfl
  refine (steady_perform _).attempt.bind fun r => ?_
  split
  · exact .pure _
  · refine ite ((steady_perform _).attempt.bind fun c => ?_) (.fail _)
    split
    · exact .fail _
    · exact .fail _

theorem steady_withConnection (target : Target) {body : Action α} (h : Steady mayDiffer body) :
    Steady mayDiffer (withConnection target body) :=
  (steady_openClient target).bind fun _ => h.andThenAlways (steady_perform _)

theorem steady_channel (command : String) : Steady mayDiffer (channel command) := by
  refine (steady_perform _).bind fun _ => (steady_perform _).bind fun _ => ?_
  refine .get (fun w => ?_) fun w w' h => ?_
  · refine (steady_perform _).bind fun _ => (steady_perform _).bind fun _ => ?_
    refine (steady_perform _).bind fun _ => (steady_perform _).bind fun _ => ?_
    exact setting (fun _ => .pure _) fun _ _ ⟨_, he, _⟩ => he ▸ rfl
  · rw [h.events]

theorem steady_remoteCommand (c : RemoteCommand) : Steady mayDiffer c.execute := by
  refine ((steady_attempting (steady_channel _)).bind fun _ => .pure _).bind fun r => ?_
  exact ite (.pure _) (.fail _)

theorem steady_batch (target : Target) (cs : List RemoteCommand) :
    Steady mayDiffer (batch target cs) := by
  refine steady_withConnection target ?_
  induction cs with
  | nil => exact .pure ()
  | cons c cs ih =>
    refine (steady_debug _).bind fun _ => (steady_remoteCommand c).bind fun _ => ?_
    exact ite ((steady_debug _).bind fun _ => ih) ((pure ()).bind fun _ => ih)

end Session

/-! ## Local files -/

namespace Path

theorem steady_call {α : Type} (p : Path) (context : LocalProblem)
    (f : FileTree → List String → Path → Except FileError α) :
    Steady mayDiffer (p.call context f) := by
  rintro e _ w w' ⟨delivery, rfl, -⟩ h
  unfold call
  dsimp only
  rw [h.files]
  split
  · split
    · exact ⟨rfl, h⟩
    · exact ⟨rfl, h⟩
  · exact ⟨rfl, h⟩

theorem steady_setFiles (t : FileTree) : Steady mayDiffer (setFiles t) :=
  .modify fun _ _ h => ⟨h.out, h.events, rfl, h.peer, h.lines, h.hidden⟩

theorem steady_writeFile (p : Path) (content : Bytes) : Steady mayDiffer (p.writeFile content) :=
  (steady_call _ _ _).bind fun _ => steady_setFiles _

theorem steady_makeDirectory (p : Path) : Steady mayDiffer p.makeDirectory :=
  (steady_call _ _ _).bind fun _ => steady_setFiles _

theorem steady_checkLength (p : Path) : Steady mayDiffer p.checkLength := ite (.fail _) (.pure _)

theorem steady_found? (p : Path) : Steady mayDiffer p.found? := by
  rintro e _ w w' ⟨delivery, rfl, -⟩ h
  unfold found?
  dsimp only
  rw [h.files]
  split
  · split
    · exact ⟨rfl, h⟩
    · exact ⟨rfl, h⟩
    · exact ⟨rfl, h⟩
  · exact ⟨rfl, h⟩

theorem steady_isFile (p : Path) : Steady mayDiffer p.isFile :=
  (steady_found? p).bind fun _ => .pure _

theorem steady_isDirectory (p : Path) : Steady mayDiffer p.isDirectory :=
  (steady_found? p).bind fun _ => .pure _

end Path

/-! ## File sessions -/

namespace Sftp

open Session Path

theorem steady_changePeer (f : Peer → Peer) : Steady mayDiffer (changePeer f) :=
  .modify fun _ _ h => ⟨h.out, h.events, h.files, congrArg f h.peer, h.lines, h.hidden⟩

theorem steady_withSftp {α : Type} {body : Action α} (h : Steady mayDiffer body) :
    Steady mayDiffer (withSftp body) :=
  (steady_attempting (steady_perform _)).bind fun _ =>
    h.andThenAlways (steady_perform _)

theorem steady_stat (path : Path) (v : Option RemoteView) : Steady mayDiffer (stat path v) := by
  refine ((steady_perform _).bind fun _ => .pure _).attempt.bind fun r => ?_
  split
  · exact .pure _
  · exact ite (.pure _) (steady_attempting (.fail _))

theorem steady_downloadFile (remote localPath : Path) (content : Option Bytes) :
    Steady mayDiffer (downloadFile remote localPath content) := by
  refine (steady_attempting ?_).bind fun _ => steady_writeFile _ _
  refine (steady_perform _).bind fun _ => ?_
  split
  · exact .pure _
  · exact .fail _

theorem steady_askListing (path : Path) : Steady mayDiffer (askListing path) :=
  steady_attempting (steady_perform _)

mutual

theorem steady_downloadView (remote localPath : Path) :
    ∀ v, Steady mayDiffer (downloadView remote localPath v)
  | .mk mode content listing => by
    rw [downloadView]
    refine ite ((steady_makeDirectory _).bind fun _ => ?_) (steady_downloadFile _ _ _)
    exact (steady_askListing _).bind fun _ => steady_downloadListing _ _ listing

theorem steady_downloadListing (remote localPath : Path) :
    ∀ listing, Steady mayDiffer (downloadListing remote localPath listing)
  | [] => .pure ()
  | (name, v) :: rest => by
    rw [downloadListing]
    exact (steady_downloadView _ _ v).bind fun _ => steady_downloadListing _ _ rest

end

theorem steady_writeContent (path : Path) (content : Bytes) :
    Steady mayDiffer (writeContent path content) :=
  steady_attempting ((steady_perform _).bind fun _ => steady_changePeer _)

theorem steady_makeDirectory (path : Path) : Steady mayDiffer (Sftp.makeDirectory path) :=
  steady_attempting ((steady_perform _).bind fun _ => steady_changePeer _)

mutual

theorem steady_uploadTree (localPath remote : Path) :
    ∀ t, Steady mayDiffer (uploadTree localPath remote t)
  | .file content => by
    rw [uploadTree]
    exact (steady_checkLength _).bind fun _ => steady_writeContent _ _
  | .dir entries => by
    rw [uploadTree]
    refine (steady_checkLength _).bind fun _ => ?_
    refine (Sftp.steady_makeDirectory _).bind fun _ => ?_
    exact steady_uploadEntries _ _ entries

theorem steady_uploadEntries (localPath remote : Path) :
    ∀ entries, Steady mayDiffer (uploadEntries localPath remote entries)
  | [] => .pure ()
  | (name, t) :: rest => by
    rw [uploadEntries]
    exact (steady_uploadTree _ _ t).bind fun _ => steady_uploadEntries _ _ rest

end

/-! ## Transfers -/

theorem steady_refuseLocal (condition : Bool) (p : LocalProblem) :
    Steady mayDiffer (refuseLocal condition p) :=
  ite (.fail _) (.pure _)

theorem steady_receive (remote localPath : Path) (seen : Option RemoteView) :
    Steady mayDiffer (receive remote localPath seen) := by
  refine (steady_stat _ _).bind fun v => ?_
  split
  · exact .fail _
  · refine ite ?_ (ite ?_ (.fail _))
    · refine (steady_isFile _).bind fun _ => (steady_refuseLocal _ _).bind fun _ => ?_
      exact (steady_isDirectory _).bind fun _ => steady_downloadFile _ _ _
    · refine (steady_isDirectory _).bind fun _ => (steady_refuseLocal _ _).bind fun _ => ?_
      refine (steady_isDirectory _).bind fun _ => (steady_refuseLocal _ _).bind fun _ => ?_
      refine (Path.steady_makeDirectory _).bind fun _ => ?_
      exact (steady_askListing _).bind fun _ => steady_downloadListing _ _ _

theorem steady_shown (path : Path) : Steady mayDiffer (shown path) := by
  refine setting (fun _ => .get (fun _ => .pure _) fun w w' h => ?_) fun _ _ ⟨_, he, _⟩ => he ▸ rfl
  rw [h.peer]

theorem steady_download (target : Target) (remote localPath : Path) :
    Steady mayDiffer (download target remote localPath) :=
  steady_withConnection _ (steady_withSftp
    ((steady_shown _).bind fun _ => steady_receive _ _ _))

theorem steady_sendDirectory (localPath remote : Path) :
    Steady mayDiffer (sendDirectory localPath remote) := by
  refine .get (fun w => (steady_stat _ _).bind fun v => ?_) fun w w' h => ?_
  · split
    · exact .fail _
    · refine (Sftp.steady_makeDirectory _).bind fun _ => ?_
      exact (steady_call _ _ _).bind fun _ => steady_uploadEntries _ _ _
  · rw [h.peer]

theorem steady_upload (target : Target) (localPath remote : Path) :
    Steady mayDiffer (upload target localPath remote) := by
  have hsend : Steady mayDiffer (withConnection target (withSftp do
      if ← localPath.isFile then uploadFile localPath remote
      else sendDirectory localPath remote)) := by
    refine steady_withConnection _ (steady_withSftp ?_)
    refine (steady_isFile _).bind fun _ => ite ?_ (steady_sendDirectory _ _)
    exact (steady_call _ _ _).bind fun _ => steady_writeContent _ _
  refine (steady_isFile _).bind fun _ => ite ?_ ((pure ()).bind fun _ => hsend)
  refine (steady_isDirectory _).bind fun _ => (steady_refuseLocal _ _).bind fun _ => hsend

end Sftp

namespace Scp

open Session Path

theorem steady_copying {α : Type} {context : RemoteProblem} {body : Action α}
    (h : Steady mayDiffer body) : Steady mayDiffer (copying context body) := by
  refine Steady.because ?_ _ _
  exact (steady_perform _).bind fun _ => h.andThenAlways (steady_perform _)

theorem steady_download (target : Target) (remote : String) (localPath : Path) :
    Steady mayDiffer (download target remote localPath) := by
  refine (steady_withConnection _ (steady_copying ?_)).bind fun _ =>
    steady_writeFile _ _
  refine (steady_perform _).bind fun _ => .get (fun w => ?_) fun w w' h => ?_
  · split
    · exact .pure _
    · exact .fail _
  · rw [h.peer]

theorem steady_upload (target : Target) (localPath : Path) (remote : String) :
    Steady mayDiffer (upload target localPath remote) := by
  refine (steady_call _ _ _).bind fun _ => ?_
  refine steady_withConnection _ (steady_copying ?_)
  exact (steady_perform _).bind fun _ => Sftp.steady_changePeer _

end Scp

theorem steady_transfer (t : Transfer) : Steady mayDiffer t.execute := by
  unfold Transfer.execute
  split
  · exact Scp.steady_download _ _ _
  · exact Scp.steady_upload _ _ _
  · exact Sftp.steady_download _ _ _
  · exact Sftp.steady_upload _ _ _

/-! ## Tasks -/

/-- Whether a task holds other tasks. The others are the leaves of a tree of tasks. -/
def Task.isInner : Task → Bool
  | .job _ _ | .onPlatform _ _ | .parallel _ _ => true
  | _ => false

/-- What a leaf does depends neither on what stands on the error output nor on the order of delivery.
    -/
theorem steady_leaf : ∀ {t : Task}, t.isInner = false → Steady mayDiffer t.execute
  | .print message, _ => by
    rw [Task.execute]
    exact steady_writeLine message
  | .run command, _ => by
    rw [Task.execute]
    exact steady_localCommand command
  | .ssh target commands, _ => by
    rw [Task.execute]
    exact Session.steady_batch target commands
  | .transfer t, _ => by
    rw [Task.execute]
    exact steady_transfer t
  | .probe name none, _ => by
    rw [Task.execute]
    exact (steady_perform _).bind fun _ => .pure ()
  | .probe name (some f), _ => by
    rw [Task.execute]
    exact (steady_perform _).bind fun _ => .fail f

theorem steady_deliver (outcomes : List (Except Failure Unit)) (order : List Nat) :
    Steady mayDiffer (deliver outcomes order) := by
  induction order with
  | nil => exact .pure ()
  | cons i rest ih =>
    rw [deliver]
    split
    · exact (steady_debug _).bind fun _ => .fail _
    · exact (steady_debug _).bind fun _ => ih

theorem steady_runGroup (threads : Int) {submit : Action (List (Except Failure Unit))}
    (h : Steady False submit) : Steady False (runGroup threads submit) := by
  refine (steady_perform _).bind fun _ => Steady.andThenAlways ?_ (steady_perform _)
  refine h.bind fun outcomes => setting (fun e => ?_) fun e e' he => by rw [he.eq]
  refine .get (fun w => steady_deliver _ _) fun w w' hw => ?_
  rw [hw.events]

namespace Task

mutual

/-- What a task does does not depend on what stands on the error output. -/
theorem steady_execute : ∀ t : Task, Steady False t.execute
  | job name tasks => by
    rw [execute]
    exact steady_executeFrom name 0 tasks
  | onPlatform platform tasks => by
    rw [execute]
    refine setting (fun e => ite ?_ (steady_debug _)) fun e e' he => by rw [he.eq]
    exact steady_executeFrom _ 0 tasks
  | parallel tasks threads => by
    rw [execute]
    exact steady_runGroup threads (steady_executeEach tasks)
  | print _ | run _ | ssh _ _ | transfer _ | probe _ _ => steady_leaf rfl

theorem steady_executeFrom (owner : String) (index : Nat) :
    ∀ tasks, Steady False (executeFrom owner index tasks)
  | [] => .pure ()
  | t :: ts => by
    rw [executeFrom]
    refine (Steady.ofExcept _).bind fun _ => (steady_debug _).bind fun _ => ?_
    refine ((steady_execute t).because _ _).bind fun _ => ?_
    exact steady_executeFrom owner (index + 1) ts

theorem steady_executeEach : ∀ tasks, Steady False (executeEach tasks)
  | [] => .pure []
  | t :: ts => by
    rw [executeEach]
    refine (steady_execute t).attempt.bind fun _ => ?_
    exact (steady_executeEach ts).bind fun _ => .pure _

end

end Task
end Runbook
