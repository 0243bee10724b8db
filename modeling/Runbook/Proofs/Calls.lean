import Mathlib.Tactic.SplitIfs
import Runbook.Proofs.Runs
import Runbook.Task.Execution

set_option autoImplicit false

/-! # Calls, and what stops them

What the operations of a remote session call, and how they fail. The calls of each operation are of
its own kind. It makes them one after the other, and the first that is struck by a fault ends it, with
a report of that fault, unless the fault only says that a path is not there to be looked at. Where no
call is struck, it ends by itself, and what it fails with then is one of a few failures of its own.
This is shown of each operation from which the tasks for remote hosts are built. -/

namespace Runbook

/-! ## Kinds of calls -/

namespace Event

/-- The calls that run commands. -/
def isChannelCall : Event → Bool
  | session | combineStderr | exec _ | readOutput | exitStatus | closeChannel => true
  | _ => false

/-- The calls that copy files and directories in a file session. -/
def isWalkCall : Event → Bool
  | list _ | openRead _ | openWrite _ | makeDir _ _ => true
  | _ => false

/-- The calls of a file session. -/
def isFileCall : Event → Bool
  | stat _ => true
  | call => call.isWalkCall

/-- The calls that copy a single file. -/
def isCopyCall : Event → Bool
  | scpGet _ | scpPut _ _ _ => true
  | _ => false

/-- Whether a fault that strikes a call is no failure: there may be nothing at the path that is looked
    at. -/
def absorbs : Event → Failure → Bool
  | stat _, x => x.isA .fileNotFound
  | _, _ => false

end Event

namespace Setting

/-- No fault strikes any of some calls that are made one after the other, unless it is absorbed. -/
def Passes (e : Setting) (past : List Event) : List Event → Prop
  | [] => True
  | call :: calls =>
    (∀ x, e.fault past call = some x → call.absorbs x = true) ∧ e.Passes (past ++ [call]) calls

theorem passes_append (e : Setting) (past calls more : List Event) :
    e.Passes past (calls ++ more) ↔ e.Passes past calls ∧ e.Passes (past ++ calls) more := by
  induction calls generalizing past with
  | nil => simp [Passes]
  | cons call calls ih => simp [Passes, ih, and_assoc]

theorem Spares.passes {e : Setting} {past calls : List Event} (h : e.Spares past calls) :
    e.Passes past calls := by
  induction calls generalizing past with
  | nil => trivial
  | cons call calls ih =>
    refine ⟨fun x hx => ?_, ih h.2⟩
    rw [h.1] at hx
    cases hx

/-- A call is struck by a fault that is not absorbed, after some calls that pass. -/
structure Strikes (e : Setting) (past before : List Event) (call : Event) (x : Failure) : Prop where
  passes : e.Passes past before
  fault : e.fault (past ++ before) call = some x
  kept : call.absorbs x = false

theorem Strikes.after {e : Setting} {past calls before : List Event} {call : Event} {x : Failure}
    (hpasses : e.Passes past calls) (h : e.Strikes (past ++ calls) before call x) :
    e.Strikes past (calls ++ before) call x :=
  ⟨(e.passes_append _ _ _).2 ⟨hpasses, h.passes⟩, by rw [← h.fault, List.append_assoc], h.kept⟩

end Setting

/-! ## Failures -/

namespace Failure

/-- A failure in the context of what was attempted, if it is a fault of the session. -/
def inContext (context : RemoteProblem) (f : Failure) : Failure :=
  if f.isSessionFault then f.because (.onPeer context) else f

/-- A fault and the report of it. -/
def Reported (x f : Failure) : Prop :=
  ∃ context : RemoteProblem, context.kind = .remoteChannel ∧ f = x.inContext context

/-- The failures of tasks for remote hosts that come from no fault. What is missing or in the way is
    refused; what a call of the local files or of the peer fails with is put into its context; and a
    command may end with another exit code than those it succeeds with. -/
inductive IsNative : Failure → Prop
  | refusedHere {p : LocalProblem} (h : p.kind = .notFound ∨ p.kind = .alreadyExists) :
    IsNative (.of (.onHost p))
  | refusedThere {p : RemoteProblem} (h : p.kind = .notFound ∨ p.kind = .alreadyExists) :
    IsNative (.of (.onPeer p))
  | localCall {p : LocalProblem} (path : Path) (error : FileError) (h : p.kind = .localFile) :
    IsNative ((path.failure error).because (.onHost p))
  | remoteCall {p : RemoteProblem} {error : Failure} (h : p.kind = .remoteChannel)
    (herror : error = Sftp.noSuchFile ∨ ∃ path, error = Scp.noSuchFile path) :
    IsNative (error.because (.onPeer p))
  | command (command : String) (code : Int) (output : String) :
    IsNative (.of (.remoteCommand command code output))

end Failure

/-! ## Actions that are accounted for -/

/-- The calls of an action are of one kind, and each failure of it is accounted for: it reports the
    fault that strikes the last of the calls, or no call is struck, and the failure is one of the
    action's own. -/
def Accounted {α : Type} (among : Event → Bool) (own : Failure → Prop)
    (report : Failure → Failure → Prop) (m : Action α) : Prop :=
  ∀ e w, ∃ calls, (m e w).2.events = w.events ++ calls ∧ (∀ call ∈ calls, among call = true) ∧
    ((e.Passes w.events calls ∧ ∀ f, (m e w).1 = .error f → own f) ∨
      ∃ before call x f, calls = before ++ [call] ∧ e.Strikes w.events before call x ∧
        (m e w).1 = .error f ∧ report x f)

namespace Accounted

variable {α β : Type} {among among' : Event → Bool} {own own' : Failure → Prop}
  {report report' : Failure → Failure → Prop} {m : Action α} {f : α → Action β} {call : Event}

/-- An action that makes no calls fails with failures of its own only. -/
theorem of_quiet (hquiet : ∀ e w, (m e w).2.events = w.events)
    (hown : ∀ e w f, (m e w).1 = .error f → own f) : Accounted among own report m :=
  fun e w => ⟨[], by rw [hquiet, List.append_nil], by simp, .inl ⟨trivial, hown e w⟩⟩

theorem pure (a : α) : Accounted among own report (Pure.pure a : Action α) :=
  of_quiet (fun _ _ => rfl) fun _ _ _ h => by cases h

theorem fail {x : Failure} (h : own x) : Accounted among own report (Effect.fail x : Action α) :=
  of_quiet (fun _ _ => rfl) fun _ _ f hf => by cases hf; exact h

theorem mono (hm : Accounted among own report m) (hamong : ∀ call, among call → among' call)
    (hown : ∀ f, own f → own' f) (hreport : ∀ x f, report x f → report' x f) :
    Accounted among' own' report' m := by
  intro e w
  obtain ⟨calls, hevents, hcalls, hend⟩ := hm e w
  refine ⟨calls, hevents, fun c hc => hamong c (hcalls c hc), ?_⟩
  rcases hend with ⟨hpasses, hf⟩ | ⟨before, call, x, f, hstop, hx, hf, hr⟩
  · exact .inl ⟨hpasses, fun f h => hown f (hf f h)⟩
  · exact .inr ⟨before, call, x, f, hstop, hx, hf, hreport x f hr⟩

theorem bind (hm : Accounted among own report m) (hf : ∀ a, Accounted among own report (f a)) :
    Accounted among own report (m >>= f) := by
  intro e w
  obtain ⟨calls, hevents, hcalls, hend⟩ := hm e w
  rcases hr : m e w with ⟨y | a, w'⟩
  · rw [hr] at hevents hend
    rw [Effect.bind_of_error hr]
    refine ⟨calls, hevents, hcalls, ?_⟩
    rcases hend with ⟨hpasses, hown⟩ | ⟨before, call, x, g, hstop, hx, hg, hreport⟩
    · exact .inl ⟨hpasses, fun g hg => hown g (by cases hg; rfl)⟩
    · exact .inr ⟨before, call, x, g, hstop, hx, by cases hg; rfl, hreport⟩
  · rw [hr] at hevents hend
    rw [Effect.bind_of_ok hr]
    -- what goes on has not been stopped
    have hpasses : e.Passes w.events calls := by
      rcases hend with ⟨hpasses, -⟩ | ⟨_, _, _, _, _, _, hg, _⟩
      · exact hpasses
      · cases hg
    obtain ⟨more, hmore, hcalls', hend'⟩ := hf a e w'
    dsimp only at hevents
    rw [hevents, List.append_assoc] at hmore
    rw [hevents] at hend'
    refine ⟨calls ++ more, hmore, fun c hc => ?_, ?_⟩
    · rcases List.mem_append.1 hc with hc | hc
      · exact hcalls c hc
      · exact hcalls' c hc
    · rcases hend' with ⟨hmorePasses, hown⟩ | ⟨before, call, x, g, rfl, hx, hg, hreport⟩
      · exact .inl ⟨(e.passes_append _ _ _).2 ⟨hpasses, hmorePasses⟩, hown⟩
      · exact .inr ⟨calls ++ before, call, x, g, (List.append_assoc _ _ _).symm,
          hx.after hpasses, hg, hreport⟩

/-- An action that fails before any call fails with a failure of its own. -/
theorem own_of_error (hm : Accounted (fun _ => true) own Eq m) {e : Setting} {w : World} {f : Failure}
    (h : m e w = (.error f, w)) : own f := by
  obtain ⟨calls, hevents, -, hend⟩ := hm e w
  rw [h] at hevents hend
  rcases hend with ⟨-, hown⟩ | ⟨before, call, _, _, rfl, -⟩
  · exact hown f rfl
  · simp at hevents

theorem ite {p : Prop} [Decidable p] {n : Action α} (hm : Accounted among own report m)
    (hn : Accounted among own report n) : Accounted among own report (if p then m else n) := by
  split
  · exact hm
  · exact hn

theorem setting {f : Setting → Action β} (hf : ∀ e, Accounted among own report (f e)) :
    Accounted among own report (Effect.setting >>= f) :=
  fun e w => hf e e w

theorem get {f : World → Action β} (hf : ∀ w, Accounted among own report (f w)) :
    Accounted among own report (Effect.get >>= f) :=
  fun e w => hf w e w

theorem debug (message : String) : Accounted among own report (Console.debug message) := by
  refine of_quiet (fun e w => ?_) fun e w f h => ?_
  · unfold Console.debug Console.whenDebugging
    rw [Effect.bind_apply, Effect.setting_apply]
    dsimp only
    split <;> rfl
  · unfold Console.debug Console.whenDebugging at h
    rw [Effect.bind_apply, Effect.setting_apply] at h
    dsimp only at h
    split at h <;> cases h

/-- A call whose faults are failures is reported as it is. -/
theorem perform (hamong : among call = true) (hkept : ∀ x, call.absorbs x = false)
    (hreport : ∀ x, report x x) : Accounted among own report (Action.perform call) := by
  intro e w
  refine ⟨[call], by rw [Action.perform_snd, World.after_events], by simpa using hamong, ?_⟩
  cases hfault : e.fault w.events call with
  | none =>
    rw [Action.perform_of_spared hfault]
    refine .inl ⟨⟨fun x hx => ?_, trivial⟩, fun f hf => by cases hf⟩
    rw [hfault] at hx
    cases hx
  | some x =>
    rw [Action.perform_of_struck hfault]
    refine .inr ⟨[], call, x, x, rfl, ⟨trivial, ?_, hkept x⟩, rfl, hreport x⟩
    rw [List.append_nil, hfault]

end Accounted

open Accounted

namespace Session

variable {α : Type} {among : Event → Bool} {own : Failure → Prop} {m : Action α}
  {context : RemoteProblem}

theorem attempting_apply (context : RemoteProblem) (m : Action α) (e : Setting) (w : World) :
    attempting context m e w = ((m e w).1.mapError (Failure.inContext context), (m e w).2) := by
  unfold attempting Effect.because Effect.mapFailure
  rcases m e w with ⟨y | a, w'⟩ <;> rfl

/-- What is attempted in a context of its own puts its failures into the context. -/
theorem accounted_attempting (hm : Accounted among own Eq m) (h : context.kind = .remoteChannel) :
    Accounted among (fun f => ∃ g, own g ∧ f = g.inContext context) Failure.Reported
      (attempting context m) := by
  intro e w
  obtain ⟨calls, hevents, hcalls, hend⟩ := hm e w
  rw [attempting_apply]
  refine ⟨calls, hevents, hcalls, ?_⟩
  rcases hend with ⟨hpasses, hown⟩ | ⟨before, call, x, _, hstop, hx, hf, rfl⟩
  · refine .inl ⟨hpasses, fun f hf => ?_⟩
    cases hr : (m e w).1 with
    | ok a => rw [hr] at hf; cases hf
    | error g => rw [hr] at hf; cases hf; exact ⟨g, hown g hr, rfl⟩
  · exact .inr ⟨before, call, x, _, hstop, hx, by rw [hf]; rfl, context, h, rfl⟩

/-- What has no failures of its own has none in a context either. -/
theorem accounted_attempting_faults (hm : Accounted among (fun _ => False) Eq m)
    (h : context.kind = .remoteChannel) :
    Accounted among own Failure.Reported (attempting context m) :=
  (accounted_attempting hm h).mono (fun _ hc => hc) (fun _ ⟨_, hfalse, _⟩ => hfalse.elim)
    fun _ _ hr => hr

/-! ## Commands -/

theorem accounted_channel (command : String) :
    Accounted Event.isChannelCall (fun _ => False) Eq (channel command) := by
  have hperform : ∀ {call : Event}, call.isChannelCall = true →
      Accounted Event.isChannelCall (fun _ => False) Eq (Action.perform call) := by
    intro call hcall
    exact .perform hcall (fun x => by cases call <;> first | rfl | cases hcall) fun _ => rfl
  refine (hperform rfl).bind fun _ => (hperform rfl).bind fun _ => .get fun _ => ?_
  refine (hperform rfl).bind fun _ => (hperform rfl).bind fun _ => (hperform rfl).bind fun _ => ?_
  exact (hperform rfl).bind fun _ => .setting fun _ => .pure _

theorem accounted_remoteCommand (c : RemoteCommand) :
    Accounted Event.isChannelCall Failure.IsNative Failure.Reported c.execute := by
  have hrun : Accounted Event.isChannelCall Failure.IsNative Failure.Reported
      (attempting (.runCommand c.command) (channel c.command)) :=
    accounted_attempting_faults (accounted_channel c.command) rfl
  refine (hrun.bind fun _ => .pure _).bind fun r => ?_
  exact .ite (.pure _) (.fail (.command _ _ _))

theorem accounted_commands (target : Target) (cs : List RemoteCommand) :
    Accounted Event.isChannelCall Failure.IsNative Failure.Reported (commands target cs) := by
  induction cs with
  | nil => exact .pure ()
  | cons c cs ih =>
    refine (Accounted.debug _).bind fun _ => (accounted_remoteCommand c).bind fun _ => ?_
    exact .ite ((Accounted.debug _).bind fun _ => ih) ((Accounted.pure ()).bind fun _ => ih)

end Session

/-! ## Local files -/

namespace FileTree

/-- Only a name that is too long fails as such where names are followed. -/
theorem exists_long_of_follow {t : FileTree} {place names : List String}
    (h : t.follow place names = .error .nameTooLong) :
    ∃ name ∈ names, nameLimit < name.utf8ByteSize := by
  induction names generalizing place with
  | nil => cases h
  | cons name names ih =>
    rw [follow] at h
    split at h
    · next x hstep =>
      cases h
      refine ⟨name, List.mem_cons_self, ?_⟩
      unfold step at hstep
      split at hstep
      · cases hstep
      · cases hstep
      · split_ifs at hstep with hlong
        · exact hlong
        · split at hstep <;> cases hstep
    · obtain ⟨long, hmem, hlong⟩ := ih h
      exact ⟨long, List.mem_cons_of_mem _ hmem, hlong⟩
    · split_ifs at h
      cases h

end FileTree

namespace Path

/-- A path whose text or one of whose names is too long for the system. -/
def IsTooLong (p : Path) : Prop :=
  FileTree.pathLimit < p.toText.utf8ByteSize ∨
    ∃ name ∈ p.parts, FileTree.nameLimit < name.utf8ByteSize

/-- A failure without a context with which a path is rejected: it is no path for the system, or too long
    to be looked up. -/
def Rejects (p : Path) (f : Failure) : Prop :=
  (noNull p.toText = false ∧ f = .of .nullInPath) ∨
    (p.IsTooLong ∧ f = p.failure .nameTooLong)

/-- A path that names lead to from another one. -/
def IsBelow (p root : Path) : Prop := ∃ names : List String, p = names.foldl below root

/-- The paths that a transfer to or from a local path looks at: the path, what is below it, and the
    directory that it is in. -/
def IsNear (p root : Path) : Prop := p = root.parent ∨ p.IsBelow root

theorem isBelow_refl (p : Path) : p.IsBelow p := ⟨[], rfl⟩

theorem IsBelow.below {p root : Path} (h : p.IsBelow root) (name : String) :
    (p.below name).IsBelow root := by
  obtain ⟨names, rfl⟩ := h
  exact ⟨names ++ [name], by rw [List.foldl_append]; rfl⟩

/-- A failure of a transfer to or from a local path that comes from no fault. -/
def OwnFailure (root : Path) (f : Failure) : Prop :=
  f.IsNative ∨ ∃ p : Path, p.IsNear root ∧ p.Rejects f

variable {α : Type} {p root : Path} {among : Event → Bool} {report : Failure → Failure → Prop}
  {context : LocalProblem}

theorem isTooLong_of_at {t : FileTree} {workingDir : List String}
    (h : t.at? workingDir p = .error .nameTooLong) : p.IsTooLong := by
  unfold FileTree.at? FileTree.locate at h
  split_ifs at h with hlong
  · exact .inl hlong
  · cases hfollow : t.follow (FileTree.start workingDir p) p.parts with
    | ok spot => rw [hfollow] at h; cases h
    | error x =>
      rw [hfollow] at h
      cases h
      exact .inr (FileTree.exists_long_of_follow hfollow)

theorem accounted_call (hp : p.IsNear root) (hcontext : context.kind = .localFile)
    (f : FileTree → List String → Path → Except FileError α) :
    Accounted among (OwnFailure root) report (p.call context f) := by
  refine .of_quiet (fun e w => ?_) fun e w x hx => ?_
  · unfold call
    split_ifs
    · split <;> rfl
    · rfl
  · unfold call at hx
    split_ifs at hx with hnull
    · split at hx
      · cases hx
      · next error _ =>
        cases hx
        exact .inl (.localCall p error hcontext)
    · cases hx
      exact .inr ⟨p, hp, .inl ⟨Bool.eq_false_iff.2 hnull, rfl⟩⟩

theorem accounted_setFiles (t : FileTree) :
    Accounted among (OwnFailure root) report (setFiles t) :=
  .of_quiet (fun _ _ => rfl) fun _ _ _ h => by cases h

theorem accounted_writeFile (hp : p.IsNear root) (content : Bytes) :
    Accounted among (OwnFailure root) report (p.writeFile content) :=
  (accounted_call hp rfl _).bind fun _ => accounted_setFiles _

theorem accounted_makeDirectory (hp : p.IsNear root) :
    Accounted among (OwnFailure root) report p.makeDirectory :=
  (accounted_call hp rfl _).bind fun _ => accounted_setFiles _

theorem accounted_checkLength (hp : p.IsNear root) :
    Accounted among (OwnFailure root) report p.checkLength := by
  unfold checkLength
  split_ifs with hlong
  · exact .fail (.inr ⟨p, hp, .inr ⟨.inl hlong, rfl⟩⟩)
  · exact .pure ()

theorem accounted_found? (hp : p.IsNear root) :
    Accounted among (OwnFailure root) report p.found? := by
  refine .of_quiet (fun e w => ?_) fun e w x hx => ?_
  · unfold found?
    split_ifs
    · split <;> rfl
    · rfl
  · unfold found? at hx
    split_ifs at hx
    split at hx
    · cases hx
    · next hlong =>
      cases hx
      exact .inr ⟨p, hp, .inr ⟨isTooLong_of_at hlong, rfl⟩⟩
    · cases hx

theorem accounted_isFile (hp : p.IsNear root) :
    Accounted among (OwnFailure root) report p.isFile :=
  (accounted_found? hp).bind fun _ => .pure _

theorem accounted_isDirectory (hp : p.IsNear root) :
    Accounted among (OwnFailure root) report p.isDirectory :=
  (accounted_found? hp).bind fun _ => .pure _

end Path

/-! ## File sessions -/

namespace Sftp

open Session Path

variable {root localPath : Path}

theorem accounted_changePeer {among : Event → Bool} {own : Failure → Prop}
    {report : Failure → Failure → Prop} (f : Peer → Peer) :
    Accounted among own report (changePeer f) :=
  .of_quiet (fun _ _ => rfl) fun _ _ _ h => by cases h

theorem accounted_readContent (path : Path) (content : Option Bytes) :
    Accounted Event.isWalkCall (OwnFailure root) Failure.Reported (readContent path content) := by
  cases content with
  | some bytes =>
    refine accounted_attempting_faults ?_ rfl
    exact (Accounted.perform rfl (fun _ => rfl) fun _ => rfl).bind fun _ => .pure bytes
  | none =>
    have hread : Accounted Event.isWalkCall (· = noSuchFile) Eq
        (Action.perform (.openRead path.toText) >>= fun _ =>
          (Effect.fail noSuchFile : Action Bytes)) :=
      (Accounted.perform rfl (fun _ => rfl) fun _ => rfl).bind fun _ => .fail rfl
    refine (accounted_attempting hread rfl).mono (fun _ h => h) ?_ fun _ _ h => h
    rintro _ ⟨_, rfl, rfl⟩
    exact .inl (.remoteCall rfl (.inl rfl))

theorem accounted_downloadFile (hp : localPath.IsNear root) (remote : Path)
    (content : Option Bytes) :
    Accounted Event.isWalkCall (OwnFailure root) Failure.Reported
      (downloadFile remote localPath content) :=
  (accounted_readContent remote content).bind fun _ => accounted_writeFile hp _

theorem accounted_askListing (path : Path) :
    Accounted Event.isWalkCall (OwnFailure root) Failure.Reported (askListing path) :=
  accounted_attempting_faults (.perform rfl (fun _ => rfl) fun _ => rfl) rfl

mutual

/-- A download goes down what is seen, and calls the peer for listings and files. -/
theorem accounted_downloadView (remote localPath : Path) (hp : localPath.IsBelow root) :
    ∀ v, Accounted Event.isWalkCall (OwnFailure root) Failure.Reported
      (downloadView remote localPath v)
  | .mk mode content listing => by
    rw [downloadView]
    refine .ite ?_ (accounted_downloadFile (.inr hp) _ _)
    refine (Path.accounted_makeDirectory (.inr hp)).bind fun _ => ?_
    exact (accounted_askListing _).bind fun _ => accounted_downloadListing _ _ hp listing

theorem accounted_downloadListing (remote localPath : Path) (hp : localPath.IsBelow root) :
    ∀ listing, Accounted Event.isWalkCall (OwnFailure root) Failure.Reported
      (downloadListing remote localPath listing)
  | [] => .pure ()
  | (name, v) :: rest => by
    rw [downloadListing]
    refine (accounted_downloadView _ _ (hp.below name) v).bind fun _ => ?_
    exact accounted_downloadListing _ _ hp rest

end

theorem accounted_writeContent (path : Path) (content : Bytes) :
    Accounted Event.isWalkCall (OwnFailure root) Failure.Reported (writeContent path content) :=
  accounted_attempting_faults
    ((Accounted.perform rfl (fun _ => rfl) fun _ => rfl).bind fun _ => accounted_changePeer _) rfl

theorem accounted_makeDirectory (path : Path) :
    Accounted Event.isWalkCall (OwnFailure root) Failure.Reported (Sftp.makeDirectory path) :=
  accounted_attempting_faults
    ((Accounted.perform rfl (fun _ => rfl) fun _ => rfl).bind fun _ => accounted_changePeer _) rfl

mutual

/-- An upload goes down a local tree, and calls the peer for directories and files. -/
theorem accounted_uploadTree (remote localPath : Path) (hp : localPath.IsBelow root) :
    ∀ t, Accounted Event.isWalkCall (OwnFailure root) Failure.Reported
      (uploadTree localPath remote t)
  | .file content => by
    rw [uploadTree]
    exact (accounted_checkLength (.inr hp)).bind fun _ => accounted_writeContent _ _
  | .dir entries => by
    rw [uploadTree]
    refine (accounted_checkLength (.inr hp)).bind fun _ => ?_
    refine (Sftp.accounted_makeDirectory _).bind fun _ => ?_
    exact accounted_uploadEntries _ _ hp entries

theorem accounted_uploadEntries (remote localPath : Path) (hp : localPath.IsBelow root) :
    ∀ entries, Accounted Event.isWalkCall (OwnFailure root) Failure.Reported
      (uploadEntries localPath remote entries)
  | [] => .pure ()
  | (name, t) :: rest => by
    rw [uploadEntries]
    refine (accounted_uploadTree _ _ (hp.below name) t).bind fun _ => ?_
    exact accounted_uploadEntries _ _ hp rest

end

theorem accounted_uploadDirectory (remote localPath : Path) :
    Accounted Event.isWalkCall (OwnFailure localPath) Failure.Reported
      (uploadDirectory localPath remote) :=
  (Path.accounted_call (.inr localPath.isBelow_refl) rfl _).bind fun _ =>
    accounted_uploadEntries _ _ localPath.isBelow_refl _

/-! ## What a transfer over sftp does in its session -/

/-- A path that is not there is none that is looked at. -/
theorem stat_of_absorbed {path : Path} (v : Option RemoteView) {e : Setting} {w : World}
    {x : Failure} (h : e.fault w.events (.stat path.toText) = some x)
    (hx : x.isA .fileNotFound = true) :
    stat path v e w = (.ok none, w.after [.stat path.toText]) := by
  have hcall : statCall path v e w = (.error x, w.after [.stat path.toText]) :=
    Effect.bind_of_error (Action.perform_of_struck h)
  rw [stat, Effect.bind_apply, Effect.attempt_apply, hcall]
  simp only [hx, if_true]
  rfl

theorem stat_of_reported {path : Path} (v : Option RemoteView) {e : Setting} {w : World}
    {x : Failure} (h : e.fault w.events (.stat path.toText) = some x)
    (hx : x.isA .fileNotFound = false) :
    stat path v e w
      = (.error (x.inContext (.readStatus path.toText)), w.after [.stat path.toText]) := by
  have hcall : statCall path v e w = (.error x, w.after [.stat path.toText]) :=
    Effect.bind_of_error (Action.perform_of_struck h)
  rw [stat, Effect.bind_apply, Effect.attempt_apply, hcall]
  simp only [hx, Bool.false_eq_true, if_false]
  rw [attempting_apply]
  rfl

theorem stat_snd (path : Path) (v : Option RemoteView) (e : Setting) (w : World) :
    (stat path v e w).2 = w.after [.stat path.toText] := by
  cases h : e.fault w.events (.stat path.toText) with
  | none => rw [stat_of_spared v h]
  | some x =>
    cases hx : x.isA .fileNotFound with
    | true => rw [stat_of_absorbed v h hx]
    | false => rw [stat_of_reported v h hx]

theorem accounted_stat (path : Path) (v : Option RemoteView) :
    Accounted Event.isFileCall (OwnFailure root) Failure.Reported (stat path v) := by
  intro e w
  refine ⟨[.stat path.toText], by rw [stat_snd, World.after_events], by simp [Event.isFileCall], ?_⟩
  cases h : e.fault w.events (.stat path.toText) with
  | none =>
    rw [stat_of_spared v h]
    refine .inl ⟨⟨fun x hx => ?_, trivial⟩, fun f hf => by cases hf⟩
    rw [h] at hx
    cases hx
  | some x =>
    cases hx : x.isA .fileNotFound with
    | true =>
      rw [stat_of_absorbed v h hx]
      refine .inl ⟨⟨fun y hy => ?_, trivial⟩, fun f hf => by cases hf⟩
      rw [h] at hy
      obtain rfl := Option.some.inj hy
      exact hx
    | false =>
      rw [stat_of_reported v h hx]
      refine .inr ⟨[], _, x, _, rfl, ⟨trivial, ?_, hx⟩, rfl, .readStatus path.toText, rfl, rfl⟩
      rw [List.append_nil, h]

theorem accounted_refuseLocal {condition : Bool} {p : LocalProblem}
    (h : p.kind = .notFound ∨ p.kind = .alreadyExists) :
    Accounted Event.isWalkCall (OwnFailure root) Failure.Reported (refuseLocal condition p) :=
  .ite (.fail (.inl (.refusedHere h))) (.pure ())

/-- What a download does when it has looked at its remote path. -/
def receiveSeen (remote localPath : Path) : Option RemoteView → Action Unit
  | none => Effect.failWith (.onPeer (.missing remote.toText))
  | some v =>
    if v.isFile then receiveFile remote localPath v.content
    else if v.isDir then receiveDirectory remote localPath v.listing
    else Effect.failWith (.onPeer (.neither remote.toText))

theorem receive_eq (remote localPath : Path) (seen : Option RemoteView) :
    receive remote localPath seen = stat remote seen >>= receiveSeen remote localPath := by
  refine congrArg (stat remote seen >>= ·) (funext fun v => ?_)
  cases v <;> rfl

theorem accounted_receiveSeen (remote localPath : Path) (seen : Option RemoteView) :
    Accounted Event.isWalkCall (OwnFailure localPath) Failure.Reported
      (receiveSeen remote localPath seen) := by
  have hself : localPath.IsNear localPath := .inr localPath.isBelow_refl
  cases seen with
  | none => exact .fail (.inl (.refusedThere (.inl rfl)))
  | some v =>
    refine .ite ?_ (.ite ?_ (.fail (.inl (.refusedThere (.inl rfl)))))
    · refine (accounted_isFile hself).bind fun _ => ?_
      refine (accounted_refuseLocal (.inr rfl)).bind fun _ => (accounted_isDirectory hself).bind ?_
      intro there
      refine accounted_downloadFile (.inr ?_) _ _
      split
      · exact localPath.isBelow_refl.below _
      · exact localPath.isBelow_refl
    · refine (accounted_isDirectory hself).bind fun _ => ?_
      refine (accounted_refuseLocal (.inr rfl)).bind fun _ => ?_
      refine (accounted_isDirectory (.inl rfl)).bind fun _ => ?_
      refine (accounted_refuseLocal (.inl rfl)).bind fun _ => ?_
      refine (Path.accounted_makeDirectory hself).bind fun _ => ?_
      refine (accounted_askListing _).bind fun _ => ?_
      exact accounted_downloadListing _ _ localPath.isBelow_refl _

/-- What an upload of a directory does when it has looked at its remote path. -/
def sendSeen (localPath remote : Path) : Option RemoteView → Action Unit
  | some _ => Effect.failWith (.onPeer (.there remote.toText))
  | none => do
    makeDirectory remote
    uploadDirectory localPath remote

theorem sendDirectory_eq (localPath remote : Path) :
    sendDirectory localPath remote = Effect.get >>= fun w =>
      stat remote (w.peer.view? remote) >>= sendSeen localPath remote := by
  refine congrArg (Effect.get >>= ·) (funext fun w => ?_)
  refine congrArg (stat remote (w.peer.view? remote) >>= ·) (funext fun v => ?_)
  cases v <;> rfl

theorem accounted_sendSeen (localPath remote : Path) (seen : Option RemoteView) :
    Accounted Event.isWalkCall (OwnFailure localPath) Failure.Reported
      (sendSeen localPath remote seen) := by
  cases seen with
  | some _ => exact .fail (.inl (.refusedThere (.inr rfl)))
  | none =>
    exact (Sftp.accounted_makeDirectory _).bind fun _ => accounted_uploadDirectory remote localPath

theorem isFileCall_of_isWalkCall (call : Event) (h : call.isWalkCall = true) :
    call.isFileCall = true := by
  cases call <;> first | rfl | exact h

/-- Looking at a path, and then walking. -/
theorem accounted_stat_bind {path : Path} {seen : Option RemoteView}
    {next : Option RemoteView → Action Unit}
    (h : ∀ v, Accounted Event.isWalkCall (OwnFailure root) Failure.Reported (next v)) :
    Accounted Event.isFileCall (OwnFailure root) Failure.Reported (stat path seen >>= next) :=
  (accounted_stat path seen).bind fun v =>
    (h v).mono isFileCall_of_isWalkCall (fun _ h => h) fun _ _ h => h

theorem accounted_shown {among : Event → Bool} {own : Failure → Prop}
    {report : Failure → Failure → Prop} (path : Path) : Accounted among own report (shown path) :=
  .setting fun _ => .get fun _ => .pure _

/-- What a download over sftp does in its session. -/
def downloading (remote localPath : Path) : Action Unit := do receive remote localPath (← shown remote)

/-- What an upload over sftp does in its session. -/
def uploading (localPath remote : Path) : Action Unit := do
  if ← localPath.isFile then uploadFile localPath remote
  else sendDirectory localPath remote

theorem accounted_downloading (remote localPath : Path) :
    Accounted Event.isFileCall (OwnFailure localPath) Failure.Reported
      (downloading remote localPath) := by
  refine (accounted_shown _).bind fun seen => ?_
  rw [receive_eq]
  exact accounted_stat_bind fun v => accounted_receiveSeen remote localPath v

theorem accounted_uploading (localPath remote : Path) :
    Accounted Event.isFileCall (OwnFailure localPath) Failure.Reported
      (uploading localPath remote) := by
  have hself : localPath.IsNear localPath := .inr localPath.isBelow_refl
  refine (accounted_isFile hself).bind fun _ => .ite ?_ ?_
  · refine (accounted_call hself rfl _).bind fun _ => ?_
    exact (accounted_writeContent _ _).mono isFileCall_of_isWalkCall (fun _ h => h) fun _ _ h => h
  · rw [sendDirectory_eq]
    exact .get fun w => accounted_stat_bind fun v => accounted_sendSeen localPath remote v

end Sftp

/-! ## What a copy of a single file does in its session -/

namespace Scp

theorem accounted_get (path : String) :
    Accounted Event.isCopyCall (· = noSuchFile path) Eq (get path) := by
  refine (Accounted.perform rfl (fun _ => rfl) fun _ => rfl).bind fun _ => .get fun w => ?_
  split
  · exact .pure _
  · exact .fail rfl

theorem accounted_put (path : String) (content : Bytes) :
    Accounted Event.isCopyCall (fun _ => False) Eq (put path content) :=
  (Accounted.perform rfl (fun _ => rfl) fun _ => rfl).bind fun _ => Sftp.accounted_changePeer _

end Scp
end Runbook
