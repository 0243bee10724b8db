import Runbook.Proofs.Failing
import Runbook.Proofs.Faults

set_option autoImplicit false

/-! # Clean-ups and the failures behind them

What a task for a remote host does in its session is put into a context when it fails. The calls that
close the session are not, nor is the one that sets the policy for the keys of hosts: a fault that
strikes one of them is what the task ends with. If the clean-up was made for another failure, that one
is not what the task ends with then, but it is still among the errors behind it. Where these calls are
spared a task ends with the failure of its work. -/

namespace Runbook

open Action

/-! ## Calls without a context -/

/-- The calls whose faults are put into no context: the one that sets the policy for the keys of hosts,
    and those that close a session. -/
def Event.isBare : Event → Bool
  | policy | closeSftp | close => true
  | _ => false

namespace Setting

/-- All faults are faults of a session or of the system beneath it. -/
def FaultsAreOfSessions (e : Setting) : Prop :=
  ∀ past call x, e.fault past call = some x → x.isSessionFault = true

/-- No fault strikes any of the bare ones among some calls that are made one after the other. -/
def SparesBare (e : Setting) (past : List Event) : List Event → Prop
  | [] => True
  | call :: calls =>
    (call.isBare = true → e.fault past call = none) ∧ e.SparesBare (past ++ [call]) calls

theorem sparesBare_append (e : Setting) (past calls more : List Event) :
    e.SparesBare past (calls ++ more) ↔
      e.SparesBare past calls ∧ e.SparesBare (past ++ calls) more := by
  induction calls generalizing past with
  | nil => simp [SparesBare]
  | cons call calls ih => simp [SparesBare, ih, and_assoc]

theorem sparesBare_of_notBare {e : Setting} {calls : List Event}
    (h : ∀ call ∈ calls, call.isBare = false) (past : List Event) : e.SparesBare past calls := by
  induction calls generalizing past with
  | nil => trivial
  | cons call calls ih =>
    refine ⟨fun hbare => ?_, ih (fun c hc => h c (List.mem_cons_of_mem _ hc)) _⟩
    rw [h call List.mem_cons_self] at hbare
    cases hbare

theorem Spares.sparesBare {e : Setting} {past calls : List Event} (h : e.Spares past calls) :
    e.SparesBare past calls := by
  induction calls generalizing past with
  | nil => trivial
  | cons call calls ih => exact ⟨fun _ => h.1, ih h.2⟩

/-- Where no bare call is ever struck, all of them are spared. -/
theorem sparesBare_of_no_fault {e : Setting}
    (h : ∀ past call, call.isBare = true → e.fault past call = none) (past calls : List Event) :
    e.SparesBare past calls := by
  induction calls generalizing past with
  | nil => trivial
  | cons call calls ih => exact ⟨h past call, ih _⟩

end Setting

/-- The faults of sessions are no failures that a workflow reports. -/
theorem Failure.isWorkflow_of_isSessionFault {f : Failure} (h : f.isSessionFault = true) :
    f.isWorkflow = false := by
  unfold isSessionFault isWorkflow isA Cause.isA at *
  cases hk : f.head.kind <;> rw [hk] at h <;> first | rfl | cases h

theorem Failure.isWorkflow_inContext {f : Failure} {context : RemoteProblem}
    (hf : f.isSessionFault = true) (hcontext : context.kind = .remoteChannel) :
    (f.inContext context).isWorkflow = true := by
  rw [inContext, if_pos hf]
  exact Task.isWorkflow_of_kind hcontext rfl

/-! ## Work and its clean-ups -/

/-- An action consists of some work and of bare calls around it. If the bare calls are spared, what it
    fails with is of one kind, and if the work fails the action fails alike. If one is struck, the action
    fails with no failure that a workflow reports, and that of the work is the last part of it. -/
def CleansUp {α β : Type} (own : Failure → Prop) (e : Setting) (m : Action α) (work : Action β) :
    Prop :=
  ∀ w, ∃ calls, (m e w).2.events = w.events ++ calls ∧
    ((e.SparesBare w.events calls ∧ (∀ f, (m e w).1 = .error f → own f) ∧
        ∀ f, (work e w).1 = .error f → (m e w).1 = .error f) ∨
      ¬ e.SparesBare w.events calls ∧ ∃ f, (m e w).1 = .error f ∧ f.isWorkflow = false ∧
        ∀ g, (work e w).1 = .error g → g.links <:+ f.links)

namespace CleansUp

variable {α β γ : Type} {own : Failure → Prop} {e : Setting} {m : Action α} {work : Action β}

/-- What makes no bare calls is work as a whole. -/
theorem of_notBare (hcalls : ∀ w, ∃ calls, (m e w).2.events = w.events ++ calls ∧
      ∀ call ∈ calls, call.isBare = false) (hm : m.FailsOnly e own) : CleansUp own e m m := by
  intro w
  obtain ⟨calls, hevents, hbare⟩ := hcalls w
  exact ⟨calls, hevents, .inl ⟨Setting.sparesBare_of_notBare hbare _, hm w, fun _ h => h⟩⟩

/-- What has been accounted for, and makes no bare calls, is work as a whole. -/
theorem of_accounted {among : Event → Bool} {own' : Failure → Prop}
    (he : e.FaultsAreOfSessions) (hm : Accounted among own' Failure.Reported m)
    (hamong : ∀ call, among call = true → call.isBare = false) (hown : ∀ f, own' f → own f)
    (hworkflow : ∀ f : Failure, f.isWorkflow = true → own f) : CleansUp own e m m := by
  refine of_notBare (fun w => ?_) fun w f hf => ?_
  · obtain ⟨calls, hevents, hcalls, -⟩ := hm e w
    exact ⟨calls, hevents, fun call hc => hamong call (hcalls call hc)⟩
  · obtain ⟨calls, -, -, ⟨-, hfails⟩ | ⟨before, call, x, g, -, hx, hg, context, hcontext, rfl⟩⟩ :=
      hm e w
    · exact hown f (hfails f hf)
    · rw [hg] at hf
      cases hf
      exact hworkflow _ (Failure.isWorkflow_inContext (he _ _ _ hx.fault) hcontext)

/-- Work may be preceded by other work. -/
theorem bind {first : Action γ} {f : γ → Action α} {g : γ → Action β}
    (hfirst : CleansUp own e first first) (h : ∀ a, CleansUp own e (f a) (g a)) :
    CleansUp own e (first >>= f) (first >>= g) := by
  intro w
  obtain ⟨calls, hevents, hend⟩ := hfirst w
  rcases hr : first e w with ⟨x | a, w'⟩
  · rw [hr] at hevents hend
    rw [Effect.bind_of_error hr, Effect.bind_of_error hr]
    refine ⟨calls, hevents, ?_⟩
    rcases hend with ⟨hspared, hown, -⟩ | ⟨hstruck, y, hy, hkind, hwork⟩
    · exact .inl ⟨hspared, fun f hf => hown f (by cases hf; rfl), fun f hf => by cases hf; rfl⟩
    · exact .inr ⟨hstruck, y, by cases hy; rfl, hkind, fun g hg => hwork g (by cases hg; rfl)⟩
  · rw [hr] at hevents hend
    rw [Effect.bind_of_ok hr, Effect.bind_of_ok hr]
    -- what goes on has not been struck
    have hspared : e.SparesBare w.events calls := by
      rcases hend with ⟨hspared, -⟩ | ⟨-, f, hf, -⟩
      · exact hspared
      · cases hf
    obtain ⟨more, hmore, hend'⟩ := h a w'
    dsimp only at hevents
    rw [hevents, List.append_assoc] at hmore
    rw [hevents] at hend'
    refine ⟨calls ++ more, hmore, ?_⟩
    rw [e.sparesBare_append]
    rcases hend' with ⟨hrest, hend'⟩ | ⟨hstruck, hend'⟩
    · exact .inl ⟨⟨hspared, hrest⟩, hend'⟩
    · exact .inr ⟨fun hall => hstruck hall.2, hend'⟩

/-- What comes after the clean-up is no part of the work. -/
theorem bind_after {f : α → Action γ} (h : CleansUp own e m work)
    (hf : ∀ a, CleansUp own e (f a) (f a)) : CleansUp own e (m >>= f) work := by
  intro w
  obtain ⟨calls, hevents, hend⟩ := h w
  rcases hr : m e w with ⟨x | a, w'⟩
  · rw [hr] at hevents hend
    rw [Effect.bind_of_error hr]
    refine ⟨calls, hevents, ?_⟩
    rcases hend with ⟨hspared, hown, hwork⟩ | ⟨hstruck, y, hy, hkind, hwork⟩
    · exact .inl ⟨hspared, fun f hf => hown f (by cases hf; rfl),
        fun g hg => by cases hwork g hg; rfl⟩
    · exact .inr ⟨hstruck, y, by cases hy; rfl, hkind, hwork⟩
  · rw [hr] at hevents hend
    rw [Effect.bind_of_ok hr]
    have hspared : e.SparesBare w.events calls ∧ ∀ g, (work e w).1 ≠ .error g := by
      rcases hend with ⟨hspared, -, hwork⟩ | ⟨-, f, hf, -⟩
      · exact ⟨hspared, fun g hg => by cases hwork g hg⟩
      · cases hf
    obtain ⟨more, hmore, hend'⟩ := hf a w'
    dsimp only at hevents
    rw [hevents, List.append_assoc] at hmore
    rw [hevents] at hend'
    refine ⟨calls ++ more, hmore, ?_⟩
    rw [e.sparesBare_append]
    rcases hend' with ⟨hrest, hown, -⟩ | ⟨hstruck, y, hy, hkind, -⟩
    · exact .inl ⟨⟨hspared.1, hrest⟩, hown, fun g hg => absurd hg (hspared.2 g)⟩
    · exact .inr ⟨fun hall => hstruck hall.2, y, hy, hkind, fun g hg => absurd hg (hspared.2 g)⟩

/-- The value of the work does not matter. -/
theorem discard (h : CleansUp own e m work) :
    CleansUp own e m (work >>= fun _ => (pure () : Action Unit)) := by
  have hsame : ∀ (w : World) (f : Failure),
      ((work >>= fun _ => (pure () : Action Unit)) e w).1 = .error f → (work e w).1 = .error f := by
    intro w f hf
    rcases hr : work e w with ⟨x | b, w'⟩
    · rw [Effect.bind_of_error hr] at hf
      cases hf
      rfl
    · rw [Effect.bind_of_ok hr] at hf
      cases hf
  intro w
  obtain ⟨calls, hevents, ⟨hspared, hown, hwork⟩ | ⟨hstruck, y, hy, hkind, hwork⟩⟩ := h w
  · exact ⟨calls, hevents, .inl ⟨hspared, hown, fun f hf => hwork f (hsame w f hf)⟩⟩
  · exact ⟨calls, hevents, .inr ⟨hstruck, y, hy, hkind, fun f hf => hwork f (hsame w f hf)⟩⟩

/-- A clean-up that is a bare call. If it is struck its fault stands in front of whatever the action
    fails with. -/
theorem andThenAlways (he : e.FaultsAreOfSessions) (h : CleansUp own e m work) {call : Event}
    (hcall : call.isBare = true) : CleansUp own e (m.andThenAlways (perform call)) work := by
  intro w
  obtain ⟨calls, hevents, hend⟩ := h w
  have hsnd : (m.andThenAlways (perform call) e w).2.events = w.events ++ (calls ++ [call]) := by
    rw [Effect.andThenAlways_snd, perform_snd, World.after_events, hevents, List.append_assoc]
  refine ⟨calls ++ [call], hsnd, ?_⟩
  rw [e.sparesBare_append]
  cases hfault : e.fault (m e w).2.events call with
  | none =>
    have hsame := Effect.andThenAlways_fst (m := m)
      (congrArg Prod.fst (perform_of_spared hfault))
    rw [hsame]
    rw [hevents] at hfault
    rcases hend with ⟨hspared, hend⟩ | ⟨hstruck, hend⟩
    · exact .inl ⟨⟨hspared, fun _ => hfault, trivial⟩, hend⟩
    · exact .inr ⟨fun hall => hstruck hall.1, hend⟩
  | some x =>
    obtain ⟨z, hz, hhead, -, hbehind⟩ := Effect.andThenAlways_of_error
      (perform_of_struck hfault)
    rw [hevents] at hfault
    refine .inr ⟨fun hall => ?_, z, hz, ?_, fun g hg => ?_⟩
    · rw [hall.2.1 hcall] at hfault
      cases hfault
    · rw [Failure.isWorkflow, Failure.isA, hhead]
      exact Failure.isWorkflow_of_isSessionFault (he _ _ _ hfault)
    · rcases hend with ⟨-, -, hwork⟩ | ⟨-, y, hy, -, hwork⟩
      · exact hbehind g (hwork g hg)
      · exact (hwork g hg).trans (hbehind y hy)

end CleansUp

/-! ## Sessions -/

namespace Session

variable {α β : Type} {own : Failure → Prop} {e : Setting} {m : Action α} {work : Action β}

/-- A session that cannot be opened is closed again, and the failure to connect is reported if that
    succeeds. -/
theorem cleansUp_openClient (he : e.FaultsAreOfSessions)
    (hown : ∀ f : Failure, f.isWorkflow = true → own f) (target : Target) :
    CleansUp own e (openClient target) (openClient target) := by
  intro w
  by_cases hspared : e.Spares w.events (connecting target e)
  · rw [openClient_of_spared hspared]
    exact ⟨_, rfl, .inl ⟨hspared.sparesBare, fun f hf => (by cases hf), fun f hf => (by cases hf)⟩⟩
  cases hpolicy : e.fault w.events .policy with
  | some x =>
    have hrun : openClient target e w = (.error x, w.after [.policy]) :=
      Effect.bind_of_error (perform_of_struck hpolicy)
    rw [hrun]
    refine ⟨[.policy], rfl, .inr ⟨fun h => ?_, x, rfl,
      Failure.isWorkflow_of_isSessionFault (he _ _ _ hpolicy), fun g hg => ?_⟩⟩
    · rw [h.1 rfl] at hpolicy
      cases hpolicy
    · cases hg
      exact List.suffix_rfl
  | none =>
    obtain ⟨x, hconnect⟩ : ∃ x, e.fault (w.events ++ [.policy])
        (.connect target e.connectTimeout) = some x :=
      Option.ne_none_iff_exists'.1 fun h => hspared ⟨hpolicy, h, trivial⟩
    have hx : x.isSessionFault = true := he _ _ _ hconnect
    have hrun := openClient_of_unconnected hpolicy hconnect
    rw [if_pos hx, connectFailure, if_pos hx] at hrun
    cases hclose : e.fault (w.events ++ connecting target e) .close with
    | none =>
      rw [hclose] at hrun
      rw [hrun]
      refine ⟨_, rfl, .inl ⟨?_, fun f hf => ?_, fun _ hf => hf⟩⟩
      · exact (e.sparesBare_append _ _ _).2 ⟨⟨fun _ => hpolicy, fun h => (by cases h), trivial⟩,
          fun _ => hclose, trivial⟩
      · cases hf
        exact hown _ (Task.isWorkflow_of_kind rfl rfl)
    | some y =>
      rw [hclose] at hrun
      rw [hrun]
      refine ⟨_, rfl, .inr ⟨fun h => ?_, _, rfl, ?_, fun g hg => ?_⟩⟩
      · have hnone := ((e.sparesBare_append _ _ _).1 h).2.1 rfl
        exact absurd (hclose.symm.trans hnone) (by simp)
      · exact Failure.isWorkflow_of_isSessionFault (f := y) (he _ _ _ hclose)
      · cases hg
        exact List.suffix_rfl

theorem cleansUp_withConnection (he : e.FaultsAreOfSessions)
    (hown : ∀ f : Failure, f.isWorkflow = true → own f) (h : CleansUp own e m work)
    (target : Target) :
    CleansUp own e (withConnection target m) (openClient target >>= fun _ => work) :=
  (cleansUp_openClient he hown target).bind fun _ => h.andThenAlways he rfl

end Session

namespace Sftp

variable {α : Type} {own : Failure → Prop} {e : Setting} {body : Action α}

theorem cleansUp_withSftp (he : e.FaultsAreOfSessions)
    (hown : ∀ f : Failure, f.isWorkflow = true → own f) (h : CleansUp own e body body) :
    CleansUp own e (withSftp body) (start >>= fun _ => body) := by
  have hstart : Accounted (· == .openSftp) (fun _ => False) Failure.Reported start :=
    Session.accounted_attempting_faults (.perform rfl (fun _ => rfl) fun _ => rfl) rfl
  refine (CleansUp.of_accounted he hstart (fun call hc => ?_) (fun _ hf => hf.elim) hown).bind
    fun _ => h.andThenAlways he rfl
  rw [eq_of_beq hc]
  rfl

/-- What an upload looks for before it opens a session. -/
def look (localPath : Path) : Action Unit := do
  if !(← localPath.isFile) then
    refuseLocal (!(← localPath.isDirectory)) (.missing localPath.toText)

theorem upload_eq (target : Target) (localPath remote : Path) :
    upload target localPath remote
      = look localPath >>= fun _ =>
          Session.withConnection target (withSftp (uploading localPath remote)) := by
  unfold upload look
  rw [bind_assoc]
  refine congrArg (localPath.isFile >>= ·) (funext fun b => ?_)
  cases b with
  | true => rfl
  | false => exact (bind_assoc ..).symm

theorem accounted_look (localPath : Path) :
    Accounted Event.isWalkCall (Path.OwnFailure localPath) Failure.Reported (look localPath) := by
  have hself : localPath.IsNear localPath := .inr localPath.isBelow_refl
  refine (Path.accounted_isFile hself).bind fun _ => .ite ?_ (.pure ())
  exact (Path.accounted_isDirectory hself).bind fun _ => accounted_refuseLocal (.inl rfl)

end Sftp

namespace Scp

variable {α : Type} {e : Setting} {body : Action α} {own : Failure → Prop}

/-- The faults of a copy are put into its context. -/
theorem copying_failsOnly (he : e.FaultsAreOfSessions) {context : RemoteProblem}
    (hcontext : context.kind = .remoteChannel) (hbody : body.FailsOnly e fun f => isFault f = true) :
    (copying context body).FailsOnly e fun f => f.isWorkflow = true := by
  have hcall : ∀ call, (perform call).FailsOnly e fun f => isFault f = true := fun call =>
    failsOnly_perform fun _ _ hx => Bool.or_eq_true_iff.2 (.inr (he _ _ _ hx))
  have hcopy : (perform .scp >>= fun _ => body.andThenAlways (perform .closeScp)).FailsOnly e
      fun f => isFault f = true :=
    (hcall _).bind fun _ => hbody.andThenAlways (hcall _) (fun _ h => h) fun _ _ h => h
  refine hcopy.because (fun _ _ _ => Task.isWorkflow_of_kind hcontext rfl) fun f hf hnot => ?_
  rw [hf] at hnot
  cases hnot

theorem get_failsOnly (he : e.FaultsAreOfSessions) (path : String) :
    (get path).FailsOnly e fun f => isFault f = true := by
  refine (failsOnly_perform fun _ _ hx => Bool.or_eq_true_iff.2 (.inr (he _ _ _ hx))).bind
    fun _ => .get fun w => ?_
  split
  · exact .pure _
  · exact .fail rfl

theorem put_failsOnly (he : e.FaultsAreOfSessions) (path : String) (content : Bytes) :
    (put path content).FailsOnly e fun f => isFault f = true :=
  (failsOnly_perform fun _ _ hx => Bool.or_eq_true_iff.2 (.inr (he _ _ _ hx))).bind
    fun _ => .modify _

/-- A copy makes no bare calls. -/
theorem cleansUp_copying (he : e.FaultsAreOfSessions)
    (hown : ∀ f : Failure, f.isWorkflow = true → own f) (context : RemoteProblem)
    (hcontext : context.kind = .remoteChannel) {own' : Failure → Prop}
    {report : Failure → Failure → Prop} (hcalls : Accounted Event.isCopyCall own' report body)
    (hbody : body.FailsOnly e fun f => isFault f = true) :
    CleansUp own e (copying context body) (copying context body) := by
  refine .of_notBare (fun w => ?_) ((copying_failsOnly he hcontext hbody).mono hown)
  obtain ⟨calls, hevents, hcopying⟩ := Task.copying_calls context hcalls e w
  refine ⟨calls, hevents, fun call hc => ?_⟩
  have hkind := hcopying call hc
  cases call <;> first | rfl | cases hkind

end Scp

/-! ## Tasks -/

namespace Task

variable {t : Task} {target : Target} {e : Setting} {w : World}

/-- What a task for a remote host does up to its first clean-up: all but closing its sessions, and but
    writing a file that has been copied from the host. -/
def work : Task → Action Unit
  | ssh target commands => do
    Session.openClient target
    Session.commands target commands
  | transfer ⟨.scpDownload, target, remote, _⟩ => do
    let _ ← (do
      Session.openClient target
      Scp.copying (.scpReceive remote) (Scp.get remote))
    pure ()
  | transfer ⟨.scpUpload, target, remote, localPath⟩ => do
    let content ← (Path.ofText localPath).readBytes
    Session.openClient target
    Scp.copying (.scpCreate remote) (Scp.put remote content)
  | transfer ⟨.sftpDownload, target, remote, localPath⟩ => do
    Session.openClient target
    Sftp.start
    Sftp.downloading (Path.ofText remote) (Path.ofText localPath)
  | transfer ⟨.sftpUpload, target, remote, localPath⟩ => do
    Sftp.look (Path.ofText localPath)
    Session.openClient target
    Sftp.start
    Sftp.uploading (Path.ofText localPath) (Path.ofText remote)
  | t => t.execute

/-- A failure that a workflow reports, or the rejection of a local path that a task looks at. -/
def ReportsOrRejects (t : Task) (f : Failure) : Prop :=
  f.isWorkflow = true ∨ ∃ s, t = transfer s ∧
    ∃ p : Path, p.IsNear (Path.ofText s.localPath) ∧ p.Rejects f

theorem reportsOrRejects_of_path {s : Transfer} {f : Failure}
    (h : (Path.ofText s.localPath).OwnFailure f) : (transfer s).ReportsOrRejects f :=
  h.imp isWorkflow_of_isNative fun hp => ⟨s, rfl, hp⟩

/-- A task for a remote host consists of its work and of the calls that clean up. -/
theorem execute_cleansUp (h : t.target? = some target) (he : e.FaultsAreOfSessions) :
    CleansUp t.ReportsOrRejects e t.execute t.work := by
  have hown : ∀ f : Failure, f.isWorkflow = true → t.ReportsOrRejects f := fun f hf => .inl hf
  cases t with
  | ssh target' commands =>
    rw [execute_ssh]
    refine Session.cleansUp_withConnection he hown ?_ target'
    refine .of_accounted he (Session.accounted_commands target' commands) (fun call hc => ?_)
      (fun f hf => .inl (isWorkflow_of_isNative hf)) hown
    cases call <;> first | rfl | cases hc
  | transfer s =>
    obtain ⟨kind, target', remote, localPath⟩ := s
    have hfile : ∀ call : Event, call.isFileCall = true → call.isBare = false := fun call hc => by
      cases call <;> first | rfl | cases hc
    have hpath : ∀ f, (Path.ofText localPath).OwnFailure f →
        (transfer ⟨kind, target', remote, localPath⟩).ReportsOrRejects f := fun _ hf =>
      reportsOrRejects_of_path (s := ⟨kind, target', remote, localPath⟩) hf
    cases kind with
    | scpDownload =>
      rw [execute_scpDownload]
      have hcopy := Scp.cleansUp_copying he hown (.scpReceive remote) rfl
        (Scp.accounted_get remote) (Scp.get_failsOnly he remote)
      have hsession := (Session.cleansUp_withConnection he hown hcopy target').discard
      exact hsession.bind_after fun content => .of_accounted he
        (Path.accounted_writeFile (.inr (Path.ofText localPath).isBelow_refl) content) hfile
        hpath hown
    | scpUpload =>
      rw [execute_scpUpload]
      refine .bind ?_ fun content => ?_
      · exact .of_accounted he
          (Path.accounted_call (.inr (Path.ofText localPath).isBelow_refl) rfl _) hfile
          hpath hown
      · exact Session.cleansUp_withConnection he hown (Scp.cleansUp_copying he hown _ rfl
          (Scp.accounted_put remote content) (Scp.put_failsOnly he remote content)) target'
    | sftpDownload =>
      rw [execute_sftpDownload]
      refine Session.cleansUp_withConnection he hown (Sftp.cleansUp_withSftp he hown ?_) target'
      exact .of_accounted he (Sftp.accounted_downloading _ _) hfile
        hpath hown
    | sftpUpload =>
      rw [execute_sftpUpload, Sftp.upload_eq]
      refine .bind ?_ fun _ =>
        Session.cleansUp_withConnection he hown (Sftp.cleansUp_withSftp he hown ?_) target'
      · exact .of_accounted he (Sftp.accounted_look _)
          (fun call hc => hfile call (Sftp.isFileCall_of_isWalkCall call hc))
          hpath hown
      · exact .of_accounted he (Sftp.accounted_uploading _ _) hfile
          hpath hown
  | _ => cases h

/-- A task ends by itself or with a failure that a workflow reports, and if its work fails so, with the
    failure of the work. -/
def KeepsFailure (t : Task) (e : Setting) (w : World) : Prop :=
  (∀ f, (t.execute e w).1 = .error f → f.isWorkflow = true) ∧
    ∀ f, (t.work e w).1 = .error f → f.isWorkflow = true → (t.execute e w).1 = .error f

/-- A run of a task in which no bare call is struck by a fault. -/
def SparesBare (t : Task) (e : Setting) (w : World) : Prop :=
  ∃ calls, (t.execute e w).2.events = w.events ++ calls ∧ e.SparesBare w.events calls

/-- Where all faults are faults of sessions, a run of a task for a remote host keeps the failure of its
    work if and only if no fault strikes one of the bare calls, and the run does not end with the
    rejection of a local path. In any case the failure of the work is the last part of what the task
    fails with. -/
theorem execute_keepsFailure_iff (h : t.target? = some target) (he : e.FaultsAreOfSessions)
    (w : World) :
    (t.KeepsFailure e w ↔ t.SparesBare e w ∧ ¬ t.Escapes e w) ∧
      ∀ g, (t.work e w).1 = .error g →
        ∃ f, (t.execute e w).1 = .error f ∧ g.links <:+ f.links := by
  obtain ⟨calls, hevents, hend⟩ := execute_cleansUp h he w
  rcases hend with ⟨hspared, hown, hwork⟩ | ⟨hstruck, f, hf, hkind, hwork⟩
  · refine ⟨⟨fun hkeeps => ⟨⟨calls, hevents, hspared⟩, ?_⟩, fun ⟨_, hescapes⟩ => ⟨?_, ?_⟩⟩, ?_⟩
    · rintro ⟨s, f, -, hf, p, -, hp⟩
      have hnot := isWorkflow_of_rejects hp
      rw [hkeeps.1 f hf] at hnot
      cases hnot
    · intro f hf
      rcases hown f hf with hworkflow | ⟨s, rfl, p, hp⟩
      · exact hworkflow
      · exact absurd ⟨s, f, rfl, hf, p, hp⟩ hescapes
    · exact fun f hf _ => hwork f hf
    · exact fun g hg => ⟨g, hwork g hg, List.suffix_rfl⟩
  · refine ⟨⟨fun hkeeps => ?_, fun ⟨⟨calls', hcalls', hspared⟩, _⟩ => ?_⟩,
      fun g hg => ⟨f, hf, hwork g hg⟩⟩
    · rw [hkeeps.1 f hf] at hkind
      cases hkind
    · obtain rfl := List.append_cancel_left (hevents.symm.trans hcalls')
      exact absurd hspared hstruck

theorem lostSetting_faultsAreOfSessions : lostSetting.FaultsAreOfSessions := by
  intro past call x hx
  cases call <;> cases hx
  rfl

/-- The session is closed as it should be after a file cannot be read, and the task fails with the report
    of that. -/
theorem execute_keepsFailure_sample :
    lostSetting.FaultsAreOfSessions ∧
    ((transfer ⟨.sftpDownload, .sample, "/r", "t"⟩).work lostSetting
      (.initial .empty [("/r", .file [])])).1 = .error ((Failure.of (.reported .ssh
        (some "lost"))).because (.onPeer (.readFile "/r"))) ∧
    (transfer ⟨.sftpDownload, .sample, "/r", "t"⟩).KeepsFailure lostSetting
      (.initial .empty [("/r", .file [])]) := by
  have htarget : (transfer ⟨.sftpDownload, .sample, "/r", "t"⟩).target? = some .sample := rfl
  refine ⟨lostSetting_faultsAreOfSessions, rfl,
    (execute_keepsFailure_iff htarget lostSetting_faultsAreOfSessions _).1.2 ⟨?_, ?_⟩⟩
  · obtain ⟨calls, hevents, -⟩ := execute_cleansUp htarget lostSetting_faultsAreOfSessions
      (.initial .empty [("/r", .file [])])
    refine ⟨calls, hevents, Setting.sparesBare_of_no_fault (fun past call hcall => ?_) _ _⟩
    cases call <;> first | rfl | cases hcall
  · have hresult : ((transfer ⟨.sftpDownload, .sample, "/r", "t"⟩).execute lostSetting
        (.initial .empty [("/r", .file [])])).1 = .error ((Failure.of (.reported .ssh
          (some "lost"))).because (.onPeer (.readFile "/r"))) := by
      rw [execute_sftpDownload]
      rfl
    rintro ⟨s, f, -, hf, p, -, hp⟩
    rw [hresult] at hf
    cases hf
    rcases hp with ⟨-, hp⟩ | ⟨-, hp⟩ <;> cases hp

/-- A setting in which a fault strikes when the file session is closed. -/
def unclosedSetting : Setting :=
  { Setting.calm with fault := fun _ call => match call with
      | .closeSftp => some (.of (.reported .ssh (some "closed")))
      | _ => none }

/-- A download of what is not there ends with the fault of its clean-up, and the report that nothing is
    there stands behind it. -/
theorem execute_hides_missing :
    unclosedSetting.FaultsAreOfSessions ∧
    ((transfer ⟨.sftpDownload, .sample, "/r", "out"⟩).work unclosedSetting (.initial .empty [])).1
      = .error (.of (.onPeer (.missing "/r"))) ∧
    ((transfer ⟨.sftpDownload, .sample, "/r", "out"⟩).execute unclosedSetting (.initial .empty [])).1
      = .error ⟨.reported .ssh (some "closed"), [.onPeer (.missing "/r")]⟩ ∧
    ¬ (transfer ⟨.sftpDownload, .sample, "/r", "out"⟩).KeepsFailure unclosedSetting
      (.initial .empty []) := by
  have hresult : ((transfer ⟨.sftpDownload, .sample, "/r", "out"⟩).execute unclosedSetting
      (.initial .empty [])).1
        = .error ⟨.reported .ssh (some "closed"), [.onPeer (.missing "/r")]⟩ := by
    rw [execute_sftpDownload]
    rfl
  refine ⟨fun past call x hx => ?_, rfl, hresult, fun hkeeps => ?_⟩
  · cases call <;> cases hx
    rfl
  · have hworkflow := hkeeps.1 _ hresult
    cases hworkflow

end Task
end Runbook
