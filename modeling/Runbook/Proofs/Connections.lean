import Runbook.Proofs.Sessions

set_option autoImplicit false

/-! # Connections that are refused

A client is made for each session before it connects, and it is there already when the connection is
refused. It is closed again if what refuses the connection is a fault of a session or of the system
beneath it. Any other error passes as it is, and the client stays open; and so it does in every task
for a remote host, since nothing that a task does in its session opens or closes one. -/

namespace Runbook

open Action

/-! ## The calls of a client -/

/-- The calls that make a client, connect it and close it. -/
def Event.isClientCall : Event → Bool
  | policy | connect _ _ | close => true
  | _ => false

/-- The clients that some calls make. -/
def clientsMade (calls : List Event) : Nat := calls.count .policy

/-- The clients that some calls close. -/
def clientsClosed (calls : List Event) : Nat := calls.count .close

theorem count_eq_zero_of_not_isClientCall {calls : List Event} {call : Event}
    (hcall : call.isClientCall = true) (h : ∀ c ∈ calls, c.isClientCall = false) :
    calls.count call = 0 := by
  refine List.count_eq_zero.2 fun hmem => ?_
  rw [h call hmem] at hcall
  cases hcall

/-- An action that calls neither for a client nor for its end. -/
def Action.LeavesClients {α : Type} (m : Action α) : Prop :=
  ∀ e w, ∃ calls, (m e w).2.events = w.events ++ calls ∧ ∀ call ∈ calls, call.isClientCall = false

section

variable {α : Type} {among : Event → Bool} {own : Failure → Prop} {report : Failure → Failure → Prop}
  {m : Action α}

theorem Accounted.leavesClients (h : Accounted among own report m)
    (hamong : ∀ call, among call = true → call.isClientCall = false) : LeavesClients m := fun e w => by
  obtain ⟨calls, hevents, hcalls, -⟩ := h e w
  exact ⟨calls, hevents, fun call hmem => hamong call (hcalls call hmem)⟩

theorem Setting.Encloses.not_isClientCall {e : Setting} {past calls : List Event}
    {opens closes : Event} (h : e.Encloses past opens closes among calls)
    (hopens : opens.isClientCall = false) (hcloses : closes.isClientCall = false)
    (hamong : ∀ call, among call = true → call.isClientCall = false) :
    ∀ call ∈ calls, call.isClientCall = false := by
  unfold Encloses at h
  split at h
  · obtain ⟨inner, rfl, hinner⟩ := h
    intro call hmem
    rw [List.mem_cons, List.mem_append, List.mem_singleton] at hmem
    rcases hmem with rfl | hmem | rfl
    · exact hopens
    · exact hamong call (hinner call hmem)
    · exact hcloses
  · subst h
    simpa using hopens

end

theorem Sftp.withSftp_leavesClients {own : Failure → Prop} {report : Failure → Failure → Prop}
    {body : Action Unit} (h : Accounted Event.isFileCall own report body) :
    LeavesClients (withSftp body) := fun e w => by
  obtain ⟨calls, hcalls, hencloses⟩ := withSftp_encloses h e w
  exact ⟨calls, hcalls, hencloses.not_isClientCall rfl rfl fun call hcall => by
    cases call <;> first | rfl | cases hcall⟩

theorem Scp.copying_leavesClients {α : Type} {own : Failure → Prop}
    {report : Failure → Failure → Prop} {body : Action α} (context : RemoteProblem)
    (h : Accounted Event.isCopyCall own report body) : LeavesClients (copying context body) :=
  fun e w => by
    obtain ⟨calls, hcalls, hencloses⟩ := copying_encloses context h e w
    exact ⟨calls, hcalls, hencloses.not_isClientCall rfl rfl fun call hcall => by
      cases call <;> first | rfl | cases hcall⟩

theorem Session.commands_leavesClients (target : Target) (cs : List RemoteCommand) :
    LeavesClients (Session.commands target cs) :=
  (Session.accounted_commands target cs).leavesClients fun call hcall => by
    cases call <;> first | rfl | cases hcall

/-! ## Clients that stay open -/

/-- A client is made and stays open: its policy cannot be set, or its connection is refused with an error
    that is no fault of a session or of the system beneath it. -/
def Setting.LeavesOpen (e : Setting) (past : List Event) (target : Target) : Prop :=
  (∃ x, e.fault past .policy = some x) ∨
    e.fault past .policy = none ∧ ∃ x,
      e.fault (past ++ [.policy]) (.connect target e.connectTimeout) = some x ∧
        x.isSessionFault = false

/-- What is reported of a connection that is refused. -/
def Target.refusal (target : Target) (x : Failure) : Failure :=
  x.because (.onPeer (.connect target.address target.port target.username))

theorem Target.refusal_ne (target : Target) (x : Failure) : target.refusal x ≠ x := by
  intro h
  have hlinks := congrArg (fun f => f.links.length) h
  simp [refusal, Failure.because, Failure.links] at hlinks

/-- A run that makes a client and closes it, unless the client stays open. -/
structure ClosesClient (e : Setting) (past : List Event) (target : Target) (calls : List Event) :
    Prop where
  made : clientsMade calls = 1
  closed_le : clientsClosed calls ≤ 1
  closed_iff : clientsClosed calls = 1 ↔ ¬ e.LeavesOpen past target

namespace Session

variable {α : Type} {target : Target} {e : Setting} {w : World} {x : Failure}

/-- The failure of a connection that is refused is the report of it exactly if the client is closed, so
    long as it can be closed. -/
theorem connectFailure_eq_refusal_iff
    (hclose : e.fault (w.events ++ connecting target e) .close = none) :
    connectFailure target e w.events x = target.refusal x ↔ x.isSessionFault = true := by
  unfold connectFailure
  split_ifs with hx
  · rw [hclose]
    exact iff_of_true rfl hx
  · exact iff_of_false (target.refusal_ne x).symm hx

/-- An attempt to open a session makes one client. It is left open in this way, or it is closed, or it is
    the client of the session. -/
theorem openClient_cases (target : Target) (e : Setting) (w : World) :
    (e.Spares w.events (connecting target e) ∧ ¬ e.LeavesOpen w.events target) ∨
      ∃ f calls, openClient target e w = (.error f, w.after calls) ∧
        ClosesClient e w.events target calls := by
  cases hpolicy : e.fault w.events .policy with
  | some x =>
    have hleft : e.LeavesOpen w.events target := .inl ⟨x, hpolicy⟩
    exact .inr ⟨x, [.policy], Effect.bind_of_error (perform_of_struck hpolicy), rfl, by decide,
      iff_of_false (by decide) (not_not_intro hleft)⟩
  | none =>
    cases hconnect : e.fault (w.events ++ [.policy]) (.connect target e.connectTimeout) with
    | none =>
      refine .inl ⟨⟨hpolicy, hconnect, trivial⟩, ?_⟩
      simp [Setting.LeavesOpen, hpolicy, hconnect]
    | some x =>
      refine .inr ⟨_, _, openClient_of_unconnected hpolicy hconnect, ?_⟩
      have hleft : e.LeavesOpen w.events target ↔ x.isSessionFault = false := by
        simp [Setting.LeavesOpen, hpolicy, hconnect]
      constructor
      · cases x.isSessionFault <;> rfl
      · cases x.isSessionFault <;> simp [clientsClosed, connecting]
      · rw [hleft]
        cases x.isSessionFault <;> simp [clientsClosed, connecting]

/-- A session makes one client, and what is done in it and after it does not change what becomes of
    the client. -/
theorem withConnection_closesClient {m : Action α} {next : α → Action Unit} (hm : LeavesClients m)
    (hnext : ∀ a e w, (next a e w).2.events = w.events) (e : Setting) (w : World) :
    ∃ calls, ((withConnection target m >>= next) e w).2.events = w.events ++ calls ∧
      ClosesClient e w.events target calls := by
  have hquiet : ((withConnection target m >>= next) e w).2.events
      = (withConnection target m e w).2.events := by
    rcases hr : withConnection target m e w with ⟨f | a, w'⟩
    · rw [Effect.bind_of_error hr]
    · rw [Effect.bind_of_ok hr, hnext]
  rw [hquiet]
  rcases openClient_cases target e w with ⟨hspared, hclosed⟩ | ⟨f, calls, hopen, hcloses⟩
  · obtain ⟨calls, hcalls, hclient⟩ := hm e (w.after (connecting target e))
    refine ⟨_, withConnection_events hspared hcalls, ?_⟩
    have hmade : calls.count .policy = 0 := count_eq_zero_of_not_isClientCall rfl hclient
    have hended : calls.count .close = 0 := count_eq_zero_of_not_isClientCall rfl hclient
    constructor
    · simp [clientsMade, connecting, hmade]
    · simp [clientsClosed, connecting, hended]
    · simp [clientsClosed, connecting, hended, hclosed]
  · exact ⟨calls, by rw [withConnection, Effect.bind_of_error hopen, World.after_events], hcloses⟩

end Session

/-! ## Tasks -/

namespace Task

variable {t : Task} {target : Target}

/-- A run of a task for a remote host is one session, unless it is an upload that its local path does not
    allow. Only the client of that session is made and closed, and nothing is called after it. -/
theorem exists_withConnection (h : t.target? = some target) (e : Setting) (w : World) :
    (t.isUpload = true ∧ t.IsBarred e w ∧ ∃ f, t.execute e w = (.error f, w)) ∨
      ¬ t.IsBarred e w ∧ ∃ (α : Type) (m : Action α) (next : α → Action Unit), LeavesClients m ∧
        (∀ a e w, (next a e w).2.events = w.events) ∧
        t.execute e w = (Session.withConnection target m >>= next) e w := by
  have alone : ∀ {m : Action Unit}, LeavesClients m →
      t.execute e w = Session.withConnection target m e w →
      ∃ (α : Type) (m : Action α) (next : α → Action Unit), LeavesClients m ∧
        (∀ a e w, (next a e w).2.events = w.events) ∧
        t.execute e w = (Session.withConnection target m >>= next) e w := by
    intro m hm ht
    refine ⟨Unit, m, fun _ => pure (), hm, fun _ _ _ => rfl, ht.trans ?_⟩
    exact congrFun (congrFun (bind_pure_unit (m := Action)).symm e) w
  cases t with
  | ssh target' commands =>
    obtain rfl := Option.some.inj h
    exact .inr ⟨id, alone (Session.commands_leavesClients target' commands) (by rw [execute_ssh])⟩
  | transfer s =>
    obtain ⟨kind, target', remote, localPath⟩ := s
    obtain rfl : target' = target := Option.some.inj h
    cases kind with
    | scpDownload =>
      refine .inr ⟨id, Bytes, Scp.copying (.scpReceive remote) (Scp.get remote),
        (Path.ofText localPath).writeFile, Scp.copying_leavesClients _ (Scp.accounted_get remote),
        fun content e w => ?_, by rw [execute_scpDownload]; rfl⟩
      rcases (Path.ofText localPath).writeFile_cases content e w with ⟨f, hf⟩ | ⟨t, -, -, ht⟩
      · rw [hf]
      · rw [ht]
    | scpUpload =>
      rcases Scp.upload_cases target' (Path.ofText localPath) remote e w with
        ⟨hbarred, f, -, hf⟩ | ⟨hreadable, content, hcontent⟩
      · exact .inl ⟨rfl, hbarred, f, by rw [execute_scpUpload, hf]⟩
      · exact .inr ⟨fun h => h hreadable,
          alone (Scp.copying_leavesClients _ (Scp.accounted_put remote content))
            (by rw [execute_scpUpload, hcontent])⟩
    | sftpDownload =>
      exact .inr ⟨id, alone (Sftp.withSftp_leavesClients (Sftp.accounted_downloading _ _))
        (by rw [execute_sftpDownload])⟩
    | sftpUpload =>
      rcases Sftp.upload_cases target' (Path.ofText localPath) (Path.ofText remote) e w with
        ⟨hbarred, f, -, hf⟩ | ⟨htaken, hopened⟩
      · exact .inl ⟨rfl, hbarred, f, by rw [execute_sftpUpload, hf]⟩
      · exact .inr ⟨fun h => h htaken,
          alone (Sftp.withSftp_leavesClients (Sftp.accounted_uploading _ _))
            (by rw [execute_sftpUpload, hopened])⟩
  | _ => cases h

/-- Which errors of a connection leave a client open. An attempt to open a session that is refused
    closes its client exactly if the error is a fault of a session or of the system beneath it, and
    exactly then the error is reported as that of a connection, so long as the client can be closed. Any
    other error passes as it is, and nothing is closed. A task for a remote host either is an upload that
    its local path does not allow, and makes no client; or it makes one and closes it once, unless that
    one stays open, and it ends with the failure of the connection if that is refused. -/
theorem execute_closes_iff (h : t.target? = some target) (e : Setting) (w : World) :
    (∀ x, e.fault w.events .policy = none →
      e.fault (w.events ++ [.policy]) (.connect target e.connectTimeout) = some x →
      ∃ f calls, Session.openClient target e w = (.error f, w.after calls) ∧
        (clientsClosed calls = 1 ↔ x.isSessionFault = true) ∧
        (e.fault (w.events ++ Session.connecting target e) .close = none →
          (f = target.refusal x ↔ x.isSessionFault = true)) ∧
        (x.isSessionFault = false → f = x ∧ calls = Session.connecting target e)) ∧
      ((t.isUpload = true ∧ t.IsBarred e w ∧ ∃ f, t.execute e w = (.error f, w)) ∨
        ¬ t.IsBarred e w ∧ ∃ calls, (t.execute e w).2.events = w.events ++ calls ∧
          ClosesClient e w.events target calls ∧
          ∀ f w', Session.openClient target e w = (.error f, w') →
            t.execute e w = (.error f, w')) := by
  refine ⟨fun x hpolicy hconnect => ?_, ?_⟩
  · refine ⟨_, _, Session.openClient_of_unconnected hpolicy hconnect, ?_,
      Session.connectFailure_eq_refusal_iff, fun hx => ?_⟩
    · cases hx : x.isSessionFault <;> simp [clientsClosed, Session.connecting]
    · simp [Session.connectFailure, hx]
  · rcases exists_withConnection h e w with hrefused | ⟨hbarred, α, m, next, hm, hnext, hrun⟩
    · exact .inl hrefused
    · obtain ⟨calls, hcalls, hcloses⟩ := Session.withConnection_closesClient hm hnext e w
      refine .inr ⟨hbarred, calls, by rw [hrun, hcalls], hcloses, fun f w' hopen => ?_⟩
      rw [hrun, Session.withConnection, Effect.bind_of_error (Effect.bind_of_error hopen)]

/-- A setting in which the peer ends the connection before it is made. -/
def hangUpSetting : Setting :=
  { Setting.calm with fault := fun _ call => match call with
      | .connect _ _ => some (.of (.reported .endOfInput none))
      | _ => none }

theorem execute_closes_iff_sample :
    ∃ f calls, Session.openClient .sample hangUpSetting (.initial .empty [])
        = (.error f, World.after (.initial .empty []) calls) ∧
      (clientsClosed calls = 1 ↔
        (Failure.of (.reported .endOfInput none)).isSessionFault = true) := by
  have htarget : (ssh .sample [⟨"ls", [0]⟩]).target? = some .sample := rfl
  obtain ⟨f, calls, hopen, hclosed, -⟩ :=
    (execute_closes_iff htarget hangUpSetting (.initial .empty [])).1 _ rfl rfl
  exact ⟨f, calls, hopen, hclosed⟩

/-- A client whose connection ends before it is made is never closed, and the error is reported as it
    is. -/
theorem execute_closes_hangUp :
    (ssh .sample [⟨"ls", [0]⟩]).execute hangUpSetting (.initial .empty [])
        = (.error (.of (.reported .endOfInput none)),
          World.after (.initial .empty []) [.policy, .connect .sample (.ofNat 30)]) ∧
      (Failure.of (.reported .endOfInput none)).isException = true ∧
      (Failure.of (.reported .endOfInput none)).isA .remoteConnect = false := by
  refine ⟨?_, rfl, rfl⟩
  rw [execute_ssh]
  rfl

end Task
end Runbook
