import Runbook.Proofs.Calls
import Runbook.Proofs.LocalCalls

set_option autoImplicit false

/-! # What is opened is closed

A task for a remote host opens one session and closes it, and what it calls in between is enclosed in
the same way: a file session is opened and closed, and the client of a copy is made and closed. That
does not depend on what the calls in between come to, nor on what becomes of the clean-up calls. A file
that is copied from a host is written after the session is closed. -/

namespace Runbook

open Action

/-! ## Enclosed calls -/

/-- Some calls between one that opens something and one that closes it, which are made if the first is
    not struck by a fault. -/
def Setting.Encloses (e : Setting) (past : List Event) (opens closes : Event)
    (among : Event → Bool) (calls : List Event) : Prop :=
  if e.fault past opens = none then
    ∃ inner, calls = opens :: (inner ++ [closes]) ∧ ∀ call ∈ inner, among call = true
  else calls = [opens]

section

variable {α : Type} {among : Event → Bool} {own : Failure → Prop}
  {report : Failure → Failure → Prop} {m : Action α} {opens closes : Event} {first : Action Unit}
  {e : Setting} {w : World}

/-- What is done between opening and closing is enclosed. -/
theorem exists_encloses (hm : Accounted among own report m)
    (hok : e.fault w.events opens = none → first e w = (.ok (), w.after [opens]))
    (hstruck : ∀ x, e.fault w.events opens = some x →
      ∃ y, first e w = (.error y, w.after [opens])) :
    ∃ calls,
      ((first >>= fun _ => m.andThenAlways (perform closes)) e w).2.events = w.events ++ calls ∧
        e.Encloses w.events opens closes among calls := by
  unfold Setting.Encloses
  cases hfault : e.fault w.events opens with
  | none =>
    obtain ⟨inner, hevents, hamong, -⟩ := hm e (w.after [opens])
    refine ⟨opens :: (inner ++ [closes]), ?_, by rw [if_pos rfl]; exact ⟨inner, rfl, hamong⟩⟩
    rw [Effect.bind_of_ok (hok hfault), Effect.andThenAlways_snd, perform_snd, World.after_events,
      hevents]
    simp
  | some x =>
    obtain ⟨y, hy⟩ := hstruck x hfault
    exact ⟨[opens], by rw [Effect.bind_of_error hy, World.after_events], by simp⟩

end

namespace Sftp

variable {α : Type} {own : Failure → Prop} {report : Failure → Failure → Prop}

/-- The calls of a file session are enclosed. -/
theorem withSftp_encloses {body : Action α} (h : Accounted Event.isFileCall own report body)
    (e : Setting) (w : World) :
    ∃ calls, (withSftp body e w).2.events = w.events ++ calls ∧
      e.Encloses w.events .openSftp .closeSftp Event.isFileCall calls :=
  exists_encloses h (Session.attempting_perform_of_spared .openSftp) fun _ =>
    Session.attempting_perform_of_struck .openSftp

end Sftp

namespace Scp

variable {α : Type} {own : Failure → Prop} {report : Failure → Failure → Prop}

/-- The calls of a copy are enclosed. -/
theorem copying_encloses {body : Action α} (context : RemoteProblem)
    (h : Accounted Event.isCopyCall own report body) (e : Setting) (w : World) :
    ∃ calls, (copying context body e w).2.events = w.events ++ calls ∧
      e.Encloses w.events .scp .closeScp Event.isCopyCall calls := by
  rw [copying, Effect.because_snd]
  exact exists_encloses h perform_of_spared fun x hx => ⟨x, perform_of_struck hx⟩

/-- Reading a remote file leaves nothing but its calls. -/
theorem copying_get_files (context : RemoteProblem) (path : String) (e : Setting) (w : World) :
    (copying context (get path) e w).2.files = w.files := by
  have hget : ∀ w, (get path e w).2 = w.after [.scpGet path] := by
    intro w
    rw [get, ← perform_snd (.scpGet path) e w]
    rcases hcall : perform (.scpGet path) e w with ⟨x | u, w'⟩
    · rw [Effect.bind_of_error hcall]
    · rw [Effect.bind_of_ok hcall, Effect.bind_apply, Effect.get_apply]
      dsimp only
      cases w'.peer.content? path <;> rfl
  rw [copying, Effect.because_snd]
  cases hfault : e.fault w.events .scp with
  | none =>
    rw [Effect.bind_of_ok (perform_of_spared hfault), Effect.andThenAlways_snd, perform_snd, hget]
    rfl
  | some x =>
    rw [Effect.bind_of_error (perform_of_struck hfault)]
    rfl

/-- The session in which a file is copied from a host. -/
def receiving (target : Target) (remote : String) : Action Bytes :=
  Session.withConnection target (copying (.scpReceive remote) (get remote))

/-- A file that is copied from a host is written when the session is over. -/
theorem download_apply (target : Target) (remote : String) (localPath : Path) (e : Setting)
    (w : World) :
    download target remote localPath e w = match (receiving target remote e w).1 with
      | .ok content => localPath.writeFile content e (receiving target remote e w).2
      | .error f => (.error f, (receiving target remote e w).2) := by
  rw [download, ← receiving, Effect.bind_apply]
  rcases receiving target remote e w with ⟨f | content, w'⟩ <;> rfl

/-- Writing a local file calls nothing. -/
theorem download_events (target : Target) (remote : String) (localPath : Path) (e : Setting)
    (w : World) :
    (download target remote localPath e w).2.events = (receiving target remote e w).2.events := by
  rw [download_apply]
  rcases receiving target remote e w with ⟨f | content, w'⟩
  · rfl
  · rcases localPath.writeFile_cases content e w' with ⟨x, hx⟩ | ⟨t, -, -, ht⟩
    · exact congrArg (fun r => r.2.events) hx
    · exact congrArg (fun r => r.2.events) ht

end Scp

namespace Session

variable {α : Type} {target : Target} {body : Action α} {e : Setting} {w : World}

theorem withConnection_of_spared (h : e.Spares w.events (connecting target e)) :
    withConnection target body e w
      = body.andThenAlways (perform .close) e (w.after (connecting target e)) :=
  Effect.bind_of_ok (openClient_of_spared h)

/-- A session that is opened is closed after all that is done in it. -/
theorem withConnection_snd (h : e.Spares w.events (connecting target e)) :
    (withConnection target body e w).2
      = (body e (w.after (connecting target e))).2.after [.close] := by
  rw [withConnection_of_spared h, Effect.andThenAlways_snd, perform_snd]

theorem withConnection_events (h : e.Spares w.events (connecting target e)) {calls : List Event}
    (hbody : (body e (w.after (connecting target e))).2.events
      = (w.after (connecting target e)).events ++ calls) :
    (withConnection target body e w).2.events
      = w.events ++ (connecting target e ++ calls ++ [.close]) := by
  rw [withConnection_snd h, World.after_events, hbody, World.after_events]
  simp

end Session

/-! ## Before a session is opened -/

namespace Path

/-- Whether there is a file at a local path that can be read. -/
def IsReadable (p : Path) (e : Setting) (w : World) : Prop :=
  noNull p.toText = true ∧ ∃ content, w.files.read e.workingDir p = .ok content

/-- Whether there is a file or a directory at a local path. -/
def IsTaken (p : Path) (e : Setting) (w : World) : Prop :=
  noNull p.toText = true ∧ ∃ u, w.files.at? e.workingDir p = .ok (some u)

end Path

namespace Scp

/-- A file that is copied to a host is read first. The copy goes on with what has been read, or fails
    with nothing done if there is no file that can be read. -/
theorem upload_cases (target : Target) (localPath : Path) (remote : String) (e : Setting)
    (w : World) :
    (¬ localPath.IsReadable e w ∧
      ∃ f, localPath.OwnFailure f ∧ upload target localPath remote e w = (.error f, w)) ∨
    (localPath.IsReadable e w ∧ ∃ content, upload target localPath remote e w
      = Session.withConnection target (copying (.scpCreate remote) (put remote content)) e w) := by
  rcases localPath.call_cases (.readFile localPath.toText) FileTree.read e w with
    ⟨f, hf⟩ | ⟨content, hnull, hread, hcontent⟩
  · have hown : Accounted (fun _ => true) localPath.OwnFailure Eq localPath.readBytes :=
      Path.accounted_call (.inr localPath.isBelow_refl) rfl FileTree.read
    refine .inl ⟨?_, f, hown.own_of_error hf, Effect.bind_of_error hf⟩
    rintro ⟨hnull, content, hread⟩
    rw [Path.call_of_ok hnull hread] at hf
    cases hf
  · exact .inr ⟨⟨hnull, content, hread⟩, content, Effect.bind_of_ok hcontent⟩

end Scp

namespace Sftp

theorem upload_of_isTaken (target : Target) {localPath : Path} (remote : Path) {e : Setting} {w : World}
    (h : localPath.IsTaken e w) : upload target localPath remote e w
      = Session.withConnection target (withSftp (uploading localPath remote)) e w := by
  obtain ⟨hnull, u, hu⟩ := h
  rw [upload, Effect.bind_of_ok (Path.isFile_of_at hnull hu)]
  cases u with
  | file content => rfl
  | dir es => exact Effect.bind_of_ok (Path.isDirectory_of_at hnull hu)

/-- An upload looks at its local path first. It goes on if something is there, or fails with nothing
    done. -/
theorem upload_cases (target : Target) (localPath remote : Path) (e : Setting) (w : World) :
    (¬ localPath.IsTaken e w ∧
      ∃ f, localPath.OwnFailure f ∧ upload target localPath remote e w = (.error f, w)) ∨
    (localPath.IsTaken e w ∧ upload target localPath remote e w
      = Session.withConnection target (withSftp (uploading localPath remote)) e w) := by
  by_cases htaken : localPath.IsTaken e w
  · exact .inr ⟨htaken, upload_of_isTaken target remote htaken⟩
  · have hself : localPath.IsNear localPath := .inr localPath.isBelow_refl
    refine .inl ⟨htaken, ?_⟩
    rcases localPath.isFile_cases e w with ⟨f, hf⟩ | ⟨b, hb, hfile⟩
    · exact ⟨f, (Path.accounted_isFile hself).own_of_error hf, Effect.bind_of_error hf⟩
    · obtain rfl : b = false := Bool.eq_false_iff.2 fun hb =>
        have ⟨content, hnull, hat⟩ := hfile.1 hb
        htaken ⟨hnull, _, hat⟩
      rw [upload, Effect.bind_of_ok hb]
      rcases localPath.isDirectory_cases e w with ⟨f, hf⟩ | ⟨d, hd, hdir⟩
      · exact ⟨f, (Path.accounted_isDirectory hself).own_of_error hf, Effect.bind_of_error hf⟩
      · obtain rfl : d = false := Bool.eq_false_iff.2 fun hd =>
          have ⟨es, hnull, hat⟩ := hdir.1 hd
          htaken ⟨hnull, _, hat⟩
        exact ⟨_, .inl (.refusedHere (.inl rfl)), Effect.bind_of_ok hd⟩

end Sftp

/-! ## Tasks -/

namespace Task

theorem execute_ssh (target : Target) (commands : List RemoteCommand) :
    (ssh target commands).execute
      = Session.withConnection target (Session.commands target commands) := by
  rw [execute]
  rfl

theorem execute_scpDownload (target : Target) (remote localPath : String) :
    (transfer ⟨.scpDownload, target, remote, localPath⟩).execute
      = Scp.download target remote (Path.ofText localPath) := by
  rw [execute]
  rfl

theorem execute_scpUpload (target : Target) (remote localPath : String) :
    (transfer ⟨.scpUpload, target, remote, localPath⟩).execute
      = Scp.upload target (Path.ofText localPath) remote := by
  rw [execute]
  rfl

theorem execute_sftpDownload (target : Target) (remote localPath : String) :
    (transfer ⟨.sftpDownload, target, remote, localPath⟩).execute
      = Session.withConnection target (Sftp.withSftp
        (Sftp.downloading (Path.ofText remote) (Path.ofText localPath))) := by
  rw [execute]
  rfl

theorem execute_sftpUpload (target : Target) (remote localPath : String) :
    (transfer ⟨.sftpUpload, target, remote, localPath⟩).execute
      = Sftp.upload target (Path.ofText localPath) (Path.ofText remote) := by
  rw [execute]
  rfl

/-- Whether a task copies local files to a host. It looks at them before it opens a session. -/
def isUpload : Task → Bool
  | transfer t => t.kind = .scpUpload || t.kind = .sftpUpload
  | _ => false

/-- Whether the local path of a task does not allow it: there is no file that can be read where one is to
    be copied to a host, or nothing at all where an upload is to take its files from. -/
def IsBarred (t : Task) (e : Setting) (w : World) : Prop :=
  match t with
  | transfer s =>
    match s.kind with
    | .scpUpload => ¬ (Path.ofText s.localPath).IsReadable e w
    | .sftpUpload => ¬ (Path.ofText s.localPath).IsTaken e w
    | .scpDownload | .sftpDownload => False
  | _ => False

/-- What a task for a remote host calls while its session is open. -/
def Encloses (t : Task) (e : Setting) (past calls : List Event) : Prop :=
  match t with
  | ssh _ _ => ∀ call ∈ calls, call.isChannelCall = true
  | transfer t =>
    match t.kind with
    | .scpDownload | .scpUpload => e.Encloses past .scp .closeScp Event.isCopyCall calls
    | .sftpDownload | .sftpUpload => e.Encloses past .openSftp .closeSftp Event.isFileCall calls
  | _ => calls = []

variable {t : Task} {target : Target} {e : Setting} {w : World}

/-- What a task encloses in a session that is opened is between the calls that open the session and the
    one that closes it. -/
theorem exists_encloses_of_withConnection {α : Type} {m : Action α}
    (hc : e.Spares w.events (Session.connecting target e))
    (hevents : (t.execute e w).2.events = (Session.withConnection target m e w).2.events)
    (hm : ∃ calls, (m e (w.after (Session.connecting target e))).2.events
        = (w.after (Session.connecting target e)).events ++ calls ∧
      t.Encloses e (w.after (Session.connecting target e)).events calls) :
    ∃ calls, (t.execute e w).2.events
        = w.events ++ (Session.connecting target e ++ calls ++ [.close]) ∧
      t.Encloses e (w.events ++ Session.connecting target e) calls := by
  obtain ⟨calls, hcalls, hencloses⟩ := hm
  exact ⟨calls, by rw [hevents, Session.withConnection_events hc hcalls], hencloses⟩

/-- A run of a task for a remote host in which the connection succeeds. Either the task is an upload that
    its local path does not allow, and nothing is called; or the calls are those that open the session,
    then what the task calls in it, and then the one that closes it. Whatever errors strike the calls, a
    file session that is opened is closed before that, after every other of its calls, and so is the
    client of a copy. A file that is copied from a host is written when all calls have been made. -/
theorem execute_encloses (h : t.target? = some target)
    (hc : e.Spares w.events (Session.connecting target e)) :
    (t.isUpload = true ∧ t.IsBarred e w ∧ ∃ f, t.execute e w = (.error f, w)) ∨
    (¬ t.IsBarred e w ∧
      (∃ calls, (t.execute e w).2.events
          = w.events ++ (Session.connecting target e ++ calls ++ [.close]) ∧
        t.Encloses e (w.events ++ Session.connecting target e) calls) ∧
      ∀ s, t = transfer s → s.kind = .scpDownload →
        ∃ (r : Except Failure Bytes) (w' : World), w'.files = w.files ∧
          w'.events = (t.execute e w).2.events ∧
          t.execute e w = match r with
            | .ok content => (Path.ofText s.localPath).writeFile content e w'
            | .error f => (.error f, w')) := by
  cases t with
  | ssh target' commands =>
    obtain rfl := Option.some.inj h
    obtain ⟨calls, hcalls, hamong, -⟩ := Session.accounted_commands target' commands e
      (w.after (Session.connecting target' e))
    exact .inr ⟨id, exists_encloses_of_withConnection hc (by rw [execute_ssh])
      ⟨calls, hcalls, hamong⟩, by rintro s ⟨⟩⟩
  | transfer s =>
    obtain ⟨kind, target', remote, localPath⟩ := s
    obtain rfl : target' = target := Option.some.inj h
    cases kind with
    | scpDownload =>
      have hevents := Scp.download_events target' remote (Path.ofText localPath) e w
      refine .inr ⟨id, exists_encloses_of_withConnection hc
        (by rw [execute_scpDownload, hevents, Scp.receiving])
        (Scp.copying_encloses (.scpReceive remote) (Scp.accounted_get remote) _ _), ?_⟩
      rintro s ⟨⟩ -
      rw [execute_scpDownload]
      refine ⟨(Scp.receiving target' remote e w).1, (Scp.receiving target' remote e w).2,
        ?_, hevents.symm, Scp.download_apply _ _ _ _ _⟩
      rw [Scp.receiving, Session.withConnection_snd hc, World.after_files, Scp.copying_get_files,
        World.after_files]
    | scpUpload =>
      rcases Scp.upload_cases target' (Path.ofText localPath) remote e w with
        ⟨hbarred, f, -, hf⟩ | ⟨hreadable, content, hcontent⟩
      · exact .inl ⟨rfl, hbarred, f, by rw [execute_scpUpload, hf]⟩
      · exact .inr ⟨fun h => h hreadable,
          exists_encloses_of_withConnection hc (by rw [execute_scpUpload, hcontent])
            (Scp.copying_encloses (.scpCreate remote) (Scp.accounted_put remote content) _ _),
          by rintro s ⟨⟩ ⟨⟩⟩
    | sftpDownload =>
      exact .inr ⟨id, exists_encloses_of_withConnection hc (by rw [execute_sftpDownload])
        (Sftp.withSftp_encloses (Sftp.accounted_downloading _ _) _ _), by rintro s ⟨⟩ ⟨⟩⟩
    | sftpUpload =>
      rcases Sftp.upload_cases target' (Path.ofText localPath) (Path.ofText remote) e w with
        ⟨hbarred, f, -, hf⟩ | ⟨htaken, hopened⟩
      · exact .inl ⟨rfl, hbarred, f, by rw [execute_sftpUpload, hf]⟩
      · exact .inr ⟨fun h => h htaken,
          exists_encloses_of_withConnection hc (by rw [execute_sftpUpload, hopened])
            (Sftp.withSftp_encloses (Sftp.accounted_uploading _ _) _ _), by rintro s ⟨⟩ ⟨⟩⟩
  | _ => cases h

/-- A setting in which an interrupt strikes when a file is read, and a fault when the file session is
    closed. -/
def interruptedSetting : Setting :=
  { Setting.calm with fault := fun _ call => match call with
      | .openRead _ => some (.of (.reported .keyboardInterrupt none))
      | .closeSftp => some (.of (.reported .ssh (some "closed")))
      | _ => none }

theorem execute_encloses_sample :
    ∃ calls, ((transfer ⟨.sftpDownload, .sample, "/r", "t"⟩).execute interruptedSetting
        (.initial .empty [("/r", .file [])])).2.events
      = [] ++ ([.policy, .connect .sample (.ofNat 30)] ++ calls ++ [.close]) ∧
    interruptedSetting.Encloses [.policy, .connect .sample (.ofNat 30)] .openSftp .closeSftp
      Event.isFileCall calls := by
  have htarget : (transfer ⟨.sftpDownload, .sample, "/r", "t"⟩).target? = some .sample := rfl
  have hspares : interruptedSetting.Spares (World.initial .empty [("/r", .file [])]).events
      (Session.connecting .sample interruptedSetting) := ⟨rfl, rfl, trivial⟩
  rcases execute_encloses htarget hspares with ⟨hupload, -⟩ | ⟨-, henclosed, -⟩
  · cases hupload
  · exact henclosed

end Task
end Runbook
