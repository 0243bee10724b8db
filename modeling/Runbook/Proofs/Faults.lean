import Mathlib.Data.List.Basic
import Runbook.Proofs.Download
import Runbook.Proofs.Sessions

set_option autoImplicit false

/-! # Failures by the call that was struck

Sessions fail in ways that are foreseen: any call may be struck by an error of the session or of the
system, and the calls of a copy by errors of their own. A task for a remote host then fails with a
report that the first such call decides, and the fault is among the errors behind it. Where no call is
struck, what the task fails with is one of its own failures, which are reports of a workflow too, with
one exception: local paths that the system does not admit. Those are rejected without a context. -/

namespace Runbook

open Action

/-! ## What is foreseen -/

/-- Whether a fault of a call is foreseen. The calls that clean up, and the one that sets the policy, are
    not struck. -/
def Event.foresees : Event → Failure → Bool
  | policy, _ | closeSftp, _ | close, _ => false
  | scp, x | scpGet _, x | scpPut _ _ _, x | closeScp, x => Scp.isFault x
  | _, x => x.isSessionFault

/-- The kind of the failure when a call is struck. -/
def Event.faultKind : Event → Kind
  | connect _ _ => .remoteConnect
  | _ => .remoteChannel

/-- A setting in which all faults are foreseen. -/
def Setting.Foreseen (e : Setting) : Prop :=
  ∀ past call x, e.fault past call = some x → call.foresees x = true

theorem Setting.Foreseen.fault_eq_none {e : Setting} (h : e.Foreseen) {call : Event}
    (hcall : ∀ x, call.foresees x = false) (past : List Event) : e.fault past call = none := by
  cases hfault : e.fault past call with
  | none => rfl
  | some x =>
    have := h _ _ _ hfault
    rw [hcall] at this
    cases this

theorem Setting.Foreseen.passes {e : Setting} (h : e.Foreseen) {call : Event}
    (hcall : ∀ x, call.foresees x = false) (past : List Event) : e.Passes past [call] := by
  refine ⟨fun x hx => ?_, trivial⟩
  rw [h.fault_eq_none hcall] at hx
  cases hx

/-! ## How runs end -/

/-- The end of some calls: none is struck, and a failure is one of a few; or the failure reports the
    first fault that strikes one, in the way of the call that it strikes. -/
def Setting.Ends (e : Setting) (own : Failure → Prop) (past calls : List Event) {α : Type}
    (r : Except Failure α) : Prop :=
  (e.Passes past calls ∧ ∀ f, r = .error f → own f) ∨
    ∃ before call after x f, calls = before ++ call :: after ∧ e.Strikes past before call x ∧
      r = .error f ∧ f.head.kind = call.faultKind ∧ x.links <:+: f.links

namespace Setting.Ends

variable {α : Type} {e : Setting} {own own' : Failure → Prop} {past calls : List Event}
  {r : Except Failure α}

/-- What passes before and after does not change how some calls end. -/
theorem enclosed {lead tail : List Event} (hlead : e.Passes past lead)
    (htail : e.Passes (past ++ lead ++ calls) tail) (h : e.Ends own (past ++ lead) calls r) :
    e.Ends own past (lead ++ calls ++ tail) r := by
  rcases h with ⟨hpasses, hown⟩ | ⟨before, call, after, x, f, rfl, hx, hf, hkind, hlinks⟩
  · refine .inl ⟨?_, hown⟩
    rw [Setting.passes_append, Setting.passes_append, ← List.append_assoc]
    exact ⟨⟨hlead, hpasses⟩, htail⟩
  · refine .inr ⟨lead ++ before, call, after ++ tail, x, f, by simp, hx.after hlead, hf, hkind,
      hlinks⟩

/-- A call that is struck before all others. -/
theorem of_struck {call : Event} {after : List Event} {x f : Failure}
    (hx : e.fault past call = some x) (hkept : call.absorbs x = false) (hr : r = .error f)
    (hkind : f.head.kind = call.faultKind) (hlinks : x.links <:+: f.links) :
    e.Ends own past (call :: after) r :=
  .inr ⟨[], call, after, x, f, rfl, ⟨trivial, by rw [List.append_nil, hx], hkept⟩, hr, hkind, hlinks⟩

/-- A failure before any call. -/
theorem of_refused {p : Except Failure α × World} {f : Failure} {w : World}
    (hp : p = (.error f, w)) (hown : own f) : e.Ends own past [] p.1 := by
  subst hp
  refine .inl ⟨trivial, fun g hg => ?_⟩
  cases hg
  exact hown

theorem mono (h : e.Ends own past calls r) (hown : ∀ f, r = .error f → own f → own' f) :
    e.Ends own' past calls r := by
  rcases h with ⟨hpasses, hf⟩ | hstruck
  · exact .inl ⟨hpasses, fun f hr => hown f hr (hf f hr)⟩
  · exact .inr hstruck

end Setting.Ends

theorem Failure.inContext_of_isSessionFault {x : Failure} (h : x.isSessionFault = true)
    (context : RemoteProblem) : x.inContext context = x.because (.onPeer context) := if_pos h

section

variable {α : Type} {own : Failure → Prop} {m : Action α} {e : Setting}

/-- An action that is accounted for ends as its calls say. -/
theorem Accounted.ends {among : Event → Bool} (hm : Accounted among own Failure.Reported m)
    (hamong : ∀ call, among call = true → call.faultKind = .remoteChannel ∧
      ∀ x, call.foresees x = true → x.isSessionFault = true)
    (he : e.Foreseen) (w : World) :
    ∃ calls, (m e w).2.events = w.events ++ calls ∧ (∀ call ∈ calls, among call = true) ∧
      e.Ends own w.events calls (m e w).1 := by
  obtain ⟨calls, hevents, hcalls, hend⟩ := hm e w
  refine ⟨calls, hevents, hcalls, ?_⟩
  rcases hend with hpasses | ⟨before, call, x, _, rfl, hx, hf, context, hcontext, rfl⟩
  · exact .inl hpasses
  · obtain ⟨hkind, hfault⟩ := hamong call (hcalls call (by simp))
    refine .inr ⟨before, call, [], x, _, rfl, hx, hf, ?_, ?_⟩ <;>
      rw [Failure.inContext_of_isSessionFault (hfault x (he _ _ _ hx.fault))]
    · rw [hkind, ← hcontext]
      rfl
    · exact (List.suffix_cons _ _).isInfix

end

/-- A clean-up that fails as well is reported in front of the failure for which it was made. -/
theorem Effect.andThenAlways_of_error {σ α : Type} {m : Effect σ α} {cleanUp : Effect σ Unit}
    {e : Setting} {s s' : σ} {y : Failure} (h : cleanUp e (m e s).2 = (.error y, s')) :
    ∃ z, (m.andThenAlways cleanUp e s).1 = .error z ∧ z.head = y.head ∧ y.links <+: z.links ∧
      ∀ x, (m e s).1 = .error x → x.links <:+ z.links := by
  unfold Effect.andThenAlways
  rcases hm : m e s with ⟨x | a, s''⟩ <;> rw [hm] at h <;> simp only [h]
  · refine ⟨y.during x, rfl, rfl, ⟨x.links, rfl⟩, ?_⟩
    rintro _ ⟨⟩
    exact ⟨y.links, rfl⟩
  · exact ⟨y, rfl, rfl, List.prefix_rfl, fun x hx => by cases hx⟩

/-! ## Sessions -/

namespace Session

variable {α : Type} {own : Failure → Prop} {body : Action α} {target : Target} {e : Setting}
  {w : World}

/-- A session that cannot be opened fails with a report of why it cannot. -/
theorem openClient_of_unreached (he : e.Foreseen) {x : Failure}
    (hx : e.fault (w.events ++ [.policy]) (.connect target e.connectTimeout) = some x) :
    openClient target e w
      = (.error (x.because (.onPeer (.connect target.address target.port target.username))),
        w.after (connecting target e ++ [.close])) := by
  have hfault : x.isSessionFault = true := he _ _ _ hx
  have hclose : e.fault (w.events ++ connecting target e) .close = none :=
    he.fault_eq_none (fun _ => rfl) _
  rw [openClient_of_unconnected (he.fault_eq_none (fun _ => rfl) _) hx, connectFailure, hclose,
    if_pos hfault, if_pos hfault]

/-- A session in which a path of the peer is looked at has a connection. -/
theorem spares_connecting_of_stat (he : e.Foreseen) {calls : List Event} {path : String}
    (hstat : .stat path ∈ calls)
    (h : (withConnection target body e w).2.events = w.events ++ calls) :
    e.Spares w.events (connecting target e) := by
  refine ⟨he.fault_eq_none (fun _ => rfl) _, ?_, trivial⟩
  cases hconnect : e.fault (w.events ++ [.policy]) (.connect target e.connectTimeout) with
  | none => rfl
  | some x =>
    rw [withConnection, Effect.bind_of_error (openClient_of_unreached he hconnect)] at h
    rw [← List.append_cancel_left h] at hstat
    simp [connecting] at hstat

/-- A session ends as what is done in it, if it can be opened. -/
theorem withConnection_ends (he : e.Foreseen)
    (hbody : ∃ calls, (body e (w.after (connecting target e))).2.events
        = (w.after (connecting target e)).events ++ calls ∧
      e.Ends own (w.after (connecting target e)).events calls
        (body e (w.after (connecting target e))).1) :
    ∃ calls, (withConnection target body e w).2.events = w.events ++ calls ∧
      e.Ends own w.events calls (withConnection target body e w).1 := by
  have hpolicy : e.fault w.events .policy = none := he.fault_eq_none (fun _ => rfl) _
  cases hconnect : e.fault (w.events ++ [.policy]) (.connect target e.connectTimeout) with
  | some x =>
    have hopen := openClient_of_unreached he hconnect
    rw [withConnection, Effect.bind_of_error hopen]
    refine ⟨_, rfl, .inr ⟨[.policy], _, [.close], x, _, rfl, ⟨he.passes (fun _ => rfl) _, hconnect,
      rfl⟩, rfl, rfl, ?_⟩⟩
    exact (List.suffix_cons _ _).isInfix
  | none =>
    have hc : e.Spares w.events (connecting target e) := ⟨hpolicy, hconnect, trivial⟩
    obtain ⟨calls, hcalls, hends⟩ := hbody
    refine ⟨_, withConnection_events hc hcalls, ?_⟩
    rw [withConnection_of_spared hc, Effect.andThenAlways_fst]
    · exact hends.enclosed hc.passes (he.passes (fun _ => rfl) _)
    · rw [perform_of_spared (he.fault_eq_none (fun _ => rfl) _)]

end Session

namespace Sftp

variable {α : Type} {own : Failure → Prop} {body : Action α} {e : Setting} {w : World}

/-- A file session ends as what is done in it, if it can be opened. -/
theorem withSftp_ends (he : e.Foreseen)
    (hbody : ∃ calls, (body e (w.after [.openSftp])).2.events
        = (w.after [.openSftp]).events ++ calls ∧
      e.Ends own (w.after [.openSftp]).events calls (body e (w.after [.openSftp])).1) :
    ∃ calls, (withSftp body e w).2.events = w.events ++ calls ∧
      e.Ends own w.events calls (withSftp body e w).1 := by
  have hstart : start e w = ((perform .openSftp e w).1.mapError (Failure.inContext .openSftp),
      (perform .openSftp e w).2) := Session.attempting_apply _ _ _ _
  cases hfault : e.fault w.events .openSftp with
  | some x =>
    rw [perform_of_struck hfault] at hstart
    rw [withSftp, Effect.bind_of_error hstart]
    refine ⟨[.openSftp], rfl, .of_struck hfault rfl rfl ?_ ?_⟩ <;>
      rw [Failure.inContext_of_isSessionFault (he _ _ _ hfault)]
    · rfl
    · exact (List.suffix_cons _ _).isInfix
  | none =>
    rw [perform_of_spared hfault] at hstart
    obtain ⟨calls, hcalls, hends⟩ := hbody
    refine ⟨[.openSftp] ++ calls ++ [.closeSftp], ?_, ?_⟩
    · rw [withSftp, Effect.bind_of_ok hstart, Effect.andThenAlways_snd, perform_snd,
        World.after_events, hcalls]
      simp
    · have hopened : e.Spares w.events [.openSftp] := ⟨hfault, trivial⟩
      rw [withSftp, Effect.bind_of_ok hstart, Effect.andThenAlways_fst]
      · exact hends.enclosed hopened.passes (he.passes (fun _ => rfl) _)
      · rw [perform_of_spared (he.fault_eq_none (fun _ => rfl) _)]

end Sftp

namespace Scp

variable {α : Type} {own : Failure → Prop} {body : Action α} {context : RemoteProblem} {e : Setting}
  {w : World}

/-- A failure in the context of a copy, if it is a fault of one. -/
def inCopy (context : RemoteProblem) (f : Failure) : Failure :=
  if isFault f then f.because (.onPeer context) else f

theorem inCopy_of_isFault {f : Failure} (h : isFault f = true) (context : RemoteProblem) :
    inCopy context f = f.because (.onPeer context) := if_pos h

theorem copying_apply (context : RemoteProblem) (body : Action α) (e : Setting) (w : World) :
    copying context body e w
      = (((perform .scp >>= fun _ => body.andThenAlways (perform .closeScp)) e w).1.mapError
          (inCopy context),
        ((perform .scp >>= fun _ => body.andThenAlways (perform .closeScp)) e w).2) := by
  unfold copying Effect.because Effect.mapFailure
  rcases (perform .scp >>= fun _ => body.andThenAlways (perform .closeScp)) e w with ⟨f | a, w'⟩ <;>
    rfl

theorem faultKind_of_isCopyCall {call : Event} (h : call.isCopyCall = true) :
    call.faultKind = .remoteChannel ∧ ∀ x, call.foresees x = isFault x := by
  cases call <;> first | exact ⟨rfl, fun _ => rfl⟩ | cases h

/-- What a copy does between making its client and closing it, with its failures in the context of the
    copy. -/
theorem body_ends (he : e.Foreseen) (hcontext : context.kind = .remoteChannel)
    (hown : ∀ f, own f → isFault f = true) {calls : List Event}
    (hamong : ∀ call ∈ calls, call.isCopyCall = true) {r : Except Failure α}
    {past : List Event} (hend : (e.Passes past calls ∧ ∀ f, r = .error f → own f) ∨
      ∃ before call x f, calls = before ++ [call] ∧ e.Strikes past before call x ∧
        r = .error f ∧ x = f) :
    e.Ends (fun f => ∃ g, own g ∧ f = g.because (.onPeer context)) past calls
      (r.mapError (inCopy context)) := by
  rcases hend with ⟨hpasses, hf⟩ | ⟨before, call, x, _, rfl, hx, rfl, rfl⟩
  · refine .inl ⟨hpasses, fun f hr => ?_⟩
    cases r with
    | ok a => cases hr
    | error g =>
      cases hr
      exact ⟨g, hf g rfl, inCopy_of_isFault (hown g (hf g rfl)) context⟩
  · obtain ⟨hkind, hforeseen⟩ := faultKind_of_isCopyCall (hamong call (by simp))
    have hfault : isFault x = true := hforeseen x ▸ he _ _ _ hx.fault
    refine .inr ⟨before, call, [], x, _, rfl, hx, rfl, ?_, ?_⟩ <;> rw [inCopy_of_isFault hfault]
    · rw [hkind, ← hcontext]
      rfl
    · exact (List.suffix_cons _ _).isInfix

/-- A copy whose client cannot be closed ends with that failure in front. The first fault is that of
    closing the client, or the one that has stopped the copy before. -/
theorem unclosed_ends (he : e.Foreseen) (hcontext : context.kind = .remoteChannel)
    {calls : List Event} (hamong : ∀ call ∈ calls, call.isCopyCall = true) {r : Except Failure α}
    {past : List Event} (hend : (e.Passes past calls ∧ ∀ f, r = .error f → own f) ∨
      ∃ before call x f, calls = before ++ [call] ∧ e.Strikes past before call x ∧
        r = .error f ∧ x = f)
    {y z : Failure} (hclose : e.fault (past ++ calls) .closeScp = some y) (hhead : z.head = y.head)
    (hbefore : y.links <+: z.links) (hafter : ∀ x, r = .error x → x.links <:+ z.links) :
    e.Ends (fun f => ∃ g, own g ∧ f = g.because (.onPeer context)) past (calls ++ [.closeScp])
      (.error (inCopy context z) : Except Failure α) := by
  have hy : isFault y = true := he _ _ _ hclose
  have hput : inCopy context z = z.because (.onPeer context) := by
    refine inCopy_of_isFault ?_ context
    rw [isFault, Failure.isSessionFault, Failure.isA, Failure.isA, Failure.isA, hhead]
    exact hy
  have hlinks : z.links <:+ (inCopy context z).links := hput ▸ List.suffix_cons _ _
  have hkind : (inCopy context z).head.kind = .remoteChannel := by rw [hput, ← hcontext]; rfl
  rcases hend with ⟨hpasses, -⟩ | ⟨before, call, x, _, rfl, hx, hr, rfl⟩
  · exact .inr ⟨calls, .closeScp, [], y, _, rfl, ⟨hpasses, hclose, rfl⟩, rfl, hkind,
      hbefore.isInfix.trans hlinks.isInfix⟩
  · refine .inr ⟨before, call, [.closeScp], x, _, by simp, hx, rfl, ?_,
      (hafter x hr).isInfix.trans hlinks.isInfix⟩
    rw [hkind, (faultKind_of_isCopyCall (hamong call (by simp))).1]

/-- A copy ends as what is done in it, and its failures are put into its context. Closing the client may
    fail as well, and then that is what is reported first. -/
theorem copying_ends (he : e.Foreseen) (hcontext : context.kind = .remoteChannel)
    (hbody : Accounted Event.isCopyCall own Eq body) (hown : ∀ f, own f → isFault f = true) :
    ∃ calls, (copying context body e w).2.events = w.events ++ calls ∧
      e.Ends (fun f => ∃ g, own g ∧ f = g.because (.onPeer context)) w.events calls
        (copying context body e w).1 := by
  rw [copying_apply]
  cases hfault : e.fault w.events .scp with
  | some x =>
    rw [Effect.bind_of_error (perform_of_struck hfault)]
    refine ⟨[.scp], rfl, .of_struck hfault rfl rfl ?_ ?_⟩ <;>
      rw [inCopy_of_isFault (he _ _ _ hfault)]
    · exact hcontext
    · exact (List.suffix_cons _ _).isInfix
  | none =>
    rw [Effect.bind_of_ok (perform_of_spared hfault)]
    obtain ⟨calls, hcalls, hamong, hend⟩ := hbody e (w.after [.scp])
    have hopened : e.Spares w.events [.scp] := ⟨hfault, trivial⟩
    refine ⟨[.scp] ++ calls ++ [.closeScp], ?_, ?_⟩
    · rw [Effect.andThenAlways_snd, perform_snd, World.after_events, hcalls]
      simp
    cases hclose : e.fault (body e (w.after [.scp])).2.events .closeScp with
    | none =>
      rw [Effect.andThenAlways_fst (by rw [perform_of_spared hclose])]
      rw [hcalls] at hclose
      have hclosed : e.Spares (w.events ++ [.scp] ++ calls) [.closeScp] := ⟨hclose, trivial⟩
      exact (body_ends he hcontext hown hamong hend).enclosed hopened.passes hclosed.passes
    | some y =>
      obtain ⟨z, hz, hhead, hbefore, hafter⟩ := Effect.andThenAlways_of_error
        (perform_of_struck hclose)
      rw [hz]
      rw [hcalls] at hclose
      have hunclosed : e.Ends _ w.events ([.scp] ++ (calls ++ [.closeScp]) ++ []) _ :=
        (unclosed_ends he hcontext hamong hend hclose hhead hbefore hafter).enclosed hopened.passes
          trivial
      rwa [List.append_nil, ← List.append_assoc] at hunclosed

end Scp

/-! ## Looking at a path of the peer -/

namespace Sftp

variable {e : Setting} {w : World} {root : Path}

/-- Some calls of a session that look at one path of the peer, before all else, or at none. -/
def LooksOnce (past events : List Event) : Prop :=
  (∃ rest, events = past ++ rest ∧ ∀ call ∈ rest, call.isWalkCall = true) ∨
    ∃ path rest, events = past ++ .stat path :: rest ∧ ∀ call ∈ rest, call.isWalkCall = true

theorem stat_bind_events {path : Path} {next : Option RemoteView → Action Unit}
    (h : ∀ v, Accounted Event.isWalkCall (Path.OwnFailure root) Failure.Reported (next v))
    (seen : Option RemoteView) (e : Setting) (w : World) :
    ∃ rest, ((stat path seen >>= next) e w).2.events = w.events ++ .stat path.toText :: rest ∧
      ∀ call ∈ rest, call.isWalkCall = true := by
  have hsnd := stat_snd path seen e w
  rcases hstat : stat path seen e w with ⟨f | v, w'⟩
  · rw [hstat] at hsnd
    obtain rfl : w' = _ := hsnd
    exact ⟨[], by rw [Effect.bind_of_error hstat]; rfl, by simp⟩
  · rw [hstat] at hsnd
    obtain rfl : w' = _ := hsnd
    obtain ⟨rest, hrest, hwalk, -⟩ := h v e (w.after [.stat path.toText])
    refine ⟨rest, ?_, hwalk⟩
    rw [Effect.bind_of_ok hstat, hrest, World.after_events]
    simp

theorem exists_downloading_eq (remote localPath : Path) (e : Setting) (w : World) :
    ∃ seen, downloading remote localPath e w
      = (stat remote seen >>= receiveSeen remote localPath) e w := by
  refine ⟨(w.peer.view? remote).map fun v => v.inOrder e.listing remote, ?_⟩
  rw [← receive_eq]
  rfl

/-- An upload sends a file, or looks at its remote path and then sends a directory. -/
theorem uploading_cases (localPath remote : Path) (e : Setting) (w : World) :
    (∃ rest, (uploading localPath remote e w).2.events = w.events ++ rest ∧
      ∀ call ∈ rest, call.isWalkCall = true) ∨
      ∃ seen, uploading localPath remote e w
        = (stat remote seen >>= sendSeen localPath remote) e w := by
  have hself : localPath.IsNear localPath := .inr localPath.isBelow_refl
  rcases localPath.isFile_cases e w with ⟨f, hf⟩ | ⟨b, hb, -⟩
  · refine .inl ⟨[], ?_, by simp⟩
    rw [uploading, Effect.bind_of_error hf]
    simp
  · have hfile : ∀ {next : Bool → Action Unit}, (localPath.isFile >>= next) e w = next b e w :=
      Effect.bind_of_ok hb
    rw [uploading, hfile]
    cases b with
    | true =>
      have hread : Accounted Event.isWalkCall localPath.OwnFailure Failure.Reported
          (uploadFile localPath remote) :=
        (Path.accounted_call hself rfl FileTree.read).bind fun _ => accounted_writeContent _ _
      obtain ⟨rest, hrest, hwalk, -⟩ := hread e w
      exact .inl ⟨rest, hrest, hwalk⟩
    | false =>
      refine .inr ⟨w.peer.view? remote, ?_⟩
      simp only [Bool.false_eq_true, if_false]
      rw [sendDirectory_eq]
      rfl

theorem looksOnce_downloading (remote localPath : Path) (e : Setting) (w : World) :
    LooksOnce w.events (downloading remote localPath e w).2.events := by
  obtain ⟨seen, hseen⟩ := exists_downloading_eq remote localPath e w
  obtain ⟨rest, hrest, hwalk⟩ := stat_bind_events (accounted_receiveSeen remote localPath) seen e w
  exact .inr ⟨remote.toText, rest, by rw [hseen, hrest], hwalk⟩

theorem looksOnce_uploading (localPath remote : Path) (e : Setting) (w : World) :
    LooksOnce w.events (uploading localPath remote e w).2.events := by
  rcases uploading_cases localPath remote e w with hwalk | ⟨seen, hseen⟩
  · exact .inl hwalk
  · obtain ⟨rest, hrest, hwalk⟩ := stat_bind_events (accounted_sendSeen localPath remote) seen e w
    exact .inr ⟨remote.toText, rest, by rw [hseen, hrest], hwalk⟩

/-- A session in which a path of the peer is looked at has been opened. -/
theorem spares_opening_of_stat {target : Target} {body : Action Unit} (he : e.Foreseen)
    {calls : List Event} {path : String} (hstat : .stat path ∈ calls)
    (h : (Session.withConnection target (withSftp body) e w).2.events = w.events ++ calls) :
    e.Spares w.events (opening target e) := by
  have hc := Session.spares_connecting_of_stat he hstat h
  cases hopen : e.fault (w.after (Session.connecting target e)).events .openSftp with
  | some x =>
    obtain ⟨y, hy⟩ := Session.attempting_perform_of_struck .openSftp hopen
    have hbegun : withSftp body e (w.after (Session.connecting target e))
        = (.error y, (w.after (Session.connecting target e)).after [.openSftp]) :=
      Effect.bind_of_error hy
    rw [Session.withConnection_snd hc, hbegun, World.after_events, World.after_events,
      World.after_events, List.append_assoc, List.append_assoc] at h
    rw [← List.append_cancel_left h] at hstat
    simp [Session.connecting] at hstat
  | none => exact (e.spares_append _ _ _).2 ⟨hc, hopen, trivial⟩

/-- Nothing has been done in a session before a path of the peer is looked at. -/
theorem opening_of_stat {target : Target} {body : Action Unit} (he : e.Foreseen)
    (hbody : ∀ w, LooksOnce w.events (body e w).2.events) {before after : List Event}
    {path : String}
    (h : (Session.withConnection target (withSftp body) e w).2.events
      = w.events ++ (before ++ .stat path :: after)) :
    e.Spares w.events (opening target e) ∧ before = opening target e ∧
      ∃ rest, after = rest ++ closing ∧ (body e (w.after (opening target e))).2.events
        = w.events ++ (opening target e ++ .stat path :: rest) := by
  have hstat : Event.stat path ∈ before ++ .stat path :: after := by simp
  have hopening := spares_opening_of_stat he hstat h
  obtain ⟨hsnd, -, -⟩ := session_of_spared body hopening
  rw [hsnd, World.after_events] at h
  have hfirst : .stat path ∉ opening target e := by simp [opening, Session.connecting]
  have hnot : ∀ {calls : List Event}, (∀ call ∈ calls, call.isWalkCall = true) →
      .stat path ∉ calls ++ closing := by
    intro calls hwalk hmem
    rcases List.mem_append.1 hmem with hmem | hmem
    · cases hwalk _ hmem
    · simp [closing] at hmem
  refine ⟨hopening, ?_⟩
  rcases hbody (w.after (opening target e)) with ⟨rest, hrest, hwalk⟩ | ⟨p, rest, hrest, hwalk⟩
  · rw [hrest, World.after_events, List.append_assoc, List.append_assoc] at h
    rw [← List.append_cancel_left h] at hstat
    exact absurd hstat (by simp [hfirst, hnot hwalk])
  · rw [hrest, World.after_events, List.append_assoc, List.append_assoc, List.cons_append] at h
    obtain ⟨hbefore, hpath, hafter⟩ := (List.append_cons_inj_of_notMem hfirst (hnot hwalk)).1
      (List.append_cancel_left h)
    obtain rfl : p = path := by simpa using hpath
    refine ⟨hbefore.symm, rest, hafter.symm, ?_⟩
    rw [hrest, World.after_events, List.append_assoc]

theorem makeDirectory_events (path : Path) (e : Setting) (w : World) :
    (Sftp.makeDirectory path e w).2.events
      = w.events ++ [.makeDir path.toText directoryPermissions] := by
  rw [Sftp.makeDirectory, Session.attempting_apply]
  cases hfault : e.fault w.events (.makeDir path.toText directoryPermissions) with
  | none =>
    rw [Effect.bind_of_ok (perform_of_spared hfault)]
    rfl
  | some x =>
    rw [Effect.bind_of_error (perform_of_struck hfault)]
    rfl

/-- Where nothing is seen, an upload makes a directory first. -/
theorem sendSeen_none_events (localPath remote : Path) (e : Setting) (w : World) :
    ∃ rest, (sendSeen localPath remote none e w).2.events
      = w.events ++ .makeDir remote.toText directoryPermissions :: rest := by
  have hmake := makeDirectory_events remote e w
  rcases hm : Sftp.makeDirectory remote e w with ⟨f | u, w'⟩
  · rw [hm] at hmake
    exact ⟨[], by rw [sendSeen, Effect.bind_of_error hm, ← hmake]⟩
  · rw [hm] at hmake
    obtain ⟨rest, hrest, -⟩ := accounted_uploadDirectory remote localPath e w'
    refine ⟨rest, ?_⟩
    rw [sendSeen, Effect.bind_of_ok hm, hrest]
    dsimp only at hmake
    rw [hmake, List.append_assoc, List.singleton_append]

variable {target : Target} {remote localPath : Path} {path : String} {x : Failure}
  {rest : List Event}

/-- The first call of a session that looks at a path of the peer tells which path it is. -/
theorem path_of_stat_bind {next : Option RemoteView → Action Unit} {seen : Option RemoteView}
    (hnext : ∀ v, Accounted Event.isWalkCall (Path.OwnFailure root) Failure.Reported (next v))
    (h : ((stat remote seen >>= next) e (w.after (opening target e))).2.events
      = w.events ++ (opening target e ++ .stat path :: rest)) : remote.toText = path := by
  obtain ⟨rest', hrest, -⟩ := stat_bind_events hnext seen e (w.after (opening target e))
  rw [hrest, World.after_events, List.append_assoc] at h
  have := List.append_cancel_left (List.append_cancel_left h)
  simp at this
  exact this.1

theorem stat_bind_of_absent {next : Option RemoteView → Action Unit} {seen : Option RemoteView}
    (hx : e.fault w.events (.stat remote.toText) = some x)
    (hmissing : x.isA .fileNotFound = true) :
    (stat remote seen >>= next) e w = next none e (w.after [.stat remote.toText]) :=
  Effect.bind_of_ok (stat_of_absorbed seen hx hmissing)

/-- A download fails if its path of the peer is not found. -/
theorem downloading_of_absent
    (h : (downloading remote localPath e (w.after (opening target e))).2.events
      = w.events ++ (opening target e ++ .stat path :: rest))
    (hx : e.fault (w.events ++ opening target e) (.stat path) = some x)
    (hmissing : x.isA .fileNotFound = true) :
    (downloading remote localPath e (w.after (opening target e))).1
      = .error (.of (.onPeer (.missing path))) := by
  obtain ⟨seen, hseen⟩ := exists_downloading_eq remote localPath e (w.after (opening target e))
  rw [hseen] at h ⊢
  obtain rfl := path_of_stat_bind (accounted_receiveSeen remote localPath) h
  rw [stat_bind_of_absent hx hmissing]
  rfl

/-- An upload makes a directory if its path of the peer is not found. -/
theorem uploading_of_absent
    (h : (uploading localPath remote e (w.after (opening target e))).2.events
      = w.events ++ (opening target e ++ .stat path :: rest))
    (hx : e.fault (w.events ++ opening target e) (.stat path) = some x)
    (hmissing : x.isA .fileNotFound = true) :
    ∃ more, rest = .makeDir path directoryPermissions :: more := by
  rcases uploading_cases localPath remote e (w.after (opening target e)) with
    ⟨calls, hcalls, hwalk⟩ | ⟨seen, hseen⟩
  · rw [hcalls, World.after_events, List.append_assoc] at h
    have hmem : Event.stat path ∈ calls := by
      rw [List.append_cancel_left (List.append_cancel_left h)]
      simp
    cases hwalk _ hmem
  · rw [hseen] at h
    obtain rfl := path_of_stat_bind (accounted_sendSeen localPath remote) h
    rw [stat_bind_of_absent hx hmissing] at h
    obtain ⟨more, hmore⟩ := sendSeen_none_events localPath remote e
      ((w.after (opening target e)).after [.stat remote.toText])
    rw [hmore, World.after_events, World.after_events, List.append_assoc, List.append_assoc] at h
    have := List.append_cancel_left (List.append_cancel_left h)
    simp at this
    exact ⟨more, this.symm⟩

end Sftp

/-! ## Tasks -/

namespace Task

variable {t : Task} {target : Target} {e : Setting} {w : World}

/-- The failures of a task for a remote host that come from no fault: those of its own, and the rejection
    of a local path that it looks at. -/
def OwnFailure (t : Task) (f : Failure) : Prop :=
  f.IsNative ∨ ∃ s, t = transfer s ∧
    ∃ p : Path, p.IsNear (Path.ofText s.localPath) ∧ p.Rejects f

theorem ownFailure_of_path {s : Transfer} {f : Failure}
    (h : (Path.ofText s.localPath).OwnFailure f) : (transfer s).OwnFailure f :=
  h.imp id fun hp => ⟨s, rfl, hp⟩

theorem foreseen_channelCall (call : Event) (h : call.isChannelCall = true) :
    call.faultKind = .remoteChannel ∧
      ∀ x, call.foresees x = true → x.isSessionFault = true := by
  cases call <;> first | exact ⟨rfl, fun _ hx => hx⟩ | cases h

theorem foreseen_fileCall (call : Event) (h : call.isFileCall = true) :
    call.faultKind = .remoteChannel ∧
      ∀ x, call.foresees x = true → x.isSessionFault = true := by
  cases call <;> first | exact ⟨rfl, fun _ hx => hx⟩ | cases h

/-- A copy to or from a host has no failures of its own but what its calls fail with. -/
theorem copying_ends_native {α : Type} {body : Action α} (context : RemoteProblem)
    (he : e.Foreseen) (hcontext : context.kind = .remoteChannel) {own : Failure → Prop}
    (hbody : Accounted Event.isCopyCall own Eq body)
    (hown : ∀ f, own f → ∃ path, f = Scp.noSuchFile path) (w : World) :
    ∃ calls, (Scp.copying context body e w).2.events = w.events ++ calls ∧
      e.Ends Failure.IsNative w.events calls (Scp.copying context body e w).1 := by
  have hfault : ∀ f, own f → Scp.isFault f = true := by
    intro f hf
    obtain ⟨path, rfl⟩ := hown f hf
    rfl
  obtain ⟨calls, hcalls, hends⟩ := Scp.copying_ends he hcontext hbody hfault
  refine ⟨calls, hcalls, hends.mono ?_⟩
  rintro _ - ⟨g, hg, rfl⟩
  exact .remoteCall hcontext (.inr (hown g hg))

/-- A file session with a host ends as what is done in it. -/
theorem session_ends {body : Action Unit} {own : Failure → Prop}
    (hbody : Accounted Event.isFileCall own Failure.Reported body) (he : e.Foreseen)
    (target : Target) (w : World) :
    ∃ calls, (Session.withConnection target (Sftp.withSftp body) e w).2.events = w.events ++ calls ∧
      e.Ends own w.events calls (Session.withConnection target (Sftp.withSftp body) e w).1 := by
  refine Session.withConnection_ends he (Sftp.withSftp_ends he ?_)
  obtain ⟨calls, hcalls, -, hends⟩ := hbody.ends foreseen_fileCall he _
  exact ⟨calls, hcalls, hends⟩

/-- What is copied from a host is written, and that may fail as well. -/
theorem download_ends (he : e.Foreseen) (target : Target) (remote localPath : String) (w : World) :
    ∃ calls, (Scp.download target remote (Path.ofText localPath) e w).2.events
        = w.events ++ calls ∧
      e.Ends (Path.ofText localPath).OwnFailure w.events calls
        (Scp.download target remote (Path.ofText localPath) e w).1 := by
  obtain ⟨calls, hcalls, hends⟩ := @Session.withConnection_ends _ _ _ target _ w he
    (copying_ends_native (.scpReceive remote) he rfl (Scp.accounted_get remote)
      (fun f hf => ⟨remote, hf⟩) _)
  refine ⟨calls, by rw [Scp.download_events, Scp.receiving, hcalls], ?_⟩
  rw [Scp.download_apply, Scp.receiving]
  cases hr : (Session.withConnection target
    (Scp.copying (.scpReceive remote) (Scp.get remote)) e w).1 with
  | error f =>
    rw [hr] at hends
    rcases hends with ⟨hpasses, hown⟩ | ⟨before, call, after, x, _, hcalls, hx, ⟨⟩, hkind, hlinks⟩
    · refine .inl ⟨hpasses, fun g hg => ?_⟩
      cases hg
      exact .inl (hown f rfl)
    · exact .inr ⟨before, call, after, x, f, hcalls, hx, rfl, hkind, hlinks⟩
  | ok content =>
    rw [hr] at hends
    rcases hends with ⟨hpasses, -⟩ | ⟨_, _, _, _, _, _, _, hf, _⟩
    · refine .inl ⟨hpasses, fun f hf => ?_⟩
      have hwrite : Accounted (fun _ => true) (Path.ofText localPath).OwnFailure Eq
          ((Path.ofText localPath).writeFile content) :=
        Path.accounted_writeFile (.inr (Path.isBelow_refl _)) content
      dsimp only at hf
      rcases (Path.ofText localPath).writeFile_cases content e _ with ⟨y, hy⟩ | ⟨_, _, _, hok⟩
      · rw [hy] at hf
        cases hf
        exact hwrite.own_of_error hy
      · rw [hok] at hf
        cases hf
    · cases hf

/-- A run of a task for a remote host in which all faults are foreseen ends as its calls say. -/
theorem execute_ends (h : t.target? = some target) (he : e.Foreseen) (w : World) :
    ∃ calls, (t.execute e w).2.events = w.events ++ calls ∧
      e.Ends t.OwnFailure w.events calls (t.execute e w).1 := by
  cases t with
  | ssh target' commands =>
    obtain rfl := Option.some.inj h
    rw [execute_ssh]
    obtain ⟨calls, hcalls, -, hends⟩ := (Session.accounted_commands target' commands).ends
      foreseen_channelCall he (w.after (Session.connecting target' e))
    obtain ⟨all, hall, hends⟩ := Session.withConnection_ends he ⟨calls, hcalls, hends⟩
    exact ⟨all, hall, hends.mono fun _ _ hf => .inl hf⟩
  | transfer s =>
    obtain ⟨kind, target', remote, localPath⟩ := s
    obtain rfl : target' = target := Option.some.inj h
    cases kind with
    | scpDownload =>
      rw [execute_scpDownload]
      obtain ⟨calls, hcalls, hends⟩ := download_ends he target' remote localPath w
      exact ⟨calls, hcalls, hends.mono fun _ _ hf => ownFailure_of_path hf⟩
    | scpUpload =>
      rw [execute_scpUpload]
      rcases Scp.upload_cases target' (Path.ofText localPath) remote e w with
        ⟨-, f, hown, hf⟩ | ⟨-, content, hcontent⟩
      · exact ⟨[], by rw [hf]; simp, .of_refused hf (ownFailure_of_path hown)⟩
      · rw [hcontent]
        obtain ⟨calls, hcalls, hends⟩ := @Session.withConnection_ends _ _ _ target' _ w he
          (copying_ends_native (.scpCreate remote) he rfl (Scp.accounted_put remote content)
            (fun _ hf => hf.elim) _)
        exact ⟨calls, hcalls, hends.mono fun _ _ hf => .inl hf⟩
    | sftpDownload =>
      rw [execute_sftpDownload]
      obtain ⟨calls, hcalls, hends⟩ := session_ends (Sftp.accounted_downloading (Path.ofText remote)
        (Path.ofText localPath)) he target' w
      exact ⟨calls, hcalls, hends.mono fun _ _ hf => ownFailure_of_path hf⟩
    | sftpUpload =>
      rw [execute_sftpUpload]
      rcases Sftp.upload_cases target' (Path.ofText localPath) (Path.ofText remote) e w with
        ⟨-, f, hown, hf⟩ | ⟨-, hopened⟩
      · exact ⟨[], by rw [hf]; simp, .of_refused hf (ownFailure_of_path hown)⟩
      · rw [hopened]
        obtain ⟨calls, hcalls, hends⟩ := session_ends (Sftp.accounted_uploading
          (Path.ofText localPath) (Path.ofText remote)) he target' w
        exact ⟨calls, hcalls, hends.mono fun _ _ hf => ownFailure_of_path hf⟩
  | _ => cases h

/-- What a task comes to where the path of the peer that it looks at counts as absent. A download fails,
    and an upload goes on with making a directory there. -/
def CountsAsAbsent (t : Task) (path : String) (r : Except Failure Unit) (after : List Event) : Prop :=
  if t.isUpload then ∃ rest, after = .makeDir path Sftp.directoryPermissions :: rest
  else r = .error (.of (.onPeer (.missing path)))

/-- Whether a failure tells what a read or a write of a local file, or the making or listing of a local
    directory, has failed with: an error of the local system, which names its path, is in the failure
    exactly if this is the report of such a call, and then the error stands right behind the report. -/
structure ReportsLocalCalls (f : Failure) : Prop where
  reported : ∀ errno text path, .system errno text (some path) ∈ f.links → f.head.kind = .localFile
  behind : f.head.kind = .localFile →
    ∃ errno text path, f.behind = [.system errno text (some path)]

/-- How a run of a task for a remote host ends if it ends as it should: by itself, or with a failure that
    a workflow reports. The first fault that is not absorbed decides which, and stands behind it. Where
    there is none, an error of the local system is reported as that of the local call which it ended. A
    path of the peer that is not found counts as absent. -/
def Settles (t : Task) (e : Setting) (w : World) : Prop :=
  ∃ calls, (t.execute e w).2.events = w.events ++ calls ∧
    e.Ends (fun f => f.isWorkflow = true ∧ f.IsNative ∧ ReportsLocalCalls f) w.events calls
      (t.execute e w).1 ∧
    ∀ before path after x, calls = before ++ .stat path :: after →
      e.fault (w.events ++ before) (.stat path) = some x → x.isA .fileNotFound = true →
        t.CountsAsAbsent path (t.execute e w).1 after

/-- A run of a task that ends with the rejection of a local path that it looks at. -/
def Escapes (t : Task) (e : Setting) (w : World) : Prop :=
  ∃ s f, t = transfer s ∧ (t.execute e w).1 = .error f ∧
    ∃ p : Path, p.IsNear (Path.ofText s.localPath) ∧ p.Rejects f

theorem isWorkflow_of_kind {f : Failure} {k : Kind} (h : f.head.kind = k)
    (hk : k.isA .workflow = true) : f.isWorkflow = true := by
  rw [Failure.isWorkflow, Failure.isA, Cause.isA, h, hk]

theorem isWorkflow_of_isNative {f : Failure} (h : f.IsNative) : f.isWorkflow = true := by
  cases h with
  | refusedHere h =>
    rcases h with h | h
    · exact isWorkflow_of_kind h rfl
    · exact isWorkflow_of_kind h rfl
  | refusedThere h =>
    rcases h with h | h
    · exact isWorkflow_of_kind h rfl
    · exact isWorkflow_of_kind h rfl
  | localCall path error h => exact isWorkflow_of_kind h rfl
  | remoteCall h _ => exact isWorkflow_of_kind h rfl
  | command => rfl

/-- Only the local system names a path in its errors: what a call of the peer fails with of itself names
    none. -/
theorem reportsLocalCalls_of_isNative {f : Failure} (h : f.IsNative) : ReportsLocalCalls f := by
  cases h with
  | refusedHere h =>
    refine ⟨fun errno text path hmem => ?_, fun hlocal => ?_⟩
    · cases List.mem_singleton.1 hmem
    · rcases h with h | h <;> cases h.symm.trans hlocal
  | refusedThere h =>
    refine ⟨fun errno text path hmem => ?_, fun hlocal => ?_⟩
    · cases List.mem_singleton.1 hmem
    · rcases h with h | h <;> cases h.symm.trans hlocal
  | localCall path error h =>
    refine ⟨fun _ _ _ _ => h, fun _ => ?_⟩
    cases error <;> exact ⟨_, _, _, rfl⟩
  | remoteCall h herror =>
    refine ⟨fun errno text path hmem => ?_, fun hlocal => ?_⟩
    · rcases herror with rfl | ⟨missing, rfl⟩
      · simp [Sftp.noSuchFile] at hmem
      · simp [Scp.noSuchFile] at hmem
    · cases h.symm.trans hlocal
  | command =>
    refine ⟨fun errno text path hmem => ?_, fun hlocal => ?_⟩
    · cases List.mem_singleton.1 hmem
    · cases hlocal

/-- The rejection of a path is no failure that a workflow reports. -/
theorem isWorkflow_of_rejects {p : Path} {f : Failure} (h : p.Rejects f) : f.isWorkflow = false := by
  rcases h with ⟨-, rfl⟩ | ⟨-, rfl⟩
  · rfl
  · rfl

/-- A run of commands or of a copy looks at no path of the peer. -/
theorem stat_not_mem_of_enclosed {α : Type} {body : Action α} {among : Event → Bool}
    (he : e.Foreseen) (hbody : ∀ w, ∃ calls, (body e w).2.events = w.events ++ calls ∧
      ∀ call ∈ calls, among call = true) (hamong : ∀ path, among (.stat path) = false)
    {calls : List Event} (h : (Session.withConnection target body e w).2.events = w.events ++ calls)
    (path : String) : .stat path ∉ calls := by
  intro hstat
  have hc := Session.spares_connecting_of_stat he hstat h
  obtain ⟨inner, hinner, hcalls⟩ := hbody (w.after (Session.connecting target e))
  have hnot : .stat path ∉ inner := fun hmem => by
    have := hcalls _ hmem
    rw [hamong] at this
    cases this
  rw [Session.withConnection_events hc hinner] at h
  rw [← List.append_cancel_left h] at hstat
  simp [Session.connecting, hnot] at hstat

/-- The calls of a copy. -/
def isCopying : Event → Bool
  | .scp | .closeScp => true
  | call => call.isCopyCall

theorem copying_calls {α : Type} {body : Action α} {own : Failure → Prop}
    {report : Failure → Failure → Prop} (context : RemoteProblem)
    (hbody : Accounted Event.isCopyCall own report body) (e : Setting) (w : World) :
    ∃ calls, (Scp.copying context body e w).2.events = w.events ++ calls ∧
      ∀ call ∈ calls, isCopying call = true := by
  obtain ⟨calls, hcalls, hencloses⟩ := Scp.copying_encloses context hbody e w
  refine ⟨calls, hcalls, ?_⟩
  unfold Setting.Encloses at hencloses
  split at hencloses
  · obtain ⟨inner, rfl, hinner⟩ := hencloses
    intro call hcall
    rcases List.mem_cons.1 hcall with rfl | hcall
    · rfl
    · rcases List.mem_append.1 hcall with hcall | hcall
      · have := hinner call hcall
        cases call <;> first | rfl | exact this
      · rw [List.mem_singleton.1 hcall]
        rfl
  · rw [hencloses]
    simp [isCopying]

/-- A path of the peer that is not found counts as absent. -/
theorem countsAsAbsent_of_stat (h : t.target? = some target) (he : e.Foreseen)
    {before after : List Event} {path : String} {x : Failure}
    (hevents : (t.execute e w).2.events = w.events ++ (before ++ .stat path :: after))
    (hx : e.fault (w.events ++ before) (.stat path) = some x) (hmissing : x.isA .fileNotFound = true) :
    t.CountsAsAbsent path (t.execute e w).1 after := by
  have hmem : Event.stat path ∈ before ++ .stat path :: after := by simp
  cases t with
  | ssh target' commands =>
    obtain rfl := Option.some.inj h
    rw [execute_ssh] at hevents
    have hcommands : ∀ w, ∃ calls, (Session.commands target' commands e w).2.events
        = w.events ++ calls ∧ ∀ call ∈ calls, call.isChannelCall = true := fun w =>
      have ⟨calls, hcalls, hamong, _⟩ := Session.accounted_commands target' commands e w
      ⟨calls, hcalls, hamong⟩
    exact absurd hmem (stat_not_mem_of_enclosed he hcommands (fun _ => rfl) hevents path)
  | transfer s =>
    obtain ⟨kind, target', remote, localPath⟩ := s
    obtain rfl : target' = target := Option.some.inj h
    cases kind with
    | scpDownload =>
      rw [execute_scpDownload, Scp.download_events, Scp.receiving] at hevents
      exact absurd hmem (stat_not_mem_of_enclosed he
        (copying_calls (.scpReceive remote) (Scp.accounted_get remote) e) (fun _ => rfl) hevents path)
    | scpUpload =>
      rw [execute_scpUpload] at hevents
      rcases Scp.upload_cases target' (Path.ofText localPath) remote e w with
        ⟨-, f, -, hf⟩ | ⟨-, content, hcontent⟩
      · rw [hf] at hevents
        simp at hevents
      · rw [hcontent] at hevents
        exact absurd hmem (stat_not_mem_of_enclosed he
          (copying_calls (.scpCreate remote) (Scp.accounted_put remote content) e) (fun _ => rfl)
          hevents path)
    | sftpDownload =>
      rw [execute_sftpDownload] at hevents ⊢
      obtain ⟨hopening, rfl, rest, rfl, hbody⟩ := Sftp.opening_of_stat he
        (fun w => Sftp.looksOnce_downloading _ _ e w) hevents
      have hresult := Sftp.downloading_of_absent hbody hx hmissing
      obtain ⟨-, -, hends⟩ := Sftp.session_of_spared
        (Sftp.downloading (Path.ofText remote) (Path.ofText localPath)) hopening
      have hclosing : e.Spares (Sftp.downloading (Path.ofText remote) (Path.ofText localPath) e
          (w.after (Sftp.opening target' e))).2.events Sftp.closing :=
        ⟨he.fault_eq_none (fun _ => rfl) _, he.fault_eq_none (fun _ => rfl) _, trivial⟩
      rw [hends hclosing, hresult]
      rfl
    | sftpUpload =>
      rw [execute_sftpUpload] at hevents ⊢
      rcases Sftp.upload_cases target' (Path.ofText localPath) (Path.ofText remote) e w with
        ⟨-, f, -, hf⟩ | ⟨-, hopened⟩
      · rw [hf] at hevents
        simp at hevents
      · rw [hopened] at hevents
        obtain ⟨hopening, rfl, rest, rfl, hbody⟩ := Sftp.opening_of_stat he
          (fun w => Sftp.looksOnce_uploading _ _ e w) hevents
        obtain ⟨more, rfl⟩ := Sftp.uploading_of_absent hbody hx hmissing
        exact ⟨more ++ Sftp.closing, rfl⟩
  | _ => cases h

/-- A run that ends with the rejection of a path does not end as it should. -/
theorem not_settles_of_rejects {f : Failure} {p : Path} (hf : (t.execute e w).1 = .error f)
    (hp : p.Rejects f) : ¬ t.Settles e w := by
  rintro ⟨calls, -, hends, -⟩
  have hnot := isWorkflow_of_rejects hp
  rcases hends with ⟨-, hown⟩ | ⟨_, call, _, _, g, -, -, hg, hkind, -⟩
  · rw [(hown f hf).1] at hnot
    cases hnot
  · rw [hf] at hg
    cases hg
    have hwork : f.isWorkflow = true := isWorkflow_of_kind hkind (by cases call <;> rfl)
    rw [hwork] at hnot
    cases hnot

/-- A setting in which files of the peer cannot be opened. -/
def lostSetting : Setting :=
  { Setting.calm with fault := fun _ call => match call with
      | .openRead _ => some (.of (.reported .ssh (some "lost")))
      | _ => none }

theorem lostSetting_foreseen : lostSetting.Foreseen := by
  intro past call x hx
  cases call <;> cases hx
  rfl

/-- Looking for a file at a path that is too long fails. -/
theorem isFile_of_tooLong {p : Path} (hnull : noNull p.toText = true)
    (h : w.files.at? e.workingDir p = .error .nameTooLong) :
    p.isFile e w = (.error (p.failure .nameTooLong), w) := by
  refine Effect.bind_of_error ?_
  unfold Path.found?
  rw [if_pos hnull, h]

theorem at?_of_long {s : String} (hname : FileTree.nameLimit < s.utf8ByteSize)
    (hpath : (⟨.working, [s]⟩ : Path).toText.utf8ByteSize ≤ FileTree.pathLimit) :
    FileTree.empty.at? [] ⟨.working, [s]⟩ = .error .nameTooLong := by
  have hstep : FileTree.empty.step [] s = .error .nameTooLong := if_pos hname
  rw [FileTree.at?, FileTree.locate, if_neg (Nat.not_lt.2 hpath)]
  change (FileTree.empty.follow [] [s]).map _ = _
  rw [FileTree.follow, hstep]
  rfl

/-- The download of a file ends where looking for a local file fails. -/
theorem download_of_isFile_error {p : Path} {f : Failure}
    (h : ∀ calls, p.isFile .calm ((World.initial .empty [("/r", .file [65])]).after calls)
      = (.error f, (World.initial .empty [("/r", .file [65])]).after calls)) :
    (Session.withConnection .sample (Sftp.withSftp (Sftp.downloading (Path.ofText "/r") p)) .calm
      (.initial .empty [("/r", .file [65])])).1 = .error f := by
  have hspares : Setting.calm.Spares (World.initial .empty [("/r", .file [65])]).events
      (Sftp.opening .sample .calm) := Setting.spares_of_no_fault (fun _ _ => rfl) _ _
  obtain ⟨v, hv, hfile⟩ : ∃ v, Peer.view? [("/r", .file [65])] (Path.ofText "/r") = some v ∧
      v.isFile = true := ⟨_, rfl, rfl⟩
  have hbody : Sftp.downloading (Path.ofText "/r") p .calm
      ((World.initial .empty [("/r", .file [65])]).after (Sftp.opening .sample .calm))
      = _ := Sftp.receiving_of_view? hv
  rw [(Sftp.session_of_spared _ hspares).2.2 (Setting.spares_of_no_fault (fun _ _ => rfl) _ _),
    hbody, Sftp.receive_eq, Effect.bind_of_ok (Sftp.stat_of_spared _ rfl), World.after_after,
    Sftp.receiveSeen, RemoteView.isFile_inOrder, if_pos hfile, Sftp.receiveFile,
    Effect.bind_of_error (h _)]

end Task
end Runbook
