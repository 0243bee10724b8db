import Runbook.Proofs.Groups
import Runbook.Proofs.Messages
import Runbook.Proofs.Names

set_option autoImplicit false

/-! # Runs whose failures guard a literal

A failure guards a literal if its report holds it only where it is about a remote command that holds it.
Every error that an action may fail with is about something that is known before the run: a host, a
path, a command, an exit code, a fault. So a run guards a literal that is not in what is reported of
those, whatever remote commands yield. The files change in a run, and the reports of transfers name
them; but no names come up that have not been there before. -/

namespace Runbook

open Text (Unsaid)

/-- The faults that strike calls do not say a literal. -/
def Setting.FaultsUnsaid (p : String) (e : Setting) : Prop :=
  ∀ past call x, e.fault past call = some x → x.IsUnsaid p

/-- An outcome is a value with a property, or a failure that guards a literal. -/
def GuardedOutcome {α : Type} (p : String) (P : α → Prop) : Except Failure α → Prop
  | .ok a => P a
  | .error f => f.Guards p

/-- In a world in which all names are of a kind, an action yields values with a property, or fails with
    failures that guard a literal. No other names come up. -/
def Guarded {α : Type} (p : String) (N : String → Prop) (e : Setting) (P : α → Prop) (m : Action α) :
    Prop :=
  ∀ w : World, w.OnlyNames N → (m e w).2.OnlyNames N ∧ GuardedOutcome p P (m e w).1

theorem World.Alike.onlyNames {N : String → Prop} {w w' : World} (h : w.Alike w')
    (hw : w'.OnlyNames N) : w.OnlyNames N :=
  ⟨h.files ▸ hw.files, h.peer ▸ hw.peer⟩

variable {p : String} {N : String → Prop} {e : Setting}

/-! ## Operations -/

namespace Guarded

variable {α β : Type} {P : α → Prop} {Q : β → Prop} {m : Action α} {f : α → Action β}

theorem mono {P' : α → Prop} (hm : Guarded p N e P m) (h : ∀ a, P a → P' a) :
    Guarded p N e P' m := by
  intro w hw
  obtain ⟨hw', hr⟩ := hm w hw
  refine ⟨hw', ?_⟩
  cases hout : (m e w).1 with
  | ok a =>
    rw [hout] at hr
    exact h a hr
  | error x =>
    rw [hout] at hr
    exact hr

theorem pure {a : α} (h : P a) : Guarded p N e P (Pure.pure a : Action α) := fun _ hw => ⟨hw, h⟩

theorem fail {x : Failure} (h : x.Guards p) : Guarded p N e P (Effect.fail x : Action α) :=
  fun _ hw => ⟨hw, h⟩

theorem ofExcept {r : Except Failure α} (h : GuardedOutcome p P r) :
    Guarded p N e P (Effect.ofExcept r : Action α) := fun _ hw => ⟨hw, h⟩

theorem bind (hm : Guarded p N e P m) (hf : ∀ a, P a → Guarded p N e Q (f a)) :
    Guarded p N e Q (m >>= f) := by
  intro w hw
  obtain ⟨hw', hr⟩ := hm w hw
  rcases hrun : m e w with ⟨x | a, w'⟩ <;> rw [hrun] at hw' hr
  · rw [Effect.bind_of_error hrun]
    exact ⟨hw', hr⟩
  · rw [Effect.bind_of_ok hrun]
    exact hf a hr w' hw'

theorem setting {f : Setting → Action β} (hf : Guarded p N e Q (f e)) :
    Guarded p N e Q (Effect.setting >>= f) := fun w hw => hf w hw

theorem get {f : World → Action β} (hf : ∀ w, w.OnlyNames N → Guarded p N e Q (f w)) :
    Guarded p N e Q (Effect.get >>= f) := fun w hw => hf w hw w hw

theorem attempt (hm : Guarded p N e P m) : Guarded p N e (GuardedOutcome p P) m.attempt :=
  fun w hw => hm w hw

theorem because (hm : Guarded p N e P m) {applies : Failure → Bool} {c : Cause}
    (hc : c.Quotes p ∨ c.IsUnsaid p) : Guarded p N e P (m.because applies c) := by
  intro w hw
  obtain ⟨hw', hr⟩ := hm w hw
  unfold Effect.because Effect.mapFailure
  rcases hrun : m e w with ⟨x | a, w'⟩ <;> rw [hrun] at hw' hr
  · refine ⟨hw', ?_⟩
    dsimp only
    split
    · exact Failure.Guards.because hr hc
    · exact hr
  · exact ⟨hw', hr⟩

theorem andThenAlways {cleanUp : Action Unit} (hm : Guarded p N e P m)
    (hclean : Guarded p N e (fun _ => True) cleanUp) :
    Guarded p N e P (m.andThenAlways cleanUp) := by
  intro w hw
  obtain ⟨hw', hr⟩ := hm w hw
  unfold Effect.andThenAlways
  rcases hrun : m e w with ⟨x | a, w'⟩ <;> rw [hrun] at hw' hr
  all_goals
    obtain ⟨hw'', hs⟩ := hclean w' hw'
    rcases hend : cleanUp e w' with ⟨y | u, w''⟩ <;> rw [hend] at hw'' hs <;> simp only [hend]
  · exact ⟨hw'', Failure.Guards.during hs hr⟩
  · exact ⟨hw'', hr⟩
  · exact ⟨hw'', hs⟩
  · exact ⟨hw'', hr⟩

theorem ite {q : Prop} [Decidable q] {n : Action α} (hm : q → Guarded p N e P m)
    (hn : ¬ q → Guarded p N e P n) : Guarded p N e P (if q then m else n) := by
  split
  · next hq => exact hm hq
  · next hq => exact hn hq

theorem perform (hfaults : e.FaultsUnsaid p) (call : Event) :
    Guarded p N e (fun _ => True) (Action.perform call) := by
  intro w hw
  rcases hfault : e.fault w.events call with _ | x
  · rw [Action.perform_of_spared hfault]
    exact ⟨⟨hw.files, hw.peer⟩, trivial⟩
  · rw [Action.perform_of_struck hfault]
    exact ⟨⟨hw.files, hw.peer⟩, (hfaults _ _ _ hfault).guards⟩

theorem writeLine (s : String) : Guarded p N e (fun _ => True) (Action.writeLine s) :=
  fun _ hw => ⟨⟨hw.files, hw.peer⟩, trivial⟩

theorem debug (message : String) : Guarded p N e (fun _ => True) (Console.debug message) := by
  intro w hw
  obtain ⟨v, hrun, hv⟩ := debug_cases message e w
  rw [hrun]
  exact ⟨hv.onlyNames hw, trivial⟩

end Guarded

/-! ## Local commands -/

theorem LocalCommand.guarded_execute {c : LocalCommand} (h : c.IsUnsaid p e) :
    Guarded p N e (fun _ => True) c.execute := by
  intro w hw
  obtain ⟨hout, halike⟩ := c.execute_eq e w
  rw [hout]
  refine ⟨halike.onlyNames ⟨hw.files, hw.peer⟩, ?_⟩
  unfold LocalCommand.outcome
  rcases hended : c.ended e w.events with x | ⟨code, stderr⟩
  · have hx : x.Guards p := (h.fault _ x hended).guards
    dsimp only
    split
    · exact hx.because (.inr h.run)
    · exact hx
  · dsimp only
    split
    · trivial
    · exact Failure.guards_of (.inr (h.code _ code stderr hended))

/-! ## Sessions -/

namespace Session

variable {α : Type} {P : α → Prop} {m body : Action α} {context : RemoteProblem} {target : Target}

theorem guarded_attempting (hm : Guarded p N e P m)
    (hc : (Cause.onPeer context).Quotes p ∨ (Cause.onPeer context).IsUnsaid p) :
    Guarded p N e P (attempting context m) := hm.because hc

variable (hfaults : e.FaultsUnsaid p)

include hfaults

theorem guarded_openClient (htarget : target.IsUnsaid p) :
    Guarded p N e (fun _ => True) (openClient target) := by
  refine (Guarded.perform hfaults _).bind fun _ _ => .setting ?_
  refine (Guarded.perform hfaults _).attempt.bind fun r hr => ?_
  cases r with
  | ok u => exact .pure trivial
  | error f =>
    have hf : f.Guards p := hr
    refine .ite (fun _ => (Guarded.perform hfaults _).attempt.bind fun r hclosed => ?_)
      fun _ => .fail hf
    cases r with
    | ok u => exact .fail (hf.because (.inr htarget))
    | error g => exact .fail (Failure.Guards.during hclosed hf)

theorem guarded_withConnection (htarget : target.IsUnsaid p) (hbody : Guarded p N e P body) :
    Guarded p N e P (withConnection target body) :=
  (guarded_openClient hfaults htarget).bind fun _ _ => hbody.andThenAlways (.perform hfaults _)

/-- What a command yields is what the host answers to it. -/
theorem guarded_channel (command : String) :
    Guarded p N e (fun r => ∃ past, r = e.result past command) (channel command) := by
  have hcall := fun call => Guarded.perform (N := N) hfaults call
  refine (hcall _).bind fun _ _ => (hcall _).bind fun _ _ => .get fun w _ => ?_
  refine (hcall _).bind fun _ _ => (hcall _).bind fun _ _ => (hcall _).bind fun _ _ => ?_
  exact (hcall _).bind fun _ _ => .setting (.pure ⟨w.events, rfl⟩)

theorem guarded_remoteCommand {c : RemoteCommand} (hc : c.IsUnsaid p e) :
    Guarded p N e (fun _ => True) c.execute := by
  have hrun : Guarded p N e (fun r => ∃ past, r.2 = (e.result past c.command).code)
      (runCommand c.command) := by
    refine (guarded_attempting (guarded_channel hfaults _) hc.runCommand).bind fun r hr => ?_
    obtain ⟨past, rfl⟩ := hr
    exact .pure ⟨past, rfl⟩
  refine hrun.bind fun r hr => ?_
  obtain ⟨output, code⟩ := r
  obtain ⟨past, rfl⟩ := hr
  exact .ite (fun _ => .pure trivial) fun _ => .fail (Failure.guards_of (hc.remoteCommand past output))

theorem guarded_commands {cs : List RemoteCommand} (hcs : ∀ c ∈ cs, c.IsUnsaid p e) :
    Guarded p N e (fun _ => True) (commands target cs) := by
  induction cs with
  | nil => exact .pure trivial
  | cons c cs ih =>
    obtain ⟨hc, hcs⟩ := List.forall_mem_cons.1 hcs
    have hrest : Guarded p N e (fun _ => True) (commands target cs) := ih hcs
    refine (Guarded.debug _).bind fun _ _ => (guarded_remoteCommand hfaults hc).bind fun output _ => ?_
    exact .ite (fun _ => (Guarded.debug _).bind fun _ _ => hrest) fun _ => hrest

theorem guarded_batch {cs : List RemoteCommand} (htarget : target.IsUnsaid p)
    (hcs : ∀ c ∈ cs, c.IsUnsaid p e) : Guarded p N e (fun _ => True) (batch target cs) :=
  guarded_withConnection hfaults htarget (guarded_commands hfaults hcs)

end Session

/-! ## Local files -/

namespace Path

variable {α : Type} {q : Path} {context : LocalProblem}

theorem guarded_failure (hq : LocalUnsaid p q.toText) (error : FileError) :
    (q.failure error).Guards p := Failure.guards_of (.inr (hq.cause error))

variable (hplain : PlainUnsaid p) (hq : LocalUnsaid p q.toText)

include hplain hq

/-- What a call of the local files yields comes from the tree in the world. -/
theorem guarded_call {P : α → Prop} {f : FileTree → List String → Path → Except FileError α}
    (hcontext : context.path? = some q.toText)
    (hf : ∀ t : FileTree, t.OnlyNames N → ∀ a, f t e.workingDir q = .ok a → P a) :
    Guarded p N e P (q.call context f) := by
  intro w hw
  unfold call
  split
  · split
    · next a ha => exact ⟨hw, hf w.files hw.files a ha⟩
    · next error _ =>
      exact ⟨hw, (guarded_failure hq error).because (.inr (hq.problem hcontext))⟩
  · exact ⟨hw, Failure.guards_of (.inr hplain.nullInPath)⟩

theorem guarded_readBytes : Guarded p N e (fun _ => True) q.readBytes :=
  guarded_call hplain hq rfl fun _ _ _ _ => trivial

theorem guarded_readDirectory : Guarded p N e (FileTree.EntriesOnly N) q.readDirectory :=
  guarded_call hplain hq rfl fun _ ht _ hlist => ht.list hlist

omit hplain hq in
theorem guarded_setFiles {t : FileTree} (ht : t.OnlyNames N) :
    Guarded p N e (fun _ => True) (setFiles t) := fun _ hw => ⟨⟨ht, hw.peer⟩, trivial⟩

theorem guarded_writeFile (hnames : q.OnlyNames N) (content : Bytes) :
    Guarded p N e (fun _ => True) (q.writeFile content) :=
  (guarded_call (P := FileTree.OnlyNames N) hplain hq rfl
    fun _ ht _ hwrite => ht.write hnames hwrite).bind fun _ ht => guarded_setFiles ht

theorem guarded_makeDirectory (hnames : q.OnlyNames N) :
    Guarded p N e (fun _ => True) q.makeDirectory :=
  (guarded_call (P := FileTree.OnlyNames N) hplain hq rfl
    fun _ ht _ hmake => ht.makeDir hnames hmake).bind fun _ ht => guarded_setFiles ht

omit hplain

theorem guarded_checkLength : Guarded p N e (fun _ => True) q.checkLength :=
  .ite (fun _ => .fail (guarded_failure hq _)) fun _ => .pure trivial

theorem guarded_found? : Guarded p N e (fun _ => True) q.found? := by
  intro w hw
  unfold found?
  split
  · split
    · exact ⟨hw, trivial⟩
    · exact ⟨hw, guarded_failure hq _⟩
    · exact ⟨hw, trivial⟩
  · exact ⟨hw, trivial⟩

theorem guarded_isFile : Guarded p N e (fun _ => True) q.isFile :=
  (guarded_found? hq).bind fun _ _ => .pure trivial

theorem guarded_isDirectory : Guarded p N e (fun _ => True) q.isDirectory :=
  (guarded_found? hq).bind fun _ _ => .pure trivial

theorem guarded_refuseLocal (condition : Bool) (hcontext : context.path? = some q.toText) :
    Guarded p N e (fun _ => True) (Sftp.refuseLocal condition context) :=
  .ite (fun _ => .fail (Failure.guards_of (.inr (hq.problem hcontext)))) fun _ => .pure trivial

end Path

/-! ## File sessions -/

/-- What is reported of the paths that a transfer may come across does not say a literal. Those are the
    two paths of the transfer, what names of a kind lead to from there, and the directory that the local
    path is in. -/
structure PathsUnsaid (p : String) (N : String → Prop) (localPath remote : Path) : Prop where
  plain : PlainUnsaid p
  localNames : localPath.OnlyNames N
  remoteNames : remote.OnlyNames N
  here : ∀ q, Path.LeadsOn N localPath q → LocalUnsaid p q.toText
  parent : LocalUnsaid p localPath.parent.toText
  there : ∀ q, Path.LeadsOn N remote q → RemoteUnsaid p q.toText

/-- The names in a listing are of a kind. -/
def NamesOnly (N : String → Prop) (names : List String) : Prop :=
  ∀ name ∈ names, Text.OnlyNames N name

namespace Sftp

open Session Path

theorem guarded_changePeer {f : Peer → Peer} (hf : ∀ peer : Peer, peer.OnlyNames N →
    Peer.OnlyNames N (f peer)) : Guarded p N e (fun _ => True) (changePeer f) :=
  fun _ hw => ⟨⟨hw.files, hf _ hw.peer⟩, trivial⟩

variable (hfaults : e.FaultsUnsaid p)

include hfaults

theorem guarded_withSftp {α : Type} {P : α → Prop} {body : Action α} (hplain : PlainUnsaid p)
    (hbody : Guarded p N e P body) : Guarded p N e P (withSftp body) := by
  have hopen : (Cause.onPeer .openSftp).IsUnsaid p := hplain.openSftp
  refine (guarded_attempting (.perform hfaults _) (.inr hopen)).bind fun _ _ => ?_
  exact hbody.andThenAlways (.perform hfaults _)

/-- What is seen when the status of a path is asked for is what is there, if anything is. -/
theorem guarded_stat {q : Path} (hq : RemoteUnsaid p q.toText) (v : Option RemoteView) :
    Guarded p N e (fun r => ∀ u, r = some u → v = some u) (stat q v) := by
  have hcall : Guarded p N e (fun r => r = v) (statCall q v) :=
    (Guarded.perform hfaults _).bind fun _ _ => .pure rfl
  refine hcall.attempt.bind fun r hr => ?_
  cases r with
  | ok seen =>
    obtain rfl : seen = v := hr
    exact .pure fun _ hu => hu
  | error f =>
    refine .ite (fun _ => .pure fun _ hu => nomatch hu) fun _ => ?_
    exact guarded_attempting (.fail hr) (.inr (hq.problem rfl))

variable {localPath remote : Path} (h : PathsUnsaid p N localPath remote)

include h

theorem guarded_downloadFile {q r : Path} (hq : LeadsOn N remote q) (hr : LeadsOn N localPath r)
    (content : Option Bytes) : Guarded p N e (fun _ => True) (downloadFile q r content) := by
  have hread : Guarded p N e (fun _ => True) (readContent q content) := by
    refine guarded_attempting ?_ (.inr ((h.there q hq).problem rfl))
    refine (Guarded.perform hfaults _).bind fun _ _ => ?_
    cases content with
    | some bytes => exact .pure trivial
    | none => exact .fail h.plain.noSuchFile.guards
  exact hread.bind fun _ _ => guarded_writeFile h.plain (h.here r hr) (hr.onlyNames h.localNames) _

theorem guarded_askListing {q : Path} (hq : LeadsOn N remote q) :
    Guarded p N e (fun _ => True) (askListing q) :=
  guarded_attempting (.perform hfaults _) (.inr ((h.there q hq).problem rfl))

omit hfaults h in
mutual

theorem guarded_downloadView (hfaults : e.FaultsUnsaid p) (h : PathsUnsaid p N localPath remote)
    {q r : Path} (hq : LeadsOn N remote q) (hr : LeadsOn N localPath r) :
    ∀ v : RemoteView, v.EachListing (NamesOnly N) →
      Guarded p N e (fun _ => True) (downloadView q r v)
  | .mk mode content listing, hv => by
    rw [downloadView]
    refine .ite (fun hdir => ?_) fun _ => guarded_downloadFile hfaults h hq hr content
    have hmake := guarded_makeDirectory (e := e) h.plain (h.here r hr) (hr.onlyNames h.localNames)
    refine hmake.bind fun _ _ => (guarded_askListing hfaults h hq).bind fun _ _ => ?_
    rw [RemoteView.EachListing] at hv
    exact guarded_downloadListing hfaults h hq hr listing (hv hdir)

theorem guarded_downloadListing (hfaults : e.FaultsUnsaid p) (h : PathsUnsaid p N localPath remote)
    {q r : Path} (hq : LeadsOn N remote q) (hr : LeadsOn N localPath r) :
    ∀ listing : List (String × RemoteView), RemoteView.Listed (NamesOnly N) listing →
      Guarded p N e (fun _ => True) (downloadListing q r listing)
  | [], _ => .pure trivial
  | (name, v) :: rest, ⟨hnames, hbelow⟩ => by
    rw [downloadListing]
    rw [RemoteView.EachBelow] at hbelow
    obtain ⟨hname, hrest⟩ := List.forall_mem_cons.1 hnames
    have hview := guarded_downloadView hfaults h (hq.below hname) (hr.below hname) v hbelow.1
    refine hview.bind fun _ _ => ?_
    exact guarded_downloadListing hfaults h hq hr rest ⟨hrest, hbelow.2⟩

end

theorem guarded_writeContent {q : Path} (hq : LeadsOn N remote q) (content : Bytes) :
    Guarded p N e (fun _ => True) (writeContent q content) := by
  refine guarded_attempting ?_ (.inr ((h.there q hq).problem rfl))
  refine (Guarded.perform hfaults _).bind fun _ _ => guarded_changePeer fun peer hpeer => ?_
  exact hpeer.put (hq.onlyNames h.remoteNames).toText

theorem guarded_makeDirectory {q : Path} (hq : LeadsOn N remote q) :
    Guarded p N e (fun _ => True) (Sftp.makeDirectory q) := by
  refine guarded_attempting ?_ (.inr ((h.there q hq).problem rfl))
  refine (Guarded.perform hfaults _).bind fun _ _ => guarded_changePeer fun peer hpeer => ?_
  exact hpeer.put (hq.onlyNames h.remoteNames).toText

omit hfaults h in
mutual

theorem guarded_uploadTree (hfaults : e.FaultsUnsaid p) (h : PathsUnsaid p N localPath remote)
    {q r : Path} (hq : LeadsOn N remote q) (hr : LeadsOn N localPath r) :
    ∀ t : FileTree, t.OnlyNames N → Guarded p N e (fun _ => True) (uploadTree r q t)
  | .file content, _ => by
    rw [uploadTree]
    exact (guarded_checkLength (h.here r hr)).bind fun _ _ => guarded_writeContent hfaults h hq content
  | .dir entries, ht => by
    rw [uploadTree]
    refine (guarded_checkLength (h.here r hr)).bind fun _ _ => ?_
    refine (Sftp.guarded_makeDirectory hfaults h hq).bind fun _ _ => ?_
    exact guarded_uploadEntries hfaults h hq hr entries ht.entries

theorem guarded_uploadEntries (hfaults : e.FaultsUnsaid p) (h : PathsUnsaid p N localPath remote)
    {q r : Path} (hq : LeadsOn N remote q) (hr : LeadsOn N localPath r) :
    ∀ entries, FileTree.EntriesOnly N entries →
      Guarded p N e (fun _ => True) (uploadEntries r q entries)
  | [], _ => .pure trivial
  | (name, t) :: rest, ⟨hname, ht, hrest⟩ => by
    rw [uploadEntries]
    have htree := guarded_uploadTree hfaults h (hq.below hname) (hr.below hname) t ht
    refine htree.bind fun _ _ => ?_
    exact guarded_uploadEntries hfaults h hq hr rest hrest

end

theorem guarded_receive {seen : Option RemoteView}
    (hseen : ∀ v, seen = some v → v.EachListing (NamesOnly N)) :
    Guarded p N e (fun _ => True) (receive remote localPath seen) := by
  have hremote : LeadsOn N remote remote := leadsOn_refl remote
  have hself : LeadsOn N localPath localPath := leadsOn_refl localPath
  have hhere := h.here localPath hself
  refine (guarded_stat hfaults (h.there remote hremote) seen).bind fun r hr => ?_
  cases r with
  | none => exact .fail (Failure.guards_of (.inr ((h.there remote hremote).problem rfl)))
  | some v =>
    refine .ite (fun _ => ?_) fun _ => .ite (fun hdir => ?_) fun _ =>
      .fail (Failure.guards_of (.inr ((h.there remote hremote).problem rfl)))
    · refine (guarded_isFile hhere).bind fun _ _ => (guarded_refuseLocal hhere _ rfl).bind fun _ _ => ?_
      refine (guarded_isDirectory hhere).bind fun b _ => guarded_downloadFile hfaults h hremote ?_ _
      -- a file goes to the local path, or under its own name into a directory there
      split
      · exact hself.below (onlyNames_name h.remoteNames)
      · exact hself
    · refine (guarded_isDirectory hhere).bind fun _ _ => ?_
      refine (guarded_refuseLocal hhere _ rfl).bind fun _ _ => ?_
      refine (guarded_isDirectory h.parent).bind fun _ _ => ?_
      refine (guarded_refuseLocal h.parent _ rfl).bind fun _ _ => ?_
      refine (Path.guarded_makeDirectory h.plain hhere h.localNames).bind fun _ _ => ?_
      refine (guarded_askListing hfaults h hremote).bind fun _ _ => ?_
      exact guarded_downloadListing hfaults h hremote hself v.listing
        (RemoteView.listed_of_isDir hdir (hseen v (hr v rfl)))

theorem guarded_sendDirectory : Guarded p N e (fun _ => True) (sendDirectory localPath remote) := by
  have hremote : LeadsOn N remote remote := leadsOn_refl remote
  have hself : LeadsOn N localPath localPath := leadsOn_refl localPath
  refine .get fun w _ => (guarded_stat hfaults (h.there remote hremote) _).bind fun r _ => ?_
  cases r with
  | some v => exact .fail (Failure.guards_of (.inr ((h.there remote hremote).problem rfl)))
  | none =>
    refine (Sftp.guarded_makeDirectory hfaults h hremote).bind fun _ _ => ?_
    refine (guarded_readDirectory h.plain (h.here localPath hself)).bind fun entries hentries => ?_
    exact guarded_uploadEntries hfaults h hremote hself entries hentries

theorem guarded_download {target : Target} (htarget : target.IsUnsaid p) :
    Guarded p N e (fun _ => True) (download target remote localPath) := by
  have hshown : Guarded p N e (fun seen => ∀ v, seen = some v → v.EachListing (NamesOnly N))
      (shown remote) := by
    refine .setting (.get fun w hw => .pure fun v hv => ?_)
    obtain ⟨u, hu, rfl⟩ := Option.map_eq_some_iff.1 hv
    exact hw.peer.shown e.listing hu
  refine guarded_withConnection hfaults htarget (guarded_withSftp hfaults h.plain ?_)
  exact hshown.bind fun _ hseen => guarded_receive hfaults h hseen

theorem guarded_upload {target : Target} (htarget : target.IsUnsaid p) :
    Guarded p N e (fun _ => True) (upload target localPath remote) := by
  have hremote : LeadsOn N remote remote := leadsOn_refl remote
  have hhere := h.here localPath (leadsOn_refl localPath)
  have hsend : Guarded p N e (fun _ => True) (withConnection target (withSftp do
      if ← localPath.isFile then uploadFile localPath remote
      else sendDirectory localPath remote)) := by
    refine guarded_withConnection hfaults htarget (guarded_withSftp hfaults h.plain ?_)
    refine (guarded_isFile hhere).bind fun _ _ => .ite (fun _ => ?_) fun _ =>
      guarded_sendDirectory hfaults h
    exact (guarded_readBytes h.plain hhere).bind fun _ _ => guarded_writeContent hfaults h hremote _
  -- a local path that is no file is refused unless it is a directory, before a connection is made
  refine (guarded_isFile hhere).bind fun _ _ => .ite (fun _ => ?_) fun _ => ?_
  · refine (guarded_isDirectory hhere).bind fun _ _ => ?_
    exact (guarded_refuseLocal hhere _ rfl).bind fun _ _ => hsend
  · exact hsend

end Sftp

/-! ## Transfers -/

/-- What is reported of the host and the paths of a transfer does not say a literal. The paths are those
    that the transfer may come across if all names are of a kind. -/
structure Transfer.IsUnsaid (p : String) (N : String → Prop) (t : Transfer) : Prop where
  target : t.target.IsUnsaid p
  localNames : Text.OnlyNames N t.localPath
  remoteNames : Text.OnlyNames N t.remotePath
  copy : CopyUnsaid p t.remotePath
  here : ∀ q, Path.LeadsOn N (Path.ofText t.localPath) q → LocalUnsaid p q.toText
  parent : LocalUnsaid p (Path.ofText t.localPath).parent.toText
  there : ∀ q, Path.LeadsOn N (Path.ofText t.remotePath) q → RemoteUnsaid p q.toText

theorem Transfer.IsUnsaid.paths {t : Transfer} (h : t.IsUnsaid p N) (hplain : PlainUnsaid p) :
    PathsUnsaid p N (Path.ofText t.localPath) (Path.ofText t.remotePath) where
  plain := hplain
  localNames := Path.onlyNames_ofText h.localNames
  remoteNames := Path.onlyNames_ofText h.remoteNames
  here := h.here
  parent := h.parent
  there := h.there

namespace Scp

variable (hfaults : e.FaultsUnsaid p)

include hfaults

theorem guarded_copying {α : Type} {P : α → Prop} {context : RemoteProblem} {body : Action α}
    (hbody : Guarded p N e P body) (hc : (Cause.onPeer context).IsUnsaid p) :
    Guarded p N e P (copying context body) :=
  Guarded.because ((Guarded.perform hfaults _).bind fun _ _ =>
    hbody.andThenAlways (.perform hfaults _)) (.inr hc)

theorem guarded_get {path : String} (hpath : CopyUnsaid p path) :
    Guarded p N e (fun _ => True) (get path) := by
  refine (Guarded.perform hfaults _).bind fun _ _ => .get fun w _ => ?_
  cases w.peer.content? path with
  | some content => exact .pure trivial
  | none => exact .fail hpath.noSuchFile.guards

theorem guarded_put {path : String} (hnames : Text.OnlyNames N path) (content : Bytes) :
    Guarded p N e (fun _ => True) (put path content) :=
  (Guarded.perform hfaults _).bind fun _ _ => Sftp.guarded_changePeer fun _ hpeer => hpeer.put hnames

end Scp

open Session Path in
theorem Transfer.guarded_execute (hfaults : e.FaultsUnsaid p) (hplain : PlainUnsaid p) {t : Transfer}
    (h : t.IsUnsaid p N) : Guarded p N e (fun _ => True) t.execute := by
  have hpaths := h.paths hplain
  have hhere := h.here (ofText t.localPath) (leadsOn_refl _)
  unfold Transfer.execute
  cases t.kind with
  | scpDownload =>
    have hread := Scp.guarded_copying (N := N) hfaults (Scp.guarded_get hfaults h.copy) h.copy.scpReceive
    refine (guarded_withConnection hfaults h.target hread).bind fun content _ => ?_
    exact guarded_writeFile hplain hhere hpaths.localNames content
  | scpUpload =>
    refine (guarded_readBytes hplain hhere).bind fun content _ => ?_
    refine guarded_withConnection hfaults h.target ?_
    exact Scp.guarded_copying hfaults (Scp.guarded_put hfaults h.remoteNames content) h.copy.scpCreate
  | sftpDownload => exact Sftp.guarded_download hfaults hpaths h.target
  | sftpUpload => exact Sftp.guarded_upload hfaults hpaths h.target

/-! ## Tasks -/

namespace Task

mutual

/-- What is reported of the parts of a task when they fail does not say a literal, but for what is
    reported of commands that hold it. All names of files are of a kind. -/
def IsUnsaid (p : String) (N : String → Prop) (e : Setting) : Task → Prop
  | job name tasks => UnsaidFrom p N e name 0 tasks
  | onPlatform platform tasks => UnsaidFrom p N e ("on-" ++ platform.name) 0 tasks
  | parallel tasks _ => GroupUnsaid p tasks.length ∧ UnsaidEach p N e tasks
  | print _ => True
  | run command => command.IsUnsaid p e
  | ssh target commands => target.IsUnsaid p ∧ ∀ c ∈ commands, c.IsUnsaid p e
  | transfer t => t.IsUnsaid p N
  | probe _ failure => ∀ f ∈ failure, f.IsUnsaid p

/-- The same for tasks that are run one after the other, from an index on. -/
def UnsaidFrom (p : String) (N : String → Prop) (e : Setting) (owner : String) (index : Nat) :
    List Task → Prop
  | [] => True
  | t :: ts =>
    Unsaid p "JobError" ("Job '" ++ owner ++ "' failed at task " ++ toString (index : Int)) ∧
      IsUnsaid p N e t ∧ UnsaidFrom p N e owner (index + 1) ts

/-- The same for tasks that are run whatever becomes of the others. -/
def UnsaidEach (p : String) (N : String → Prop) (e : Setting) : List Task → Prop
  | [] => True
  | t :: ts => IsUnsaid p N e t ∧ UnsaidEach p N e ts

end

theorem guardedOutcome_describe? (hplain : PlainUnsaid p) (t : Task) :
    GuardedOutcome p (fun _ => True) t.describe? := by
  unfold describe?
  split
  · trivial
  · exact hplain.failure.guards

theorem guarded_deliver {outcomes : List (Except Failure Unit)} {order : List Nat}
    (horder : order.Perm (List.range outcomes.length)) (hgroup : GroupUnsaid p outcomes.length)
    (hout : ∀ r ∈ outcomes, GuardedOutcome p (fun _ => True) r) :
    Guarded p N e (fun _ => True) (deliver outcomes order) := by
  intro w hw
  obtain ⟨v, hv, ⟨-, hrun⟩ | ⟨before, i, after, f, rfl, -, hi, hrun⟩⟩ :=
    deliver_cases (e := e) order w fun i hi => List.mem_range.1 (horder.mem_iff.1 hi)
  · rw [hrun]
    exact ⟨hv.onlyNames hw, trivial⟩
  · rw [hrun]
    refine ⟨hv.onlyNames hw, Failure.Guards.because (hout _ (List.mem_of_getElem? hi)) (.inr ?_)⟩
    -- what is pending are tasks of the group that have not been delivered, in ascending order
    obtain ⟨pending, hpending, hsorted, hperm⟩ := exists_pending horder
    have hbelow : ∀ n ∈ pending, n < outcomes.length := fun n hn =>
      List.mem_range.1 (hperm.mem_iff.1 (by simp [hn]))
    rw [hpending]
    exact hgroup.parallelTask (List.mem_range.1 (horder.mem_iff.1 (by simp))) hsorted hbelow

variable (hfaults : e.FaultsUnsaid p) (hplain : PlainUnsaid p)

include hfaults

theorem guarded_runGroup (threads : Int) {tasks : List Task} (hgroup : GroupUnsaid p tasks.length)
    (heach : Guarded p N e (fun outcomes => outcomes.length = tasks.length ∧
      ∀ r ∈ outcomes, GuardedOutcome p (fun _ => True) r) (executeEach tasks)) :
    Guarded p N e (fun _ => True) (runGroup threads (executeEach tasks)) := by
  refine (Guarded.perform hfaults _).bind fun _ _ => Guarded.andThenAlways ?_ (.perform hfaults _)
  refine heach.bind fun outcomes ⟨hlength, hout⟩ => .setting (.get fun past _ => ?_)
  rw [← hlength] at hgroup
  exact guarded_deliver ((e.delivery past.events).order_perm outcomes.length) hgroup hout

omit hfaults

mutual

/-- A run of a task whose parts say nothing of a literal guards it. -/
theorem guarded_execute (hfaults : e.FaultsUnsaid p) (hplain : PlainUnsaid p) :
    ∀ t : Task, t.IsUnsaid p N e → Guarded p N e (fun _ => True) t.execute
  | job name tasks, h => by
    rw [execute]
    exact guarded_executeFrom hfaults hplain name 0 tasks h
  | onPlatform platform tasks, h => by
    rw [execute]
    refine .setting (.ite (fun _ => ?_) fun _ => .debug _)
    exact guarded_executeFrom hfaults hplain _ 0 tasks h
  | parallel tasks threads, ⟨hgroup, heach⟩ => by
    rw [execute]
    exact guarded_runGroup hfaults threads hgroup (guarded_executeEach hfaults hplain tasks heach)
  | print message, _ => by
    rw [execute]
    exact .writeLine message
  | run command, h => by
    rw [execute]
    exact LocalCommand.guarded_execute h
  | ssh target commands, ⟨htarget, hcommands⟩ => by
    rw [execute]
    exact Session.guarded_batch hfaults htarget hcommands
  | transfer t, h => by
    rw [execute]
    exact Transfer.guarded_execute hfaults hplain h
  | probe name none, _ => by
    rw [execute]
    exact (Guarded.perform hfaults _).bind fun _ _ => .pure trivial
  | probe name (some f), h => by
    rw [execute]
    exact (Guarded.perform hfaults _).bind fun _ _ => .fail (h f rfl).guards

theorem guarded_executeFrom (hfaults : e.FaultsUnsaid p) (hplain : PlainUnsaid p) (owner : String)
    (index : Nat) : ∀ tasks, UnsaidFrom p N e owner index tasks →
      Guarded p N e (fun _ => True) (executeFrom owner index tasks)
  | [], _ => .pure trivial
  | t :: ts, ⟨hjob, ht, hts⟩ => by
    rw [executeFrom]
    have hcause : (Cause.job owner index (some t.describe)).IsUnsaid p := hjob
    refine (Guarded.ofExcept (guardedOutcome_describe? hplain t)).bind fun _ _ => ?_
    refine (Guarded.debug _).bind fun _ _ => ?_
    refine ((guarded_execute hfaults hplain t ht).because (.inr hcause)).bind fun _ _ => ?_
    exact guarded_executeFrom hfaults hplain owner (index + 1) ts hts

theorem guarded_executeEach (hfaults : e.FaultsUnsaid p) (hplain : PlainUnsaid p) :
    ∀ tasks, UnsaidEach p N e tasks →
      Guarded p N e (fun outcomes => outcomes.length = tasks.length ∧
        ∀ r ∈ outcomes, GuardedOutcome p (fun _ => True) r) (executeEach tasks)
  | [], _ => .pure ⟨rfl, by simp⟩
  | t :: ts, ⟨ht, hts⟩ => by
    rw [executeEach]
    refine (guarded_execute hfaults hplain t ht).attempt.bind fun outcome houtcome => ?_
    refine (guarded_executeEach hfaults hplain ts hts).bind fun outcomes ⟨hlength, hout⟩ => ?_
    exact .pure ⟨congrArg (· + 1) hlength, List.forall_mem_cons.2 ⟨houtcome, hout⟩⟩

end

end Task
end Runbook
