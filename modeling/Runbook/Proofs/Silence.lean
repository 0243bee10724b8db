import Runbook.Proofs.Groups
import Runbook.Proofs.LocalCalls
import Runbook.Proofs.Redactions

set_option autoImplicit false

/-! # Runs that do not show a password

A password is on neither output as long as no line that is written holds it. Lines that show a command
or what it yields are redacted, so the password is not in what has been redacted; it is in such a line
only if it begins in what the console puts in front. A run of tasks writes lines of the trace and the
lines that its tasks print, and nothing else: transfers write nothing. So if the texts of the console,
with the names in them, do not hold the password, a run leaves outputs behind that do not show it,
whatever is in the commands for its host and in what they yield. -/

namespace Runbook

namespace Text

/-- Whether a literal does not occur in a text. -/
def Lacks (p s : String) : Prop := ¬ p.toList <:+: s.toList

instance (p s : String) : Decidable (Lacks p s) := inferInstanceAs (Decidable (¬ _))

/-- Whether no occurrence of a literal begins in a text when another one follows it. -/
def Misses (p lead body : String) : Prop :=
  ∀ tail, tail <:+ lead.toList → tail ≠ [] → ¬ p.toList <+: tail ++ body.toList

instance (p lead body : String) : Decidable (Misses p lead body) :=
  decidable_of_iff (∀ tail ∈ lead.toList.tails, tail ≠ [] → ¬ p.toList <+: tail ++ body.toList)
    (by simp only [List.mem_tails]; rfl)

/-- What a text begins with, and what follows, holds a literal only where that is seen. -/
theorem Misses.lacks {p lead body : String} (h : Misses p lead body) (hbody : Lacks p body) :
    Lacks p (lead ++ body) := by
  unfold Misses at h
  unfold Lacks at hbody ⊢
  rw [String.toList_append]
  generalize lead.toList = cs at h
  induction cs with
  | nil => exact hbody
  | cons c cs ih =>
    intro hin
    rcases List.infix_cons_iff.1 hin with hpre | hin
    · exact h (c :: cs) List.suffix_rfl (by simp) hpre
    · exact ih (fun tail htail => h tail (htail.trans (List.suffix_cons c cs))) hin

theorem Lacks.left {p s t : String} (h : Lacks p (s ++ t)) : Lacks p s :=
  fun hin => h (by rw [String.toList_append]; exact hin.trans (List.prefix_append _ _).isInfix)

theorem Lacks.right {p s t : String} (h : Lacks p (s ++ t)) : Lacks p t :=
  fun hin => h (by rw [String.toList_append]; exact hin.trans (List.suffix_append _ _).isInfix)

/-- Whether what is written next begins a line. -/
def AtLineStart (s : String) : Prop := s = "" ∨ ∃ front, s = front ++ "\n"

/-- The end of a line does not make a literal without line feeds occur. -/
theorem Lacks.append_feed {p s : String} (hfeed : '\n' ∉ p.toList) (h : Lacks p s) :
    Lacks p (s ++ "\n") := by
  intro hin
  rw [String.toList_append] at hin
  rcases isInfix_of_append_cons hfeed hin with hin | hin
  · exact h hin
  · exact h (hin.trans List.nil_infix)

/-- A line that is written at the start of one makes a literal without line feeds occur only if it
    holds it. -/
theorem lacks_append_line {p s line : String} (hfeed : '\n' ∉ p.toList) (hs : Lacks p s)
    (hstart : AtLineStart s) (hline : Lacks p line) : Lacks p (s ++ (line ++ "\n")) := by
  have hlast : Lacks p (line ++ "\n") := hline.append_feed hfeed
  intro h
  rcases hstart with rfl | ⟨front, rfl⟩
  · rw [String.empty_append] at h
    exact hlast h
  · have hfront : Lacks p front := fun hin => hs (hin.trans (by
      rw [String.toList_append]
      exact (List.prefix_append _ _).isInfix))
    simp only [String.toList_append, List.append_assoc] at h
    rcases isInfix_of_append_cons hfeed h with h | h
    · exact hfront h
    · exact hlast (by rw [String.toList_append]; exact h)

end Text

open Text (Lacks Misses AtLineStart)

/-- Neither output holds a literal, and both are at the start of a line. -/
structure World.Conceals (w : World) (p : String) : Prop where
  out : Lacks p w.out
  err : Lacks p w.err
  outStart : AtLineStart w.out
  errStart : AtLineStart w.err

/-- A password cannot be seen in a text that is redacted for a host and written after another one: it is
    that of the host, which does not begin in front of the text, or it is in neither of the two. -/
def Target.Veils (target : Target) (p lead text : String) : Prop :=
  target.password = p ∧ Misses p lead text ∨ Lacks p (lead ++ text)

/-- A password that can be taken out of a text and told from the marker, and that is of one line. -/
structure Redaction.Hideable (p : String) : Prop where
  nonempty : p ≠ ""
  star : '*' ∉ p.toList
  marker : ¬ p.toList <:+: Redaction.standardMarker.toList
  feed : '\n' ∉ p.toList

variable {p : String} {e : Setting}

theorem Redaction.Hideable.lacks_scrub (hp : Hideable p) (s : String) :
    Lacks p ((password p).scrub s) :=
  not_isInfix_scrub hp.nonempty hp.star hp.marker s

theorem Target.Veils.lacks {target : Target} {lead text : String} (hp : Redaction.Hideable p)
    (h : target.Veils p lead text) : Lacks p (lead ++ target.redaction.scrub text) := by
  rcases h with ⟨rfl, hmisses⟩ | hlacks
  · have hscrubbed : Misses target.password lead (target.redaction.scrub text) := by
      intro tail htail hne hpre
      refine hmisses tail htail hne ?_
      rw [Target.redaction, Redaction.scrub_password hp.nonempty, Text.replaceAll,
        String.toList_ofList] at hpre
      exact Text.isPrefix_append_replaceFrom ⟨_, rfl⟩ hp.star hpre
    exact hscrubbed.lacks (hp.lacks_scrub text)
  · intro hin
    rw [String.toList_append] at hin
    refine hlacks ?_
    rw [String.toList_append]
    exact Redaction.isInfix_of_append_scrub hp.star hp.marker hin

/-- An action shows a password on neither output if it has not been there before. -/
def Silent {α : Type} (p : String) (e : Setting) (m : Action α) : Prop :=
  ∀ w : World, w.Conceals p → (m e w).2.Conceals p

/-! ## Operations -/

namespace Silent

variable {α β : Type} {m : Action α} {f : α → Action β}

/-- An action that leaves the outputs as they are. -/
theorem of_unwritten (h : ∀ w, (m e w).2.out = w.out ∧ (m e w).2.err = w.err) : Silent p e m := by
  intro w hw
  obtain ⟨hout, herr⟩ := h w
  exact ⟨hout ▸ hw.out, herr ▸ hw.err, hout ▸ hw.outStart, herr ▸ hw.errStart⟩

theorem pure (a : α) : Silent p e (Pure.pure a : Action α) := fun _ hw => hw

theorem fail (x : Failure) : Silent p e (Effect.fail x : Action α) := fun _ hw => hw

theorem ofExcept (r : Except Failure α) : Silent p e (Effect.ofExcept r : Action α) := fun _ hw => hw

/-- What goes on needs to be silent with values that arise only. -/
theorem bind_of (hm : Silent p e m) (hf : ∀ a w w', m e w = (.ok a, w') → Silent p e (f a)) :
    Silent p e (m >>= f) := by
  intro w hw
  have hm := hm w hw
  rcases hr : m e w with ⟨x | a, w'⟩
  · rw [Effect.bind_of_error hr]
    rwa [hr] at hm
  · rw [Effect.bind_of_ok hr]
    rw [hr] at hm
    exact hf a w w' hr w' hm

theorem bind (hm : Silent p e m) (hf : ∀ a, Silent p e (f a)) : Silent p e (m >>= f) :=
  hm.bind_of fun a _ _ _ => hf a

theorem setting {f : Setting → Action β} (hf : Silent p e (f e)) :
    Silent p e (Effect.setting >>= f) := fun w hw => hf w hw

theorem get {f : World → Action β} (hf : ∀ w, Silent p e (f w)) : Silent p e (Effect.get >>= f) :=
  fun w hw => hf w w hw

theorem attempt (hm : Silent p e m) : Silent p e m.attempt := fun w hw => hm w hw

theorem because (hm : Silent p e m) (applies : Failure → Bool) (c : Cause) :
    Silent p e (m.because applies c) := by
  intro w hw
  rw [Effect.because_snd]
  exact hm w hw

theorem andThenAlways {cleanUp : Action Unit} (hm : Silent p e m) (hclean : Silent p e cleanUp) :
    Silent p e (m.andThenAlways cleanUp) := by
  intro w hw
  rw [Effect.andThenAlways_snd]
  exact hclean _ (hm w hw)

theorem ite {q : Prop} [Decidable q] {n : Action α} (hm : Silent p e m) (hn : Silent p e n) :
    Silent p e (if q then m else n) := by
  split
  · exact hm
  · exact hn

theorem perform (call : Event) : Silent p e (Action.perform call) :=
  of_unwritten fun w => by rw [Action.perform_snd]; exact ⟨rfl, rfl⟩

theorem writeLine (hfeed : '\n' ∉ p.toList) {s : String} (h : Lacks p s) :
    Silent p e (Action.writeLine s) := by
  intro w hw
  exact ⟨Text.lacks_append_line hfeed hw.out hw.outStart h, hw.err,
    .inr ⟨w.out ++ s, String.append_assoc.symm⟩, hw.errStart⟩

theorem writeErrorLine (hfeed : '\n' ∉ p.toList) {s : String} (h : Lacks p s) :
    Silent p e (Action.writeErrorLine s) := by
  intro w hw
  exact ⟨hw.out, Text.lacks_append_line hfeed hw.err hw.errStart h, hw.outStart,
    .inr ⟨w.err ++ s, String.append_assoc.symm⟩⟩

theorem debug (hfeed : '\n' ∉ p.toList) {message : String}
    (h : e.debug = true → Lacks p ("[DEBUG] " ++ message)) : Silent p e (Console.debug message) := by
  refine setting ?_
  by_cases hdebug : e.debug = true
  · simp only [hdebug, if_true]
    exact writeErrorLine hfeed (h hdebug)
  · simp only [hdebug]
    exact pure ()

end Silent

/-- The values that an action yields have a property. -/
def Yields {α : Type} (e : Setting) (P : α → Prop) (m : Action α) : Prop :=
  ∀ w a, (m e w).1 = .ok a → P a

namespace Yields

variable {α β : Type} {P : β → Prop} {m : Action α} {f : α → Action β}

theorem bind (hf : ∀ a, Yields e P (f a)) : Yields e P (m >>= f) := by
  intro w b h
  obtain ⟨a, w', -, hb⟩ := Effect.exists_of_bind_ok h
  exact hf a w' b hb

theorem because {m : Action β} (hm : Yields e P m) (applies : Failure → Bool) (c : Cause) :
    Yields e P (m.because applies c) := by
  intro w b h
  refine hm w b ?_
  unfold Effect.because Effect.mapFailure at h
  rcases hr : m e w with ⟨x | b', w'⟩ <;> rw [hr] at h
  · cases h
  · exact h

end Yields

open Silent

/-! ## Local commands -/

theorem silent_localCommand (hfeed : '\n' ∉ p.toList) (c : LocalCommand)
    (h : e.debug = true → Lacks p ("[DEBUG] " ++ ("spawn " ++ Text.quotedWords c.argv ++ " (cwd="
      ++ c.shownDirectory ++ ")"))) : Silent p e c.execute := by
  have hspawn : Silent p e c.spawn := by
    refine .get fun w => (Silent.perform _).bind fun _ => .setting ?_
    dsimp only
    split
    · exact .ofExcept _
    · exact .fail _
  refine (Silent.debug hfeed h).bind fun _ => (hspawn.because _ _).bind fun _ => ?_
  exact .ite (.pure _) (.setting (.fail _))

/-! ## Sessions -/

namespace Session

variable {α : Type} {target : Target}

theorem silent_attempting {context : RemoteProblem} {m : Action α} (h : Silent p e m) :
    Silent p e (attempting context m) := h.because _ _

theorem silent_openClient (target : Target) : Silent p e (openClient target) := by
  refine (Silent.perform _).bind fun _ => .setting ?_
  refine (Silent.perform _).attempt.bind fun r => ?_
  split
  · exact .pure _
  · refine .ite ((Silent.perform _).attempt.bind fun c => ?_) (.fail _)
    split
    · exact .fail _
    · exact .fail _

theorem silent_withConnection {body : Action α} (h : Silent p e body) :
    Silent p e (withConnection target body) :=
  (silent_openClient target).bind fun _ => h.andThenAlways (.perform _)

theorem silent_channel (command : String) : Silent p e (channel command) := by
  refine (Silent.perform _).bind fun _ => (Silent.perform _).bind fun _ => .get fun _ => ?_
  refine (Silent.perform _).bind fun _ => (Silent.perform _).bind fun _ => ?_
  refine (Silent.perform _).bind fun _ => (Silent.perform _).bind fun _ => ?_
  exact .setting (.pure _)

theorem silent_remoteCommand (c : RemoteCommand) : Silent p e c.execute :=
  ((silent_attempting (silent_channel _)).bind fun _ => .pure _).bind fun _ =>
    .ite (.pure _) (.fail _)

/-- What a command yields is what the host answers to it. -/
theorem yields_channel (command : String) :
    Yields e (fun r => ∃ past, r = e.result past command) (channel command) := by
  refine .bind fun _ => .bind fun _ => .bind fun w => ?_
  refine .bind fun _ => .bind fun _ => .bind fun _ => .bind fun _ => ?_
  rintro w' r ⟨⟩
  exact ⟨w.events, rfl⟩

theorem yields_remoteCommand (c : RemoteCommand) :
    Yields e (fun output => ∃ past, output = Text.decodeLossy (e.result past c.command).output)
      c.execute := by
  have hrun : Yields e (fun r : String × Int =>
      ∃ past, r.1 = Text.decodeLossy (e.result past c.command).output) (runCommand c.command) := by
    intro w r h
    obtain ⟨result, w', hresult, hr⟩ := Effect.exists_of_bind_ok h
    obtain ⟨past, hpast⟩ := (yields_channel c.command).because _ _ w result
      (congrArg Prod.fst hresult)
    obtain rfl := Except.ok.inj hr
    exact ⟨past, by rw [hpast]⟩
  intro w output h
  obtain ⟨r, w', hr, houtput⟩ := Effect.exists_of_bind_ok h
  obtain ⟨past, hpast⟩ := hrun w r (congrArg Prod.fst hr)
  refine ⟨past, ?_⟩
  rw [← hpast]
  dsimp only at houtput
  split at houtput
  · exact (Except.ok.inj houtput).symm
  · cases houtput

/-- A password cannot be seen in the trace of a command for a host and of what the command yields. -/
def Traced (p : String) (e : Setting) (target : Target) (c : RemoteCommand) : Prop :=
  target.Veils p "[DEBUG] " ("ssh " ++ target.address ++ ": " ++ c.command) ∧
    ∀ past, target.Veils p "[DEBUG] "
      (Text.trimEnd (Text.decodeLossy (e.result past c.command).output))

theorem silent_commands (hp : Redaction.Hideable p) {cs : List RemoteCommand}
    (h : e.debug = true → ∀ c ∈ cs, Traced p e target c) : Silent p e (commands target cs) := by
  induction cs with
  | nil => exact .pure ()
  | cons c cs ih =>
    have hrest : Silent p e (commands target cs) :=
      ih fun hdebug c' hc' => h hdebug c' (List.mem_cons_of_mem _ hc')
    have hc := fun hdebug => h hdebug c List.mem_cons_self
    refine (Silent.debug hp.feed fun hdebug => (hc hdebug).1.lacks hp).bind fun _ => ?_
    refine (silent_remoteCommand c).bind_of fun output w w' houtput => ?_
    obtain ⟨past, rfl⟩ := yields_remoteCommand c w output (congrArg Prod.fst houtput)
    refine .ite ((Silent.debug hp.feed fun hdebug => ?_).bind fun _ => hrest)
      ((Silent.pure ()).bind fun _ => hrest)
    exact ((hc hdebug).2 past).lacks hp

theorem silent_batch (hp : Redaction.Hideable p) {cs : List RemoteCommand}
    (h : e.debug = true → ∀ c ∈ cs, Traced p e target c) : Silent p e (batch target cs) :=
  silent_withConnection (silent_commands hp h)

end Session

/-! ## Transfers -/

namespace Path

theorem silent_call {α : Type} (q : Path) (context : LocalProblem)
    (f : FileTree → List String → Path → Except FileError α) : Silent p e (q.call context f) := by
  refine .of_unwritten fun w => ?_
  rcases q.call_cases context f e w with ⟨x, hx⟩ | ⟨a, -, -, ha⟩
  · rw [hx]
    exact ⟨rfl, rfl⟩
  · rw [ha]
    exact ⟨rfl, rfl⟩

theorem silent_setFiles (t : FileTree) : Silent p e (setFiles t) := .of_unwritten fun _ => ⟨rfl, rfl⟩

theorem silent_writeFile (q : Path) (content : Bytes) : Silent p e (q.writeFile content) :=
  (silent_call _ _ _).bind fun _ => silent_setFiles _

theorem silent_makeDirectory (q : Path) : Silent p e q.makeDirectory :=
  (silent_call _ _ _).bind fun _ => silent_setFiles _

theorem silent_checkLength (q : Path) : Silent p e q.checkLength := .ite (.fail _) (.pure _)

theorem silent_found? (q : Path) : Silent p e q.found? := by
  refine .of_unwritten fun w => ?_
  rcases q.found?_cases e w with ⟨x, hx⟩ | ⟨u, hu, -⟩
  · rw [hx]
    exact ⟨rfl, rfl⟩
  · rw [hu]
    exact ⟨rfl, rfl⟩

theorem silent_isFile (q : Path) : Silent p e q.isFile := (silent_found? q).bind fun _ => .pure _

theorem silent_isDirectory (q : Path) : Silent p e q.isDirectory :=
  (silent_found? q).bind fun _ => .pure _

end Path

namespace Sftp

open Session Path

theorem silent_changePeer (f : Peer → Peer) : Silent p e (changePeer f) :=
  .of_unwritten fun _ => ⟨rfl, rfl⟩

theorem silent_withSftp {α : Type} {body : Action α} (h : Silent p e body) :
    Silent p e (withSftp body) :=
  (silent_attempting (.perform _)).bind fun _ => h.andThenAlways (.perform _)

theorem silent_stat (path : Path) (v : Option RemoteView) : Silent p e (stat path v) := by
  refine ((Silent.perform _).bind fun _ => .pure _).attempt.bind fun r => ?_
  split
  · exact .pure _
  · exact .ite (.pure _) (silent_attempting (.fail _))

theorem silent_downloadFile (remote localPath : Path) (content : Option Bytes) :
    Silent p e (downloadFile remote localPath content) := by
  refine (silent_attempting ?_).bind fun _ => silent_writeFile _ _
  refine (Silent.perform _).bind fun _ => ?_
  split
  · exact .pure _
  · exact .fail _

theorem silent_askListing (path : Path) : Silent p e (askListing path) :=
  silent_attempting (.perform _)

mutual

theorem silent_downloadView (remote localPath : Path) :
    ∀ v, Silent p e (downloadView remote localPath v)
  | .mk mode content listing => by
    rw [downloadView]
    refine .ite ((silent_makeDirectory _).bind fun _ => ?_) (silent_downloadFile _ _ _)
    exact (silent_askListing _).bind fun _ => silent_downloadListing _ _ listing

theorem silent_downloadListing (remote localPath : Path) :
    ∀ listing, Silent p e (downloadListing remote localPath listing)
  | [] => .pure ()
  | (name, v) :: rest => by
    rw [downloadListing]
    exact (silent_downloadView _ _ v).bind fun _ => silent_downloadListing _ _ rest

end

theorem silent_writeContent (path : Path) (content : Bytes) : Silent p e (writeContent path content) :=
  silent_attempting ((Silent.perform _).bind fun _ => silent_changePeer _)

theorem silent_makeDirectory (path : Path) : Silent p e (Sftp.makeDirectory path) :=
  silent_attempting ((Silent.perform _).bind fun _ => silent_changePeer _)

mutual

theorem silent_uploadTree (localPath remote : Path) :
    ∀ t, Silent p e (uploadTree localPath remote t)
  | .file content => by
    rw [uploadTree]
    exact (silent_checkLength _).bind fun _ => silent_writeContent _ _
  | .dir entries => by
    rw [uploadTree]
    refine (silent_checkLength _).bind fun _ => (Sftp.silent_makeDirectory _).bind fun _ => ?_
    exact silent_uploadEntries _ _ entries

theorem silent_uploadEntries (localPath remote : Path) :
    ∀ entries, Silent p e (uploadEntries localPath remote entries)
  | [] => .pure ()
  | (name, t) :: rest => by
    rw [uploadEntries]
    exact (silent_uploadTree _ _ t).bind fun _ => silent_uploadEntries _ _ rest

end

theorem silent_refuseLocal (condition : Bool) (problem : LocalProblem) :
    Silent p e (refuseLocal condition problem) := .ite (.fail _) (.pure _)

theorem silent_receive (remote localPath : Path) (seen : Option RemoteView) :
    Silent p e (receive remote localPath seen) := by
  refine (silent_stat _ _).bind fun v => ?_
  split
  · exact .fail _
  · refine .ite ?_ (.ite ?_ (.fail _))
    · refine (silent_isFile _).bind fun _ => (silent_refuseLocal _ _).bind fun _ => ?_
      exact (silent_isDirectory _).bind fun _ => silent_downloadFile _ _ _
    · refine (silent_isDirectory _).bind fun _ => (silent_refuseLocal _ _).bind fun _ => ?_
      refine (silent_isDirectory _).bind fun _ => (silent_refuseLocal _ _).bind fun _ => ?_
      refine (Path.silent_makeDirectory _).bind fun _ => ?_
      exact (silent_askListing _).bind fun _ => silent_downloadListing _ _ _

theorem silent_sendDirectory (localPath remote : Path) :
    Silent p e (sendDirectory localPath remote) := by
  refine .get fun w => (silent_stat _ _).bind fun v => ?_
  split
  · exact .fail _
  · refine (Sftp.silent_makeDirectory _).bind fun _ => ?_
    exact (silent_call _ _ _).bind fun _ => silent_uploadEntries _ _ _

theorem silent_upload (target : Target) (localPath remote : Path) :
    Silent p e (upload target localPath remote) := by
  have hsend : Silent p e (withConnection target (withSftp do
      if ← localPath.isFile then uploadFile localPath remote
      else sendDirectory localPath remote)) := by
    refine silent_withConnection (silent_withSftp ?_)
    refine (silent_isFile _).bind fun _ => .ite ?_ (silent_sendDirectory _ _)
    exact (silent_call _ _ _).bind fun _ => silent_writeContent _ _
  refine (silent_isFile _).bind fun _ => .ite ?_ ((Silent.pure ()).bind fun _ => hsend)
  exact (silent_isDirectory _).bind fun _ => (silent_refuseLocal _ _).bind fun _ => hsend

end Sftp

namespace Scp

open Session Path

theorem silent_copying {α : Type} {context : RemoteProblem} {body : Action α}
    (h : Silent p e body) : Silent p e (copying context body) :=
  Silent.because ((Silent.perform _).bind fun _ => h.andThenAlways (.perform _)) _ _

theorem silent_get (path : String) : Silent p e (get path) := by
  refine (Silent.perform _).bind fun _ => .get fun w => ?_
  split
  · exact .pure _
  · exact .fail _

end Scp

/-- A transfer writes nothing to the outputs. -/
theorem silent_transfer (t : Transfer) : Silent p e t.execute := by
  unfold Transfer.execute
  split
  · refine Silent.bind ?_ fun _ => Path.silent_writeFile _ _
    exact Session.silent_withConnection (Scp.silent_copying (Scp.silent_get _))
  · refine (Path.silent_call _ _ _).bind fun _ => ?_
    refine Session.silent_withConnection (Scp.silent_copying ?_)
    exact (Silent.perform _).bind fun _ => Sftp.silent_changePeer _
  · refine Session.silent_withConnection (Sftp.silent_withSftp ?_)
    exact Silent.bind (.setting (.get fun _ => .pure _)) fun _ => Sftp.silent_receive _ _ _
  · exact Sftp.silent_upload _ _ _

/-! ## Tasks -/

namespace Task

/-- A line that shows what a task is does not show a password, for the names and numbers that are in it.
    Of a task for a host the whole text is redacted. -/
def Shows (p lead : String) : Task → Prop
  | job name _ => Lacks p (lead ++ ("Job " ++ Text.quoted name))
  | onPlatform platform _ => Lacks p (lead ++ ("OSDependent " ++ Text.quoted platform.name))
  | parallel tasks threads => Lacks p (lead ++ ("ParallelTask (threads=" ++ toString threads
      ++ ", tasks=" ++ toString tasks.length ++ ")"))
  | print message => Lacks p (lead ++ ("PrintTask(prompt=" ++ Text.quoted message ++ ")"))
  | run c => Lacks p (lead ++ (c.shell.shown ++ "(args=" ++ Text.quotedWords c.words ++ ", work_dir="
      ++ shownText? c.workDir ++ ", allowed_exit_codes=" ++ shownInts? c.allowed ++ ")"))
  | ssh target commands => target.Veils p lead ("SshTask(target=" ++ target.shown ++ ", commands="
      ++ Text.bracketed (commands.map RemoteCommand.shown) ++ ")")
  | transfer t => t.target.Veils p lead (t.kind.shown ++ "(target=" ++ t.target.shown
      ++ ", remote_path=" ++ Text.quoted t.remotePath ++ ", local_path=" ++ Text.quoted t.localPath
      ++ ")")
  | probe name _ => Lacks p (lead ++ ("Fake " ++ name))

theorem Shows.lacks {lead : String} {t : Task} (hp : Redaction.Hideable p) (h : t.Shows p lead) :
    Lacks p (lead ++ t.describe) := by
  cases t with
  | ssh target commands => exact Target.Veils.lacks hp h
  | transfer t => exact Target.Veils.lacks hp h
  | _ => exact h

theorem eq_of_describe? {t : Task} {s : String} (h : t.describe? = .ok s) : t.describe = s := by
  unfold describe? at h
  split at h
  · exact Except.ok.inj h
  · cases h

/-- What the trace shows in front of the description of a task that starts. -/
def traceLead (owner : String) (index : Nat) : String :=
  "[DEBUG] " ++ ("[" ++ owner ++ "] #" ++ toString (index : Int) ++ " ")

/-- The lines of the trace about the tasks of a group. -/
def GroupTraced (p : String) (count : Nat) : Prop :=
  ∀ i < count,
    Lacks p ("[DEBUG] " ++ ("parallel task " ++ toString i ++ " done")) ∧
    ∀ n < count, Lacks p ("[DEBUG] " ++ ("parallel task " ++ toString i ++ " failed, detaching "
      ++ toString n ++ " remaining"))

mutual

/-- The lines that a run of a task may write do not show a password, for the names that are in them, but
    for what is redacted. -/
def Discreet (p : String) (e : Setting) : Task → Prop
  | job name tasks => DiscreetFrom p e name 0 tasks
  | onPlatform platform tasks =>
    if Platform.ofHost? e.platform = some platform then
      DiscreetFrom p e ("on-" ++ platform.name) 0 tasks
    else e.debug = true → Lacks p ("[DEBUG] " ++ ("skipping on-" ++ platform.name ++ " branch"))
  | parallel tasks _ => DiscreetEach p e tasks ∧ (e.debug = true → GroupTraced p tasks.length)
  | print message => Lacks p message
  | run command => e.debug = true → Lacks p ("[DEBUG] " ++ ("spawn "
      ++ Text.quotedWords command.argv ++ " (cwd=" ++ command.shownDirectory ++ ")"))
  | ssh target commands => e.debug = true → ∀ c ∈ commands, Session.Traced p e target c
  | transfer _ => True
  | probe _ _ => True

/-- The same for tasks that are run one after the other, from an index on. -/
def DiscreetFrom (p : String) (e : Setting) (owner : String) (index : Nat) : List Task → Prop
  | [] => True
  | t :: ts =>
    (e.debug = true → t.Shows p (traceLead owner index)) ∧ Discreet p e t ∧
      DiscreetFrom p e owner (index + 1) ts

/-- The same for tasks that are run whatever becomes of the others. -/
def DiscreetEach (p : String) (e : Setting) : List Task → Prop
  | [] => True
  | t :: ts => Discreet p e t ∧ DiscreetEach p e ts

end

theorem silent_deliver (hfeed : '\n' ∉ p.toList) (outcomes : List (Except Failure Unit))
    {order : List Nat} {count : Nat} (horder : ∀ i ∈ order, i < count) (hlength : order.length ≤ count)
    (h : e.debug = true → GroupTraced p count) : Silent p e (deliver outcomes order) := by
  induction order with
  | nil => exact .pure ()
  | cons i rest ih =>
    rw [List.length_cons] at hlength
    have hi : i < count := horder i List.mem_cons_self
    have hrest : Silent p e (deliver outcomes rest) :=
      ih (fun j hj => horder j (List.mem_cons_of_mem _ hj)) (by omega)
    rw [deliver]
    split
    · exact (Silent.debug hfeed fun hdebug => (h hdebug i hi).2 _ (by omega)).bind fun _ => .fail _
    · exact (Silent.debug hfeed fun hdebug => (h hdebug i hi).1).bind fun _ => hrest

theorem silent_runGroup (hfeed : '\n' ∉ p.toList) (threads : Int) {tasks : List Task}
    (heach : Silent p e (executeEach tasks)) (h : e.debug = true → GroupTraced p tasks.length) :
    Silent p e (runGroup threads (executeEach tasks)) := by
  refine (Silent.perform _).bind fun _ => Silent.andThenAlways ?_ (.perform _)
  refine heach.bind_of fun outcomes w w' houtcomes => .setting (.get fun past => ?_)
  obtain ⟨outcomes', w'', houtcomes', hruns⟩ := executeEach_runs e tasks w
  obtain rfl : outcomes' = outcomes := by
    rw [houtcomes] at houtcomes'
    cases houtcomes'
    rfl
  have horder := (e.delivery past.events).order_perm outcomes'.length
  refine silent_deliver hfeed outcomes' (fun i hi => ?_) ?_ h
  · rw [← hruns.length_eq]
    exact List.mem_range.1 (horder.subset hi)
  · rw [horder.length_eq, List.length_range, hruns.length_eq]

mutual

/-- A run of a task that is discreet shows a password on neither output. -/
theorem silent_execute (hp : Redaction.Hideable p) : ∀ t : Task, t.Discreet p e →
    Silent p e t.execute
  | job name tasks, h => by
    rw [execute]
    exact silent_executeFrom hp name 0 tasks h
  | onPlatform platform tasks, h => by
    rw [execute]
    refine .setting ?_
    rw [Discreet] at h
    split
    · next hon =>
      rw [if_pos hon] at h
      exact silent_executeFrom hp _ 0 tasks h
    · next hoff =>
      rw [if_neg hoff] at h
      exact .debug hp.feed h
  | parallel tasks threads, h => by
    rw [execute]
    exact silent_runGroup hp.feed threads (silent_executeEach hp tasks h.1) h.2
  | print message, h => by
    rw [execute]
    exact .writeLine hp.feed h
  | run command, h => by
    rw [execute]
    exact silent_localCommand hp.feed command h
  | ssh target commands, h => by
    rw [execute]
    exact Session.silent_batch hp h
  | transfer t, _ => by
    rw [execute]
    exact silent_transfer t
  | probe name none, _ => by
    rw [execute]
    exact (Silent.perform _).bind fun _ => .pure ()
  | probe name (some f), _ => by
    rw [execute]
    exact (Silent.perform _).bind fun _ => .fail f

theorem silent_executeFrom (hp : Redaction.Hideable p) (owner : String) (index : Nat) :
    ∀ tasks, DiscreetFrom p e owner index tasks → Silent p e (executeFrom owner index tasks)
  | [], _ => .pure ()
  | t :: ts, h => by
    rw [executeFrom]
    refine (Silent.ofExcept _).bind_of fun shown w w' hshown => ?_
    obtain rfl : t.describe = shown := eq_of_describe? (congrArg Prod.fst hshown)
    refine (Silent.debug hp.feed fun hdebug => ?_).bind fun _ => ?_
    · have := (h.1 hdebug).lacks hp
      rwa [traceLead, String.append_assoc] at this
    · refine ((silent_execute hp t h.2.1).because _ _).bind fun _ => ?_
      exact silent_executeFrom hp owner (index + 1) ts h.2.2

theorem silent_executeEach (hp : Redaction.Hideable p) : ∀ tasks, DiscreetEach p e tasks →
    Silent p e (executeEach tasks)
  | [], _ => .pure []
  | t :: ts, h => by
    rw [executeEach]
    refine (silent_execute hp t h.1).attempt.bind fun _ => ?_
    exact (silent_executeEach hp ts h.2).bind fun _ => .pure _

end

end Task
end Runbook
