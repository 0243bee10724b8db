import Runbook.Proofs.Failing
import Runbook.Proofs.Faults
import Runbook.Proofs.Overwriting

set_option autoImplicit false

/-! # Refusals are clean

A transfer refuses to go on where something is missing or in the way. It looks before it makes
anything: until then it only asks, and once it has begun to make things it fails in other ways. So a
refusal leaves the local files and those of the peer as they were. A single file that is copied from a
host is written at the very end, or not at all. -/

namespace Runbook

/-! ## Writing one file -/

namespace FileTree

variable {t t' : FileTree} {workingDir place names : List String} {p : Path} {content : Bytes}

/-- Everywhere but at one place two trees have the same: nothing, a directory, or a file with the same
    content. -/
def AgreesBut (t t' : FileTree) (place : List String) : Prop :=
  ∀ names, names ≠ place → (t'.get? names).map content? = (t.get? names).map content?

/-- A tree in which nothing but the file at a path has been written. -/
structure Wrote (t : FileTree) (workingDir : List String) (p : Path) (content : Bytes)
    (t' : FileTree) : Prop where
  read : t'.read workingDir p = .ok content
  others : t.AgreesBut t' (t.spot workingDir p)

/-- There is nothing below what is no directory. -/
theorem get?_below (hplace : ∀ u, t.get? place = some u → u.isDir = false) (name : String)
    (rest : List String) : t.get? (place ++ name :: rest) = none := by
  rw [get?_append]
  cases hu : t.get? place with
  | none => rfl
  | some u =>
    cases hbelow : u.get? (name :: rest) with
    | none => simp [hbelow]
    | some v =>
      have hdir := hplace u hu
      rw [isDir_of_get?_cons hbelow] at hdir
      cases hdir

/-- Above a directory there are directories. -/
theorem get?_above {dir : List String} {es : List (String × FileTree)}
    (hdir : t.get? dir = some (.dir es)) (habove : names <+: dir) :
    ∃ es', t.get? names = some (.dir es') := by
  obtain ⟨u, hu⟩ : ∃ u, t.get? names = some u := by
    obtain ⟨rest, rfl⟩ := habove
    rw [get?_append] at hdir
    obtain ⟨u, hu, -⟩ := Option.bind_eq_some_iff.1 hdir
    exact ⟨u, hu⟩
  have hkind := isDir_above hdir habove hu
  cases u with
  | file content => cases hkind
  | dir es' => exact ⟨es', hu⟩

/-- A file is put in a directory, or in the place of a file, and nothing else changes. -/
theorem agreesBut_put (hplace : ∀ u, t.get? place = some u → u.isDir = false)
    (hin : ∀ dir name, place = dir ++ [name] → ∃ es, t.get? dir = some (.dir es)) :
    t.AgreesBut (t.put place (.file content)) place := by
  intro names hne
  by_cases hbelow : place <+: names
  · obtain ⟨rest, rfl⟩ := hbelow
    cases rest with
    | nil => exact absurd (List.append_nil _) hne
    | cons name rest =>
      rw [get?_put_below, get?_below hplace]
      rfl
  · by_cases habove : names <+: place
    · obtain ⟨es, hes⟩ := get?_put_above t (.file content) habove hne
      rcases List.eq_nil_or_concat place with rfl | ⟨dir, name, hconcat⟩
      · exact absurd (List.prefix_nil.1 habove) hne
      · rw [List.concat_eq_append] at hconcat
        obtain ⟨es', hes'⟩ := hin dir name hconcat
        rcases List.prefix_concat_iff.1 (hconcat ▸ habove) with hsame | hpre
        · exact absurd (hsame.trans hconcat.symm) hne
        · obtain ⟨es'', hes''⟩ := get?_above hes' hpre
          rw [hes, hes'']
          rfl
    · rw [get?_put_beside _ hbelow habove]

theorem AgreesBut.extends (h : t.AgreesBut t' place)
    (hplace : ∀ u, t.get? place = some u → ∃ u', t'.get? place = some u' ∧ u'.isDir = u.isDir) :
    t.Extends t' := by
  intro names u hu
  by_cases hne : names = place
  · exact hne ▸ hplace u (hne ▸ hu)
  · have hsame := h names hne
    rw [hu, Option.map_some] at hsame
    obtain ⟨u', hu', hcontent⟩ := Option.map_eq_some_iff.1 hsame
    refine ⟨u', hu', ?_⟩
    cases u <;> cases u' <;> first | rfl | cases hcontent

/-- A path that leads to a file leads there in every tree that extends the first. -/
theorem at?_put_of_inside (hplace : t.locate workingDir p = .ok (.inside place))
    (hext : t.Extends (t.put place (.file content))) :
    (t.put place (.file content)).at? workingDir p = .ok (some (.file content)) := by
  have hfollow := follow_of_extends hext (follow_of_locate hplace)
  rw [at?, locate, if_neg (Nat.not_lt.2 (size_of_locate hplace)), hfollow]
  exact congrArg Except.ok (get?_put_self _ place t)

/-- A file that is written is what is read then, and nothing else has changed. -/
theorem wrote_of_write (h : t.write workingDir p content = .ok t') :
    t.Wrote workingDir p content t' := by
  unfold FileTree.write at h
  split at h
  · cases h
  · next place hplace =>
    cases h
    have hothers : t.AgreesBut (t.put place (.file content)) place := by
      refine agreesBut_put (fun u hu => ?_) fun dir name hdir => ?_
      · rw [get?_of_absent hplace] at hu
        cases hu
      · obtain ⟨_, q, n, -, hq, hleads⟩ := reaches_of_locate hplace
        obtain ⟨rfl, -⟩ := List.append_inj' (hdir.symm.trans hq) rfl
        exact hleads.isDir
    refine ⟨?_, (spot_of_absent hplace).symm ▸ hothers⟩
    rw [FileTree.read, at?_put_of_absent hplace]
  · next place hplace =>
    split at h
    · next old hold =>
      cases h
      have hfile : ∀ u, t.get? place = some u → u.isDir = false := fun u hu => by
        rw [hold] at hu
        cases hu
        rfl
      have hothers : t.AgreesBut (t.put place (.file content)) place := by
        refine agreesBut_put hfile fun dir name hdir => ?_
        rw [hdir, get?_append] at hold
        obtain ⟨u, hu, hname⟩ := Option.bind_eq_some_iff.1 hold
        have hkind := isDir_of_get?_cons hname
        cases u with
        | file content => cases hkind
        | dir es => exact ⟨es, hu⟩
      have hspot : t.spot workingDir p = place := by rw [spot, hplace]
      refine ⟨?_, hspot.symm ▸ hothers⟩
      have hext := hothers.extends fun u hu => ⟨_, get?_put_self _ place t, (hfile u hu).symm⟩
      rw [FileTree.read, at?_put_of_inside hplace hext]
    · cases h

end FileTree

/-! ## Refusals -/

namespace Failure

/-- Whether a failure says that something is missing or in the way. -/
def isRefusal (f : Failure) : Bool := f.isA .notFound || f.isA .alreadyExists

/-- Refusals are failures that a workflow reports. -/
theorem isWorkflow_of_isRefusal {f : Failure} (h : f.isRefusal = true) : f.isWorkflow = true := by
  unfold isRefusal isWorkflow isA Cause.isA at *
  cases hk : f.head.kind <;> rw [hk] at h <;> first | rfl | cases h

theorem isRefusal_of_kind {f : Failure} {k : Kind} (h : f.head.kind = k)
    (hk : (k.isA .notFound || k.isA .alreadyExists) = false) : f.isRefusal = false := by
  rw [isRefusal, isA, isA, Cause.isA, Cause.isA, h, hk]

end Failure

/-- No fault is a failure that a workflow reports itself. -/
def Setting.FaultsAreForeign (e : Setting) : Prop :=
  ∀ past call x, e.fault past call = some x → x.isWorkflow = false

theorem Setting.FaultsAreForeign.isRefusal {e : Setting} (h : e.FaultsAreForeign)
    {past : List Event} {call : Event} {x : Failure} (hx : e.fault past call = some x) :
    x.isRefusal = false := by
  refine Bool.eq_false_iff.2 fun hrefusal => ?_
  have hworkflow := Failure.isWorkflow_of_isRefusal hrefusal
  rw [h past call x hx] at hworkflow
  cases hworkflow

/-- Two worlds with the same local files and the same files of the peer. -/
structure World.SameFiles (w w' : World) : Prop where
  files : w'.files = w.files
  peer : w'.peer = w.peer

namespace World.SameFiles

variable {w w' w'' : World}

theorem refl (w : World) : w.SameFiles w := ⟨rfl, rfl⟩

theorem trans (h : w.SameFiles w') (h' : w'.SameFiles w'') : w.SameFiles w'' :=
  ⟨h'.files.trans h.files, h'.peer.trans h.peer⟩

theorem after (w : World) (calls : List Event) : w.SameFiles (w.after calls) := ⟨rfl, rfl⟩

end World.SameFiles

/-! ## Actions that ask, and actions that refuse -/

/-- An action that only asks: whatever it comes to, it changes no files. -/
def Inert {α : Type} (e : Setting) (m : Action α) : Prop :=
  ∀ w : World, w.SameFiles (m e w).2

/-- An action that changes no files if it ends with a refusal. -/
def RefusesCleanly {α : Type} (e : Setting) (m : Action α) : Prop :=
  ∀ (w : World) (f : Failure), (m e w).1 = .error f → f.isRefusal = true → w.SameFiles (m e w).2

/-- An action that does not end with a refusal. -/
def NeverRefuses {α : Type} (e : Setting) (m : Action α) : Prop :=
  m.FailsOnly e fun f => f.isRefusal = false

theorem neverRefuses_perform {e : Setting} (he : e.FaultsAreForeign) (call : Event) :
    NeverRefuses e (Action.perform call) :=
  Action.failsOnly_perform fun _ _ hx => he.isRefusal hx

section

variable {α β : Type} {e : Setting} {m : Action α} {f : α → Action β}

/-- A call that cleans up does not refuse either. -/
theorem failsOnly_andThenAlways {P : Failure → Prop} (he : e.FaultsAreForeign)
    (hP : ∀ f : Failure, f.isRefusal = false → P f) (hm : m.FailsOnly e P) (call : Event) :
    (m.andThenAlways (Action.perform call)).FailsOnly e P :=
  hm.andThenAlways (neverRefuses_perform he call) hP fun _ _ hy => hP _ hy

namespace Inert

theorem of_eq (h : ∀ w, (m e w).2 = w) : Inert e m := fun w => (h w).symm ▸ .refl w

theorem of_calls (h : ∀ w, ∃ calls, (m e w).2 = w.after calls) : Inert e m := by
  intro w
  obtain ⟨calls, hcalls⟩ := h w
  exact hcalls.symm ▸ .after w calls

theorem bind (hm : Inert e m) (hf : ∀ a, Inert e (f a)) : Inert e (m >>= f) := by
  intro w
  have hfirst := hm w
  rcases hr : m e w with ⟨y | a, w'⟩ <;> rw [hr] at hfirst
  · rw [Effect.bind_of_error hr]
    exact hfirst
  · rw [Effect.bind_of_ok hr]
    exact hfirst.trans (hf a w')

theorem andThenAlways {cleanUp : Action Unit} (hm : Inert e m) (hcleanUp : Inert e cleanUp) :
    Inert e (m.andThenAlways cleanUp) := by
  intro w
  rw [Effect.andThenAlways_snd]
  exact (hm w).trans (hcleanUp _)

theorem because (hm : Inert e m) (applies : Failure → Bool) (c : Cause) :
    Inert e (m.because applies c) := by
  intro w
  rw [Effect.because_snd]
  exact hm w

theorem perform (call : Event) : Inert e (Action.perform call) :=
  .of_calls fun w => ⟨[call], Action.perform_snd call e w⟩

end Inert

namespace RefusesCleanly

theorem of_inert (hm : Inert e m) : RefusesCleanly e m := fun w _ _ _ => hm w

theorem of_neverRefuses (hm : NeverRefuses e m) : RefusesCleanly e m := by
  intro w f hf hrefusal
  rw [hm w f hf] at hrefusal
  cases hrefusal

/-- What refuses cleanly may be preceded by what only asks. -/
theorem bind (hm : Inert e m) (hf : ∀ a, RefusesCleanly e (f a)) : RefusesCleanly e (m >>= f) := by
  intro w x hx hrefusal
  have hfirst := hm w
  rcases hr : m e w with ⟨y | a, w'⟩ <;> rw [hr] at hfirst
  · rw [Effect.bind_of_error hr]
    exact hfirst
  · rw [Effect.bind_of_ok hr] at hx ⊢
    exact hfirst.trans (hf a w' x hx hrefusal)

theorem ite {p : Prop} [Decidable p] {n : Action α} (hm : RefusesCleanly e m)
    (hn : RefusesCleanly e n) : RefusesCleanly e (if p then m else n) := by
  split
  · exact hm
  · exact hn

/-- A clean-up that is a call may follow: if it is struck, its fault is what the action ends with. -/
theorem andThenAlways (he : e.FaultsAreForeign) (hm : RefusesCleanly e m) (call : Event) :
    RefusesCleanly e (m.andThenAlways (Action.perform call)) := by
  intro w x hx hrefusal
  rw [Effect.andThenAlways_snd, Action.perform_snd]
  refine .trans ?_ (.after _ [call])
  cases hfault : e.fault (m e w).2.events call with
  | none =>
    have hsame := Effect.andThenAlways_fst (m := m)
      (congrArg Prod.fst (Action.perform_of_spared hfault))
    exact hm w x (hsame ▸ hx) hrefusal
  | some y =>
    obtain ⟨z, hz, hhead, -⟩ := Effect.andThenAlways_of_error (Action.perform_of_struck hfault)
    have hy := he.isRefusal hfault
    rw [Failure.isRefusal, Failure.isA, Failure.isA, ← hhead] at hy
    rw [hz] at hx
    cases hx
    rw [Failure.isRefusal, Failure.isA, Failure.isA, hy] at hrefusal
    cases hrefusal

end RefusesCleanly
end

/-! ## What the calls of a transfer fail with -/

namespace Path

variable {α : Type} {p : Path} {e : Setting}

theorem neverRefuses_call {context : LocalProblem} (h : context.kind = .localFile)
    (f : FileTree → List String → Path → Except FileError α) :
    NeverRefuses e (p.call context f) := by
  intro w x hx
  unfold call at hx
  split at hx
  · split at hx
    · cases hx
    · cases hx
      exact Failure.isRefusal_of_kind h rfl
  · cases hx
    rfl

theorem neverRefuses_writeFile (content : Bytes) : NeverRefuses e (p.writeFile content) :=
  (neverRefuses_call rfl _).bind fun _ => .modify _

theorem neverRefuses_makeDirectory : NeverRefuses e p.makeDirectory :=
  (neverRefuses_call rfl _).bind fun _ => .modify _

theorem neverRefuses_checkLength : NeverRefuses e p.checkLength :=
  .ite (.fail rfl) (.pure ())

theorem neverRefuses_found? : NeverRefuses e p.found? := by
  intro w x hx
  unfold found? at hx
  split at hx
  · split at hx <;> cases hx
    rfl
  · cases hx

theorem neverRefuses_isFile : NeverRefuses e p.isFile := neverRefuses_found?.bind fun _ => .pure _

theorem neverRefuses_isDirectory : NeverRefuses e p.isDirectory :=
  neverRefuses_found?.bind fun _ => .pure _

theorem inert_isFile : Inert e p.isFile := by
  refine .of_eq fun w => ?_
  rcases p.isFile_cases e w with ⟨x, hx⟩ | ⟨b, hb, -⟩
  · rw [hx]
  · rw [hb]

theorem inert_isDirectory : Inert e p.isDirectory := by
  refine .of_eq fun w => ?_
  rcases p.isDirectory_cases e w with ⟨x, hx⟩ | ⟨b, hb, -⟩
  · rw [hx]
  · rw [hb]

end Path

namespace Session

variable {α : Type} {e : Setting} {m : Action α}

theorem neverRefuses_attempting {context : RemoteProblem} (h : context.kind = .remoteChannel)
    (hm : NeverRefuses e m) : NeverRefuses e (attempting context m) :=
  hm.because (fun _ _ _ => Failure.isRefusal_of_kind h rfl) fun _ hx _ => hx

/-- A session that cannot be opened is no refusal. -/
theorem neverRefuses_openClient (he : e.FaultsAreForeign) (target : Target) :
    NeverRefuses e (openClient target) := by
  refine (neverRefuses_perform he _).bind fun _ => .setting ?_
  refine (neverRefuses_perform he _).attempt_bind (fun _ => .pure ()) fun f hf =>
    .ite ?_ (.fail hf)
  exact (neverRefuses_perform he _).attempt_bind
    (fun _ => .fail (Failure.isRefusal_of_kind rfl rfl)) fun g hg => .fail hg

theorem failsOnly_withConnection {P : Failure → Prop} (he : e.FaultsAreForeign)
    (hP : ∀ f : Failure, f.isRefusal = false → P f) (hm : m.FailsOnly e P) (target : Target) :
    (withConnection target m).FailsOnly e P :=
  ((neverRefuses_openClient he target).mono hP).bind fun _ => failsOnly_andThenAlways he hP hm _

theorem inert_openClient (target : Target) : Inert e (openClient target) := by
  refine .of_calls fun w => ?_
  by_cases h : e.Spares w.events (connecting target e)
  · exact ⟨_, congrArg Prod.snd (openClient_of_spared h)⟩
  · obtain ⟨x, calls, hx, -⟩ := openClient_of_struck h
    exact ⟨calls, congrArg Prod.snd hx⟩

theorem inert_withConnection {target : Target} (hm : Inert e m) :
    Inert e (withConnection target m) :=
  (inert_openClient target).bind fun _ => hm.andThenAlways (.perform _)

theorem refusesCleanly_withConnection (he : e.FaultsAreForeign) {target : Target}
    (hm : RefusesCleanly e m) : RefusesCleanly e (withConnection target m) :=
  .bind (inert_openClient target) fun _ => hm.andThenAlways he _

end Session

/-! ## Transfers over sftp -/

namespace Sftp

open Session

variable {e : Setting}

theorem neverRefuses_readContent (he : e.FaultsAreForeign) (path : Path) (content : Option Bytes) :
    NeverRefuses e (readContent path content) := by
  refine neverRefuses_attempting rfl ((neverRefuses_perform he _).bind fun _ => ?_)
  cases content with
  | some bytes => exact .pure bytes
  | none => exact .fail rfl

theorem neverRefuses_downloadFile (he : e.FaultsAreForeign) (remote localPath : Path)
    (content : Option Bytes) : NeverRefuses e (downloadFile remote localPath content) :=
  (neverRefuses_readContent he remote content).bind fun _ => Path.neverRefuses_writeFile _

theorem neverRefuses_askListing (he : e.FaultsAreForeign) (path : Path) :
    NeverRefuses e (askListing path) :=
  neverRefuses_attempting rfl (neverRefuses_perform he _)

mutual

/-- A download that goes down what is seen fails at its calls, and looks for nothing that could be
    missing or in the way. -/
theorem neverRefuses_downloadView (he : e.FaultsAreForeign) (remote localPath : Path) :
    ∀ v, NeverRefuses e (downloadView remote localPath v)
  | .mk mode content listing => by
    rw [downloadView]
    refine .ite ?_ (neverRefuses_downloadFile he _ _ _)
    refine Path.neverRefuses_makeDirectory.bind fun _ => ?_
    exact (neverRefuses_askListing he _).bind fun _ => neverRefuses_downloadListing he _ _ listing

theorem neverRefuses_downloadListing (he : e.FaultsAreForeign) (remote localPath : Path) :
    ∀ listing, NeverRefuses e (downloadListing remote localPath listing)
  | [] => .pure ()
  | (name, v) :: rest => by
    rw [downloadListing]
    refine (neverRefuses_downloadView he _ _ v).bind fun _ => ?_
    exact neverRefuses_downloadListing he _ _ rest

end

theorem neverRefuses_writeContent (he : e.FaultsAreForeign) (path : Path) (content : Bytes) :
    NeverRefuses e (writeContent path content) :=
  neverRefuses_attempting rfl ((neverRefuses_perform he _).bind fun _ => .modify _)

theorem neverRefuses_makeDirectory (he : e.FaultsAreForeign) (path : Path) :
    NeverRefuses e (Sftp.makeDirectory path) :=
  neverRefuses_attempting rfl ((neverRefuses_perform he _).bind fun _ => .modify _)

mutual

/-- An upload that goes down a local tree fails at its calls. -/
theorem neverRefuses_uploadTree (he : e.FaultsAreForeign) (localPath remote : Path) :
    ∀ t, NeverRefuses e (uploadTree localPath remote t)
  | .file content => by
    rw [uploadTree]
    exact Path.neverRefuses_checkLength.bind fun _ => neverRefuses_writeContent he _ _
  | .dir entries => by
    rw [uploadTree]
    refine Path.neverRefuses_checkLength.bind fun _ => ?_
    refine (neverRefuses_makeDirectory he _).bind fun _ => ?_
    exact neverRefuses_uploadEntries he _ _ entries

theorem neverRefuses_uploadEntries (he : e.FaultsAreForeign) (localPath remote : Path) :
    ∀ entries, NeverRefuses e (uploadEntries localPath remote entries)
  | [] => .pure ()
  | (name, t) :: rest => by
    rw [uploadEntries]
    refine (neverRefuses_uploadTree he _ _ t).bind fun _ => ?_
    exact neverRefuses_uploadEntries he _ _ rest

end

theorem neverRefuses_stat (he : e.FaultsAreForeign) (path : Path) (v : Option RemoteView) :
    NeverRefuses e (stat path v) := by
  have hcall : NeverRefuses e (statCall path v) := (neverRefuses_perform he _).bind fun _ => .pure _
  refine hcall.attempt_bind (fun _ => .pure _) fun x hx => .ite (.pure _) ?_
  exact neverRefuses_attempting rfl (.fail hx)

/-! What looks at the remote path and at the local one only asks. -/

theorem inert_stat (path : Path) (v : Option RemoteView) : Inert e (stat path v) :=
  .of_calls fun w => ⟨_, stat_snd path v e w⟩

theorem inert_shown (path : Path) : Inert e (shown path) := .of_eq fun _ => rfl

theorem inert_refuseLocal (condition : Bool) (p : LocalProblem) :
    Inert e (refuseLocal condition p) :=
  .of_eq fun _ => by cases condition <;> rfl

theorem inert_fail (x : Failure) : Inert e (Effect.fail x : Action Unit) := .of_eq fun _ => rfl

theorem refusesCleanly_receiveFile (he : e.FaultsAreForeign) (remote localPath : Path)
    (content : Option Bytes) : RefusesCleanly e (receiveFile remote localPath content) := by
  refine .bind Path.inert_isFile fun _ => .bind (inert_refuseLocal _ _) fun _ => ?_
  refine .bind Path.inert_isDirectory fun _ => ?_
  exact .of_neverRefuses (neverRefuses_downloadFile he _ _ _)

theorem refusesCleanly_receiveDirectory (he : e.FaultsAreForeign) (remote localPath : Path)
    (listing : List (String × RemoteView)) :
    RefusesCleanly e (receiveDirectory remote localPath listing) := by
  refine .bind Path.inert_isDirectory fun _ => .bind (inert_refuseLocal _ _) fun _ => ?_
  refine .bind Path.inert_isDirectory fun _ => .bind (inert_refuseLocal _ _) fun _ => ?_
  refine .of_neverRefuses (Path.neverRefuses_makeDirectory.bind fun _ => ?_)
  exact (neverRefuses_askListing he _).bind fun _ => neverRefuses_downloadListing he _ _ listing

theorem refusesCleanly_downloading (he : e.FaultsAreForeign) (remote localPath : Path) :
    RefusesCleanly e (downloading remote localPath) := by
  refine .bind (inert_shown _) fun seen => ?_
  rw [receive_eq]
  refine .bind (inert_stat _ _) fun v => ?_
  cases v with
  | none => exact .of_inert (inert_fail _)
  | some v =>
    refine .ite (refusesCleanly_receiveFile he _ _ _) (.ite ?_ (.of_inert (inert_fail _)))
    exact refusesCleanly_receiveDirectory he _ _ _

/-- What an upload makes is made where nothing was seen. -/
theorem neverRefuses_sendAbsent (he : e.FaultsAreForeign) (localPath remote : Path) :
    NeverRefuses e (sendSeen localPath remote none) := by
  refine (neverRefuses_makeDirectory he _).bind fun _ => ?_
  exact (Path.neverRefuses_call rfl _).bind fun _ => neverRefuses_uploadEntries he _ _ _

theorem neverRefuses_uploadFile (he : e.FaultsAreForeign) (localPath remote : Path) :
    NeverRefuses e (uploadFile localPath remote) :=
  (Path.neverRefuses_call rfl _).bind fun _ => neverRefuses_writeContent he _ _

theorem refusesCleanly_uploading (he : e.FaultsAreForeign) (localPath remote : Path) :
    RefusesCleanly e (uploading localPath remote) := by
  refine .bind Path.inert_isFile fun _ =>
    .ite (.of_neverRefuses (neverRefuses_uploadFile he _ _)) ?_
  rw [sendDirectory_eq]
  refine .bind (.of_eq fun _ => rfl) fun _ => .bind (inert_stat _ _) fun v => ?_
  cases v with
  | none => exact .of_neverRefuses (neverRefuses_sendAbsent he _ _)
  | some _ => exact .of_inert (inert_fail _)

theorem refusesCleanly_withSftp (he : e.FaultsAreForeign) {body : Action Unit}
    (h : RefusesCleanly e body) : RefusesCleanly e (withSftp body) :=
  .bind (Inert.because (.perform _) _ _) fun _ => h.andThenAlways he _

theorem refusesCleanly_download (he : e.FaultsAreForeign) (target : Target)
    (remote localPath : Path) : RefusesCleanly e (download target remote localPath) :=
  refusesCleanly_withConnection he
    (refusesCleanly_withSftp he (refusesCleanly_downloading he remote localPath))

theorem refusesCleanly_upload (he : e.FaultsAreForeign) (target : Target)
    (localPath remote : Path) : RefusesCleanly e (upload target localPath remote) := by
  intro w f hf hrefusal
  rcases upload_cases target localPath remote e w with ⟨-, x, -, hx⟩ | ⟨-, hopened⟩
  · rw [hx]
    exact .refl w
  · rw [hopened] at hf ⊢
    exact refusesCleanly_withConnection he
      (refusesCleanly_withSftp he (refusesCleanly_uploading he localPath remote)) w f hf hrefusal

end Sftp

namespace Sftp

open Session

variable {e : Setting}

/-- Once its session is opened, an upload finds nothing missing. -/
theorem uploadSession_failsOnly (he : e.FaultsAreForeign) (target : Target)
    (localPath remote : Path) :
    (withConnection target (withSftp (uploading localPath remote))).FailsOnly e
      fun f => f.isA .notFound = false := by
  have hother : ∀ f : Failure, f.isRefusal = false → f.isA .notFound = false :=
    fun _ h => (Bool.or_eq_false_iff.1 h).1
  have hbody : (uploading localPath remote).FailsOnly e fun f => f.isA .notFound = false := by
    refine (Path.neverRefuses_isFile.mono hother).bind fun _ =>
      .ite ((neverRefuses_uploadFile he _ _).mono hother) ?_
    rw [sendDirectory_eq]
    refine .get fun _ => ((neverRefuses_stat he _ _).mono hother).bind fun v => ?_
    cases v with
    | none => exact (neverRefuses_sendAbsent he _ _).mono hother
    | some _ => exact .fail rfl
  have hstart : NeverRefuses e start := neverRefuses_attempting rfl (neverRefuses_perform he _)
  refine failsOnly_withConnection he hother ?_ target
  exact (hstart.mono hother).bind fun _ => failsOnly_andThenAlways he hother hbody _

/-- An upload that finds something missing misses its local path, and has called nothing. -/
theorem upload_of_notFound (he : e.FaultsAreForeign) {target : Target} {localPath remote : Path}
    {w : World} {f : Failure} (hf : (upload target localPath remote e w).1 = .error f)
    (hmissing : f.isA .notFound = true) :
    f = .of (.onHost (.missing localPath.toText)) ∧
      upload target localPath remote e w = (.error f, w) := by
  have hnot : ∀ {x : Failure}, x.isA .notFound = false → x ≠ f := by
    rintro x hx rfl
    rw [hx] at hmissing
    cases hmissing
  have hopened : upload target localPath remote e w
      ≠ withConnection target (withSftp (uploading localPath remote)) e w := by
    intro hrun
    rw [hrun] at hf
    exact hnot (uploadSession_failsOnly he target localPath remote w f hf) rfl
  rcases localPath.isFile_cases e w with ⟨x, hx⟩ | ⟨b, hb, -⟩
  · have hrun : upload target localPath remote e w = (.error x, w) := Effect.bind_of_error hx
    rw [hrun] at hf
    have hother := Path.neverRefuses_isFile w x (congrArg Prod.fst hx)
    exact absurd (Except.error.inj hf) (hnot (Bool.or_eq_false_iff.1 hother).1)
  have hfile : ∀ {next : Bool → Action Unit}, (localPath.isFile >>= next) e w = next b e w :=
    Effect.bind_of_ok hb
  cases b with
  | true => exact absurd hfile hopened
  | false =>
    rcases localPath.isDirectory_cases e w with ⟨x, hx⟩ | ⟨d, hd, -⟩
    · have hrun : upload target localPath remote e w = (.error x, w) :=
        hfile.trans (Effect.bind_of_error hx)
      rw [hrun] at hf
      have hother := Path.neverRefuses_isDirectory w x (congrArg Prod.fst hx)
      exact absurd (Except.error.inj hf) (hnot (Bool.or_eq_false_iff.1 hother).1)
    · have hdirectory : ∀ {next : Bool → Action Unit},
          (localPath.isDirectory >>= next) e w = next d e w := Effect.bind_of_ok hd
      cases d with
      | true => exact absurd (hfile.trans hdirectory) hopened
      | false =>
        have hrun : upload target localPath remote e w
            = (.error (.of (.onHost (.missing localPath.toText))), w) := hfile.trans hdirectory
        rw [hrun] at hf ⊢
        obtain rfl := Except.error.inj hf
        exact ⟨rfl, rfl⟩

end Sftp

/-! ## Single files over scp -/

namespace Scp

open Session

variable {e : Setting}

theorem ok_of_because {α : Type} {m : Action α} {applies : Failure → Bool} {c : Cause} {w : World}
    {a : α} (h : (m.because applies c e w).1 = .ok a) : (m e w).1 = .ok a := by
  unfold Effect.because Effect.mapFailure at h
  rcases hm : m e w with ⟨x | b, w'⟩ <;> rw [hm] at h
  · cases h
  · exact h

theorem inert_get (path : String) : Inert e (get path) := by
  refine .bind (.perform _) fun _ => .bind (.of_eq fun _ => rfl) fun w => ?_
  exact .of_eq fun _ => by cases w.peer.content? path <;> rfl

theorem inert_receiving (target : Target) (remote : String) : Inert e (receiving target remote) := by
  refine inert_withConnection (.because ?_ _ _)
  exact .bind (.perform _) fun _ => (inert_get remote).andThenAlways (.perform _)

/-- What is copied from a host is the content of a file that is there. -/
theorem content_of_receiving {target : Target} {remote : String} {w : World} {content : Bytes}
    (h : (receiving target remote e w).1 = .ok content) :
    w.peer.get? remote = some (.file content) := by
  obtain ⟨_, w₁, hopened, h⟩ := Effect.exists_of_bind_ok h
  obtain ⟨_, w₂, hclient, h⟩ := Effect.exists_of_bind_ok (ok_of_because (Effect.ok_of_andThenAlways h))
  obtain ⟨_, w₃, hcall, h⟩ := Effect.exists_of_bind_ok (Effect.ok_of_andThenAlways h)
  have hpeer : w₃.peer = w.peer := by
    have hfirst := inert_openClient (e := e) target w
    have hsecond := Inert.perform (e := e) .scp w₁
    have hthird := Inert.perform (e := e) (.scpGet remote) w₂
    rw [hopened] at hfirst
    rw [hclient] at hsecond
    rw [hcall] at hthird
    exact ((hfirst.trans hsecond).trans hthird).peer
  rw [← Sftp.content?_eq_some, ← hpeer]
  rw [Effect.bind_apply, Effect.get_apply] at h
  dsimp only at h
  cases hc : w₃.peer.content? remote with
  | none => rw [hc] at h; cases h
  | some bytes => rw [hc] at h; cases h; rfl

/-- A copy of a file from a host that fails changes no files; one that succeeds changes the file at the
    local path only, which has the content of the remote one then. -/
theorem download_outcome (target : Target) (remote : String) (localPath : Path) (w : World) :
    match download target remote localPath e w with
    | (.error _, w') => w.SameFiles w'
    | (.ok (), w') => w'.peer = w.peer ∧ ∃ content, w.peer.get? remote = some (.file content) ∧
        w.files.Wrote e.workingDir localPath content w'.files := by
  have hasked := inert_receiving (e := e) target remote w
  rw [download_apply]
  cases hr : (receiving target remote e w).1 with
  | error f => exact hasked
  | ok content =>
    rcases localPath.writeFile_cases content e (receiving target remote e w).2 with
      ⟨x, hx⟩ | ⟨t, -, ht, hok⟩
    · simp only [hx]
      exact hasked
    · simp only [hok]
      rw [hasked.files] at ht
      exact ⟨hasked.peer, content, content_of_receiving hr, FileTree.wrote_of_write ht⟩

/-- A copy of a file to a host looks for nothing that could be missing or in the way. -/
theorem neverRefuses_upload (he : e.FaultsAreForeign) (target : Target) (localPath : Path)
    (remote : String) : NeverRefuses e (upload target localPath remote) := by
  refine (Path.neverRefuses_call rfl _).bind fun content =>
    failsOnly_withConnection he (fun _ h => h) ?_ target
  have hput : NeverRefuses e (put remote content) :=
    (neverRefuses_perform he _).bind fun _ => .modify _
  have hcopy := (neverRefuses_perform he .scp).bind fun _ =>
    failsOnly_andThenAlways he (fun _ h => h) hput .closeScp
  exact hcopy.because (fun _ _ _ => Failure.isRefusal_of_kind rfl rfl) fun _ hx _ => hx

end Scp

/-! ## Transfers -/

namespace Transfer

variable {e : Setting}

/-- What each way to transfer files leaves unchanged when it refuses. -/
theorem refusesCleanly_execute (he : e.FaultsAreForeign) (t : Transfer) :
    RefusesCleanly e t.execute := by
  obtain ⟨kind, target, remote, localPath⟩ := t
  cases kind with
  | scpDownload =>
    intro w f hf _
    have houtcome := Scp.download_outcome (e := e) target remote (Path.ofText localPath) w
    have hrun : Scp.download target remote (Path.ofText localPath) e w
        = (.error f, (Scp.download target remote (Path.ofText localPath) e w).2) := Prod.ext hf rfl
    rw [hrun] at houtcome
    exact houtcome
  | scpUpload => exact .of_neverRefuses (Scp.neverRefuses_upload he target _ _)
  | sftpDownload => exact Sftp.refusesCleanly_download he target _ _
  | sftpUpload => exact Sftp.refusesCleanly_upload he target _ _

/-- Where no fault is a failure of the workflow itself, a transfer that ends with the report that
    something is missing or in the way has changed neither the local files nor those of the peer. If it is
    an upload over sftp and something is missing, that is its local path, and nothing has been called. A
    copy of a single file from a host that fails changes no files, and one that succeeds changes the file
    at its local path only, which has the content of the remote file then. -/
theorem execute_refuses_cleanly (he : e.FaultsAreForeign) (t : Transfer) (w : World) :
    (∀ f, (t.execute e w).1 = .error f → f.isRefusal = true → w.SameFiles (t.execute e w).2) ∧
      (t.kind = .sftpUpload → ∀ f, (t.execute e w).1 = .error f → f.isA .notFound = true →
        f = .of (.onHost (.missing (Path.ofText t.localPath).toText)) ∧
          t.execute e w = (.error f, w)) ∧
      (t.kind = .scpDownload →
        match t.execute e w with
        | (.error _, w') => w.SameFiles w'
        | (.ok (), w') => w'.peer = w.peer ∧ ∃ content,
            w.peer.get? t.remotePath = some (.file content) ∧
            w.files.Wrote e.workingDir (Path.ofText t.localPath) content w'.files) := by
  refine ⟨refusesCleanly_execute he t w, ?_, ?_⟩
  · obtain ⟨kind, target, remote, localPath⟩ := t
    rintro rfl f hf hmissing
    exact Sftp.upload_of_notFound he hf hmissing
  · obtain ⟨kind, target, remote, localPath⟩ := t
    rintro rfl
    exact Scp.download_outcome target remote (Path.ofText localPath) w

theorem lostSetting_faultsAreForeign : Task.lostSetting.FaultsAreForeign := by
  intro past call x hx
  cases call <;> cases hx
  rfl

/-- A directory is in the way of one that is downloaded; an upload misses its local path; and a single
    file is copied in the place of another one. -/
theorem execute_refuses_cleanly_sample :
    let w := World.initial (.dir [("t", .empty), ("u", .file [1])])
      [("/r", .directory 493), ("/s", .file [65])]
    Task.lostSetting.FaultsAreForeign ∧
    ((execute ⟨.sftpDownload, .sample, "/r", "t"⟩ Task.lostSetting w).1
        = .error (.of (.onHost (.directoryThere "t"))) ∧
      w.SameFiles (execute ⟨.sftpDownload, .sample, "/r", "t"⟩ Task.lostSetting w).2) ∧
    execute ⟨.sftpUpload, .sample, "/s", "v"⟩ Task.lostSetting w
      = (.error (.of (.onHost (.missing "v"))), w) ∧
    (execute ⟨.scpDownload, .sample, "/s", "u"⟩ Task.lostSetting w).1 = .ok () ∧
      ∃ content, w.peer.get? "/s" = some (.file content) ∧
        w.files.Wrote [] (Path.ofText "u") content
          (execute ⟨.scpDownload, .sample, "/s", "u"⟩ Task.lostSetting w).2.files := by
  intro w
  have hdownload := execute_refuses_cleanly lostSetting_faultsAreForeign
    ⟨.sftpDownload, .sample, "/r", "t"⟩ w
  have hupload := execute_refuses_cleanly lostSetting_faultsAreForeign
    ⟨.sftpUpload, .sample, "/s", "v"⟩ w
  have hcopy := execute_refuses_cleanly lostSetting_faultsAreForeign
    ⟨.scpDownload, .sample, "/s", "u"⟩ w
  have hthere : (execute ⟨.sftpDownload, .sample, "/r", "t"⟩ Task.lostSetting w).1
      = .error (.of (.onHost (.directoryThere "t"))) := by decide +kernel
  have hmissing := hupload.2.1 rfl (.of (.onHost (.missing "v"))) rfl rfl
  have hcopied : (execute ⟨.scpDownload, .sample, "/s", "u"⟩ Task.lostSetting w).1 = .ok () := rfl
  exact ⟨lostSetting_faultsAreForeign, ⟨hthere, hdownload.1 _ hthere rfl⟩, hmissing.2, hcopied,
    (hcopy.2.2 rfl).2⟩

end Transfer

end Runbook
