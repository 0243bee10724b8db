import Runbook.Proofs.Parsed

set_option autoImplicit false

/-! # Tasks that hold no others

What the grammar of workflows asks of the fields of a mapping, and of the tasks that hold no other
tasks: local commands, messages, batches of remote commands and transfers. Each is accepted exactly
where it has the form that is asked for, and is refused for a problem of its own. -/

namespace Runbook

open Parsed

/-! ## Values and fields -/

namespace Node

/-- A text. -/
def IsText : Node → Prop
  | scalar (.text _) => True
  | _ => False

/-- A number. A truth value is none. -/
def IsNumber : Node → Prop
  | scalar (.int _) => True
  | _ => False

/-- A number of workers, of which there is at least one. -/
def IsWorkerCount : Node → Prop
  | scalar (.int n) => 1 ≤ n
  | _ => False

/-- Some exit codes: a list of numbers that is not empty. -/
def IsExitCodes : Node → Prop
  | list _ codes => codes ≠ [] ∧ ∀ code ∈ codes, code.IsNumber
  | _ => False

end Node

namespace Entries

/-- A field is there and of a form. -/
def Requires (es : Entries) (field : String) (p : Node → Prop) : Prop :=
  ∃ v, es.get? field = some v ∧ p v

/-- A field is of a form, if it is there. -/
def Admits (es : Entries) (field : String) (p : Node → Prop) : Prop :=
  ∀ v, es.get? field = some v → p v

/-- The fields that describe a remote host. -/
structure DescribesHost (es : Entries) : Prop where
  address : es.Requires "address" Node.IsText
  username : es.Requires "username" Node.IsText
  password : es.Requires "password" Node.IsText
  port : es.Admits "port" Node.IsNumber

/-- The fields that describe a command and the exit codes with which it succeeds. -/
structure DescribesCommand (es : Entries) : Prop where
  command : es.Requires "command" Node.IsText
  exitCodes : es.Admits "exit_codes" Node.IsExitCodes

variable {es : Entries} {field : String} {d : TaskDefaults}

theorem accepted_text? : Accepted (es.text? field) ↔ es.Admits field Node.IsText := by
  unfold text? Admits
  split
  · next h => simp [h]
  · next s h => simp [h, Node.IsText]
  · next v hv h => simp [h, Node.IsText]

theorem accepted_text : Accepted (es.text field) ↔ es.Requires field Node.IsText := by
  unfold text text? Requires
  cases h : es.get? field with
  | none => simp [accepted_bind]
  | some v =>
    split
    · next heq => cases heq
    · next s heq =>
      cases heq
      simp [accepted_bind, Node.IsText]
    · next v' hv' heq =>
      cases heq
      simp [accepted_bind, Node.IsText]

theorem accepted_number? : Accepted (es.number? field) ↔ es.Admits field Node.IsNumber := by
  unfold number? Admits
  split
  · next h => simp [h]
  · next k h => simp [h, Node.IsNumber]
  · next v hv h => simp [h, Node.IsNumber]

theorem accepted_exitCode {n : Node} : Accepted n.exitCode ↔ n.IsNumber := by
  unfold Node.exitCode Node.IsNumber
  split <;> simp

theorem accepted_exitCodes? :
    Accepted es.exitCodes? ↔ es.Admits "exit_codes" Node.IsExitCodes := by
  unfold exitCodes? Admits
  cases h : es.get? "exit_codes" with
  | none => simp
  | some v =>
    cases v with
    | list place codes =>
      by_cases hc : codes = []
      · simp [hc, Node.requireItems, accepted_bind, Node.IsExitCodes]
      · have hall : Accepted (all Node.exitCode codes) ↔ ∀ code ∈ codes, code.IsNumber := by
          rw [accepted_all]
          exact forall₂_congr fun _ _ => accepted_exitCode
        simp [hc, Node.requireItems, accepted_bind, Node.IsExitCodes, hall]
    | _ => simp [Node.requireItems, accepted_bind, Node.IsExitCodes]

theorem accepted_target : Accepted (es.target d) ↔ es.DescribesHost := by
  simp only [target, accepted_bind, accepted_pure, and_true, exists_and_right, exists_eq_ok,
    accepted_text, accepted_number?]
  constructor
  · rintro ⟨hport, haddress, husername, hpassword⟩
    exact ⟨haddress, husername, hpassword, hport⟩
  · intro h
    exact ⟨h.port, h.address, h.username, h.password⟩

end Entries

/-! ## Forms of tasks -/

namespace Node

/-- What describes a local command: a text, or a mapping with the text at `command`. -/
def IsLocalCommand : Node → Prop
  | scalar (.text _) => True
  | map _ es => Entries.DescribesCommand es ∧ Entries.Admits es "work_dir" IsText
  | _ => False

/-- What describes a transfer. -/
def IsTransfer : Node → Prop
  | map _ es => Entries.DescribesHost es ∧ Entries.Requires es "remote_path" IsText ∧
      Entries.Requires es "local_path" IsText
  | _ => False

/-- What describes a remote command: a text, or a mapping with the text at `command`. The whole of
    it may stand in a mapping at `command` again. -/
def IsRemoteCommand : Node → Prop
  | scalar (.text _) => True
  | map _ es => Entries.DescribesCommand es ∨
      ∃ place inner, Entries.get? es "command" = some (map place inner) ∧
        Entries.DescribesCommand inner
  | _ => False

/-- A list of remote commands. -/
def IsCommandList : Node → Prop
  | list _ items => ∀ item ∈ items, item.IsRemoteCommand
  | _ => False

/-- What describes a batch of remote commands. -/
def IsBatch : Node → Prop
  | map _ es => Entries.DescribesHost es ∧ Entries.Requires es "commands" IsCommandList
  | _ => False

variable {d : TaskDefaults} {n : Node}

theorem requireItems_eq_ok {what : String} {items : List Node} :
    n.requireItems what = .ok items ↔ ∃ place, n = list place items := by
  cases n <;> simp [requireItems]

theorem requireEntries_eq_ok {what : String} {es : Entries} :
    n.requireEntries what = .ok es ↔ ∃ place, n = map place es := by
  cases n <;> simp [requireEntries]

theorem accepted_localCommand {shell : Shell} :
    Accepted (n.localCommand shell) ↔ n.IsLocalCommand := by
  cases n with
  | map place es =>
    simp only [localCommand, requireEntries, IsLocalCommand, accepted_bind, Except.ok.injEq,
      exists_eq_left', accepted_pure, and_true, exists_and_right, exists_eq_ok,
      Entries.accepted_text, Entries.accepted_text?, Entries.accepted_exitCodes?]
    constructor
    · rintro ⟨hcommand, hdir, hcodes⟩
      exact ⟨⟨hcommand, hcodes⟩, hdir⟩
    · rintro ⟨h, hdir⟩
      exact ⟨h.command, hdir, h.exitCodes⟩
  | scalar s =>
    cases s <;> simp [localCommand, requireEntries, accepted_bind, IsLocalCommand]
  | _ => simp [localCommand, requireEntries, accepted_bind, IsLocalCommand]

theorem accepted_message : Accepted n.message ↔ n.IsText := by
  unfold message IsText
  split <;> simp

theorem accepted_transfer {kind : TransferKind} : Accepted (n.transfer d kind) ↔ n.IsTransfer := by
  cases n with
  | map place es =>
    simp [transfer, requireEntries, accepted_bind, IsTransfer, exists_eq_ok,
      Entries.accepted_text, Entries.accepted_target]
  | _ => simp [transfer, requireEntries, accepted_bind, IsTransfer]

/-- The mapping at `command` is taken in place of the one around it. -/
theorem describesCommand_commandEntries {es : Entries} :
    Entries.DescribesCommand (commandEntries es) ↔ es.DescribesCommand ∨
      ∃ place inner, es.get? "command" = some (map place inner) ∧
        Entries.DescribesCommand inner := by
  unfold commandEntries
  split
  · next place inner h =>
    constructor
    · intro hinner
      exact Or.inr ⟨place, inner, h, hinner⟩
    · rintro (⟨⟨v, hv, htext⟩, -⟩ | ⟨place', inner', hv, hinner⟩)
      · rw [h] at hv
        cases hv
        exact htext.elim
      · rw [h] at hv
        cases hv
        exact hinner
  · next hmap =>
    constructor
    · exact Or.inl
    · rintro (h | ⟨place, inner, hv, -⟩)
      · exact h
      · exact (hmap place inner hv).elim

theorem accepted_remoteCommand : Accepted n.remoteCommand ↔ n.IsRemoteCommand := by
  cases n with
  | map place es =>
    rw [IsRemoteCommand, ← describesCommand_commandEntries]
    simp only [remoteCommand, requireEntries, accepted_bind, Except.ok.injEq, exists_eq_left',
      accepted_pure, and_true, exists_and_right, exists_eq_ok, Entries.accepted_text,
      Entries.accepted_exitCodes?]
    exact ⟨fun h => ⟨h.1, h.2⟩, fun h => ⟨h.command, h.exitCodes⟩⟩
  | scalar s => cases s <;> simp [remoteCommand, requireEntries, accepted_bind, IsRemoteCommand]
  | _ => simp [remoteCommand, requireEntries, accepted_bind, IsRemoteCommand]

theorem accepted_commandList {what : String} :
    Accepted (n.requireItems what >>= fun items => all remoteCommand items) ↔ n.IsCommandList := by
  cases n with
  | list place items =>
    have hall : Accepted (all remoteCommand items) ↔ ∀ item ∈ items, item.IsRemoteCommand := by
      rw [accepted_all]
      exact forall₂_congr fun _ _ => accepted_remoteCommand
    simpa [requireItems, accepted_bind, IsCommandList] using hall
  | _ => simp [requireItems, accepted_bind, IsCommandList]

theorem accepted_batch : Accepted (n.batch d) ↔ n.IsBatch := by
  cases n with
  | map place es =>
    rw [IsBatch, ← Entries.accepted_target (d := d)]
    change Accepted (Entries.target d es >>= _) ↔ _
    refine accepted_bind_of_forall fun target => ?_
    cases hcommands : Entries.get? es "commands" with
    | none => simp [Entries.Requires, hcommands]
    | some v =>
      have hv : Accepted (v.requireItems "commands" >>= fun items => all remoteCommand items) ↔
          v.IsCommandList := accepted_commandList
      rw [accepted_bind] at hv
      simpa [Entries.Requires, hcommands, accepted_bind] using hv
  | _ => simp [batch, requireEntries, accepted_bind, IsBatch]

theorem accepted_threads {es : Entries} :
    Accepted (threads d es) ↔ es.Admits "threads" IsWorkerCount := by
  unfold threads Entries.number? Entries.Admits
  split
  · next h => simp [h, accepted_bind]
  · next k h =>
    by_cases hk : k < 1
    · simp [h, hk, accepted_bind, IsWorkerCount]
    · simp [h, hk, accepted_bind, IsWorkerCount]
      omega
  · next v hv h => simp [h, accepted_bind, IsWorkerCount]

end Node

/-! ## What can be shown -/

namespace Node

theorem areWritable_iff {items : List Node} :
    areWritable items = true ↔ ∀ n ∈ items, n.isWritable = true := by
  induction items with
  | nil => simp [areWritable]
  | cons n items ih => simp [areWritable, ih]

theorem entriesAreWritable_iff {es : List (Scalar × Node)} :
    entriesAreWritable es = true ↔ ∀ x ∈ es, x.1.isWritable = true ∧ x.2.isWritable = true := by
  induction es with
  | nil => simp [entriesAreWritable]
  | cons x es ih => simp [entriesAreWritable, ih, and_assoc]

/-- A node can be shown, or a condition on failures holds of the failure to show one. -/
def ShownOr (P : Failure → Prop) (n : Node) : Prop :=
  n.isWritable = true ∨ P (.of (.grammar .unwritable))

variable {P : Failure → Prop} {place : Option Nat} {n v : Node} {items : List Node} {es : Entries}

theorem ShownOr.item (h : (list place items).ShownOr P) (hn : n ∈ items) : n.ShownOr P :=
  h.imp_left fun hlist => areWritable_iff.1 (by rwa [isWritable] at hlist) n hn

theorem ShownOr.entry {x : Scalar × Node} (h : (map place es).ShownOr P) (hx : x ∈ es) :
    (scalar x.1).ShownOr P ∧ x.2.ShownOr P := by
  rcases h with h | h
  · rw [isWritable] at h
    obtain ⟨hkey, hvalue⟩ := entriesAreWritable_iff.1 h x hx
    exact ⟨.inl (by rwa [isWritable]), .inl hvalue⟩
  · exact ⟨.inr h, .inr h⟩

theorem ShownOr.field {k : String} (h : (map place es).ShownOr P) (hv : es.get? k = some v) :
    v.ShownOr P := by
  obtain ⟨x, hx, rfl⟩ := Option.map_eq_some_iff.1 hv
  exact (h.entry (List.mem_of_find?_eq_some hx)).2

/-- The failure to show a node is about no cycle. -/
theorem shownOr_noCycle (n : Node) : n.ShownOr fun f => ∀ c ∈ f.links, c.kind ≠ .jobCycle :=
  .inr (by simp [Cause.kind, GrammarProblem.kind])

theorem ShownOr.of_requireEntries {what : String} (h : n.ShownOr P)
    (hes : n.requireEntries what = .ok es) : (map none es).ShownOr P := by
  cases n <;> cases hes
  exact h

theorem ShownOr.of_requireItems {what : String} (h : n.ShownOr P)
    (hitems : n.requireItems what = .ok items) : ∀ item ∈ items, item.ShownOr P := by
  cases n <;> cases hitems
  exact fun item hitem => h.item hitem

end Node

/-! ## Refusals -/

section

variable {P : Failure → Prop} (hP : HoldsOfProblems P)
include hP

namespace Node

theorem refusesWith_showing {α : Type} {n : Node} {say : String → GrammarProblem}
    (hn : n.ShownOr P) (h : ∀ shown, IsOwnProblem (say shown))
    (hcontext : ∀ shown, (say shown).kind ≠ .parse) :
    RefusesWith P (refuse (n.showing say .unwritable) : Parsed α) := by
  refine refusesWith_refuse ?_
  unfold showing
  split
  · exact hP _ (h _) (hcontext _)
  · next hwritable => exact hn.resolve_left hwritable

theorem refusesWith_requireEntries (n : Node) (what : String) :
    RefusesWith P (n.requireEntries what) := by
  cases n <;>
    first | exact refusesWith_ok _ | exact refusesWith_refuse (hP _ ⟨nofun, nofun, nofun⟩ nofun)

theorem refusesWith_requireItems (n : Node) (what : String) :
    RefusesWith P (n.requireItems what) := by
  cases n <;>
    first | exact refusesWith_ok _ | exact refusesWith_refuse (hP _ ⟨nofun, nofun, nofun⟩ nofun)

theorem refusesWith_exitCode {n : Node} (hn : n.ShownOr P) : RefusesWith P n.exitCode := by
  unfold exitCode
  split
  · exact refusesWith_ok _
  · exact refusesWith_showing hP hn (fun _ => ⟨nofun, nofun, nofun⟩) fun _ => nofun

end Node

namespace Entries

theorem refusesWith_text? (es : Entries) (field : String) : RefusesWith P (es.text? field) := by
  unfold text?
  split
  · exact refusesWith_ok _
  · exact refusesWith_ok _
  · exact refusesWith_refuse (hP _ ⟨nofun, nofun, nofun⟩ nofun)

theorem refusesWith_text (es : Entries) (field : String) : RefusesWith P (es.text field) := by
  refine (refusesWith_text? hP es field).bind fun s _ => ?_
  cases s with
  | some s => exact refusesWith_pure s
  | none => exact refusesWith_refuse (hP _ ⟨nofun, nofun, nofun⟩ nofun)

theorem refusesWith_number? (es : Entries) (field : String) :
    RefusesWith P (es.number? field) := by
  unfold number?
  split
  · exact refusesWith_ok _
  · exact refusesWith_ok _
  · exact refusesWith_refuse (hP _ ⟨nofun, nofun, nofun⟩ nofun)

theorem refusesWith_exitCodes? {es : Entries} (hes : (Node.map none es).ShownOr P) :
    RefusesWith P es.exitCodes? := by
  unfold exitCodes?
  split
  · exact refusesWith_ok _
  · next value hvalue =>
    refine (Node.refusesWith_requireItems hP _ _).bind fun codes hcodes => ?_
    split
    · exact refusesWith_refuse (hP _ ⟨nofun, nofun, nofun⟩ nofun)
    · have hshown := (hes.field hvalue).of_requireItems hcodes
      have hall : RefusesWith P (Parsed.all Node.exitCode codes) :=
        refusesWith_all fun code hcode => Node.refusesWith_exitCode hP (hshown code hcode)
      exact hall.bind fun _ _ => refusesWith_pure _

theorem refusesWith_target (d : TaskDefaults) (es : Entries) : RefusesWith P (es.target d) := by
  refine (refusesWith_number? hP es _).bind fun _ _ => ?_
  refine (refusesWith_text hP es _).bind fun _ _ => ?_
  refine (refusesWith_text hP es _).bind fun _ _ => ?_
  exact (refusesWith_text hP es _).bind fun _ _ => refusesWith_pure _

end Entries

namespace Node

variable {n : Node} (hn : n.ShownOr P)
include hn

theorem refusesWith_localCommand (shell : Shell) : RefusesWith P (n.localCommand shell) := by
  unfold localCommand
  split
  · exact refusesWith_ok _
  · refine (refusesWith_requireEntries hP _ _).bind fun es hes => ?_
    refine (Entries.refusesWith_text hP es _).bind fun _ _ => ?_
    refine (Entries.refusesWith_text? hP es _).bind fun _ _ => ?_
    exact (Entries.refusesWith_exitCodes? hP (hn.of_requireEntries hes)).bind fun _ _ =>
      refusesWith_pure _

theorem refusesWith_message : RefusesWith P n.message := by
  unfold message
  split
  · exact refusesWith_ok _
  · exact refusesWith_showing hP hn (fun _ => ⟨nofun, nofun, nofun⟩) fun _ => nofun

theorem refusesWith_remoteCommand : RefusesWith P n.remoteCommand := by
  unfold remoteCommand
  split
  · exact refusesWith_ok _
  · refine (refusesWith_requireEntries hP _ _).bind fun es hes => ?_
    have hcommand : (map none (commandEntries es)).ShownOr P := by
      unfold commandEntries
      split
      · next hinner =>
        refine ((hn.of_requireEntries hes).field hinner).imp_left fun hwritable => ?_
        rwa [isWritable] at hwritable ⊢
      · exact hn.of_requireEntries hes
    refine (Entries.refusesWith_text hP _ _).bind fun _ _ => ?_
    exact (Entries.refusesWith_exitCodes? hP hcommand).bind fun _ _ => refusesWith_pure _

theorem refusesWith_batch (d : TaskDefaults) : RefusesWith P (n.batch d) := by
  refine (refusesWith_requireEntries hP _ _).bind fun es hes => ?_
  refine (Entries.refusesWith_target hP d es).bind fun _ _ => ?_
  split
  · exact refusesWith_refuse (hP _ ⟨nofun, nofun, nofun⟩ nofun)
  · next commands hcommands =>
    refine (refusesWith_requireItems hP _ _).bind fun items hitems => ?_
    have hshown := ((hn.of_requireEntries hes).field hcommands).of_requireItems hitems
    have hall : RefusesWith P (Parsed.all remoteCommand items) :=
      refusesWith_all fun item hitem => refusesWith_remoteCommand hP (hshown item hitem)
    exact hall.bind fun _ _ => refusesWith_pure _

omit hn

theorem refusesWith_transfer (d : TaskDefaults) (kind : TransferKind) (n : Node) :
    RefusesWith P (n.transfer d kind) := by
  refine (refusesWith_requireEntries hP _ _).bind fun es _ => ?_
  refine (Entries.refusesWith_target hP d es).bind fun _ _ => ?_
  refine (Entries.refusesWith_text hP es _).bind fun _ _ => ?_
  exact (Entries.refusesWith_text hP es _).bind fun _ _ => refusesWith_pure _

theorem refusesWith_threads (d : TaskDefaults) (es : Entries) : RefusesWith P (threads d es) := by
  refine (Entries.refusesWith_number? hP es _).bind fun k _ => ?_
  split
  · exact refusesWith_pure _
  · split
    · exact refusesWith_refuse (hP _ ⟨nofun, nofun, nofun⟩ nofun)
    · exact refusesWith_pure _

end Node

end

end Runbook
