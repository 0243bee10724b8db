import Runbook.Proofs.FirstEntries
import Runbook.Proofs.IgnoredBlock
import Runbook.Proofs.JobNames

set_option autoImplicit false

/-! # The trees of an accepted document

What is true of every task that an accepted document becomes. Each task comes from a node that is met
in the document, and is well formed because the grammar has checked that node: a group is not empty and
has a worker, a command has a word, and the exit codes that are given are not none at all. The numbers
of a task are those that stand in its node, where a truth value is no number. Below a job no job of
its name occurs, since it would have led back to itself. -/

namespace Runbook

open Parsed Relation

/-! ## Words -/

theorem Text.words_ne_nil (s : String) : Text.words s ≠ [] :=
  mt List.map_eq_nil_iff.1 (Text.splitAtChar_ne_nil ' ' s.toList)

theorem Text.space_not_mem_words {s word : String} (h : word ∈ Text.words s) :
    ' ' ∉ word.toList := by
  obtain ⟨piece, hpiece, rfl⟩ := List.mem_map.1 h
  rw [String.toList_ofList]
  exact Text.sep_not_mem_splitAtChar ' ' s.toList piece hpiece

/-! ## The numbers that a node gives -/

/-- A list is accepted part by part, in order. -/
theorem Parsed.all_eq_ok {α β : Type} {f : α → Parsed β} {as : List α} {bs : List β} :
    all f as = .ok bs ↔ List.Forall₂ (fun a b => f a = .ok b) as bs := by
  induction as generalizing bs with
  | nil => cases bs <;> simp [all]
  | cons a as ih =>
    rw [all, List.forall₂_cons_left_iff]
    simp only [bind_eq_ok, pure_eq_ok, ih]
    constructor
    · rintro ⟨b, hb, bs, hbs, rfl⟩
      exact ⟨b, bs, hb, hbs, rfl⟩
    · rintro ⟨b, bs, hb, hbs, rfl⟩
      exact ⟨b, hb, bs, hbs, rfl⟩

namespace Node

variable {n : Node}

/-- What is accepted as an exit code is a number. -/
theorem exitCode_eq_ok {code : Int} : n.exitCode = .ok code ↔ n = scalar (.int code) := by
  unfold exitCode
  split
  · simp
  · next hne => simpa using hne code

theorem eq_map_of_exitCodes {items : List Node} {codes : List Int}
    (h : all exitCode items = .ok codes) : items = codes.map fun code => scalar (.int code) := by
  rw [all_eq_ok] at h
  induction h with
  | nil => rfl
  | cons hcode _ ih => rw [exitCode_eq_ok.1 hcode, ih, List.map_cons]

end Node

namespace Entries

variable {es : Entries} {d : TaskDefaults}

/-- A number is the one that a field gives, or the default where the field is missing. -/
def Gives (es : Entries) (field : String) (default number : Int) : Prop :=
  (es.get? field = none ∧ number = default) ∨ es.get? field = some (.scalar (.int number))

/-- Some exit codes are those that a mapping gives, if it gives any. They are not none at all. -/
def GivesCodes (es : Entries) (allowed : Option (List Int)) : Prop :=
  (es.get? "exit_codes" = none ∧ allowed = none) ∨ ∃ place codes,
    es.get? "exit_codes" = some (.list place (codes.map fun code => .scalar (.int code))) ∧
      codes ≠ [] ∧ allowed = some codes

theorem GivesCodes.ne_some_nil {allowed : Option (List Int)} (h : es.GivesCodes allowed) :
    allowed ≠ some [] := by
  rcases h with ⟨-, rfl⟩ | ⟨_, codes, -, hne, rfl⟩
  · exact nofun
  · exact fun h => hne (Option.some.inj h)

theorem gives_of_number? {field : String} (default : Int) {given : Option Int}
    (h : es.number? field = .ok given) : es.Gives field default (given.getD default) := by
  unfold number? at h
  split at h
  · next hget =>
    cases h
    exact .inl ⟨hget, rfl⟩
  · next number hget =>
    cases h
    exact .inr hget
  · exact (refuse_ne_ok _ _ h).elim

theorem givesCodes_of_exitCodes? {allowed : Option (List Int)} (h : es.exitCodes? = .ok allowed) :
    es.GivesCodes allowed := by
  unfold exitCodes? at h
  split at h
  · next hget =>
    cases h
    exact .inl ⟨hget, rfl⟩
  · next value hget =>
    obtain ⟨items, hitems, hrest⟩ := bind_eq_ok.1 h
    obtain ⟨place, rfl⟩ := Node.requireItems_eq_ok.1 hitems
    split at hrest
    · exact (refuse_ne_ok _ _ hrest).elim
    · next hne =>
      obtain ⟨codes, hcodes, hpure⟩ := bind_eq_ok.1 hrest
      cases hpure
      obtain rfl := Node.eq_map_of_exitCodes hcodes
      refine .inr ⟨place, codes, hget, ?_, rfl⟩
      rintro rfl
      exact hne rfl

theorem gives_of_target {target : Target} (h : es.target d = .ok target) :
    es.Gives "port" d.port target.port := by
  unfold Entries.target at h
  obtain ⟨port?, hport, h⟩ := bind_eq_ok.1 h
  obtain ⟨address, -, h⟩ := bind_eq_ok.1 h
  obtain ⟨username, -, h⟩ := bind_eq_ok.1 h
  obtain ⟨password, -, h⟩ := bind_eq_ok.1 h
  cases h
  exact gives_of_number? d.port hport

end Entries

namespace Node

variable {d : TaskDefaults} {reference : String → Parsed Task} {config : Node} {t : Task}

/-! ## The numbers of a task -/

/-- The exit codes of a local command are those that its description gives. -/
def GivesCodes : Node → Option (List Int) → Prop
  | scalar (.text _), allowed => allowed = none
  | map _ es, allowed => Entries.GivesCodes es allowed
  | _, _ => False

/-- The exit codes of a remote command are those that its description gives, or zero. -/
def GivesRemoteCodes : Node → List Int → Prop
  | scalar (.text _), allowed => allowed = [0]
  | map _ es, allowed => ∃ given, (commandEntries es).GivesCodes given ∧ allowed = given.getD [0]
  | _, _ => False

/-- The commands of a batch are those of a field, with the exit codes that each gives. -/
def GivesCommands (es : Entries) (commands : List RemoteCommand) : Prop :=
  ∃ place items, es.get? "commands" = some (list place items) ∧
    List.Forall₂ (fun item c => GivesRemoteCodes item c.allowed) items commands

/-- The number of workers of a group is the one that its description gives. -/
def GivesThreads (d : TaskDefaults) : Node → Int → Prop
  | list _ _, threads => threads = d.threads
  | map _ es, threads => Entries.Gives es "threads" d.threads threads
  | _, _ => False

/-- The numbers of a task are those that a node gives, which describes it. -/
def GivesNumbers (d : TaskDefaults) (config : Node) : Task → Prop
  | .parallel _ threads => config.GivesThreads d threads
  | .run c => config.GivesCodes c.allowed
  | .ssh target commands => ∃ place es, config = map place es ∧
      Entries.Gives es "port" d.port target.port ∧ GivesCommands es commands
  | .transfer t => ∃ place es, config = map place es ∧
      Entries.Gives es "port" d.port t.target.port
  | .onPlatform _ _ | .print _ => True
  | .job _ _ | .probe _ _ => False

theorem GivesRemoteCodes.ne_nil {n : Node} {allowed : List Int} (h : n.GivesRemoteCodes allowed) :
    allowed ≠ [] := by
  unfold GivesRemoteCodes at h
  split at h
  · rw [h]
    exact List.cons_ne_nil _ _
  · obtain ⟨given, hgiven, rfl⟩ := h
    cases given with
    | none => exact List.cons_ne_nil _ _
    | some codes => exact fun h => hgiven.ne_some_nil (congrArg some h)
  · exact h.elim

theorem GivesCommands.ne_nil {es : Entries} {commands : List RemoteCommand}
    (h : GivesCommands es commands) : ∀ c ∈ commands, c.allowed ≠ [] := by
  obtain ⟨_, items, -, hgives⟩ := h
  induction hgives with
  | nil => simp
  | cons hitem _ ih => exact List.forall_mem_cons.2 ⟨hitem.ne_nil, ih⟩

end Node

/-! ## Trees -/

/-- What a task of a workflow is like: a group holds a task and has a worker, a local command has a word
    and no word a space, and the exit codes of a command are not none at all. A probe is no task of a
    workflow. -/
def Task.IsWellFormed : Task → Prop
  | parallel tasks threads => tasks ≠ [] ∧ 1 ≤ threads
  | run c => c.words ≠ [] ∧ (∀ word ∈ c.words, ' ' ∉ word.toList) ∧ c.allowed ≠ some []
  | ssh _ commands => ∀ c ∈ commands, c.allowed ≠ []
  | probe _ _ => False
  | job _ _ | onPlatform _ _ | print _ | transfer _ => True

namespace Node

variable {d : TaskDefaults} {reference : String → Parsed Task} {config : Node} {t : Task}

theorem run_of_localCommand {shell : Shell} {c : LocalCommand}
    (h : config.localCommand shell = .ok c) :
    (Task.run c).IsWellFormed ∧ config.GivesNumbers d (.run c) := by
  have hparts : (∃ s, c.words = Text.words s) ∧ config.GivesCodes c.allowed := by
    unfold localCommand at h
    split at h
    · cases h
      exact ⟨⟨_, rfl⟩, rfl⟩
    · obtain ⟨es, hes, hfields⟩ := bind_eq_ok.1 h
      obtain ⟨place, rfl⟩ := requireEntries_eq_ok.1 hes
      obtain ⟨command, -, hdir⟩ := bind_eq_ok.1 hfields
      obtain ⟨workDir, -, hcodes⟩ := bind_eq_ok.1 hdir
      obtain ⟨allowed, hallowed, hpure⟩ := bind_eq_ok.1 hcodes
      cases hpure
      exact ⟨⟨command, rfl⟩, Entries.givesCodes_of_exitCodes? hallowed⟩
  obtain ⟨⟨s, hwords⟩, hcodes⟩ := hparts
  refine ⟨⟨hwords ▸ Text.words_ne_nil s, fun word hword => ?_, ?_⟩, hcodes⟩
  · exact Text.space_not_mem_words (hwords ▸ hword)
  · unfold GivesCodes at hcodes
    split at hcodes
    · rw [hcodes]
      exact nofun
    · exact hcodes.ne_some_nil
    · exact hcodes.elim

theorem givesRemoteCodes_of_remoteCommand {c : RemoteCommand} (h : config.remoteCommand = .ok c) :
    config.GivesRemoteCodes c.allowed := by
  unfold remoteCommand at h
  split at h
  · cases h
    rfl
  · obtain ⟨es, hes, hfields⟩ := bind_eq_ok.1 h
    obtain ⟨place, rfl⟩ := requireEntries_eq_ok.1 hes
    obtain ⟨command, -, hcodes⟩ := bind_eq_ok.1 hfields
    obtain ⟨allowed, hallowed, hpure⟩ := bind_eq_ok.1 hcodes
    cases hpure
    exact ⟨allowed, Entries.givesCodes_of_exitCodes? hallowed, rfl⟩

theorem ssh_of_batch {target : Target} {commands : List RemoteCommand}
    (h : config.batch d = .ok (target, commands)) :
    (Task.ssh target commands).IsWellFormed ∧ config.GivesNumbers d (.ssh target commands) := by
  unfold batch at h
  obtain ⟨es, hes, hfields⟩ := bind_eq_ok.1 h
  obtain ⟨place, rfl⟩ := requireEntries_eq_ok.1 hes
  obtain ⟨target', htarget, hfield⟩ := bind_eq_ok.1 hfields
  split at hfield
  · exact (refuse_ne_ok _ _ hfield).elim
  · next value hget =>
    obtain ⟨items, hitems, hlist⟩ := bind_eq_ok.1 hfield
    obtain ⟨place', rfl⟩ := requireItems_eq_ok.1 hitems
    obtain ⟨commands', hcommands, hpure⟩ := bind_eq_ok.1 hlist
    cases hpure
    have hgives : GivesCommands es commands := ⟨place', items, hget,
      (all_eq_ok.1 hcommands).imp fun _ _ => givesRemoteCodes_of_remoteCommand⟩
    exact ⟨hgives.ne_nil, place, es, rfl, Entries.gives_of_target htarget, hgives⟩

theorem transfer_of_transfer {kind : TransferKind} {s : Transfer}
    (h : config.transfer d kind = .ok s) :
    (Task.transfer s).IsWellFormed ∧ config.GivesNumbers d (.transfer s) := by
  unfold transfer at h
  obtain ⟨es, hes, hfields⟩ := bind_eq_ok.1 h
  obtain ⟨place, rfl⟩ := requireEntries_eq_ok.1 hes
  obtain ⟨target, htarget, hpaths⟩ := bind_eq_ok.1 hfields
  obtain ⟨remotePath, -, hpath⟩ := bind_eq_ok.1 hpaths
  obtain ⟨localPath, -, hpure⟩ := bind_eq_ok.1 hpath
  cases hpure
  exact ⟨trivial, place, es, rfl, Entries.gives_of_target htarget⟩

/-- The number of workers of a group, where it is not what is missing that gives it, is at least one. -/
theorem gives_of_threads (hd : 1 ≤ d.threads) {es : Entries} {threads : Int}
    (h : Node.threads d es = .ok threads) :
    1 ≤ threads ∧ Entries.Gives es "threads" d.threads threads := by
  unfold Node.threads at h
  obtain ⟨given, hgiven, h⟩ := bind_eq_ok.1 h
  have hgives := Entries.gives_of_number? d.threads hgiven
  cases given with
  | none =>
    cases h
    exact ⟨hd, hgives⟩
  | some n =>
    dsimp only at h
    split at h
    · exact (refuse_ne_ok _ _ h).elim
    · next hn =>
      cases h
      exact ⟨by omega, hgives⟩

/-- The tasks of a group that is not empty are not none. -/
theorem parallel_of_tasks {threads : Int} {items : List Node}
    (h : (if items.isEmpty then refuse .parallelEmpty
      else (tasks d reference "parallel" 0 items).map (.parallel · threads)) = .ok t) :
    ∃ ts, t = .parallel ts threads ∧ ts ≠ [] := by
  split at h
  · exact (refuse_ne_ok _ _ h).elim
  · next hne =>
    obtain ⟨ts, hts, rfl⟩ := map_eq_ok.1 h
    refine ⟨ts, rfl, ?_⟩
    rintro rfl
    cases tasks_eq_ok.1 hts
    exact hne rfl

theorem parallel_of_group (hd : 1 ≤ d.threads) (h : group d reference config = .ok t) :
    t.IsWellFormed ∧ config.GivesNumbers d t := by
  cases config with
  | list place items =>
    obtain ⟨ts, rfl, hne⟩ := parallel_of_tasks (by simpa only [group] using h)
    exact ⟨⟨hne, hd⟩, rfl⟩
  | map place es =>
    rw [group] at h
    obtain ⟨threads, hthreads, h⟩ := bind_eq_ok.1 h
    obtain ⟨hone, hgives⟩ := gives_of_threads hd hthreads
    rw [groupField_eq] at h
    split at h
    · exact (refuse_ne_ok _ _ h).elim
    · next value _ =>
      cases value with
      | list place' items =>
        obtain ⟨ts, rfl, hne⟩ := parallel_of_tasks (by simpa only [groupTasks] using h)
        exact ⟨⟨hne, hone⟩, hgives⟩
      | _ => exact (refuse_ne_ok _ _ h).elim
  | _ => exact (refuse_ne_ok _ _ h).elim

theorem onPlatform_of_branch {platform : Platform} (h : branch d reference platform config = .ok t) :
    t.IsWellFormed ∧ config.GivesNumbers d t := by
  cases config with
  | list place items =>
    rw [branch] at h
    obtain ⟨ts, -, rfl⟩ := map_eq_ok.1 h
    exact ⟨trivial, trivial⟩
  | _ => exact (refuse_ne_ok _ _ h).elim

/-- What a node is read as that is no reference is well formed, and has the numbers that the description
    in the node gives. -/
theorem wellFormed_of_task (hd : 1 ≤ d.threads) {place : Option Nat} {kind : String}
    {rest : Entries} (h : task d reference (map place ((.text kind, config) :: rest)) = .ok t) :
    t.IsWellFormed ∧ config.GivesNumbers d t := by
  have hrun : ∀ {shell : Shell}, inside (.inKind kind) ((config.localCommand shell).map .run) = .ok t →
      t.IsWellFormed ∧ config.GivesNumbers d t := by
    intro shell h
    obtain ⟨c, hc, rfl⟩ := map_eq_ok.1 (inside_eq_ok.1 h)
    exact run_of_localCommand hc
  have htransfer : ∀ {how : TransferKind},
      inside (.inKind kind) ((config.transfer d how).map .transfer) = .ok t →
        t.IsWellFormed ∧ config.GivesNumbers d t := by
    intro how h
    obtain ⟨s, hs, rfl⟩ := map_eq_ok.1 (inside_eq_ok.1 h)
    exact transfer_of_transfer hs
  rw [task] at h
  -- one kind after the other, in the order in which a task tries them
  rcases ite_eq_iff.1 h with ⟨-, h⟩ | ⟨-, h⟩
  · exact hrun h
  rcases ite_eq_iff.1 h with ⟨-, h⟩ | ⟨-, h⟩
  · exact hrun h
  rcases ite_eq_iff.1 h with ⟨-, h⟩ | ⟨-, h⟩
  · exact onPlatform_of_branch (inside_eq_ok.1 h)
  rcases ite_eq_iff.1 h with ⟨-, h⟩ | ⟨-, h⟩
  · exact onPlatform_of_branch (inside_eq_ok.1 h)
  rcases ite_eq_iff.1 h with ⟨-, h⟩ | ⟨-, h⟩
  · obtain ⟨⟨target, commands⟩, hbatch, rfl⟩ := map_eq_ok.1 (inside_eq_ok.1 h)
    exact ssh_of_batch hbatch
  rcases ite_eq_iff.1 h with ⟨-, h⟩ | ⟨-, h⟩
  · exact htransfer h
  rcases ite_eq_iff.1 h with ⟨-, h⟩ | ⟨-, h⟩
  · exact htransfer h
  rcases ite_eq_iff.1 h with ⟨-, h⟩ | ⟨-, h⟩
  · exact htransfer h
  rcases ite_eq_iff.1 h with ⟨-, h⟩ | ⟨-, h⟩
  · exact htransfer h
  rcases ite_eq_iff.1 h with ⟨-, h⟩ | ⟨-, h⟩
  · obtain ⟨message, -, rfl⟩ := map_eq_ok.1 (inside_eq_ok.1 h)
    exact ⟨trivial, trivial⟩
  rcases ite_eq_iff.1 h with ⟨-, h⟩ | ⟨-, h⟩
  · exact parallel_of_group hd (inside_eq_ok.1 h)
  · exact (refuse_ne_ok _ _ h).elim

/-- A node that is accepted as a task is a reference, or a mapping whose first key is a text. -/
theorem text_or_entry_of_task {n : Node} (h : task d reference n = .ok t) :
    (∃ name, n = scalar (.text name)) ∨
      ∃ place kind config rest, n = map place ((.text kind, config) :: rest) := by
  cases n with
  | scalar s =>
    cases s with
    | text name => exact .inl ⟨name, rfl⟩
    | _ => exact (refuse_ne_ok _ _ h).elim
  | map place es =>
    cases es with
    | nil => exact (refuse_ne_ok _ _ h).elim
    | cons entry rest =>
      obtain ⟨key, config⟩ := entry
      cases key with
      | text kind => exact .inr ⟨place, kind, config, rest, rfl⟩
      | _ => exact (refuse_ne_ok _ _ h).elim
  | _ => exact (refuse_ne_ok _ _ h).elim

/-- What occurs in a task is read from a node that is met, or occurs in what a reference stands for that
    is met. -/
theorem met_of_within {root : Entries} {n : Node} {s : Task} (hn : root.Meets n)
    (h : task d reference n = .ok t) (hs : s.Within t) :
    (∃ place kind config rest, root.Meets (map place ((.text kind, config) :: rest)) ∧
      task d reference (map place ((.text kind, config) :: rest)) = .ok s) ∨
    ∃ other u, root.Meets (scalar (.text other)) ∧ reference other = .ok u ∧ s.Within u := by
  induction n using inductionOnHeld generalizing t with
  | h n ih =>
    rcases text_or_entry_of_task h with ⟨name, rfl⟩ | ⟨place, kind, config, rest, rfl⟩
    · exact .inr ⟨name, t, hn, h, hs⟩
    rcases hs.eq_or_child with rfl | ⟨u, hu, hsu⟩
    · exact .inl ⟨place, kind, config, rest, hn, h⟩
    cases form d (map place ((.text kind, config) :: rest)) with
    | reference name hname => cases hname
    | single r htask _ _ hchildren =>
      rw [htask] at h
      rw [hchildren t h] at hu
      cases hu
    | group kind' owner items build htask hrule hchildren =>
      rw [htask, inside_eq_ok, map_eq_ok] at h
      obtain ⟨ts, hts, rfl⟩ := h
      rw [hchildren ts] at hu
      obtain ⟨m, hm, hmu⟩ := exists_of_mem_tasks hts hu
      have hholds := hrule.holds_iff.2 hm
      exact ih m hholds (.held hn hholds) hmu hsu

end Node

namespace Entries

variable {d : TaskDefaults} {root : Entries} {stack : List String} {name : String} {j : Job}

/-- A task is read from a node that is met in a document and is no reference. What describes the task
    there gives its numbers. -/
def Reads (d : TaskDefaults) (root : Entries) (t : Task) : Prop :=
  ∃ stack place kind config rest, root.Meets (.map place ((.text kind, config) :: rest)) ∧
    Node.task d (referenceFrom d root stack) (.map place ((.text kind, config) :: rest)) = .ok t ∧
    config.GivesNumbers d t

/-- What occurs in an accepted job is a job or read from a node of the document, and well formed. -/
theorem reads_of_within {t : Task} (hd : 1 ≤ d.threads) (h : job d root stack name = .ok j)
    (hmeets : ∀ place items, root.get? name = some (.list place items) →
      ∀ n ∈ items, root.Meets n)
    (ht : t.Within j.task) : t.IsWellFormed ∧ ((∃ m us, t = .job m us) ∨ root.Reads d t) := by
  induction stack, name using inductionOnChain root generalizing j with
  | h stack name ih =>
    have hname := not_mem_of_job_ok h
    rw [job_of_not_mem hname, jobWith_eq_ok] at h
    obtain ⟨place, body, ts, hvalue, hts, rfl⟩ := h
    rcases ht.eq_or_child with rfl | ⟨u, hu, htu⟩
    · exact ⟨trivial, .inl ⟨_, _, rfl⟩⟩
    obtain ⟨n, hn, hnu⟩ := Node.exists_of_mem_tasks hts hu
    rcases Node.met_of_within (hmeets place body hvalue n hn) hnu htu with
      ⟨place', kind, config, rest, hmet, htask⟩ | ⟨other, v, hmet, hv, htv⟩
    · obtain ⟨hwell, hnumbers⟩ := Node.wellFormed_of_task hd htask
      exact ⟨hwell, .inr ⟨_, place', kind, config, rest, hmet, htask, hnumbers⟩⟩
    · obtain ⟨k, hk, rfl⟩ := map_eq_ok.1 hv
      exact ih _ hname hvalue other hk (fun _ _ hbody _ hm => .reference hmet hbody hm) htv

/-- No job occurs below a job of its name, where a document is accepted. -/
theorem not_within_of_job {us vs : List Task} {m : String} {u : Task}
    (h : job d root stack name = .ok j) (hm : (Task.job m us).Within j.task) (hu : u ∈ us) :
    ¬ (Task.job m vs).Within u := by
  intro hw
  have hself := job_of_within h hm
  have haccepted : Accepted (job d root [] m) := ⟨_, hself⟩
  rw [job_of_not_mem (not_mem_of_job_ok hself), jobWith_eq_ok] at hself
  obtain ⟨place, body, ts, hvalue, hts, heq⟩ := hself
  cases heq
  obtain ⟨n, hn, hnu⟩ := Node.exists_of_mem_tasks hts hu
  obtain ⟨other, v, hmentions, hv, hwv⟩ := Node.exists_mentions_of_within hnu hw
  obtain ⟨k, hk, rfl⟩ := map_eq_ok.1 hv
  have hrefers : root.Refers m other := ⟨place, body, hvalue, n, hn, hmentions⟩
  exact not_transGen_of_accepted haccepted .refl (.head' hrefers (reaches_of_within hk hwv))

theorem HasDistinctKeys.nodup_jobNames {es : Entries} (h : es.HasDistinctKeys) :
    es.jobNames.Nodup := by
  induction h with
  | nil => exact List.nodup_nil
  | @cons entry es hfirst _ ih =>
    obtain ⟨key, value⟩ := entry
    cases key with
    | text name =>
      rw [jobNames_cons]
      split_ifs
      · exact ih
      · refine List.nodup_cons.2 ⟨fun hmem => ?_, ih⟩
        obtain ⟨-, v, hv⟩ := mem_jobNames.1 hmem
        have hsame := hfirst _ (mem_of_get? hv)
        simp [Scalar.sameKey, Scalar.asInt?] at hsame
    | _ => simpa [jobNames] using ih

end Entries

theorem one_le_defaultThreads (cpus : Option Int) : 1 ≤ defaultThreads cpus := by
  unfold defaultThreads
  split
  · exact le_refl 1
  · exact le_refl 1
  · exact le_max_left 1 _

namespace Node

/-- The trees that an accepted document becomes. Its keys are texts, and the jobs have the names that
    these are, in order and without the block that is passed over, and no name twice. Below a job no job
    of its name occurs, so that no name comes twice on a way down. And every task is well formed, and is
    a job or what a node of the document is read as, whose numbers the task has: where a number is
    asked for, the node has a number and no truth value. -/
theorem jobs_wellFormed {e : Setting} {n : Node} {js : List Job}
    (hkeys : n.entries.HasDistinctKeys) (h : n.jobs e.taskDefaults = .ok js) :
    (js.map (fun j => Scalar.text j.name)
        = (n.entries.filter fun entry => !entry.1.isText Entries.ignoredKey).map Prod.fst ∧
      (js.map Job.name).Nodup) ∧
    ∀ j ∈ js,
      (∀ name us vs, ∀ u ∈ us, (Task.job name us).Within j.task → ¬ (Task.job name vs).Within u) ∧
      ∀ t, t.Within j.task → t.IsWellFormed ∧
        ((∃ name us, t = .job name us) ∨ n.entries.Reads e.taskDefaults t) := by
  have hnames := names_of_jobs h
  refine ⟨⟨?_, hnames ▸ hkeys.nodup_jobNames⟩, fun j hj => ?_⟩
  · obtain ⟨place, root, rfl⟩ := isMapping_of_jobs h
    rw [Node.entries] at hnames ⊢
    rw [Entries.keys_filter (hasTextKeys_of_jobs h), ← hnames, List.map_map]
    rfl
  · have hjob := job_of_mem_jobs h hj
    have hname : j.name ∈ n.entries.jobNames := hnames ▸ List.mem_map_of_mem hj
    refine ⟨fun name us vs u hu hw => Entries.not_within_of_job hjob hw hu, fun t ht => ?_⟩
    exact Entries.reads_of_within (one_le_defaultThreads e.cpus) hjob
      (fun _ _ hbody _ hm => .body hname hbody hm) ht

/-- A document with a group that refers to another job. -/
def groupedSample : Node :=
  map none [(.text "IGNORE", list none []),
    (.text "a", list none [map none [(.text "parallel", list none [text "b"])]]),
    (.text "b", list none [map none [(.text "bash", text "ls -l")]])]

theorem jobs_groupedSample : groupedSample.jobs Setting.calm.taskDefaults
    = .ok [⟨"a", [.parallel [.job "b" [.run ⟨.bash, ["ls", "-l"], none, none⟩]] 3]⟩,
      ⟨"b", [.run ⟨.bash, ["ls", "-l"], none, none⟩]⟩] :=
  (jobsWithin_eq_jobs (by decide : 3 < 4) fun _ _ => .ok default).symm.trans rfl

theorem jobs_wellFormed_sample :
    ∃ js, groupedSample.jobs Setting.calm.taskDefaults = .ok js ∧ (js.map Job.name).Nodup ∧
      ∀ j ∈ js, ∀ t : Task, t.Within j.task → t.IsWellFormed := by
  have hkeys : groupedSample.entries.HasDistinctKeys := by decide
  obtain ⟨⟨-, hnodup⟩, htrees⟩ := jobs_wellFormed hkeys jobs_groupedSample
  exact ⟨_, jobs_groupedSample, hnodup, fun j hj t ht => ((htrees j hj).2 t ht).1⟩

end Node
end Runbook
