import Runbook.Proofs.Expansion

set_option autoImplicit false

/-! # Short and long forms

A local command, a remote command and a parallel group have a short form, and a long one that leaves
room for further fields. A long form without further fields says the same as the short one. So it may
be written in its place, or the short one in place of the long one, wherever a task or a remote command
stands in a document and at as many of these places as one likes: the document has the same jobs, or is
refused in the same way. -/

namespace Runbook

open Parsed

/-! ## Fields -/

namespace Entries

variable {d : TaskDefaults} {es es' before after : Entries} {key field : String} {v v' : Node}

theorem get?_cons_text :
    get? ((.text key, v) :: es) field = if key = field then some v else get? es field := by
  by_cases h : key = field
  · simp [get?, Scalar.isText, h]
  · simp [get?, Scalar.isText, h]

theorem get?_append (es es' : Entries) (field : String) :
    get? (es ++ es') field = (get? es field).or (get? es' field) := by
  simp [get?, List.find?_append, Option.map_or]

/-- What stands in a field makes no difference to the other fields. -/
theorem get?_of_ne (h : key ≠ field) (before after : Entries) (v v' : Node) :
    get? (before ++ (.text key, v) :: after) field
      = get? (before ++ (.text key, v') :: after) field := by
  simp [get?_append, get?_cons_text, h]

/-- A field of some entries is found, unless the same key stands before it. -/
theorem get?_self (key : String) (before after : Entries) (v v' : Node) :
    get? (before ++ (.text key, v) :: after) key = get? (before ++ (.text key, v') :: after) key ∨
      (get? (before ++ (.text key, v) :: after) key = some v ∧
        get? (before ++ (.text key, v') :: after) key = some v') := by
  cases h : get? before key with
  | some u => simp [get?_append, h]
  | none => simp [get?_append, get?_cons_text, h]

theorem target_congr (h : ∀ field, "commands" ≠ field → es.get? field = es'.get? field) :
    es.target d = es'.target d := by
  simp only [target, number?, text, text?, h "port" (by decide), h "address" (by decide),
    h "username" (by decide), h "password" (by decide)]

end Entries

theorem Parsed.all_congr {α β : Type} {f : α → Parsed β} {as as' : List α}
    (h : List.Forall₂ (fun a a' => f a = f a') as as') : all f as = all f as' := by
  induction h with
  | nil => rfl
  | cons hfirst _ ih => rw [all, all, hfirst, ih]

namespace Node

variable {d : TaskDefaults} {reference : String → Parsed Task} {m n : Node}

/-! ## The forms -/

/-- A local command of which nothing is said but its text. -/
inductive IsPlainCommand (c : String) : Node → Prop
  | short : IsPlainCommand c (text c)
  | long {place : Option Nat} : IsPlainCommand c (map place [(.text "command", text c)])

/-- A remote command of which nothing is said but its text. -/
inductive IsPlainRemoteCommand (c : String) : Node → Prop
  | short : IsPlainRemoteCommand c (text c)
  | long {place : Option Nat} : IsPlainRemoteCommand c (map place [(.text "command", text c)])
  | nested {place place' : Option Nat} :
      IsPlainRemoteCommand c (map place [(.text "command", map place' [(.text "command", text c)])])

/-- A parallel group of which nothing is said but its tasks. -/
inductive IsPlainGroup (items : List Node) : Node → Prop
  | short {place : Option Nat} : IsPlainGroup items (list place items)
  | long {place place' : Option Nat} :
      IsPlainGroup items (map place [(.text "tasks", list place' items)])

/-- A remote command is written in the same form, or in another one that says the same. -/
inductive RemoteCommandRephrased : Node → Node → Prop
  | same (n : Node) : RemoteCommandRephrased n n
  | plain {c : String} {m n : Node} (hm : m.IsPlainRemoteCommand c) (hn : n.IsPlainRemoteCommand c) :
      RemoteCommandRephrased m n

mutual

/-- A task is written in the same forms, or in others that say the same, at any number of places in
    it. -/
inductive Rephrased : Node → Node → Prop
  | same (n : Node) : Rephrased n n
  | run {place place' : Option Nat} {kind c : String} {m n : Node} {rest : Entries}
      (hkind : kind = "bash" ∨ kind = "cmd") (hm : m.IsPlainCommand c) (hn : n.IsPlainCommand c) :
      Rephrased (map place ((.text kind, m) :: rest)) (map place' ((.text kind, n) :: rest))
  | branch {place place' p p' : Option Nat} {kind : String} {items items' : List Node} {rest : Entries}
      (hkind : kind = "on-windows" ∨ kind = "on-linux") (hitems : TasksRephrased items items') :
      Rephrased (map place ((.text kind, list p items) :: rest))
        (map place' ((.text kind, list p' items') :: rest))
  | group {place place' : Option Nat} {items items' : List Node} {m n : Node} {rest : Entries}
      (hm : m.IsPlainGroup items) (hn : n.IsPlainGroup items')
      (hitems : TasksRephrased items items') :
      Rephrased (map place ((.text "parallel", m) :: rest)) (map place' ((.text "parallel", n) :: rest))
  | groupField {place place' p p' q q' : Option Nat} {items items' : List Node}
      {before after rest : Entries} (hitems : TasksRephrased items items') :
      Rephrased
        (map place ((.text "parallel", map p (before ++ (.text "tasks", list q items) :: after)) :: rest))
        (map place'
          ((.text "parallel", map p' (before ++ (.text "tasks", list q' items') :: after)) :: rest))
  | batch {place place' p p' q q' : Option Nat} {commands commands' : List Node}
      {before after rest : Entries}
      (hcommands : List.Forall₂ RemoteCommandRephrased commands commands') :
      Rephrased
        (map place ((.text "ssh", map p (before ++ (.text "commands", list q commands) :: after)) :: rest))
        (map place'
          ((.text "ssh", map p' (before ++ (.text "commands", list q' commands') :: after)) :: rest))

/-- Some tasks are written in the same forms, or in others that say the same. -/
inductive TasksRephrased : List Node → List Node → Prop
  | nil : TasksRephrased [] []
  | cons {m n : Node} {ms ns : List Node} (h : Rephrased m n) (hs : TasksRephrased ms ns) :
      TasksRephrased (m :: ms) (n :: ns)

end

/-- The body of a job is written in the same forms, or in others that say the same. -/
inductive BodyRephrased : Node → Node → Prop
  | same (n : Node) : BodyRephrased n n
  | tasks {place place' : Option Nat} {items items' : List Node}
      (hitems : TasksRephrased items items') :
      BodyRephrased (list place items) (list place' items')

/-- A document is written in the same forms, or in others that say the same, at any number of places in
    the bodies of its jobs. -/
inductive DocumentRephrased : Node → Node → Prop
  | same (n : Node) : DocumentRephrased n n
  | bodies {place place' : Option Nat} {root root' : Entries}
      (h : List.Forall₂ (fun e e' => e.1 = e'.1 ∧ BodyRephrased e.2 e'.2) root root') :
      DocumentRephrased (map place root) (map place' root')

/-! ## What is read of a form -/

theorem IsPlainCommand.localCommand {c : String} (h : n.IsPlainCommand c) (shell : Shell) :
    n.localCommand shell = .ok ⟨shell, Text.words c, none, none⟩ := by
  cases h <;> rfl

theorem IsPlainRemoteCommand.remoteCommand {c : String} (h : n.IsPlainRemoteCommand c) :
    n.remoteCommand = .ok ⟨c, [0]⟩ := by
  cases h <;> rfl

theorem IsPlainGroup.group {items : List Node} (h : n.IsPlainGroup items) :
    group d reference n = if items.isEmpty then refuse .parallelEmpty
      else (tasks d reference "parallel" 0 items).map (.parallel · d.threads) := by
  cases h <;> rfl

theorem RemoteCommandRephrased.remoteCommand_eq (h : m.RemoteCommandRephrased n) :
    m.remoteCommand = n.remoteCommand := by
  cases h with
  | same => rfl
  | plain hm hn => rw [hm.remoteCommand, hn.remoteCommand]

theorem batch_congr {p p' q q' : Option Nat} {commands commands' : List Node}
    {before after : Entries} (h : List.Forall₂ RemoteCommandRephrased commands commands') :
    batch d (map p (before ++ (.text "commands", list q commands) :: after))
      = batch d (map p' (before ++ (.text "commands", list q' commands') :: after)) := by
  have htarget : ∀ v v', Entries.target d (before ++ (.text "commands", v) :: after)
      = Entries.target d (before ++ (.text "commands", v') :: after) :=
    fun v v' => Entries.target_congr fun field hfield => Entries.get?_of_ne hfield before after v v'
  have hall : all remoteCommand commands = all remoteCommand commands' :=
    all_congr (h.imp fun _ _ => RemoteCommandRephrased.remoteCommand_eq)
  simp only [batch, requireEntries, bind, Except.bind, htarget (list q commands) (list q' commands')]
  -- if the same key stands in front, neither list is looked at
  rcases Entries.get?_self "commands" before after (list q commands) (list q' commands')
    with hget | ⟨hget, hget'⟩
  · rw [hget]
  · simp only [hget, hget', requireItems, hall]

theorem task_ssh {place : Option Nat} {rest : Entries} :
    task d reference (map place ((.text "ssh", n) :: rest))
      = inside (.inKind "ssh") ((n.batch d).map fun (target, commands) => .ssh target commands) := by
  simp [task]

theorem task_parallel {place : Option Nat} {rest : Entries} :
    task d reference (map place ((.text "parallel", n) :: rest))
      = inside (.inKind "parallel") (group d reference n) := by
  simp [task]

theorem group_congr {p p' q q' : Option Nat} {items items' : List Node} {before after : Entries}
    (hempty : items.isEmpty = items'.isEmpty)
    (htasks : tasks d reference "parallel" 0 items = tasks d reference "parallel" 0 items') :
    group d reference (map p (before ++ (.text "tasks", list q items) :: after))
      = group d reference (map p' (before ++ (.text "tasks", list q' items') :: after)) := by
  have hthreads := Entries.get?_of_ne (by decide : "tasks" ≠ "threads") before after
    (list q items) (list q' items')
  simp only [group, threads, Entries.number?, hthreads, groupField_eq]
  rcases Entries.get?_self "tasks" before after (list q items) (list q' items')
    with hget | ⟨hget, hget'⟩
  · rw [hget]
  · simp only [hget, hget', groupTasks, hempty, htasks]

theorem isEmpty_congr {items items' : List Node} (h : TasksRephrased items items') :
    items.isEmpty = items'.isEmpty := by
  cases h <;> rfl

mutual

/-- It makes no difference to a task in which form it is written. -/
theorem task_rephrased : ∀ {m n : Node}, m.Rephrased n → task d reference m = task d reference n
  | _, _, .same _ => rfl
  | _, _, .run hkind hm hn => by
    rcases hkind with rfl | rfl <;> simp [task, hm.localCommand, hn.localCommand]
  | _, _, .branch hkind hitems => by
    have htasks := fun owner => tasks_rephrased hitems owner 0
    rcases hkind with rfl | rfl <;> simp [task, branch, htasks]
  | _, _, .group hm hn hitems => by
    have htasks := tasks_rephrased hitems "parallel" 0
    rw [task_parallel, task_parallel, hm.group, hn.group, isEmpty_congr hitems, htasks]
  | _, _, .groupField hitems => by
    have htasks := tasks_rephrased hitems "parallel" 0
    rw [task_parallel, task_parallel, group_congr (isEmpty_congr hitems) htasks]
  | _, _, .batch hcommands => by
    rw [task_ssh, task_ssh, batch_congr hcommands]

theorem tasks_rephrased : ∀ {ms ns : List Node}, TasksRephrased ms ns →
    ∀ (owner : String) (index : Nat),
      tasks d reference owner index ms = tasks d reference owner index ns
  | _, _, .nil, _, _ => rfl
  | _, _, .cons h hs, owner, index => by
    rw [tasks, tasks, task_rephrased h, tasks_rephrased hs]

end

end Node

namespace Entries

variable {d : TaskDefaults} {root root' : Entries}

/-- The bodies of jobs are written in the same forms, or in others that say the same. -/
abbrev Rephrased (root root' : Entries) : Prop :=
  List.Forall₂ (fun e e' => e.1 = e'.1 ∧ Node.BodyRephrased e.2 e'.2) root root'

/-- Under each name stands what was there, in the same forms or in others. -/
theorem Rephrased.get? (h : root.Rephrased root') (name : String) :
    (root.get? name = none ∧ root'.get? name = none) ∨
      ∃ v v', root.get? name = some v ∧ root'.get? name = some v' ∧ v.BodyRephrased v' := by
  induction h with
  | nil => exact .inl ⟨rfl, rfl⟩
  | @cons e e' root root' hfirst _ ih =>
    obtain ⟨key, v⟩ := e
    obtain ⟨key', v'⟩ := e'
    obtain ⟨rfl : key = key', hbody⟩ := hfirst
    cases hkey : key.isText name with
    | true => exact .inr ⟨v, v', by simp [Entries.get?, hkey], by simp [Entries.get?, hkey], hbody⟩
    | false => simpa [Entries.get?, hkey] using ih

theorem Rephrased.jobWith (h : root.Rephrased root') (reference : String → Parsed Task)
    (name : String) : jobWith d root reference name = Entries.jobWith d root' reference name := by
  rcases h.get? name with ⟨hnone, hnone'⟩ | ⟨v, v', hv, hv', hbody⟩
  · rw [jobWith_of_get?_eq_none hnone, jobWith_of_get?_eq_none hnone']
  · rw [Entries.jobWith, Entries.jobWith, hv, hv']
    cases hbody with
    | same => rfl
    | tasks hitems =>
      simp only [Node.requireItems, bind, Except.bind, Node.tasks_rephrased hitems]

end Entries

namespace Node

variable {m n : Node}

/-- A document has the same jobs, or is refused in the same way, in whichever forms it is written. -/
theorem jobs_rephrased (d : TaskDefaults) (h : m.DocumentRephrased n) : m.jobs d = n.jobs d := by
  cases h with
  | same => rfl
  | bodies h => exact Entries.jobs_congr_of_jobWith (h.imp fun _ _ => And.left) (Entries.Rephrased.jobWith h)

/-- A workflow in the short forms: a group that refers to another job. -/
def shortSample : Node :=
  map none
    [(.text "a", list none [map none [(.text "parallel", list none [text "b", text "b"])]]),
      (.text "b", list none [map none [(.text "bash", text "x  y")], map none [(.text "ssh",
        map none [(.text "address", text "host"), (.text "username", text "user"),
          (.text "password", text "secret"), (.text "commands", list none [text "ls", text "id"])])]])]

/-- The same workflow, where all is in the long forms but the reference. -/
def longSample : Node :=
  map none
    [(.text "a", list none [map none [(.text "parallel",
        map none [(.text "tasks", list none [text "b", text "b"])])]]),
      (.text "b", list none [map none [(.text "bash", map none [(.text "command", text "x  y")])],
        map none [(.text "ssh",
          map none [(.text "address", text "host"), (.text "username", text "user"),
            (.text "password", text "secret"), (.text "commands", list none
              [map none [(.text "command", text "ls")],
                map none [(.text "command", map none [(.text "command", text "id")])]])])]])]

theorem shortSample_rephrased : shortSample.DocumentRephrased longSample := by
  refine .bodies (.cons ⟨rfl, .tasks ?_⟩ (.cons ⟨rfl, .tasks ?_⟩ .nil))
  · exact .cons (.group .short .long (.cons (.same _) (.cons (.same _) .nil))) .nil
  · refine .cons (.run (.inl rfl) .short .long) (.cons ?_ .nil)
    have hcommands : List.Forall₂ RemoteCommandRephrased [text "ls", text "id"]
        [map none [(.text "command", text "ls")],
          map none [(.text "command", map none [(.text "command", text "id")])]] :=
      .cons (.plain .short .long) (.cons (.plain .short .nested) .nil)
    exact @Rephrased.batch none none none none none none _ _ [(.text "address", text "host"),
      (.text "username", text "user"), (.text "password", text "secret")] [] [] hcommands

/-- The job that the group refers to. -/
def referredSample : List Task :=
  [.run ⟨.bash, ["x", "", "y"], none, none⟩,
    .ssh ⟨"host", "user", "secret", 22⟩ [⟨"ls", [0]⟩, ⟨"id", [0]⟩]]

theorem jobs_rephrased_sample : shortSample.DocumentRephrased longSample ∧
    ∀ m ∈ [shortSample, longSample], m.jobs ⟨1, 22⟩
      = .ok [⟨"a", [.parallel [.job "b" referredSample, .job "b" referredSample] 1]⟩,
        ⟨"b", referredSample⟩] := by
  have hshort : shortSample.jobs ⟨1, 22⟩
      = .ok [⟨"a", [.parallel [.job "b" referredSample, .job "b" referredSample] 1]⟩,
        ⟨"b", referredSample⟩] :=
    (jobsWithin_eq_jobs (by decide : 2 < 3) fun _ _ => .ok default).symm.trans rfl
  have hlong := (jobs_rephrased ⟨1, 22⟩ shortSample_rephrased).symm.trans hshort
  exact ⟨shortSample_rephrased, List.forall_mem_cons.2 ⟨hshort, List.forall_mem_singleton.2 hlong⟩⟩

end Node
end Runbook
