import Runbook.Proofs.TaskFields
import Mathlib.Data.List.Forall2

set_option autoImplicit false

/-! # The forms of a task

A node of a workflow is read as a task in one of three forms. A text refers to a job. A platform
branch or a parallel group holds other tasks, and is accepted where these are. Anything else is
accepted or refused by itself, whatever the references in the workflow stand for. All that is shown
of the expansion of references rests on these three forms. -/

namespace Runbook

theorem exists_forall₂_iff {α β : Type} {p : α → β → Prop} {as : List α} :
    (∃ bs, List.Forall₂ p as bs) ↔ ∀ a ∈ as, ∃ b, p a b := by
  induction as with
  | nil => simp
  | cons a as ih =>
    rw [List.forall_mem_cons, ← ih]
    constructor
    · rintro ⟨_, hab⟩
      cases hab with
      | cons ha has => exact ⟨⟨_, ha⟩, _, has⟩
    · rintro ⟨⟨b, ha⟩, bs, has⟩
      exact ⟨b :: bs, .cons ha has⟩

/-! ## Tasks that hold tasks -/

/-- A task occurs in another one: as that task itself, or in one that it holds. -/
inductive Task.Within (s : Task) : Task → Prop
  | self : Within s s
  | child {t u : Task} (hu : u ∈ t.children) (h : Within s u) : Within s t

theorem Task.Within.eq_or_child {s t : Task} (h : s.Within t) :
    s = t ∨ ∃ u ∈ t.children, s.Within u := by
  cases h with
  | self => exact Or.inl rfl
  | child hu h => exact Or.inr ⟨_, hu, h⟩

namespace Node

/-- A node that is read as a platform branch or a parallel group holds another one as a task. -/
inductive Holds : Node → Node → Prop
  | branch {place place' : Option Nat} {kind : String} {items : List Node} {rest : Entries} {n : Node}
      (hkind : kind = "on-windows" ∨ kind = "on-linux") (hn : n ∈ items) :
      Holds (map place ((.text kind, list place' items) :: rest)) n
  | group {place place' : Option Nat} {items : List Node} {rest : Entries} {n : Node}
      (hn : n ∈ items) : Holds (map place ((.text "parallel", list place' items) :: rest)) n
  | groupField {place place' place'' : Option Nat} {es rest : Entries} {items : List Node} {n : Node}
      (htasks : es.get? "tasks" = some (list place'' items)) (hn : n ∈ items) :
      Holds (map place ((.text "parallel", map place' es) :: rest)) n

/-- A node is a platform branch or a parallel group of some tasks, as the grammar asks for it. -/
inductive IsGroup : Node → List Node → Prop
  | branch {place place' : Option Nat} {kind : String} {items : List Node} {rest : Entries}
      (hkind : kind = "on-windows" ∨ kind = "on-linux") :
      IsGroup (map place ((.text kind, list place' items) :: rest)) items
  | group {place place' : Option Nat} {items : List Node} {rest : Entries} (hne : items ≠ []) :
      IsGroup (map place ((.text "parallel", list place' items) :: rest)) items
  | groupField {place place' place'' : Option Nat} {es rest : Entries} {items : List Node}
      (hthreads : es.Admits "threads" IsWorkerCount)
      (htasks : es.get? "tasks" = some (list place'' items)) (hne : items ≠ []) :
      IsGroup (map place ((.text "parallel", map place' es) :: rest)) items

/-- A node is a task that holds no others, as the grammar asks for it. -/
inductive IsSingle : Node → Prop
  | run {place : Option Nat} {kind : String} {config : Node} {rest : Entries}
      (hkind : kind = "bash" ∨ kind = "cmd") (hconfig : config.IsLocalCommand) :
      IsSingle (map place ((.text kind, config) :: rest))
  | print {place : Option Nat} {config : Node} {rest : Entries} (hconfig : config.IsText) :
      IsSingle (map place ((.text "print", config) :: rest))
  | batch {place : Option Nat} {config : Node} {rest : Entries} (hconfig : config.IsBatch) :
      IsSingle (map place ((.text "ssh", config) :: rest))
  | transfer {place : Option Nat} {kind : String} {config : Node} {rest : Entries}
      (hkind : kind = "scp-download" ∨ kind = "scp-upload" ∨ kind = "sftp-download" ∨
        kind = "sftp-upload") (hconfig : config.IsTransfer) :
      IsSingle (map place ((.text kind, config) :: rest))

/-- A name occurs in a node as a task: as the node itself, or in one of the tasks that it holds. -/
inductive Mentions (name : String) : Node → Prop
  | here : Mentions name (scalar (.text name))
  | held {n m : Node} (h : n.Holds m) (hm : Mentions name m) : Mentions name n

end Node

theorem Entries.mem_of_get? {es : Entries} {k : String} {v : Node} (h : es.get? k = some v) :
    (.text k, v) ∈ es := by
  obtain ⟨⟨key, value⟩, he, rfl⟩ := Option.map_eq_some_iff.1 h
  have hmem := List.mem_of_find?_eq_some he
  have hkey : key.isText k = true := List.find?_some (p := fun e : Scalar × Node => e.1.isText k) he
  cases key <;> simp_all [Scalar.isText]

namespace Node

theorem Holds.shownOr {P : Failure → Prop} {n m : Node} (h : n.Holds m) (hn : n.ShownOr P) :
    m.ShownOr P := by
  cases h with
  | branch _ hm | group hm => exact (hn.entry List.mem_cons_self).2.item hm
  | groupField htasks hm => exact ((hn.entry List.mem_cons_self).2.field htasks).item hm

theorem Holds.sizeOf_lt {n m : Node} (h : n.Holds m) : sizeOf m < sizeOf n := by
  cases h with
  | branch _ hn | group hn =>
    have := List.sizeOf_lt_of_mem hn
    simp
    omega
  | groupField htasks hn =>
    have hkey := Entries.mem_of_get? htasks
    have h1 := List.sizeOf_lt_of_mem hn
    have h2 := List.sizeOf_lt_of_mem hkey
    simp at h2 ⊢
    omega

theorem IsGroup.holds_iff {n m : Node} {items : List Node} (h : n.IsGroup items) :
    n.Holds m ↔ m ∈ items := by
  constructor
  · intro hm
    cases h with
    | branch hkind =>
      cases hm with
      | branch _ hm | group hm => exact hm
    | group _ =>
      cases hm with
      | branch _ hm | group hm => exact hm
    | groupField _ htasks _ =>
      cases hm with
      | groupField htasks' hm =>
        rw [htasks] at htasks'
        cases htasks'
        exact hm
  · intro hm
    cases h with
    | branch hkind => exact .branch hkind hm
    | group _ => exact .group hm
    | groupField _ htasks _ => exact .groupField htasks hm

/-- Only platform branches and parallel groups hold tasks. -/
theorem Holds.kind_eq {place : Option Nat} {kind : String} {config m : Node} {rest : Entries}
    (h : Holds (map place ((.text kind, config) :: rest)) m) :
    kind = "on-windows" ∨ kind = "on-linux" ∨ kind = "parallel" := by
  cases h with
  | branch hkind _ => exact hkind.imp_right Or.inl
  | group _ | groupField _ _ => exact Or.inr (Or.inr rfl)

theorem IsSingle.not_holds {n m : Node} (h : n.IsSingle) : ¬ n.Holds m := by
  intro hm
  cases h with
  | run hkind _ | transfer hkind _ => rcases hm.kind_eq with rfl | rfl | rfl <;> simp at hkind
  | print _ | batch _ => rcases hm.kind_eq with h | h | h <;> simp at h

/-- What holds of a node if it holds of the tasks that the node holds, holds of every node. -/
theorem inductionOnHeld {p : Node → Prop} (h : ∀ n : Node, (∀ m, n.Holds m → p m) → p n)
    (n : Node) : p n :=
  h n fun m hm =>
    have := hm.sizeOf_lt
    inductionOnHeld h m
termination_by sizeOf n

/-! ## Lists of tasks -/

variable {d : TaskDefaults} {reference reference' : String → Parsed Task}

open Parsed

/-- The tasks of a list are accepted one by one, in order. -/
theorem tasks_eq_ok {owner : String} {index : Nat} {ns : List Node} {ts : List Task} :
    tasks d reference owner index ns = .ok ts ↔
      List.Forall₂ (fun n t => task d reference n = .ok t) ns ts := by
  induction ns generalizing index ts with
  | nil => cases ts <;> simp [tasks]
  | cons n ns ih =>
    cases ts with
    | nil => simp only [tasks, bind_eq_ok, pure_eq_ok]; simp
    | cons t ts =>
      simp only [tasks, bind_eq_ok, pure_eq_ok, inside_eq_ok, ih, List.forall₂_cons,
        List.cons.injEq]
      constructor
      · rintro ⟨t', ht', ts', hts', rfl, rfl⟩
        exact ⟨ht', hts'⟩
      · rintro ⟨ht, hts⟩
        exact ⟨t, ht, ts, hts, rfl, rfl⟩

theorem accepted_tasks {owner : String} {index : Nat} {ns : List Node} :
    Accepted (tasks d reference owner index ns) ↔ ∀ n ∈ ns, Accepted (task d reference n) := by
  simp only [Accepted, tasks_eq_ok]
  exact exists_forall₂_iff

/-- What a list of tasks reports is where one of its tasks stands, or reported by that task. -/
theorem reports_of_tasks {owner : String} {index : Nat} {ns : List Node} {c : Cause}
    (h : Reports (tasks d reference owner index ns) c) :
    (∃ i, c = .grammar (.inTask owner i)) ∨ ∃ n ∈ ns, Reports (task d reference n) c := by
  induction ns generalizing index with
  | nil => simp [tasks] at h
  | cons n ns ih =>
    rw [tasks, reports_bind] at h
    rcases h with h | ⟨t, -, h⟩
    · rcases reports_of_inside h with h | h
      · exact Or.inl ⟨index, h⟩
      · exact Or.inr ⟨n, List.mem_cons_self, h⟩
    · rw [reports_bind] at h
      rcases h with h | ⟨ts, -, h⟩
      · rcases ih h with h | ⟨m, hm, h⟩
        · exact Or.inl h
        · exact Or.inr ⟨m, List.mem_cons_of_mem _ hm, h⟩
      · exact absurd h (not_reports_pure _)

theorem tasks_mono {owner : String} {index : Nat} {ns : List Node} {ts : List Task}
    (h : ∀ n ∈ ns, ∀ t, task d reference n = .ok t → task d reference' n = .ok t)
    (hts : tasks d reference owner index ns = .ok ts) :
    tasks d reference' owner index ns = .ok ts := by
  rw [tasks_eq_ok] at hts ⊢
  induction hts with
  | nil => exact .nil
  | cons hn _ ih =>
    exact .cons (h _ List.mem_cons_self _ hn) (ih fun m hm => h m (List.mem_cons_of_mem _ hm))

/-- The tasks of a list are refused in the ways in which one of them is. -/
theorem refusesWith_tasks {P : Failure → Prop} (hP : HoldsOfParts P) {owner : String} {ns : List Node}
    (h : ∀ n ∈ ns, RefusesWith P (task d reference n)) (index : Nat) :
    RefusesWith P (tasks d reference owner index ns) := by
  induction ns generalizing index with
  | nil => exact refusesWith_ok _
  | cons n ns ih =>
    rw [tasks]
    refine ((h n List.mem_cons_self).inside hP rfl).bind fun t _ => ?_
    exact (ih (fun m hm => h m (List.mem_cons_of_mem _ hm)) (index + 1)).bind fun _ _ =>
      refusesWith_pure _

/-- Each task of a list stands for one of the nodes. -/
theorem exists_of_mem_tasks {owner : String} {index : Nat} {ns : List Node} {ts : List Task}
    {t : Task} (hts : tasks d reference owner index ns = .ok ts) (ht : t ∈ ts) :
    ∃ n ∈ ns, task d reference n = .ok t := by
  rw [tasks_eq_ok] at hts
  induction hts with
  | nil => cases ht
  | cons hn _ ih =>
    rcases List.mem_cons.1 ht with rfl | ht
    · exact ⟨_, List.mem_cons_self, hn⟩
    · obtain ⟨m, hm, h⟩ := ih ht
      exact ⟨m, List.mem_cons_of_mem _ hm, h⟩

/-- Each node of a list stands for one of the tasks. -/
theorem exists_mem_of_tasks {owner : String} {index : Nat} {ns : List Node} {ts : List Task}
    {n : Node} (hts : tasks d reference owner index ns = .ok ts) (hn : n ∈ ns) :
    ∃ t ∈ ts, task d reference n = .ok t := by
  rw [tasks_eq_ok] at hts
  induction hts with
  | nil => cases hn
  | cons hm _ ih =>
    rcases List.mem_cons.1 hn with rfl | hn
    · exact ⟨_, List.mem_cons_self, hm⟩
    · obtain ⟨t, ht, h⟩ := ih hn
      exact ⟨t, List.mem_cons_of_mem _ ht, h⟩

/-- The tasks of a group may stand in a field of a mapping. -/
theorem groupField_eq (threads : Int) (es : Entries) :
    groupField d reference threads es = match es.get? "tasks" with
      | none => refuse .parallelTasksMissing
      | some v => groupTasks d reference threads v := by
  induction es with
  | nil => rfl
  | cons e es ih =>
    rw [groupField, ih, Entries.get?, Entries.get?, List.find?_cons]
    cases e.1.isText "tasks" <;> rfl

/-! ## Three forms -/

/-- How a node is read as a task. -/
inductive Form (d : TaskDefaults) (n : Node) : Prop
  /-- It refers to a job. -/
  | reference (name : String) (hn : n = scalar (.text name))
  /-- It holds other tasks, and is made of what these stand for. -/
  | group (kind owner : String) (items : List Node) (build : List Task → Task)
      (htask : ∀ reference, task d reference n
        = inside (.inKind kind) ((tasks d reference owner 0 items).map build))
      (hrule : n.IsGroup items)
      (hchildren : ∀ ts, (build ts).children = ts) (hjob : ∀ ts name us, build ts ≠ .job name us)
  /-- It stands for itself, or is refused, whatever references stand for. -/
  | single (r : Parsed Task) (htask : ∀ reference, task d reference n = r)
      (hown : ∀ P, HoldsOfParts P → n.ShownOr P → RefusesWith P r)
      (hrule : ∀ t, r = .ok t → n.IsSingle)
      (hchildren : ∀ t, r = .ok t → t.children = [])
      (hjob : ∀ t, r = .ok t → ∀ name us, t ≠ .job name us)

variable {n : Node}

/-- A node that is refused stands for itself. -/
theorem Form.of_refused (p : GrammarProblem)
    (h : ∀ reference, task d reference n = refuse p) (hp : IsOwnProblem p) : Form d n :=
  .single (refuse p) h (fun _ hP _ => refusesWith_refuse (hP.problem hp))
    (fun t ht => (refuse_ne_ok p t ht).elim) (fun t ht => (refuse_ne_ok p t ht).elim)
    (fun t ht => (refuse_ne_ok p t ht).elim)

variable {place : Option Nat} {kind : String} {config : Node} {rest : Entries}

/-- A kind of task whose description is wrong. -/
theorem Form.of_wrong {p : GrammarProblem}
    (h : ∀ reference, task d reference (map place ((.text kind, config) :: rest))
      = inside (.inKind kind) (refuse p)) (hp : IsOwnProblem p) :
    Form d (map place ((.text kind, config) :: rest)) :=
  .single _ h (fun _ hP _ => (refusesWith_refuse (hP.problem hp)).inside hP rfl)
    (fun t ht => by simp at ht) (fun t ht => by simp at ht) (fun t ht => by simp at ht)

/-- A kind of task that holds no others. -/
theorem Form.of_leaf {α : Type} {p : Parsed α} (build : α → Task)
    (hp : ∀ P, HoldsOfParts P → config.ShownOr P → RefusesWith P p)
    (h : ∀ reference, task d reference (map place ((.text kind, config) :: rest))
      = inside (.inKind kind) (p.map build))
    (hrule : Accepted p → IsSingle (map place ((.text kind, config) :: rest)))
    (hchildren : ∀ a, (build a).children = []) (hjob : ∀ a name us, build a ≠ .job name us) :
    Form d (map place ((.text kind, config) :: rest)) := by
  refine .single _ h (fun P hP hn => ?_) ?_ ?_ ?_
  · exact ((hp P hP (hn.entry List.mem_cons_self).2).map build).inside hP rfl
  · intro t ht
    obtain ⟨a, ha, -⟩ := map_eq_ok.1 (inside_eq_ok.1 ht)
    exact hrule ⟨a, ha⟩
  · intro t ht
    obtain ⟨a, -, rfl⟩ := map_eq_ok.1 (inside_eq_ok.1 ht)
    exact hchildren a
  · intro t ht
    obtain ⟨a, -, rfl⟩ := map_eq_ok.1 (inside_eq_ok.1 ht)
    exact hjob a

/-- A local command. -/
theorem form_run (shell : Shell) (hkind : kind = "bash" ∨ kind = "cmd")
    (h : ∀ reference, task d reference (map place ((.text kind, config) :: rest))
      = inside (.inKind kind) ((config.localCommand shell).map .run)) :
    Form d (map place ((.text kind, config) :: rest)) :=
  .of_leaf .run (fun _ hP hn => refusesWith_localCommand hP.problems hn shell) h
    (fun hconfig => .run hkind (accepted_localCommand.1 hconfig)) (fun _ => rfl)
    (fun _ _ _ h => by cases h)

/-- A transfer. -/
theorem form_transfer (how : TransferKind)
    (hkind : kind = "scp-download" ∨ kind = "scp-upload" ∨ kind = "sftp-download" ∨
      kind = "sftp-upload")
    (h : ∀ reference, task d reference (map place ((.text kind, config) :: rest))
      = inside (.inKind kind) ((config.transfer d how).map .transfer)) :
    Form d (map place ((.text kind, config) :: rest)) :=
  .of_leaf .transfer (fun _ hP _ => refusesWith_transfer hP.problems d how config) h
    (fun hconfig => .transfer hkind (accepted_transfer.1 hconfig)) (fun _ => rfl)
    (fun _ _ _ h => by cases h)

/-- A platform branch. -/
theorem form_branch (platform : Platform) (hkind : kind = "on-windows" ∨ kind = "on-linux")
    (h : ∀ reference, task d reference (map place ((.text kind, config) :: rest))
      = inside (.inKind kind) (branch d reference platform config)) :
    Form d (map place ((.text kind, config) :: rest)) := by
  cases config with
  | list place' items =>
    exact .group kind ("on-" ++ platform.name) items (.onPlatform platform) h (.branch hkind)
      (fun _ => rfl) (fun _ _ _ h => by cases h)
  | _ => exact .of_wrong h ⟨nofun, nofun, nofun⟩

/-- A parallel group of some tasks, wherever they stand. -/
theorem form_parallel (threads : Int) (items : List Node)
    (h : ∀ reference, task d reference (map place ((.text "parallel", config) :: rest))
      = inside (.inKind "parallel") (if items.isEmpty then refuse .parallelEmpty
          else (tasks d reference "parallel" 0 items).map (.parallel · threads)))
    (hrule : items ≠ [] → IsGroup (map place ((.text "parallel", config) :: rest)) items) :
    Form d (map place ((.text "parallel", config) :: rest)) := by
  cases items with
  | nil => exact .of_wrong h ⟨nofun, nofun, nofun⟩
  | cons n ns =>
    exact .group "parallel" "parallel" (n :: ns) (.parallel · threads) h
      (hrule (List.cons_ne_nil n ns)) (fun _ => rfl) (fun _ _ _ h => by cases h)

/-- A parallel group, described by a list or by a mapping. -/
theorem form_group : Form d (map place ((.text "parallel", config) :: rest)) := by
  have h : ∀ reference, task d reference (map place ((.text "parallel", config) :: rest))
      = inside (.inKind "parallel") (group d reference config) := by
    intro reference
    simp [task]
  cases config with
  | list place' items =>
    exact form_parallel d.threads items h .group
  | map place' es =>
    simp only [group, groupField_eq] at h
    cases hthreads : threads d es with
    | error f =>
      have hown : ∀ P, HoldsOfParts P → RefusesWith P (.error f : Parsed Task) := by
        rintro P hP g ⟨⟩
        exact refusesWith_threads hP.problems d es f hthreads
      refine .single (inside (.inKind "parallel") (.error f)) (fun reference => ?_)
        (fun P hP _ => (hown P hP).inside hP rfl) (fun t ht => ?_) (fun t ht => ?_)
        (fun t ht => ?_)
      · rw [h, hthreads]
        rfl
      all_goals simp at ht
    | ok threads =>
      have hrun : ∀ reference,
          task d reference (map place ((.text "parallel", map place' es) :: rest))
            = inside (.inKind "parallel") (match Entries.get? es "tasks" with
              | none => refuse .parallelTasksMissing
              | some v => groupTasks d reference threads v) := by
        intro reference
        rw [h, hthreads]
        rfl
      cases htasks : Entries.get? es "tasks" with
      | none =>
        rw [htasks] at hrun
        exact .of_wrong hrun ⟨nofun, nofun, nofun⟩
      | some v =>
        rw [htasks] at hrun
        cases v with
        | list place'' items =>
          exact form_parallel threads items hrun
            (.groupField (accepted_threads.1 ⟨threads, hthreads⟩) htasks)
        | _ => exact .of_wrong hrun ⟨nofun, nofun, nofun⟩
  | _ => exact .of_wrong h ⟨nofun, nofun, nofun⟩

/-- Every node has one of the three forms. -/
theorem form (d : TaskDefaults) (n : Node) : Form d n := by
  cases n with
  | scalar s =>
    cases s with
    | text name => exact .reference name rfl
    | _ => exact .of_refused _ (fun _ => rfl) ⟨nofun, nofun, nofun⟩
  | map place entries =>
    cases entries with
    | nil => exact .of_refused _ (fun _ => rfl) ⟨nofun, nofun, nofun⟩
    | cons entry rest =>
      obtain ⟨key, config⟩ := entry
      cases key with
      | text kind =>
        -- one kind after the other, in the order in which a task tries them
        by_cases h : kind = "bash"
        · subst h
          exact form_run .bash (Or.inl rfl) fun _ => by simp [task]
        by_cases h : kind = "cmd"
        · subst h
          exact form_run .cmd (Or.inr rfl) fun _ => by simp [task]
        by_cases h : kind = "on-windows"
        · subst h
          exact form_branch .windows (Or.inl rfl) fun _ => by simp [task]
        by_cases h : kind = "on-linux"
        · subst h
          exact form_branch .linux (Or.inr rfl) fun _ => by simp [task]
        by_cases h : kind = "ssh"
        · subst h
          exact .of_leaf (fun x => .ssh x.1 x.2) (fun _ hP hn => refusesWith_batch hP.problems hn d)
            (fun _ => by simp [task])
            (fun h => .batch (accepted_batch.1 h)) (fun _ => rfl) (fun _ _ _ h => by cases h)
        by_cases h : kind = "scp-download"
        · subst h
          exact form_transfer .scpDownload (by simp) fun _ => by simp [task]
        by_cases h : kind = "scp-upload"
        · subst h
          exact form_transfer .scpUpload (by simp) fun _ => by simp [task]
        by_cases h : kind = "sftp-download"
        · subst h
          exact form_transfer .sftpDownload (by simp) fun _ => by simp [task]
        by_cases h : kind = "sftp-upload"
        · subst h
          exact form_transfer .sftpUpload (by simp) fun _ => by simp [task]
        by_cases h : kind = "print"
        · subst h
          exact .of_leaf .print (fun _ hP hn => refusesWith_message hP.problems hn)
            (fun _ => by simp [task])
            (fun h => .print (accepted_message.1 h)) (fun _ => rfl) (fun _ _ _ h => by cases h)
        by_cases h : kind = "parallel"
        · subst h
          exact form_group
        exact .of_refused (.taskUnknown kind) (fun _ => by simp [task, *])
          ⟨nofun, nofun, nofun⟩
      | _ => exact .of_refused _ (fun _ => rfl) ⟨nofun, nofun, nofun⟩
  | _ => exact .of_refused _ (fun _ => rfl) ⟨nofun, nofun, nofun⟩

/-! ## What follows from the forms -/

variable {t : Task} {name : String}

/-- A task that is accepted stays what it is where references stand for more. -/
theorem task_mono (h : ∀ name u, reference name = .ok u → reference' name = .ok u)
    (ht : task d reference n = .ok t) : task d reference' n = .ok t := by
  induction n using inductionOnHeld generalizing t with
  | h n ih =>
    cases form d n with
    | reference name hn =>
      subst hn
      exact h name t ht
    | single r htask => rw [htask] at ht ⊢; exact ht
    | group kind owner items build htask hrule =>
      rw [htask, inside_eq_ok, map_eq_ok] at ht ⊢
      obtain ⟨ts, hts, rfl⟩ := ht
      exact ⟨ts, tasks_mono (fun m hm u => ih m (hrule.holds_iff.2 hm)) hts, rfl⟩

/-- A task is refused for problems of its parts, or in the ways in which references are. -/
theorem refusesWith_task {P : Failure → Prop} (hP : HoldsOfParts P)
    (hn : n.ShownOr P) (href : ∀ name, RefusesWith P (reference name)) :
    RefusesWith P (task d reference n) := by
  induction n using inductionOnHeld with
  | h n ih =>
    cases form d n with
    | reference name hname =>
      subst hname
      exact href name
    | single r htask hown =>
      rw [htask]
      exact hown P hP hn
    | group kind owner items build htask hrule =>
      rw [htask]
      refine ((refusesWith_tasks hP (fun m hm => ?_) 0).map build).inside hP rfl
      have hholds := hrule.holds_iff.2 hm
      exact ih m hholds (hholds.shownOr hn)

theorem accepted_of_holds {m : Node} (h : n.Holds m) (ht : Accepted (task d reference n)) :
    Accepted (task d reference m) := by
  obtain ⟨t, ht⟩ := ht
  cases form d n with
  | reference name hn =>
    rw [hn] at h
    cases h
  | single r htask _ hrule =>
    rw [htask] at ht
    exact ((hrule t ht).not_holds h).elim
  | group kind owner items build htask hrule =>
    rw [htask, inside_eq_ok, map_eq_ok] at ht
    obtain ⟨ts, hts, -⟩ := ht
    exact accepted_tasks.1 ⟨ts, hts⟩ m (hrule.holds_iff.1 h)

/-- Where a task is accepted, what it refers to is accepted. -/
theorem accepted_of_mentions (hm : n.Mentions name) (ht : Accepted (task d reference n)) :
    Accepted (reference name) := by
  induction hm with
  | here => exact ht
  | held h _ ih => exact ih (accepted_of_holds h ht)

/-- A cycle that a task reports is reported by something that it refers to. -/
theorem exists_mentions_of_reports {c : Cause} (hc : c.kind = .jobCycle)
    (h : Reports (task d reference n) c) :
    ∃ name, n.Mentions name ∧ Reports (reference name) c := by
  induction n using inductionOnHeld with
  | h n ih =>
    cases form d n with
    | reference name hn =>
      subst hn
      exact ⟨name, .here, h⟩
    | single r htask hown =>
      rw [htask] at h
      exact (noCycle_iff.2 (hown _ holdsOfParts_noCycle n.shownOr_noCycle) c h hc).elim
    | group kind owner items build htask hrule =>
      rw [htask] at h
      rcases reports_of_inside h with rfl | h
      · cases hc
      · rcases reports_of_tasks (reports_map.1 h) with ⟨i, rfl⟩ | ⟨m, hm, h⟩
        · cases hc
        · have hholds := hrule.holds_iff.2 hm
          obtain ⟨name, hname, h⟩ := ih m hholds h
          exact ⟨name, .held hholds hname, h⟩

/-- What a task refers to occurs in what the task stands for. -/
theorem exists_within_of_mentions (hm : n.Mentions name) (ht : task d reference n = .ok t) :
    ∃ u, reference name = .ok u ∧ u.Within t := by
  induction hm generalizing t with
  | here => exact ⟨t, ht, .self⟩
  | @held n m hholds _ ih =>
    cases form d n with
    | reference name hn =>
      rw [hn] at hholds
      cases hholds
    | single r htask _ hrule =>
      rw [htask] at ht
      exact ((hrule t ht).not_holds hholds).elim
    | group kind owner items build htask hrule hchildren =>
      rw [htask, inside_eq_ok, map_eq_ok] at ht
      obtain ⟨ts, hts, rfl⟩ := ht
      obtain ⟨s, hs, hms⟩ := exists_mem_of_tasks hts (hrule.holds_iff.1 hholds)
      obtain ⟨u, hu, hus⟩ := ih hms
      have hchild : s ∈ (build ts).children := by rwa [hchildren ts]
      exact ⟨u, hu, .child hchild hus⟩

/-- The jobs in a task come from what it refers to. -/
theorem exists_mentions_of_within {us : List Task} (ht : task d reference n = .ok t)
    (hw : (Task.job name us).Within t) :
    ∃ other u, n.Mentions other ∧ reference other = .ok u ∧ (Task.job name us).Within u := by
  induction n using inductionOnHeld generalizing t with
  | h n ih =>
    cases form d n with
    | reference other hn =>
      subst hn
      exact ⟨other, t, .here, ht, hw⟩
    | single r htask _ _ hchildren hjob =>
      rw [htask] at ht
      rcases hw.eq_or_child with h | ⟨u, hu, -⟩
      · exact (hjob t ht name us h.symm).elim
      · rw [hchildren t ht] at hu
        cases hu
    | group kind owner items build htask hrule hchildren hjob =>
      rw [htask, inside_eq_ok, map_eq_ok] at ht
      obtain ⟨ts, hts, rfl⟩ := ht
      rcases hw.eq_or_child with h | ⟨u, hu, h⟩
      · exact (hjob ts name us h.symm).elim
      · rw [hchildren ts] at hu
        obtain ⟨m, hm, hu⟩ := exists_of_mem_tasks hts hu
        have hholds := hrule.holds_iff.2 hm
        obtain ⟨other, v, hmentions, hv⟩ := ih m hholds hu h
        exact ⟨other, v, .held hholds hmentions, hv⟩

end Node
end Runbook
