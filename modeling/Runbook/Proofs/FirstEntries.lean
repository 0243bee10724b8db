import Runbook.Proofs.Containers
import Runbook.Proofs.Expansion
import Runbook.Proofs.WorkflowGrammar

set_option autoImplicit false

/-! # The first entry of a task

A task is read by the first entry of its mapping. What stands behind that entry is not looked at, be
it a second kind of task or a field that belongs one level deeper, and it may be left out of a document
without a difference to its jobs or to how it is refused. -/

namespace Runbook

open Parsed

namespace Node

variable {d : TaskDefaults} {reference : String → Parsed Task} {n m : Node} {place : Option Nat}
  {kind : String} {config : Node} {rest : Entries}

/-! ## Tasks of one entry -/

mutual

/-- A task without what stands behind its first entry, and so for the tasks that it holds. -/
def trimmed : Node → Node
  | map place ((.text kind, config) :: _) =>
    if kind = "on-windows" ∨ kind = "on-linux" then map place [(.text kind, trimmedList config)]
    else if kind = "parallel" then map place [(.text kind, trimmedGroup config)]
    else map place [(.text kind, config)]
  | map place (e :: _) => map place [e]
  | n => n

/-- Some tasks without what stands behind the first entries. -/
def trimmedTasks : List Node → List Node
  | [] => []
  | n :: ns => trimmed n :: trimmedTasks ns

/-- A list of tasks, as the body of a job or a branch is one. -/
def trimmedList : Node → Node
  | list place items => list place (trimmedTasks items)
  | n => n

/-- The description of a parallel group: a list of tasks, or a mapping with the list and more. -/
def trimmedGroup : Node → Node
  | list place items => list place (trimmedTasks items)
  | map place es => map place (trimmedField es)
  | n => n

/-- The fields of a parallel group, in one of which the tasks are. -/
def trimmedField : List (Scalar × Node) → List (Scalar × Node)
  | [] => []
  | (key, value) :: es =>
    if key.isText "tasks" then (key, trimmedList value) :: es else (key, value) :: trimmedField es

end

/-- A document with each task without what stands behind its first entry. -/
def trimmedDocument : Node → Node
  | map place root => map place (root.map fun (key, value) => (key, trimmedList value))
  | n => n

theorem trimmed_branch (h : kind = "on-windows" ∨ kind = "on-linux") :
    trimmed (map place ((.text kind, config) :: rest)) = map place [(.text kind, trimmedList config)] := by
  rw [trimmed, if_pos h]

theorem trimmed_parallel : trimmed (map place ((.text "parallel", config) :: rest))
    = map place [(.text "parallel", trimmedGroup config)] := by
  rw [trimmed, if_neg (by decide), if_pos rfl]

theorem trimmed_single (h : ¬ (kind = "on-windows" ∨ kind = "on-linux")) (h' : kind ≠ "parallel") :
    trimmed (map place ((.text kind, config) :: rest)) = map place [(.text kind, config)] := by
  rw [trimmed, if_neg h, if_neg h']

theorem trimmedTasks_eq_map (ns : List Node) : trimmedTasks ns = ns.map trimmed := by
  induction ns with
  | nil => rfl
  | cons n ns ih => rw [trimmedTasks, ih, List.map_cons]

theorem isEmpty_trimmedTasks (ns : List Node) : (trimmedTasks ns).isEmpty = ns.isEmpty := by
  rw [trimmedTasks_eq_map, List.isEmpty_map]

theorem get?_trimmedField_of_ne {key : String} (h : key ≠ "tasks") (es : Entries) :
    Entries.get? (trimmedField es) key = Entries.get? es key := by
  induction es with
  | nil => rfl
  | cons e es ih =>
    obtain ⟨k, value⟩ := e
    rw [trimmedField]
    split_ifs with hk
    · have hkey : k.isText key = false := by
        cases k <;> simp_all [Scalar.isText]
        exact fun heq => h heq.symm
      simp [Entries.get?, hkey]
    · cases hkey : k.isText key with
      | true => simp [Entries.get?, hkey]
      | false => simpa [Entries.get?, hkey] using ih

theorem get?_trimmedField (es : Entries) :
    Entries.get? (trimmedField es) "tasks" = (Entries.get? es "tasks").map trimmedList := by
  induction es with
  | nil => rfl
  | cons e es ih =>
    obtain ⟨k, value⟩ := e
    rw [trimmedField]
    split_ifs with hk
    · simp [Entries.get?, hk]
    · simpa [Entries.get?, hk] using ih

theorem threads_trimmedField (es : Entries) : threads d (trimmedField es) = threads d es := by
  have hget := get?_trimmedField_of_ne (by decide : "threads" ≠ "tasks") es
  simp only [threads, Entries.number?, hget]

/-! ## What is read of a task -/

mutual

/-- What stands behind the first entry of a task makes no difference. -/
theorem task_trimmed : ∀ n : Node, task d reference (trimmed n) = task d reference n
  | scalar _ | list _ _ | tagged _ _ | pair _ _ | set _ | map _ [] => rfl
  | map place ((.text kind, config) :: rest) => by
    by_cases hbranch : kind = "on-windows" ∨ kind = "on-linux"
    · rw [trimmed_branch hbranch]
      rcases hbranch with rfl | rfl
      · simp [task, branch_trimmed config]
      · simp [task, branch_trimmed config]
    by_cases hgroup : kind = "parallel"
    · subst hgroup
      rw [trimmed_parallel]
      simp [task, group_trimmed config]
    · rw [trimmed_single hbranch hgroup]
      rfl
  | map _ ((.null, _) :: _) | map _ ((.bool _, _) :: _) | map _ ((.int _, _) :: _)
  | map _ ((.float _, _) :: _) | map _ ((.bytes _, _) :: _) | map _ ((.date _, _) :: _)
  | map _ ((.moment _, _) :: _) => rfl

theorem tasks_trimmed : ∀ (ns : List Node) (owner : String) (index : Nat),
    tasks d reference owner index (trimmedTasks ns) = tasks d reference owner index ns
  | [], _, _ => rfl
  | n :: ns, owner, index => by
    rw [trimmedTasks, tasks, tasks, task_trimmed n, tasks_trimmed ns]

theorem branch_trimmed : ∀ (n : Node) (platform : Platform),
    branch d reference platform (trimmedList n) = branch d reference platform n
  | list _ items, platform => by rw [trimmedList, branch, branch, tasks_trimmed items]
  | scalar _, _ | map _ _, _ | tagged _ _, _ | pair _ _, _ | set _, _ => rfl

theorem group_trimmed : ∀ n : Node, group d reference (trimmedGroup n) = group d reference n
  | list _ items => by
    rw [trimmedGroup, group, group, isEmpty_trimmedTasks, tasks_trimmed items]
  | map _ es => by
    rw [trimmedGroup, group, group, threads_trimmedField]
    exact congrArg _ (funext fun threads => groupField_trimmed es threads)
  | scalar _ | tagged _ _ | pair _ _ | set _ => rfl

theorem groupField_trimmed : ∀ (es : List (Scalar × Node)) (threads : Int),
    groupField d reference threads (trimmedField es) = groupField d reference threads es
  | [], _ => rfl
  | (key, value) :: es, threads => by
    rw [trimmedField]
    split_ifs with hkey
    · rw [groupField, groupField, if_pos hkey, if_pos hkey, groupTasks_trimmed value]
    · rw [groupField, groupField, if_neg hkey, if_neg hkey, groupField_trimmed es]

theorem groupTasks_trimmed : ∀ (n : Node) (threads : Int),
    groupTasks d reference threads (trimmedList n) = groupTasks d reference threads n
  | list _ items, threads => by
    rw [trimmedList, groupTasks, groupTasks, isEmpty_trimmedTasks, tasks_trimmed items]
  | scalar _, _ | map _ _, _ | tagged _ _, _ | pair _ _, _ | set _, _ => rfl

end

end Node

namespace Entries

variable {d : TaskDefaults} {root : Entries} {reference : String → Parsed Task} {name : String}

theorem jobWith_trimmed (reference : String → Parsed Task) (name : String) :
    jobWith d (root.map fun (key, value) => (key, value.trimmedList)) reference name
      = jobWith d root reference name := by
  rw [jobWith, jobWith, Node.get?_mapValues]
  cases root.get? name with
  | none => rfl
  | some value =>
    cases value with
    | list place items =>
      change inside (.inJob name) (do
          let ts ← Node.tasks d reference name 0 (Node.trimmedTasks items)
          return (⟨name, ts⟩ : Job)) = _
      rw [Node.tasks_trimmed]
      rfl
    | _ => rfl

/-- A node is met as a task: it stands in the body of a job, or in one that a task met refers to, or
    is held by a task met. -/
inductive Meets (root : Entries) : Node → Prop
  | body {name : String} {place : Option Nat} {items : List Node} {n : Node}
      (hname : name ∈ root.jobNames) (hbody : root.get? name = some (.list place items))
      (hn : n ∈ items) : Meets root n
  | reference {name : String} {place : Option Nat} {items : List Node} {n : Node}
      (h : Meets root (.scalar (.text name))) (hbody : root.get? name = some (.list place items))
      (hn : n ∈ items) : Meets root n
  | held {n m : Node} (h : Meets root n) (hm : n.Holds m) : Meets root m

end Entries

namespace Node

variable {d : TaskDefaults} {n m : Node} {js : List Job} {place : Option Nat} {es root : Entries}

/-! ## What is met -/

/-- The names of the kinds of tasks. -/
def taskKinds : List String :=
  ["bash", "cmd", "on-windows", "on-linux", "ssh", "scp-download", "scp-upload", "sftp-download",
    "sftp-upload", "print", "parallel"]

/-- Whatever is met in an accepted document follows the rules of a task. -/
theorem isTask_of_meets (h : Accepted (n.jobs d)) (hm : n.entries.Meets m) :
    ∃ stack, m.IsTask n.entries (fun stack name => name ∉ stack) stack := by
  have hworkflow := isWorkflow_of_accepted h
  induction hm with
  | @body name place items m hname hbody hn =>
    cases n with
    | map _ root => exact ⟨[name], hworkflow.2 name (Entries.mem_jobNames.1 hname).1 _ hbody m hn⟩
    | _ => exact hworkflow.elim
  | reference _ hbody hn ih =>
    obtain ⟨stack, htask⟩ := ih
    cases htask with
    | reference _ hbody' htasks =>
      rw [hbody] at hbody'
      cases hbody'
      exact ⟨_, htasks _ hn⟩
    | single hn => cases hn
    | group hn _ => cases hn
  | held _ hheld ih =>
    obtain ⟨stack, htask⟩ := ih
    cases htask with
    | reference _ _ _ => cases hheld
    | single hn => exact (hn.not_holds hheld).elim
    | group hn htasks => exact ⟨stack, htasks _ (hn.holds_iff.1 hheld)⟩

/-- A task is a text or a mapping whose first entry names its kind. -/
theorem IsTask.text_or_kind {free : List String → String → Prop} {stack : List String}
    (h : n.IsTask root free stack) :
    (∃ name, n = scalar (.text name)) ∨
      ∃ place kind config rest, n = map place ((.text kind, config) :: rest) ∧ kind ∈ taskKinds := by
  cases h with
  | reference _ _ _ => exact .inl ⟨_, rfl⟩
  | single hn =>
    cases hn with
    | run hkind _ => rcases hkind with rfl | rfl <;> exact .inr ⟨_, _, _, _, rfl, by decide⟩
    | print _ | batch _ => exact .inr ⟨_, _, _, _, rfl, by decide⟩
    | transfer hkind _ =>
      rcases hkind with rfl | rfl | rfl | rfl <;> exact .inr ⟨_, _, _, _, rfl, by decide⟩
  | group hn _ =>
    cases hn with
    | branch hkind => rcases hkind with rfl | rfl <;> exact .inr ⟨_, _, _, _, rfl, by decide⟩
    | group _ | groupField _ _ _ => exact .inr ⟨_, _, _, _, rfl, by decide⟩

theorem IsTask.entries_ne_nil {free : List String → String → Prop} {stack : List String}
    (h : (map place es).IsTask root free stack) : es ≠ [] := by
  rcases h.text_or_kind with ⟨name, hname⟩ | ⟨_, _, _, _, heq, -⟩
  · cases hname
  · cases heq
    exact List.cons_ne_nil _ _

/-- What a trimmed list holds is trimmed. -/
theorem exists_trimmed_of_mem {config : Node} {items : List Node}
    (h : trimmedList config = list place items) (hm : m ∈ items) : ∃ k : Node, m = k.trimmed := by
  cases config with
  | list _ ns =>
    rw [trimmedList, trimmedTasks_eq_map, list.injEq] at h
    obtain ⟨-, rfl⟩ := h
    obtain ⟨k, -, rfl⟩ := List.mem_map.1 hm
    exact ⟨k, rfl⟩
  | _ => cases h

/-- What a trimmed task holds is trimmed. -/
theorem Holds.exists_trimmed (h : n.trimmed.Holds m) : ∃ k : Node, m = k.trimmed := by
  cases n with
  | map place es =>
    rcases es with _ | ⟨⟨key, config⟩, rest⟩
    · cases h
    cases key with
    | text kind =>
      by_cases hbranch : kind = "on-windows" ∨ kind = "on-linux"
      · rw [trimmed_branch hbranch] at h
        generalize hlist : trimmedList config = body at h
        cases h with
        | branch _ hm => exact exists_trimmed_of_mem hlist hm
        | group _ | groupField _ _ => simp at hbranch
      by_cases hparallel : kind = "parallel"
      · subst hparallel
        rw [trimmed_parallel] at h
        generalize hgroup : trimmedGroup config = body at h
        cases h with
        | branch hkind _ => exact absurd hkind hbranch
        | group hm =>
          cases config with
          | list place' items =>
            change trimmedList (list place' items) = _ at hgroup
            exact exists_trimmed_of_mem hgroup hm
          | _ => cases hgroup
        | groupField htasks hm =>
          cases config with
          | map place' fields =>
            obtain ⟨-, rfl⟩ := (map.injEq ..).mp hgroup
            rw [get?_trimmedField, Option.map_eq_some_iff] at htasks
            obtain ⟨v, -, hlist⟩ := htasks
            exact exists_trimmed_of_mem hlist hm
          | _ => cases hgroup
      · rw [trimmed_single hbranch hparallel] at h
        rcases h.kind_eq with hkind | hkind | hkind <;> simp [hkind] at hbranch hparallel
    | _ => cases h
  | _ => cases h

/-- Whatever is met in a trimmed document is trimmed. -/
theorem exists_trimmed_of_meets (h : n.trimmedDocument.entries.Meets m) :
    ∃ k : Node, m = k.trimmed := by
  have hbody : ∀ {name : String} {place : Option Nat} {items : List Node},
      Entries.get? n.trimmedDocument.entries name = some (list place items) →
        ∃ v : Node, trimmedList v = list place items := by
    intro name place items hbody
    cases n with
    | map _ root =>
      rw [trimmedDocument, entries, get?_mapValues, Option.map_eq_some_iff] at hbody
      obtain ⟨v, -, hv⟩ := hbody
      exact ⟨v, hv⟩
    | _ => cases hbody
  induction h with
  | body _ hget hn | reference _ hget hn _ =>
    obtain ⟨v, hv⟩ := hbody hget
    exact exists_trimmed_of_mem hv hn
  | held _ hheld ih =>
    obtain ⟨k, rfl⟩ := ih
    exact hheld.exists_trimmed

/-- A trimmed mapping has one entry, if it has any. -/
theorem length_le_of_trimmed {k : Node} (h : map place es = k.trimmed) : es.length ≤ 1 := by
  cases k with
  | map place' es' =>
    rcases es' with _ | ⟨⟨key, config⟩, rest⟩
    · cases h
      exact Nat.zero_le 1
    cases key with
    | text kind =>
      rw [trimmed] at h
      split_ifs at h <;> cases h <;> exact le_rfl
    | _ =>
      cases h
      exact le_rfl
  | _ => cases h

/-- The fields of a group stay as they are if its tasks do. -/
theorem trimmedField_eq_self {place' : Option Nat} {items : List Node}
    (htasks : Entries.get? es "tasks" = some (list place' items))
    (h : ∀ m ∈ items, trimmed m = m) : trimmedField es = es := by
  induction es with
  | nil => rfl
  | cons e es ih =>
    obtain ⟨key, value⟩ := e
    rw [trimmedField]
    split_ifs with hkey
    · simp only [Entries.get?, List.find?_cons, hkey, Option.map_some, Option.some.injEq] at htasks
      subst htasks
      rw [trimmedList, trimmedTasks_eq_map, List.map_congr_left h, List.map_id']
    · rw [ih]
      simpa [Entries.get?, hkey] using htasks

/-- A task with one entry, which holds such tasks only, is left as it is. -/
theorem trimmed_eq_self {free : List String → String → Prop} {stack : List String}
    (h : n.IsTask root free stack) (hone : ∀ place es, n = map place es → es.length = 1)
    (hheld : ∀ m, n.Holds m → m.trimmed = m) : n.trimmed = n := by
  cases h with
  | reference _ _ _ => rfl
  | single hn =>
    have hsolo : ∀ {place kind config rest}, n = map place ((.text kind, config) :: rest) →
        ¬ (kind = "on-windows" ∨ kind = "on-linux") → kind ≠ "parallel" → n.trimmed = n := by
      rintro place kind config rest rfl hbranch hparallel
      obtain rfl : rest = [] := by simpa using hone _ _ rfl
      exact trimmed_single hbranch hparallel
    cases hn with
    | run hkind _ => rcases hkind with rfl | rfl <;> exact hsolo rfl (by decide) (by decide)
    | print _ | batch _ => exact hsolo rfl (by decide) (by decide)
    | transfer hkind _ =>
      rcases hkind with rfl | rfl | rfl | rfl <;> exact hsolo rfl (by decide) (by decide)
  | group hn htasks =>
    have hitems := fun m hm => hheld m (hn.holds_iff.2 hm)
    cases hn with
    | branch hkind =>
      obtain rfl : _ = [] := by simpa using hone _ _ rfl
      rw [trimmed_branch hkind, trimmedList, trimmedTasks_eq_map, List.map_congr_left hitems,
        List.map_id']
    | group _ =>
      obtain rfl : _ = [] := by simpa using hone _ _ rfl
      rw [trimmed_parallel, trimmedGroup, trimmedTasks_eq_map, List.map_congr_left hitems,
        List.map_id']
    | groupField _ hget _ =>
      obtain rfl : _ = [] := by simpa using hone _ _ rfl
      rw [trimmed_parallel, trimmedGroup, trimmedField_eq_self hget hitems]

/-- A document has the same jobs, or is refused in the same way, without what stands behind the first
    entries of its tasks. -/
theorem jobs_trimmed (d : TaskDefaults) (n : Node) : n.trimmedDocument.jobs d = n.jobs d := by
  cases n with
  | map place root =>
    refine Entries.jobs_congr_of_jobWith ?_ fun reference name => Entries.jobWith_trimmed reference name
    exact List.forall₂_map_left_iff.2 (List.forall₂_same.2 fun _ _ => rfl)
  | _ => rfl

/-- What stands behind the first entry of a task makes no difference to the outcome. In an accepted
    document every task that is met is a text or a mapping whose first entry names its kind; without
    what stands behind it, each has this one entry; and each has it from the start exactly where there
    is nothing to leave out. -/
theorem jobs_firstEntries (d : TaskDefaults) (n : Node) :
    n.trimmedDocument.jobs d = n.jobs d ∧
    ∀ js, n.jobs d = .ok js →
      (∀ m, n.entries.Meets m → (∃ name, m = scalar (.text name)) ∨
        ∃ place kind config rest, m = map place ((.text kind, config) :: rest) ∧ kind ∈ taskKinds) ∧
      (∀ place es, n.trimmedDocument.entries.Meets (map place es) → es.length = 1) ∧
      ((∀ place es, n.entries.Meets (map place es) → es.length = 1) ↔
        ∀ m, n.entries.Meets m → m.trimmed = m) := by
  refine ⟨jobs_trimmed d n, fun js hjs => ?_⟩
  have haccepted : Accepted (n.jobs d) := ⟨js, hjs⟩
  refine ⟨fun m hm => ?_, fun place es hmeets => ?_, fun hone m hm => ?_, fun hsame place es hm => ?_⟩
  · obtain ⟨stack, htask⟩ := isTask_of_meets haccepted hm
    exact htask.text_or_kind
  · obtain ⟨k, hk⟩ := exists_trimmed_of_meets hmeets
    have htrimmed : Accepted (n.trimmedDocument.jobs d) := ⟨js, (jobs_trimmed d n).trans hjs⟩
    obtain ⟨stack, htask⟩ := isTask_of_meets htrimmed hmeets
    have hpos : es ≠ [] := htask.entries_ne_nil
    have := length_le_of_trimmed hk
    have := List.length_pos_of_ne_nil hpos
    omega
  · -- by induction on the nodes, as a task is left as it is if what it holds is
    induction m using inductionOnHeld with
    | h m ih =>
      obtain ⟨stack, htask⟩ := isTask_of_meets haccepted hm
      refine trimmed_eq_self htask ?_ fun k hk => ih k hk (.held hm hk)
      rintro place es rfl
      exact hone place es hm
  · obtain ⟨stack, htask⟩ := isTask_of_meets haccepted hm
    have hpos : es ≠ [] := htask.entries_ne_nil
    have := length_le_of_trimmed (hsame _ hm).symm
    have := List.length_pos_of_ne_nil hpos
    omega

/-- A job with a command whose exit codes stand one level too high. -/
def misplacedSample : Node :=
  map none [(.text "a", list none [map none [(.text "bash", text "x"),
    (.text "exit_codes", list none [scalar (.int 1)])]])]

theorem jobs_misplacedSample : misplacedSample.jobs ⟨1, 22⟩
    = .ok [⟨"a", [.run ⟨.bash, ["x"], none, none⟩]⟩] :=
  (jobsWithin_eq_jobs (by decide : 1 < 2) fun _ _ => .ok default).symm.trans rfl

theorem meets_misplacedSample : misplacedSample.entries.Meets (map none [(.text "bash", text "x"),
    (.text "exit_codes", list none [scalar (.int 1)])]) :=
  .body (by decide : "a" ∈ _) rfl List.mem_cons_self

theorem jobs_firstEntries_sample :
    misplacedSample.jobs ⟨1, 22⟩ = .ok [⟨"a", [.run ⟨.bash, ["x"], none, none⟩]⟩] ∧
    misplacedSample.trimmedDocument
      = map none [(.text "a", list none [map none [(.text "bash", text "x")]])] ∧
    misplacedSample.trimmedDocument.jobs ⟨1, 22⟩
      = .ok [⟨"a", [.run ⟨.bash, ["x"], none, none⟩]⟩] ∧
    ¬ ∀ m, misplacedSample.entries.Meets m → m.trimmed = m := by
  obtain ⟨hsame, hall⟩ := jobs_firstEntries ⟨1, 22⟩ misplacedSample
  obtain ⟨-, -, hone⟩ := hall _ jobs_misplacedSample
  refine ⟨jobs_misplacedSample, rfl, hsame.trans jobs_misplacedSample, fun h => ?_⟩
  exact absurd (hone.2 h _ _ meets_misplacedSample) (by decide)

/-- A document with more in a task than its first entry is accepted. -/
theorem jobs_furtherEntry : ¬ ∀ (d : TaskDefaults) (n : Node) (js : List Job), n.jobs d = .ok js →
    ∀ place es, n.entries.Meets (map place es) → es.length = 1 := by
  intro h
  exact absurd (h _ _ _ jobs_misplacedSample _ _ meets_misplacedSample) (by decide)

end Node
end Runbook
