import Runbook.Proofs.FirstEntries
import Runbook.Proofs.Sequences

set_option autoImplicit false

/-! # Where a workflow is refused

A refusal leads from the first job that is refused to a value with a problem. On the way there each
context names what is entered: a job at a reference to it, the task of a list by its index, or the kind
of a task. The tasks before one that is entered are all accepted. The problem stands at the end and is
no context; only if it is that the value cannot be shown, it stands alone, and nothing says where. -/

namespace Runbook

open Parsed

/-! ## Problems of values -/

/-- A problem of a value, as it stands at the end of a report. It is no context, and it is one that a
    workflow reports itself, unless it is that the value cannot be shown. -/
structure GrammarProblem.IsRoot (p : GrammarProblem) (value : Node) : Prop where
  noContext : p.kind ≠ .parse
  workflow : p ≠ .unwritable → p.kind.isA .workflow = true
  shown : p = .unwritable → value.isWritable = false

theorem GrammarProblem.IsRoot.of_own {p : GrammarProblem} {value : Node} (hp : IsOwnProblem p)
    (hcontext : p.kind ≠ .parse) : p.IsRoot value where
  noContext := hcontext
  workflow := by
    intro
    cases p with
    | misuse m => exact absurd rfl (hp.proper m)
    | unwritable => exact absurd rfl hp.writable
    | _ => rfl
  shown h := absurd h hp.writable

/-- A failure is a problem of a value, and nothing says where. -/
def Failure.IsProblemOf (value : Node) (f : Failure) : Prop :=
  ∃ p : GrammarProblem, f = .of (.grammar p) ∧ p.IsRoot value

theorem holdsOfProblems_isProblemOf (value : Node) :
    HoldsOfProblems (Failure.IsProblemOf value) :=
  fun p hp hcontext => ⟨p, rfl, .of_own hp hcontext⟩

theorem Node.shownOr_isProblemOf (n : Node) : n.ShownOr (Failure.IsProblemOf n) := by
  cases hn : n.isWritable with
  | true => exact .inl hn
  | false => exact .inr ⟨.unwritable, rfl, nofun, fun h => absurd rfl h, fun _ => hn⟩

/-- A failure tells of a problem in some contexts, the outermost first. A value that cannot be shown is
    told of without them. -/
def Failure.Tells (f : Failure) (contexts : List GrammarProblem) (p : GrammarProblem) : Prop :=
  if p = .unwritable then f = .of (.grammar .unwritable)
  else f.links = (contexts ++ [p]).map Cause.grammar

theorem Failure.tells_of {p : GrammarProblem} : (Failure.of (.grammar p)).Tells [] p := by
  unfold Tells
  split
  · next h => rw [h]
  · rfl

/-- One more context is put in front of what is told. -/
theorem Failure.Tells.within {f : Failure} {contexts : List GrammarProblem} {p c : GrammarProblem}
    {value : Node} (h : f.Tells contexts p) (hcontexts : ∀ c ∈ contexts, c.kind = .parse)
    (hp : p.IsRoot value) :
    Failure.Tells (if f.isWorkflow then f.because (.grammar c) else f) (c :: contexts) p := by
  unfold Tells at h ⊢
  split at h
  · next hunwritable =>
    subst h
    rw [if_pos hunwritable]
    rfl
  · next hwritable =>
    have hworkflow : f.isWorkflow = true := by
      obtain ⟨head, behind⟩ := f
      cases contexts with
      | nil =>
        obtain ⟨rfl, -⟩ := List.cons.inj h
        exact hp.workflow hwritable
      | cons first contexts =>
        obtain ⟨rfl, -⟩ := List.cons.inj h
        have hfirst : first.kind = .parse := hcontexts first List.mem_cons_self
        change first.kind.isA .workflow = true
        rw [hfirst]
        rfl
    rw [if_neg hwritable, if_pos hworkflow, Failure.links_because, h]
    rfl

/-! ## Tasks that are refused -/

namespace Node

variable {d : TaskDefaults} {reference : String → Parsed Task} {f : Failure}

/-- A list of tasks is refused where the first of them is refused. -/
theorem exists_of_tasks_error {owner : String} {index : Nat} {ns : List Node}
    (h : tasks d reference owner index ns = .error f) :
    ∃ before m after g, ns = before ++ m :: after ∧
      (∀ k ∈ before, Accepted (task d reference k)) ∧ task d reference m = .error g ∧
      f = if g.isWorkflow then g.because (.grammar (.inTask owner (index + before.length))) else g := by
  induction ns generalizing index f with
  | nil => cases h
  | cons n ns ih =>
    rw [tasks] at h
    cases hn : task d reference n with
    | error g =>
      rw [hn] at h
      exact ⟨[], n, ns, g, rfl, by simp, hn, (Except.error.inj h).symm⟩
    | ok t =>
      rw [hn] at h
      cases hns : tasks d reference owner (index + 1) ns with
      | ok ts =>
        rw [hns] at h
        cases h
      | error g =>
        rw [hns] at h
        obtain ⟨before, m, after, g', rfl, hbefore, hm, hg⟩ := ih hns
        refine ⟨n :: before, m, after, g', rfl, List.forall_mem_cons.2 ⟨⟨t, hn⟩, hbefore⟩, hm, ?_⟩
        rw [← Except.error.inj h, hg, List.length_cons, Nat.add_assoc, Nat.add_comm 1]

/-- How a task of a kind is read. -/
inductive Reading (d : TaskDefaults) (place : Option Nat) (kind : String) (config : Node)
    (rest : Entries) : Prop
  /-- Its description is accepted or refused by itself, whatever references stand for. -/
  | single (r : Parsed Task)
    (htask : ∀ reference, task d reference (map place ((.text kind, config) :: rest))
      = inside (.inKind kind) r)
    (hown : RefusesWith (Failure.IsProblemOf config) r)
  /-- It holds other tasks. -/
  | group (items : List Node) (build : List Task → Task)
    (htask : ∀ reference, task d reference (map place ((.text kind, config) :: rest))
      = inside (.inKind kind) ((tasks d reference kind 0 items).map build))
    (hgroup : IsGroup (map place ((.text kind, config) :: rest)) items)

variable {place : Option Nat} {kind : String} {config : Node} {rest : Entries}

/-- A description that is wrong. -/
theorem Reading.of_wrong {p : GrammarProblem}
    (h : ∀ reference, task d reference (map place ((.text kind, config) :: rest))
      = inside (.inKind kind) (refuse p)) (hp : IsOwnProblem p) (hcontext : p.kind ≠ .parse) :
    Reading d place kind config rest :=
  .single _ h (refusesWith_refuse (holdsOfProblems_isProblemOf config p hp hcontext))

/-- A platform branch. -/
theorem reading_branch (platform : Platform) (hkind : kind = "on-windows" ∨ kind = "on-linux")
    (hname : "on-" ++ platform.name = kind)
    (h : ∀ reference, task d reference (map place ((.text kind, config) :: rest))
      = inside (.inKind kind) (branch d reference platform config)) :
    Reading d place kind config rest := by
  cases config with
  | list place' items =>
    refine .group items (.onPlatform platform) (fun reference => ?_) (.branch hkind)
    rw [h, branch, hname]
  | _ => exact .of_wrong h ⟨nofun, nofun, nofun⟩ nofun

/-- A parallel group of some tasks, wherever they stand. -/
theorem reading_parallel (threads : Int) (items : List Node)
    (h : ∀ reference, task d reference (map place ((.text "parallel", config) :: rest))
      = inside (.inKind "parallel") (if items.isEmpty then refuse .parallelEmpty
          else (tasks d reference "parallel" 0 items).map (.parallel · threads)))
    (hgroup : items ≠ [] → IsGroup (map place ((.text "parallel", config) :: rest)) items) :
    Reading d place "parallel" config rest := by
  cases items with
  | nil => exact .of_wrong h ⟨nofun, nofun, nofun⟩ nofun
  | cons n ns =>
    exact .group (n :: ns) (.parallel · threads) h (hgroup (List.cons_ne_nil n ns))

/-- A parallel group, described by a list or by a mapping. -/
theorem reading_group : Reading d place "parallel" config rest := by
  have h : ∀ reference, task d reference (map place ((.text "parallel", config) :: rest))
      = inside (.inKind "parallel") (group d reference config) := by
    intro reference
    simp [task]
  cases config with
  | list place' items => exact reading_parallel d.threads items h .group
  | map place' es =>
    simp only [group, groupField_eq] at h
    cases hthreads : threads d es with
    | error f =>
      rw [hthreads] at h
      refine .single (.error f) h ?_
      rintro _ ⟨⟩
      exact refusesWith_threads (holdsOfProblems_isProblemOf _) d es f hthreads
    | ok count =>
      rw [hthreads] at h
      cases htasks : Entries.get? es "tasks" with
      | none =>
        rw [htasks] at h
        exact .of_wrong h ⟨nofun, nofun, nofun⟩ nofun
      | some v =>
        rw [htasks] at h
        cases v with
        | list place'' items =>
          exact reading_parallel count items h
            (.groupField (accepted_threads.1 ⟨count, hthreads⟩) htasks)
        | _ => exact .of_wrong h ⟨nofun, nofun, nofun⟩ nofun
  | _ => exact .of_wrong h ⟨nofun, nofun, nofun⟩ nofun

/-- Every kind of task is read in one of the two ways. -/
theorem reading (hkind : kind ∈ taskKinds) : Reading d place kind config rest := by
  have hP := holdsOfProblems_isProblemOf config
  have hn := config.shownOr_isProblemOf
  simp only [taskKinds, List.mem_cons, List.not_mem_nil, or_false] at hkind
  rcases hkind with
    rfl | rfl | rfl | rfl | rfl | rfl | rfl | rfl | rfl | rfl | rfl
  · exact .single _ (fun _ => by simp [task]) ((refusesWith_localCommand hP hn .bash).map .run)
  · exact .single _ (fun _ => by simp [task]) ((refusesWith_localCommand hP hn .cmd).map .run)
  · exact reading_branch .windows (.inl rfl) rfl fun _ => by simp [task]
  · exact reading_branch .linux (.inr rfl) rfl fun _ => by simp [task]
  · exact .single _ (fun _ => by simp [task]) ((refusesWith_batch hP hn d).map fun x => .ssh x.1 x.2)
  · exact .single _ (fun _ => by simp [task])
      ((refusesWith_transfer hP d .scpDownload config).map .transfer)
  · exact .single _ (fun _ => by simp [task])
      ((refusesWith_transfer hP d .scpUpload config).map .transfer)
  · exact .single _ (fun _ => by simp [task])
      ((refusesWith_transfer hP d .sftpDownload config).map .transfer)
  · exact .single _ (fun _ => by simp [task])
      ((refusesWith_transfer hP d .sftpUpload config).map .transfer)
  · exact .single _ (fun _ => by simp [task]) ((refusesWith_message hP hn).map .print)
  · exact reading_group

/-- A kind that no task is of. -/
theorem task_of_unknown (hkind : kind ∉ taskKinds) :
    task d reference (map place ((.text kind, config) :: rest)) = refuse (.taskUnknown kind) := by
  simp only [taskKinds, List.mem_cons, List.not_mem_nil, or_false, not_or] at hkind
  simp [task, hkind]

end Node

namespace Entries

variable {d : TaskDefaults} {root : Entries} {stack : List String} {n value : Node}
  {contexts : List GrammarProblem} {p : GrammarProblem} {f : Failure}

/-- A node, read as a task below a chain of references, is refused for a problem of a value, and some
    contexts lead from the node to the value. A reference leads into the body of a job, and a branch or a
    group into its list of tasks; from a list an index leads on to the first task that is refused. The
    way ends at a node that is no task, at a kind that is unknown or whose description is wrong, at a
    reference that is cyclic or leads nowhere, or at a body that is no list. -/
inductive Locates (d : TaskDefaults) (root : Entries) :
    List String → Node → List GrammarProblem → Node → GrammarProblem → Prop
  | shape {stack : List String} {n : Node} (hname : ∀ name, n ≠ .scalar (.text name))
    (hentry : n.taskEntry = refuse n.entryProblem) : Locates d root stack n [] n n.entryProblem
  | unknown {stack : List String} {place : Option Nat} {kind : String} {config : Node}
    {rest : Entries} (hkind : kind ∉ Node.taskKinds) :
    Locates d root stack (.map place ((.text kind, config) :: rest)) []
      (.map place ((.text kind, config) :: rest)) (.taskUnknown kind)
  | description {stack : List String} {place : Option Nat} {kind : String} {config : Node}
    {rest : Entries} {p : GrammarProblem} (hkind : kind ∈ Node.taskKinds) (hroot : p.IsRoot config)
    (hrefused : ∀ reference, Node.task d reference (.map place ((.text kind, config) :: rest))
      = inside (.inKind kind) (refuse p)) :
    Locates d root stack (.map place ((.text kind, config) :: rest)) [.inKind kind] config p
  | group {stack : List String} {place : Option Nat} {kind : String} {config m value : Node}
    {rest : Entries} {before after : List Node} {contexts : List GrammarProblem}
    {p : GrammarProblem}
    (hgroup : Node.IsGroup (.map place ((.text kind, config) :: rest)) (before ++ m :: after))
    (hbefore : ∀ k ∈ before, Accepted (Node.task d (referenceFrom d root stack) k))
    (hm : Locates d root stack m contexts value p) :
    Locates d root stack (.map place ((.text kind, config) :: rest))
      (.inKind kind :: .inTask kind before.length :: contexts) value p
  | cycle {stack : List String} {name : String} (hname : name ∈ stack) :
    Locates d root stack (.scalar (.text name)) [] (.scalar (.text name))
      (.jobCycle (stack.dropWhile (· ≠ name) ++ [name]))
  | missing {stack : List String} {name : String} (hname : name ∉ stack)
    (hget : root.get? name = none) :
    Locates d root stack (.scalar (.text name)) [] (.scalar (.text name)) (.jobUnknown name)
  | body {stack : List String} {name : String} {value : Node} (hname : name ∉ stack)
    (hget : root.get? name = some value) (hvalue : ∀ place items, value ≠ .list place items) :
    Locates d root stack (.scalar (.text name)) [.inJob name] value
      (.notSequence ("Child of " ++ name))
  | reference {stack : List String} {name : String} {place : Option Nat} {m value : Node}
    {before after : List Node} {contexts : List GrammarProblem} {p : GrammarProblem}
    (hname : name ∉ stack) (hget : root.get? name = some (.list place (before ++ m :: after)))
    (hbefore : ∀ k ∈ before, Accepted (Node.task d (referenceFrom d root (stack ++ [name])) k))
    (hm : Locates d root (stack ++ [name]) m contexts value p) :
    Locates d root stack (.scalar (.text name))
      (.inJob name :: .inTask name before.length :: contexts) value p

theorem Locates.isRoot (h : root.Locates d stack n contexts value p) : p.IsRoot value := by
  induction h with
  | @shape _ n _ _ =>
    have hproblem : n.entryProblem = .taskEmpty ∨ n.entryProblem = .taskNameNotText ∨
        n.entryProblem = .taskNotMapping := by
      unfold Node.entryProblem
      split <;> simp
    rcases hproblem with h | h | h <;> rw [h] <;> exact ⟨nofun, fun _ => rfl, nofun⟩
  | description _ hroot _ => exact hroot
  | group _ _ _ ih | reference _ _ _ _ ih => exact ih
  | unknown _ | cycle _ | missing _ _ | body _ _ _ => exact ⟨nofun, fun _ => rfl, nofun⟩

theorem Locates.contexts_kind (h : root.Locates d stack n contexts value p) :
    ∀ c ∈ contexts, c.kind = .parse := by
  induction h with
  | shape _ _ | unknown _ | cycle _ | missing _ _ => simp
  | description _ _ _ | body _ _ _ => simp [GrammarProblem.kind]
  | group _ _ _ ih | reference _ _ _ _ ih => simpa [GrammarProblem.kind] using ih

/-- A refusal of a node is told of in contexts that lead to a value with a problem. -/
def IsLocated (d : TaskDefaults) (root : Entries) (stack : List String) (n : Node) (f : Failure) :
    Prop :=
  ∃ contexts value p, root.Locates d stack n contexts value p ∧ f.Tells contexts p

/-- A list of tasks that is refused leads on to the first of its tasks that is. -/
theorem exists_located_of_tasks {owner : String} {items : List Node}
    (hitem : ∀ m ∈ items, ∀ g, Node.task d (referenceFrom d root stack) m = .error g →
      root.IsLocated d stack m g)
    (h : Node.tasks d (referenceFrom d root stack) owner 0 items = .error f) :
    ∃ before m after contexts value p, items = before ++ m :: after ∧
      (∀ k ∈ before, Accepted (Node.task d (referenceFrom d root stack) k)) ∧
      root.Locates d stack m contexts value p ∧
      f.Tells (.inTask owner before.length :: contexts) p := by
  obtain ⟨before, m, after, g, rfl, hbefore, hm, hf⟩ := Node.exists_of_tasks_error h
  obtain ⟨contexts, value, p, hlocates, htells⟩ := hitem m (by simp) g hm
  rw [Nat.zero_add] at hf
  refine ⟨before, m, after, contexts, value, p, rfl, hbefore, hlocates, ?_⟩
  exact hf ▸ htells.within hlocates.contexts_kind hlocates.isRoot

/-- A task of a kind is refused at a place, if the tasks that it holds are where they are refused. -/
theorem isLocated_of_entry {place : Option Nat} {kind : String} {config : Node} {rest : Entries}
    (hheld : ∀ m, Node.Holds (.map place ((.text kind, config) :: rest)) m → ∀ g,
      Node.task d (referenceFrom d root stack) m = .error g → root.IsLocated d stack m g)
    (h : Node.task d (referenceFrom d root stack) (.map place ((.text kind, config) :: rest))
      = .error f) :
    root.IsLocated d stack (.map place ((.text kind, config) :: rest)) f := by
  by_cases hkind : kind ∈ Node.taskKinds
  · have hreading : Node.Reading d place kind config rest := Node.reading hkind
    cases hreading with
    | single r htask hown =>
      rw [htask] at h
      cases r with
      | ok t => cases h
      | error g =>
        obtain ⟨p, rfl, hp⟩ := hown g rfl
        obtain rfl := Except.error.inj h
        exact ⟨_, _, _, .description hkind hp htask, Failure.tells_of.within (by simp) hp⟩
    | group items build htask hgroup =>
      rw [htask] at h
      cases hitems : Node.tasks d (referenceFrom d root stack) kind 0 items with
      | ok ts =>
        rw [hitems] at h
        cases h
      | error g =>
        rw [hitems] at h
        obtain rfl := Except.error.inj h
        obtain ⟨before, m, after, contexts, value, p, rfl, hbefore, hlocates, htells⟩ :=
          exists_located_of_tasks (fun m hm => hheld m (hgroup.holds_iff.2 hm)) hitems
        refine ⟨_, value, p, .group hgroup hbefore hlocates, htells.within ?_ hlocates.isRoot⟩
        exact List.forall_mem_cons.2 ⟨rfl, hlocates.contexts_kind⟩
  · rw [Node.task_of_unknown hkind] at h
    obtain rfl := Except.error.inj h
    exact ⟨_, _, _, .unknown hkind, Failure.tells_of⟩

/-- A task is refused at a place, if the references in it are where they are refused. -/
theorem isLocated_of_task
    (href : ∀ name g, referenceFrom d root stack name = .error g →
      root.IsLocated d stack (.scalar (.text name)) g)
    (h : Node.task d (referenceFrom d root stack) n = .error f) : root.IsLocated d stack n f := by
  induction n using Node.inductionOnHeld generalizing f with
  | h n ih =>
    have wrong : ∀ {k : Node}, (∀ name, k ≠ .scalar (.text name)) →
        k.taskEntry = refuse k.entryProblem → f = .of (.grammar k.entryProblem) →
        root.IsLocated d stack k f := by
      rintro k hname hentry rfl
      exact ⟨_, _, _, .shape hname hentry, Failure.tells_of⟩
    cases n with
    | scalar s =>
      cases s with
      | text name => exact href name f h
      | _ => exact wrong nofun rfl (Except.error.inj h).symm
    | map place es =>
      cases es with
      | nil => exact wrong nofun rfl (Except.error.inj h).symm
      | cons entry rest =>
        obtain ⟨key, config⟩ := entry
        cases key with
        | text kind => exact isLocated_of_entry (fun m hm g => ih m hm) h
        | _ => exact wrong nofun rfl (Except.error.inj h).symm
    | _ => exact wrong nofun rfl (Except.error.inj h).symm

/-- A reference to a job is refused at a place, below every chain of references. -/
theorem isLocated_of_job (stack : List String) (name : String) :
    ∀ f, job d root stack name = .error f → root.IsLocated d stack (.scalar (.text name)) f := by
  induction stack, name using inductionOnChain root with
  | h stack name ih =>
    intro f h
    by_cases hname : name ∈ stack
    · rw [job_of_mem hname] at h
      obtain rfl := Except.error.inj h
      exact ⟨_, _, _, .cycle hname, Failure.tells_of⟩
    rw [job_of_not_mem hname] at h
    cases hget : root.get? name with
    | none =>
      rw [jobWith_of_get?_eq_none hget] at h
      obtain rfl := Except.error.inj h
      exact ⟨_, _, _, .missing hname hget, Failure.tells_of⟩
    | some value =>
      have href : ∀ other g, referenceFrom d root (stack ++ [name]) other = .error g →
          root.IsLocated d (stack ++ [name]) (.scalar (.text other)) g := by
        intro other g hg
        cases hjob : job d root (stack ++ [name]) other with
        | ok j =>
          rw [referenceFrom, hjob] at hg
          cases hg
        | error g' =>
          rw [referenceFrom, hjob] at hg
          obtain rfl : g' = g := Except.error.inj hg
          exact ih _ hname hget other g' hjob
      rw [jobWith, hget] at h
      cases value with
      | list place items =>
        cases hitems : Node.tasks d (referenceFrom d root (stack ++ [name])) name 0 items with
        | ok ts =>
          simp only [Node.requireItems, bind, Except.bind, hitems] at h
          cases h
        | error g =>
          simp only [Node.requireItems, bind, Except.bind, hitems] at h
          obtain rfl := Except.error.inj h
          obtain ⟨before, m, after, contexts, value, p, rfl, hbefore, hlocates, htells⟩ :=
            exists_located_of_tasks (fun m _ g => isLocated_of_task href) hitems
          refine ⟨_, value, p, .reference hname hget hbefore hlocates,
            htells.within ?_ hlocates.isRoot⟩
          exact List.forall_mem_cons.2 ⟨rfl, hlocates.contexts_kind⟩
      | _ =>
        obtain rfl := Except.error.inj h
        have hlocates : root.Locates d stack _ _ _ _ := .body hname hget fun _ _ h => by cases h
        exact ⟨_, _, _, hlocates, Failure.tells_of.within (by simp) hlocates.isRoot⟩

/-- What leads from the job of an entry to a value enters that job first. -/
theorem Locates.exists_inJob {name : String} (hget : root.get? name = some n)
    (h : root.Locates d [] (.scalar (.text name)) contexts value p) :
    ∃ more, contexts = .inJob name :: more := by
  cases h with
  | shape hname _ => exact absurd rfl (hname name)
  | cycle hname => cases hname
  | missing _ hnone =>
    rw [hget] at hnone
    cases hnone
  | body _ _ _ => exact ⟨_, rfl⟩
  | reference _ _ _ _ => exact ⟨_, rfl⟩

/-- The jobs of a document whose keys are texts are refused where the first of them is. -/
theorem exists_of_jobsBy_error {jobAt : String → Parsed Job} {es : Entries} (hkeys : es.HasTextKeys)
    (h : jobsBy jobAt es = .error f) :
    ∃ before name after, es.jobNames = before ++ name :: after ∧
      (∀ other ∈ before, Accepted (jobAt other)) ∧ jobAt name = .error f := by
  induction es with
  | nil => cases h
  | cons e es ih =>
    obtain ⟨key, v⟩ := e
    obtain ⟨name, rfl⟩ : ∃ name, key = .text name := hkeys _ List.mem_cons_self
    have hrest := ih (hasTextKeys_cons.1 hkeys)
    rw [jobsBy] at h
    rw [jobNames_cons]
    split_ifs at h ⊢
    · exact hrest h
    · cases hname : jobAt name with
      | error g =>
        rw [hname] at h
        exact ⟨[], name, _, rfl, by simp, hname.trans (congrArg _ (Except.error.inj h))⟩
      | ok j =>
        rw [hname] at h
        cases hes : jobsBy jobAt es with
        | ok js =>
          rw [hes] at h
          cases h
        | error g =>
          rw [hes] at h
          obtain ⟨before, other, after, hnames, hbefore, hother⟩ :=
            hrest (hes.trans (congrArg _ (Except.error.inj h)))
          exact ⟨name :: before, other, after, by rw [hnames, List.cons_append],
            List.forall_mem_cons.2 ⟨⟨j, hname⟩, hbefore⟩, hother⟩

end Entries

namespace Node

variable {d : TaskDefaults} {place : Option Nat} {root : Entries} {f : Failure}

/-- How a document whose keys are texts is refused. The jobs before the first that is refused are all
    accepted. From that job on, contexts lead to a value with a problem, which is none of them; and what
    is reported is those contexts, that of the job first, and then the problem. The one exception is a
    value that cannot be shown: then this is all that is reported, and nothing says where. -/
theorem jobs_locates (hkeys : Entries.HasTextKeys root) (h : (map place root).jobs d = .error f) :
    ∃ before name after contexts value p,
      Entries.jobNames root = before ++ name :: after ∧
      (∀ other ∈ before, Accepted (Entries.job d root [] other)) ∧
      Entries.job d root [] name = .error f ∧
      Entries.Locates d root [] (scalar (.text name)) (.inJob name :: contexts) value p ∧
      (∀ c ∈ contexts, c.kind = .parse) ∧ p.kind ≠ .parse ∧
      (f.isA .parse = true ↔ p ≠ .unwritable) ∧
      (p ≠ .unwritable → f.links = (.inJob name :: contexts ++ [p]).map Cause.grammar) ∧
      (p = .unwritable → f = .of (.grammar .unwritable) ∧ value.isWritable = false) := by
  rw [jobs_map] at h
  obtain ⟨before, name, after, hnames, hbefore, hname⟩ := Entries.exists_of_jobsBy_error hkeys h
  obtain ⟨contexts, value, p, hlocates, htells⟩ := Entries.isLocated_of_job [] name f hname
  have hmem : name ∈ Entries.jobNames root := by simp [hnames]
  obtain ⟨-, v, hget⟩ := Entries.mem_jobNames.1 hmem
  obtain ⟨more, rfl⟩ := hlocates.exists_inJob hget
  have hroot := hlocates.isRoot
  obtain ⟨-, hcontexts⟩ := List.forall_mem_cons.1 hlocates.contexts_kind
  refine ⟨before, name, after, more, value, p, hnames, hbefore, hname, hlocates, hcontexts,
    hroot.noContext, ?_⟩
  unfold Failure.Tells at htells
  split at htells
  · next hunwritable =>
    subst htells
    exact ⟨iff_of_false nofun (absurd hunwritable), absurd hunwritable,
      fun _ => ⟨rfl, hroot.shown hunwritable⟩⟩
  · next hwritable =>
    obtain ⟨head, behind⟩ := f
    obtain ⟨rfl, -⟩ := List.cons.inj htells
    exact ⟨iff_of_true rfl hwritable, fun _ => htells, fun h => absurd h hwritable⟩

/-- A document with a group whose second task refers to a job with a message that is none. -/
def misprintedSample : Node :=
  map none [(.text "a", list none [map none [(.text "parallel", list none
      [map none [(.text "print", text "x")], text "b"])]]),
    (.text "b", list none [map none [(.text "print", list none [])]])]

theorem jobs_misprintedSample : ∃ f, misprintedSample.jobs ⟨1, 22⟩ = .error f ∧
    f.links = [.grammar (.inJob "a"), .grammar (.inTask "a" 0), .grammar (.inKind "parallel"),
      .grammar (.inTask "parallel" 1), .grammar (.inJob "b"), .grammar (.inTask "b" 0),
      .grammar (.inKind "print"), .grammar (.printNotText "[]")] :=
  ⟨_, (jobsWithin_eq_jobs (by decide : 2 < 3) fun _ _ => .ok default).symm.trans rfl, rfl⟩

theorem jobs_locates_sample : ∃ f contexts value p,
    misprintedSample.jobs ⟨1, 22⟩ = .error f ∧ f.isA .parse = true ∧
      Entries.Locates ⟨1, 22⟩ misprintedSample.entries [] (text "a") (.inJob "a" :: contexts) value
        p := by
  obtain ⟨f, hjobs, hlinks⟩ := jobs_misprintedSample
  have hkeys : misprintedSample.entries.HasTextKeys := by
    simp [misprintedSample, Node.entries, Entries.HasTextKeys]
  obtain ⟨-, name, -, contexts, value, p, -, -, -, hlocates, -, -, hiff, htells, -⟩ :=
    jobs_locates hkeys hjobs
  have hparse : f.isA .parse = true := by
    obtain ⟨head, behind⟩ := f
    obtain ⟨rfl, -⟩ := List.cons.inj hlinks
    rfl
  -- what is reported first is the job that is entered first
  obtain ⟨hname, -⟩ := List.cons.inj ((htells (hiff.1 hparse)).symm.trans hlinks)
  cases hname
  exact ⟨f, contexts, value, p, hjobs, hparse, hlocates⟩

/-- A document whose one job is to print a number, which is refused as a message. -/
def numberedSample (k : Int) : Node :=
  map none [(.text "a", list none [map none [(.text "print", scalar (.int k))]])]

/-- A message that would have to be shown as a number of too many digits is refused without a place. -/
theorem jobs_numberedSample {k : Int} (hk : Numeral.isWritable k = false) :
    (numberedSample k).jobs ⟨1, 22⟩ = .error (.of (.grammar .unwritable)) := by
  have hmessage : (scalar (.int k)).message = refuse .unwritable := by
    simp [message, showing, isWritable, Scalar.isWritable, hk]
  have htasks : ∀ reference, tasks ⟨1, 22⟩ reference "a" 0
      [map none [(.text "print", scalar (.int k))]] = refuse .unwritable := by
    intro reference
    simp only [tasks, task, hmessage]
    rfl
  have hjob : Entries.job ⟨1, 22⟩ (numberedSample k).entries [] "a" = refuse .unwritable := by
    have hget : Entries.get? (numberedSample k).entries "a"
        = some (list none [map none [(.text "print", scalar (.int k))]]) := rfl
    rw [Entries.job_of_not_mem List.not_mem_nil, Entries.jobWith, hget]
    simp only [requireItems, bind, Except.bind, htasks]
    rfl
  rw [numberedSample, Node.entries] at hjob
  rw [numberedSample, jobs_map, Entries.jobsBy, if_neg (by decide), hjob]
  rfl

/-- A job is refused, and nothing says which: a number in it is not shown. -/
theorem jobs_locates_unshown :
    (numberedSample (tenPow Numeral.digitLimit)).jobs ⟨1, 22⟩
        = .error (.of (.grammar .unwritable)) ∧
      (Failure.of (.grammar .unwritable)).isA .parse = false :=
  ⟨jobs_numberedSample (Task.isWritable_eq_false (Nat.le_refl _)), rfl⟩

end Node
end Runbook
