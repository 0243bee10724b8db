import Runbook.Proofs.References

set_option autoImplicit false

/-! # The grammar of workflows, as rules

What a workflow is, said by rules, and that exactly this is accepted. The rules know no order of
checks and nothing of what a task becomes. That references can be expanded is said by there being a
derivation, which is finite. The same rules with the demand that no name comes twice on a chain of
references accept the same workflows. -/

namespace Runbook

open Parsed Relation

namespace Node

/-- A node is a task of a workflow: a reference to a job whose body is a list of tasks, a task that
    holds no others, or a group of tasks. It is said which names may be referred to below a chain of
    references. -/
inductive IsTask (root : Entries) (free : List String → String → Prop) : List String → Node → Prop
  | reference {stack : List String} {name : String} {place : Option Nat} {body : List Node}
      (hfree : free stack name) (hbody : root.get? name = some (list place body))
      (htasks : ∀ n ∈ body, IsTask root free (stack ++ [name]) n) :
      IsTask root free stack (scalar (.text name))
  | single {stack : List String} {n : Node} (hn : n.IsSingle) : IsTask root free stack n
  | group {stack : List String} {n : Node} {items : List Node} (hn : n.IsGroup items)
      (htasks : ∀ m ∈ items, IsTask root free stack m) : IsTask root free stack n

/-- A node is the body of a job: a list of tasks. -/
def IsBody (root : Entries) (free : List String → String → Prop) (stack : List String) : Node → Prop
  | list _ items => ∀ n ∈ items, n.IsTask root free stack
  | _ => False

/-- A node is a workflow: a mapping whose keys are texts, each with the body of a job. What stands
    under the ignored key is left alone. -/
def IsWorkflow (free : List String → String → Prop) : Node → Prop
  | map _ root => Entries.HasTextKeys root ∧ ∀ name ≠ Entries.ignoredKey, ∀ v,
      Entries.get? root name = some v → v.IsBody root free [name]
  | _ => False

variable {d : TaskDefaults} {root : Entries} {free free' : List String → String → Prop}
  {stack : List String} {reference : String → Parsed Task} {n : Node} {items : List Node}
  {name : String}

/-! ## What is accepted follows the rules -/

/-- A task that is accepted follows the rules, if the references in it do. -/
theorem isTask_of_accepted
    (href : ∀ name, Accepted (reference name) → IsTask root free stack (scalar (.text name)))
    (h : Accepted (task d reference n)) : n.IsTask root free stack := by
  induction n using inductionOnHeld with
  | h n ih =>
    cases form d n with
    | reference name hn =>
      subst hn
      exact href name h
    | single r htask _ hrule =>
      rw [htask] at h
      obtain ⟨t, ht⟩ := h
      exact .single (hrule t ht)
    | group kind owner items build htask hrule =>
      refine .group hrule fun m hm => ?_
      have hholds := hrule.holds_iff.2 hm
      exact ih m hholds (accepted_of_holds hholds h)

/-- A job that is accepted below a chain follows the rules, and is not on the chain. -/
theorem isTask_of_accepted_job (h : Accepted (Entries.job d root stack name)) :
    IsTask root (fun stack name => name ∉ stack) stack (scalar (.text name)) := by
  induction stack, name using Entries.inductionOnChain root with
  | h stack name ih =>
    obtain ⟨j, hj⟩ := h
    have hname := Entries.not_mem_of_job_ok hj
    rw [Entries.job_of_not_mem hname, Entries.jobWith_eq_ok] at hj
    obtain ⟨place, body, ts, hbody, hts, -⟩ := hj
    refine .reference hname hbody fun n hn => ?_
    refine isTask_of_accepted (fun other hother => ?_) (accepted_tasks.1 ⟨ts, hts⟩ n hn)
    exact ih _ hname hbody other (accepted_map.1 hother)

/-! ## What follows the rules is accepted -/

theorem IsTask.mono (hfree : ∀ stack name, free stack name → free' stack name)
    (h : n.IsTask root free stack) : n.IsTask root free' stack := by
  induction h with
  | reference hname hbody _ ih => exact .reference (hfree _ _ hname) hbody ih
  | single hn => exact .single hn
  | group hn _ ih => exact .group hn ih

theorem IsSingle.accepted (h : n.IsSingle) : Accepted (task d reference n) := by
  cases h with
  | run hkind hconfig =>
    rcases hkind with rfl | rfl <;> simpa [task, accepted_localCommand] using hconfig
  | print hconfig => simpa [task, accepted_message] using hconfig
  | batch hconfig => simpa [task, accepted_batch] using hconfig
  | transfer hkind hconfig =>
    rcases hkind with rfl | rfl | rfl | rfl <;> simpa [task, accepted_transfer] using hconfig

theorem IsGroup.accepted_iff (h : n.IsGroup items) :
    Accepted (task d reference n) ↔ ∀ m ∈ items, Accepted (task d reference m) := by
  cases h with
  | branch hkind => rcases hkind with rfl | rfl <;> simp [task, Node.branch, accepted_tasks]
  | group hne => simp [task, Node.group, hne, accepted_tasks]
  | groupField hthreads htasks hne =>
    obtain ⟨threads, hthreads⟩ := accepted_threads (d := d).2 hthreads
    simp [task, Node.group, accepted_bind, hthreads, groupField_eq, htasks, groupTasks, hne,
      accepted_tasks]

/-- No task that follows the rules refers to a name that leads back to itself: along the references
    of a cycle the derivation would get smaller without end. -/
theorem IsTask.not_transGen (h : n.IsTask root free stack) (hm : n.Mentions name) :
    ¬ TransGen root.Refers name name := by
  induction h generalizing name with
  | reference _ hbody _ ih =>
    intro hcycle
    cases hm with
    | held h _ => cases h
    | here =>
      -- the next name of the cycle is on it too, and occurs in the body, where the derivation is
      -- smaller
      obtain ⟨next, hnext, hback⟩ := TransGen.head'_iff.1 hcycle
      have hnextCycle : TransGen root.Refers next next := TransGen.tail' hback hnext
      obtain ⟨place, body, hbody', k, hk, hmentions⟩ := hnext
      rw [hbody] at hbody'
      cases hbody'
      exact ih k hk hmentions hnextCycle
  | single hn =>
    cases hm with
    | here => cases hn
    | held h _ => exact (hn.not_holds h).elim
  | group hn _ ih =>
    cases hm with
    | here => cases hn
    | held h hm => exact ih _ (hn.holds_iff.1 h) hm

/-- A task that follows the rules is accepted at the end of a chain, if all on the chain leads to
    what the task refers to. -/
theorem IsTask.accepted {chain : List String} (h : n.IsTask root free stack)
    (hchain : ∀ first ∈ chain, ∀ name, n.Mentions name → TransGen root.Refers first name) :
    Accepted (task d (Entries.referenceFrom d root chain) n) := by
  induction h generalizing chain with
  | @reference stack name place body hfree hbody htasks ih =>
    have hname : name ∉ chain := by
      -- a name of the chain would lead back to itself
      intro hmem
      have hcycle := hchain name hmem name .here
      exact (IsTask.reference hfree hbody htasks).not_transGen .here hcycle
    have hall : ∀ n ∈ body,
        Accepted (task d (Entries.referenceFrom d root (chain ++ [name])) n) := by
      refine fun n hn => ih n hn fun first hfirst other hother => ?_
      have hrefers : root.Refers name other := ⟨place, body, hbody, n, hn, hother⟩
      rcases List.mem_append.1 hfirst with hfirst | hfirst
      · exact (hchain first hfirst name .here).tail hrefers
      · rw [List.mem_singleton.1 hfirst]
        exact .single hrefers
    have htasks' : Accepted (tasks d (Entries.referenceFrom d root (chain ++ [name])) name 0 body) :=
      accepted_tasks.2 hall
    obtain ⟨ts, hts⟩ := htasks'
    refine accepted_map.2 ⟨⟨name, ts⟩, ?_⟩
    rw [Entries.job_of_not_mem hname, Entries.jobWith_eq_ok]
    exact ⟨place, body, ts, hbody, hts, rfl⟩
  | single hn => exact hn.accepted
  | group hn _ ih =>
    refine hn.accepted_iff.2 fun m hm => ih m hm fun first hfirst name hname => ?_
    exact hchain first hfirst name (.held (hn.holds_iff.2 hm) hname)

/-! ## Workflows -/

theorem isTask_text_iff (hfree : free [] name) :
    IsTask root free [] (scalar (.text name)) ↔
      ∃ v, root.get? name = some v ∧ v.IsBody root free [name] := by
  constructor
  · intro h
    cases h with
    | reference _ hbody htasks => exact ⟨_, hbody, htasks⟩
    | single hn => cases hn
    | group hn _ => cases hn
  · rintro ⟨v, hv, hbody⟩
    cases v with
    | list place body => exact .reference hfree hv hbody
    | _ => exact hbody.elim

/-- A mapping is a workflow where its keys are texts and the references to its jobs follow the
    rules. -/
theorem isWorkflow_map_iff {place : Option Nat} (hfree : ∀ name, free [] name) :
    (map place root).IsWorkflow free ↔
      root.HasTextKeys ∧ ∀ name ∈ root.jobNames, IsTask root free [] (scalar (.text name)) := by
  refine and_congr_right fun _ => ?_
  constructor
  · intro h name hname
    obtain ⟨hignored, v, hv⟩ := Entries.mem_jobNames.1 hname
    exact (isTask_text_iff (hfree name)).2 ⟨v, hv, h name hignored v hv⟩
  · intro h name hignored v hv
    have htask := h name (Entries.mem_jobNames.2 ⟨hignored, v, hv⟩)
    obtain ⟨v', hv', hbody⟩ := (isTask_text_iff (hfree name)).1 htask
    rw [hv] at hv'
    cases hv'
    exact hbody

theorem isWorkflow_of_accepted (h : Accepted (n.jobs d)) :
    n.IsWorkflow fun stack name => name ∉ stack := by
  cases n with
  | map place root =>
    rw [jobs_map] at h
    obtain ⟨hkeys, hjobs⟩ := Entries.accepted_jobsBy.1 h
    refine (isWorkflow_map_iff fun name => List.not_mem_nil).2 ⟨hkeys, fun name hname => ?_⟩
    exact isTask_of_accepted_job (hjobs name hname)
  | _ => exact (not_accepted_refuse _ h).elim

theorem IsWorkflow.accepted (h : n.IsWorkflow fun _ _ => True) : Accepted (n.jobs d) := by
  cases n with
  | map place root =>
    rw [jobs_map]
    obtain ⟨hkeys, htasks⟩ := (isWorkflow_map_iff fun _ => trivial).1 h
    refine Entries.accepted_jobsBy.2 ⟨hkeys, fun name hname => ?_⟩
    have htask : Accepted (task d (Entries.referenceFrom d root []) (scalar (.text name))) :=
      (htasks name hname).accepted (by simp)
    exact accepted_map.1 htask
  | _ => exact h.elim

theorem IsWorkflow.mono (hfree : ∀ stack name, free stack name → free' stack name)
    (h : n.IsWorkflow free) : n.IsWorkflow free' := by
  cases n with
  | map place root =>
    refine ⟨h.1, fun name hignored v hv => ?_⟩
    have hbody := h.2 name hignored v hv
    cases v with
    | list place' body => exact fun k hk => (hbody k hk).mono hfree
    | _ => exact hbody.elim
  | _ => exact h.elim

/-- Exactly the workflows are accepted. It does not matter whether it is demanded that no name comes
    twice on a chain of references, or only that the references can be expanded. -/
theorem jobs_accepted_iff (d : TaskDefaults) (n : Node) :
    ((∃ js, n.jobs d = .ok js) ↔ n.IsWorkflow fun stack name => name ∉ stack) ∧
    ((∃ js, n.jobs d = .ok js) ↔ n.IsWorkflow fun _ _ => True) := by
  have hforget : n.IsWorkflow (fun stack name => name ∉ stack) → n.IsWorkflow fun _ _ => True :=
    .mono fun _ _ _ => trivial
  refine ⟨⟨isWorkflow_of_accepted, fun h => (hforget h).accepted⟩, fun h => ?_, IsWorkflow.accepted⟩
  exact hforget (isWorkflow_of_accepted h)

end Node
end Runbook
