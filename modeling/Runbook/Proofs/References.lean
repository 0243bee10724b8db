import Runbook.Proofs.TaskForms
import Mathlib.Logic.Relation
import Mathlib.Tactic.SplitIfs

set_option autoImplicit false

/-! # References between jobs

The tasks of a job are found anew at each reference to it, below the chain of references that led
there. A chain holds no name twice and every name on it is one of the document, so it cannot grow
without end: this is the induction that the statements below rest on. A job that is accepted below
some chain is accepted below every part of it, and is the same job there. -/

namespace Runbook

open Parsed

/-- The entries of a document. -/
def Node.entries : Node → Entries
  | map _ es => es
  | _ => []

namespace Entries

variable {d : TaskDefaults} {root : Entries} {stack stack' : List String} {name : String} {j : Job}

/-- A job refers to a name, which occurs as a task in its body. -/
def Refers (root : Entries) (name other : String) : Prop :=
  ∃ place body, root.get? name = some (.list place body) ∧ ∃ n ∈ body, n.Mentions other

/-! ## One job -/

/-- The job of a name, where it is said what the references in it stand for. -/
def jobWith (d : TaskDefaults) (root : Entries) (reference : String → Parsed Task) (name : String) :
    Parsed Job :=
  match root.get? name with
  | none => refuse (.jobUnknown name)
  | some value => inside (.inJob name) do
    let body ← value.requireItems ("Child of " ++ name)
    let tasks ← Node.tasks d reference name 0 body
    return ⟨name, tasks⟩

/-- What references stand for at the end of a chain. -/
def referenceFrom (d : TaskDefaults) (root : Entries) (stack : List String) (name : String) :
    Parsed Task :=
  (job d root stack name).map Job.task

theorem job_of_mem (h : name ∈ stack) :
    job d root stack name = refuse (.jobCycle (stack.dropWhile (· ≠ name) ++ [name])) := by
  rw [job, dif_pos h]

theorem job_of_not_mem (h : name ∉ stack) :
    job d root stack name = jobWith d root (referenceFrom d root (stack ++ [name])) name := by
  rw [job, dif_neg h]
  split
  · next hv => rw [jobWith, hv]
  · next value hv =>
    have hwith : jobWith d root (referenceFrom d root (stack ++ [name])) name
        = inside (.inJob name) do
          let body ← value.requireItems ("Child of " ++ name)
          let tasks ← Node.tasks d (referenceFrom d root (stack ++ [name])) name 0 body
          return ⟨name, tasks⟩ := by
      rw [jobWith, hv]
    rw [hwith]
    rfl

theorem jobWith_of_get?_eq_none {reference : String → Parsed Task} (h : root.get? name = none) :
    jobWith d root reference name = refuse (.jobUnknown name) := by
  rw [jobWith, h]

theorem jobWith_eq_ok {reference : String → Parsed Task} :
    jobWith d root reference name = .ok j ↔ ∃ place body ts,
      root.get? name = some (.list place body) ∧ Node.tasks d reference name 0 body = .ok ts ∧
        j = ⟨name, ts⟩ := by
  unfold jobWith
  cases root.get? name with
  | none => simp
  | some value =>
    cases value with
    | list place body =>
      simp only [inside_eq_ok, bind_eq_ok, Node.requireItems, pure_eq_ok, Except.ok.injEq,
        exists_eq_left', Option.some.injEq, Node.list.injEq]
      constructor
      · rintro ⟨ts, hts, rfl⟩
        exact ⟨place, body, ts, ⟨rfl, rfl⟩, hts, rfl⟩
      · rintro ⟨_, _, ts, ⟨rfl, rfl⟩, hts, rfl⟩
        exact ⟨ts, hts, rfl⟩
    | _ => simp [bind_eq_ok, Node.requireItems]

/-- A job that is accepted is not on its own chain. -/
theorem not_mem_of_job_ok (h : job d root stack name = .ok j) : name ∉ stack := by
  intro hmem
  rw [job_of_mem hmem] at h
  exact refuse_ne_ok _ _ h

/-- What holds of a name below a chain if it holds of every name below the chain that is longer by
    it, holds of every name below every chain. -/
theorem inductionOnChain (root : Entries) {p : List String → String → Prop}
    (h : ∀ stack name, (∀ value, name ∉ stack → root.get? name = some value →
      ∀ other, p (stack ++ [name]) other) → p stack name)
    (stack : List String) (name : String) : p stack name :=
  h stack name fun value hname hvalue other =>
    have := freshCount_lt hvalue hname
    inductionOnChain root h (stack ++ [name]) other
termination_by root.freshCount stack

/-- A job that is accepted below a chain is the same below every part of the chain. -/
theorem job_mono (hstack : stack' ⊆ stack) (h : job d root stack name = .ok j) :
    job d root stack' name = .ok j := by
  induction stack, name using inductionOnChain root generalizing stack' j with
  | h stack name ih =>
    have hname := not_mem_of_job_ok h
    rw [job_of_not_mem hname, jobWith_eq_ok] at h
    rw [job_of_not_mem fun hmem => hname (hstack hmem), jobWith_eq_ok]
    obtain ⟨place, body, ts, hvalue, hts, rfl⟩ := h
    -- the body is the same; what its references stand for is known below the longer chain
    refine ⟨place, body, ts, hvalue, ?_, rfl⟩
    refine Node.tasks_mono (fun n _ t => Node.task_mono fun other u hu => ?_) hts
    obtain ⟨k, hk, rfl⟩ := map_eq_ok.1 hu
    refine map_eq_ok.2 ⟨k, ih _ hname hvalue other ?_ hk, rfl⟩
    exact List.append_subset_of_subset_of_subset (List.subset_append_of_subset_left _ hstack)
      (List.subset_append_right _ _)

/-- What a job refers to is accepted where the job is. -/
theorem accepted_job_of_refers {other : String} (h : Accepted (job d root stack name))
    (hother : root.Refers name other) : Accepted (job d root (stack ++ [name]) other) := by
  obtain ⟨j, hj⟩ := h
  obtain ⟨place, body, hvalue, n, hn, hmentions⟩ := hother
  rw [job_of_not_mem (not_mem_of_job_ok hj), jobWith_eq_ok] at hj
  obtain ⟨place', body', ts, hvalue', hts, -⟩ := hj
  rw [hvalue] at hvalue'
  cases hvalue'
  have htask := Node.accepted_tasks.1 ⟨ts, hts⟩ n hn
  exact accepted_map.1 (Node.accepted_of_mentions hmentions htask)

/-- The jobs in a job that is accepted are accepted by themselves. -/
theorem job_of_within {m : String} {us : List Task} (h : job d root stack name = .ok j)
    (hw : (Task.job m us).Within j.task) : job d root [] m = .ok ⟨m, us⟩ := by
  induction stack, name using inductionOnChain root generalizing j with
  | h stack name ih =>
    have hname := not_mem_of_job_ok h
    have hself := job_mono (List.nil_subset _) h
    rw [job_of_not_mem hname, jobWith_eq_ok] at h
    obtain ⟨place, body, ts, hvalue, hts, rfl⟩ := h
    rcases hw.eq_or_child with heq | ⟨t, ht, hw⟩
    · cases heq
      exact hself
    · -- no task of the grammar is a job but for references, so one of these holds the inner job
      obtain ⟨n, -, hn⟩ := Node.exists_of_mem_tasks hts ht
      obtain ⟨other, u, -, hu, hw⟩ := Node.exists_mentions_of_within hn hw
      obtain ⟨k, hk, rfl⟩ := map_eq_ok.1 hu
      exact ih _ hname hvalue other hk hw

/-- A cycle that a job reports is reported by something that it refers to. -/
theorem exists_refers_of_reports {reference : String → Parsed Task} {c : Cause}
    (hc : c.kind = .jobCycle) (h : Reports (jobWith d root reference name) c) :
    ∃ value other, root.get? name = some value ∧ root.Refers name other ∧
      Reports (reference other) c := by
  unfold jobWith at h
  split at h
  · rw [reports_refuse] at h
    subst h
    cases hc
  · next value hvalue =>
    rcases reports_of_inside h with rfl | h
    · cases hc
    · rcases reports_bind.1 h with h | ⟨body, hbody, hrest⟩
      · exact (noCycle_iff.2 (Node.refusesWith_requireItems holdsOfParts_noCycle.problems _ _) c h hc).elim
      · obtain ⟨place, rfl⟩ : ∃ place, value = .list place body := by
          cases value with
          | list place items =>
            cases hbody
            exact ⟨place, rfl⟩
          | _ => exact (refuse_ne_ok _ _ hbody).elim
        rcases reports_bind.1 hrest with htasks | ⟨ts, -, hpure⟩
        · rcases Node.reports_of_tasks htasks with ⟨i, rfl⟩ | ⟨n, hn, htask⟩
          · cases hc
          · obtain ⟨other, hother, hcycle⟩ := Node.exists_mentions_of_reports hc htask
            exact ⟨_, other, hvalue, ⟨place, body, hvalue, n, hn, hother⟩, hcycle⟩
        · exact (not_reports_pure _ hpure).elim

/-! ## All jobs -/

/-- The jobs of some entries, in order, where it is said what the job of a name is. -/
def jobsBy (job : String → Parsed Job) : Entries → Parsed (List Job)
  | [] => .ok []
  | (.text name, _) :: entries =>
    if name = ignoredKey then jobsBy job entries
    else do
      let j ← job name
      return j :: (← jobsBy job entries)
  | (other, _) :: _ => refuse ((Node.scalar other).showing .jobNameNotText .unwritable)

/-- The names of the jobs of a document, in order. -/
def jobNames (es : Entries) : List String :=
  es.filterMap fun e => match e.1 with
    | .text name => if name = ignoredKey then none else some name
    | _ => none

/-- The keys of a document are texts. -/
def HasTextKeys (es : Entries) : Prop := ∀ e ∈ es, ∃ name, e.1 = .text name

theorem jobsOf_eq_jobsBy (es : Entries) : jobsOf d root es = jobsBy (job d root []) es := by
  induction es with
  | nil => rfl
  | cons e es ih =>
    obtain ⟨key, value⟩ := e
    cases key with
    | text name => rw [jobsOf, jobsBy, ih]
    | _ => rfl

variable {jobAt : String → Parsed Job} {es : Entries}

theorem hasTextKeys_cons {value : Node} :
    HasTextKeys ((.text name, value) :: es) ↔ es.HasTextKeys := by
  simp [HasTextKeys]

theorem jobNames_cons {value : Node} : jobNames ((.text name, value) :: es)
    = if name = ignoredKey then es.jobNames else name :: es.jobNames := by
  split_ifs with h
  · simp [jobNames, h]
  · simp [jobNames, h]

theorem mem_jobNames : name ∈ es.jobNames ↔ name ≠ ignoredKey ∧ ∃ v, es.get? name = some v := by
  induction es with
  | nil => simp [jobNames, get?]
  | cons e es ih =>
    obtain ⟨key, value⟩ := e
    cases key with
    | text k =>
      by_cases hk : k = name
      · subst hk
        by_cases h : k = ignoredKey
        · rw [jobNames_cons, if_pos h, ih]
          simp [h]
        · simp [jobNames_cons, h, get?, Scalar.isText]
      · have hget : Entries.get? ((.text k, value) :: es) name = Entries.get? es name := by
          simp [get?, Scalar.isText, hk]
        rw [hget, ← ih, jobNames_cons]
        split_ifs
        · rfl
        · simp [Ne.symm hk]
    | _ => simpa [jobNames, get?, Scalar.isText] using ih

/-- The jobs of a document are accepted one by one, in order. -/
theorem jobsBy_eq_ok {js : List Job} :
    jobsBy jobAt es = .ok js ↔
      es.HasTextKeys ∧ List.Forall₂ (fun name j => jobAt name = .ok j) es.jobNames js := by
  induction es generalizing js with
  | nil => cases js <;> simp [jobsBy, HasTextKeys, jobNames]
  | cons e es ih =>
    obtain ⟨key, value⟩ := e
    cases key with
    | text name =>
      rw [hasTextKeys_cons, jobNames_cons, jobsBy]
      split_ifs with h
      · exact ih
      · simp only [bind_eq_ok, pure_eq_ok, ih, List.forall₂_cons_left_iff]
        constructor
        · rintro ⟨j, hj, js', ⟨hkeys, hjs⟩, rfl⟩
          exact ⟨hkeys, j, js', hj, hjs, rfl⟩
        · rintro ⟨hkeys, j, js', hj, hjs, rfl⟩
          exact ⟨j, hj, js', ⟨hkeys, hjs⟩, rfl⟩
    | _ => simp [jobsBy, HasTextKeys]

theorem accepted_jobsBy : Accepted (jobsBy jobAt es) ↔
    es.HasTextKeys ∧ ∀ name ∈ es.jobNames, Accepted (jobAt name) := by
  simp only [Accepted, jobsBy_eq_ok, exists_and_left]
  exact and_congr_right fun _ => exists_forall₂_iff

theorem isOwnProblem_jobNameNotText (shown : String) : IsOwnProblem (.jobNameNotText shown) :=
  ⟨nofun, nofun, nofun⟩

/-- A cycle that a document reports is reported by one of its jobs. -/
theorem exists_mem_of_reports_jobsBy {c : Cause} (hc : c.kind = .jobCycle)
    (h : Reports (jobsBy jobAt es) c) : ∃ name ∈ es.jobNames, Reports (jobAt name) c := by
  induction es with
  | nil => exact (not_reports_ok _ h).elim
  | cons e es ih =>
    obtain ⟨key, value⟩ := e
    cases key with
    | text name =>
      rw [jobsBy] at h
      rw [jobNames_cons]
      split_ifs at h ⊢ with hname
      · exact ih h
      · rcases reports_bind.1 h with h | ⟨j, -, h⟩
        · exact ⟨name, List.mem_cons_self, h⟩
        · rcases reports_bind.1 h with h | ⟨js, -, h⟩
          · obtain ⟨other, hother, h⟩ := ih h
            exact ⟨other, List.mem_cons_of_mem _ hother, h⟩
          · exact (not_reports_pure _ h).elim
    | _ =>
      exact (noCycle_iff.2 (Node.refusesWith_showing holdsOfParts_noCycle.problems
        (Node.shownOr_noCycle _) isOwnProblem_jobNameNotText fun _ => nofun) c h hc).elim

end Entries

namespace Node

theorem jobs_map {d : TaskDefaults} {place : Option Nat} {root : Entries} :
    (map place root).jobs d = Entries.jobsBy (Entries.job d root []) root := by
  rw [← Entries.jobsOf_eq_jobsBy]
  rfl

end Node
end Runbook
