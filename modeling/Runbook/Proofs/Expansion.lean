import Runbook.Proofs.Cycles

set_option autoImplicit false

/-! # References stand for jobs of the document

Where a document is accepted, it does not matter where a job is referred to: what a reference becomes
is the job of that name among the jobs of the document. Nor does the order of the entries matter,
since a job is found by its name. -/

namespace Runbook

open Parsed

namespace Entries

variable {d : TaskDefaults} {root root' : Entries} {stack : List String} {name : String}
  {v v' : Node} {js : List Job}

/-! ## Finding a job -/

/-- No two keys of a mapping are the same. -/
def HasDistinctKeys (es : Entries) : Prop := es.Pairwise fun a b => a.1.sameKey b.1 = false

instance (es : Entries) : Decidable es.HasDistinctKeys :=
  inferInstanceAs (Decidable (es.Pairwise fun a b => a.1.sameKey b.1 = false))

theorem HasDistinctKeys.eq_of_mem (h : root.HasDistinctKeys) (hv : (.text name, v) ∈ root)
    (hv' : (.text name, v') ∈ root) : v = v' := by
  induction h with
  | nil => cases hv
  | cons hfirst _ ih =>
    rcases List.mem_cons.1 hv with rfl | hv
    · rcases List.mem_cons.1 hv' with heq | hv'
      · cases heq
        rfl
      · have hsame := hfirst _ hv'
        simp [Scalar.sameKey, Scalar.asInt?] at hsame
    · rcases List.mem_cons.1 hv' with heq | hv'
      · have hsame := hfirst _ hv
        cases heq
        simp [Scalar.sameKey, Scalar.asInt?] at hsame
      · exact ih hv hv'

theorem exists_get?_of_mem (hv : (.text name, v) ∈ root) : ∃ v', root.get? name = some v' := by
  have hfind : (root.find? fun e => e.1.isText name).isSome :=
    List.find?_isSome.2 ⟨_, hv, by simp [Scalar.isText]⟩
  obtain ⟨e, he⟩ := Option.isSome_iff_exists.1 hfind
  exact ⟨e.2, by rw [get?, he]; rfl⟩

theorem HasDistinctKeys.get?_eq_some_iff (h : root.HasDistinctKeys) :
    root.get? name = some v ↔ (.text name, v) ∈ root := by
  constructor
  · exact mem_of_get?
  · intro hv
    obtain ⟨v', hv'⟩ := exists_get?_of_mem hv
    rw [hv', h.eq_of_mem hv (mem_of_get? hv')]

/-- The order of the entries does not matter to where a name leads. -/
theorem HasDistinctKeys.get?_perm (h : root.HasDistinctKeys) (hperm : root'.Perm root)
    (name : String) : root'.get? name = root.get? name := by
  ext v
  rw [h.get?_eq_some_iff, ← hperm.mem_iff]
  -- that no two keys are the same is known of the first order only, so it is used there
  constructor
  · exact mem_of_get?
  · intro hv
    obtain ⟨v', hv'⟩ := exists_get?_of_mem hv
    have hmem := hperm.mem_iff.1 (mem_of_get? hv')
    rw [hv', h.eq_of_mem (hperm.mem_iff.1 hv) hmem]

/-- A job depends on what the bodies in a document are read as only. -/
theorem job_congr_of_jobWith
    (h : ∀ reference name, jobWith d root' reference name = jobWith d root reference name) :
    job d root' stack name = job d root stack name := by
  induction stack, name using inductionOnChain root with
  | h stack name ih =>
    by_cases hname : name ∈ stack
    · rw [job_of_mem hname, job_of_mem hname]
    · rw [job_of_not_mem hname, job_of_not_mem hname, h]
      cases hvalue : root.get? name with
      | none => rw [jobWith_of_get?_eq_none hvalue, jobWith_of_get?_eq_none hvalue]
      | some value =>
        have hsame : referenceFrom d root' (stack ++ [name])
            = referenceFrom d root (stack ++ [name]) := by
          funext other
          rw [referenceFrom, referenceFrom, ih value hname hvalue other]
        rw [hsame]

/-- A job depends on where names lead only. -/
theorem job_congr (h : ∀ name, root'.get? name = root.get? name) :
    job d root' stack name = job d root stack name :=
  job_congr_of_jobWith fun _ name => by rw [jobWith, jobWith, h name]

/-- The jobs of some entries depend on their keys and on what the job of a name is. -/
theorem jobsBy_congr {jobAt : String → Parsed Job} {es es' : Entries}
    (h : List.Forall₂ (fun e e' => e.1 = e'.1) es es') : jobsBy jobAt es = jobsBy jobAt es' := by
  induction h with
  | nil => rfl
  | @cons e e' es es' hkey _ ih =>
    obtain ⟨key, v⟩ := e
    obtain ⟨key', v'⟩ := e'
    obtain rfl : key = key' := hkey
    cases key with
    | text name => rw [jobsBy, jobsBy, ih]
    | _ => rfl

/-- A document has the same jobs as another one with the same keys if its bodies are read as the same,
    or it is refused in the same way. -/
theorem jobs_congr_of_jobWith {place place' : Option Nat}
    (hkeys : List.Forall₂ (fun e e' => e.1 = e'.1) root' root)
    (h : ∀ reference name, jobWith d root' reference name = jobWith d root reference name) :
    (Node.map place' root').jobs d = (Node.map place root).jobs d := by
  have hjob : job d root' [] = job d root [] := funext fun name => job_congr_of_jobWith h
  rw [Node.jobs_map, Node.jobs_map, hjob]
  exact jobsBy_congr hkeys

/-! ## Jobs by their names -/

/-- A job that is accepted is that of an entry, and has its name. -/
theorem entry_of_job_ok {j : Job} (h : job d root stack name = .ok j) :
    j.name = name ∧ ∃ v, root.get? name = some v := by
  rw [job_of_not_mem (not_mem_of_job_ok h), jobWith_eq_ok] at h
  obtain ⟨place, body, ts, hvalue, -, rfl⟩ := h
  exact ⟨rfl, _, hvalue⟩

/-- What is found one by one under some names is what the names stand for. -/
theorem exists_map_of_forall₂ {jobAt : String → Parsed Job} {names : List String}
    (h : List.Forall₂ (fun name j => jobAt name = .ok j) names js) :
    ∃ f : String → Job, js = names.map f ∧ ∀ name ∈ names, jobAt name = .ok (f name) := by
  refine ⟨fun name => (jobAt name).toOption.getD default, ?_⟩
  induction h with
  | nil => simp
  | @cons name j names js hj _ ih =>
    have hname : (jobAt name).toOption.getD default = j := by
      rw [hj]
      rfl
    refine ⟨?_, List.forall_mem_cons.2 ⟨?_, ih.2⟩⟩
    · rw [List.map_cons, hname, ← ih.1]
    · exact hj.trans (congrArg _ hname.symm)

theorem jobNames_perm (h : root'.Perm root) : root'.jobNames.Perm root.jobNames :=
  h.filterMap _

theorem HasTextKeys.perm (h : root.HasTextKeys) (hperm : root'.Perm root) : root'.HasTextKeys :=
  fun e he => h e (hperm.mem_iff.1 he)

/-- The jobs of a document are found by their names. -/
theorem mem_iff_job_of_jobsBy {j : Job} (hjs : jobsBy (job d root []) root = .ok js) :
    j ∈ js ↔ j.name ∈ root.jobNames ∧ job d root [] j.name = .ok j := by
  obtain ⟨-, hall⟩ := jobsBy_eq_ok.1 hjs
  obtain ⟨f, rfl, hf⟩ := exists_map_of_forall₂ hall
  rw [List.mem_map]
  constructor
  · rintro ⟨name, hname, rfl⟩
    rw [(entry_of_job_ok (hf name hname)).1]
    exact ⟨hname, hf name hname⟩
  · rintro ⟨hname, hj⟩
    refine ⟨j.name, hname, ?_⟩
    rw [hf _ hname] at hj
    exact Except.ok.inj hj

end Entries

namespace Node

/-- Where a document is accepted, every job at any depth of its jobs is the one of that name among
    them; and with its entries in another order the document is accepted too, and has the same jobs
    in the order of their entries. -/
theorem jobs_references {d : TaskDefaults} {place : Option Nat} {root : Entries} {js : List Job}
    (hkeys : root.HasDistinctKeys) (hjs : (map place root).jobs d = .ok js) :
    (∀ j ∈ js, ∀ name tasks, name ≠ Entries.ignoredKey → (Task.job name tasks).Within j.task →
      ⟨name, tasks⟩ ∈ js ∧ ∀ j' ∈ js, j'.name = name → j' = ⟨name, tasks⟩) ∧
    (∀ place' root', List.Perm root' root → ∃ f : String → Job,
      (∀ name ∈ root.jobNames, (f name).name = name) ∧ js = root.jobNames.map f ∧
        (map place' root').jobs d = .ok ((Entries.jobNames root').map f)) := by
  rw [jobs_map] at hjs
  refine ⟨?_, ?_⟩
  · intro j hj name tasks hname hwithin
    obtain ⟨-, hjob⟩ := (Entries.mem_iff_job_of_jobsBy hjs).1 hj
    have hself := Entries.job_of_within hjob hwithin
    constructor
    · have hentry := (Entries.entry_of_job_ok hself).2
      exact (Entries.mem_iff_job_of_jobsBy hjs).2 ⟨Entries.mem_jobNames.2 ⟨hname, hentry⟩, hself⟩
    · intro j' hj' hname'
      obtain ⟨-, hjob'⟩ := (Entries.mem_iff_job_of_jobsBy hjs).1 hj'
      rw [hname', hself] at hjob'
      exact (Except.ok.inj hjob').symm
  · intro place' root' hperm
    obtain ⟨htext, hall⟩ := Entries.jobsBy_eq_ok.1 hjs
    obtain ⟨f, hmap, hf⟩ := Entries.exists_map_of_forall₂ hall
    refine ⟨f, fun name hname => (Entries.entry_of_job_ok (hf name hname)).1, hmap, ?_⟩
    rw [jobs_map, Entries.jobsBy_eq_ok]
    refine ⟨htext.perm hperm, List.forall₂_map_right_iff.2 (List.forall₂_same.2 ?_)⟩
    intro name hname
    rw [Entries.job_congr (hkeys.get?_perm hperm)]
    exact hf name ((Entries.jobNames_perm hperm).mem_iff.1 hname)

/-- Two jobs, of which the first one refers to the second one. -/
def referringSample : Entries :=
  [(.text "a", list none [map none [(.text "on-linux", list none [text "b"])]]),
    (.text "b", list none [map none [(.text "print", text "x")]])]

theorem jobs_references_sample :
    referringSample.HasDistinctKeys ∧ ∃ js, (map none referringSample).jobs ⟨1, 22⟩ = .ok js ∧
      (∃ j ∈ js, (Task.job "b" [.print "x"]).Within j.task ∧ ⟨"b", [.print "x"]⟩ ∈ js ∧
        ∀ j' ∈ js, j'.name = "b" → j' = ⟨"b", [.print "x"]⟩) ∧
      ∃ f : String → Job, js = ["a", "b"].map f ∧
        (map none referringSample.reverse).jobs ⟨1, 22⟩ = .ok (["b", "a"].map f) := by
  have hkeys : referringSample.HasDistinctKeys := by decide
  have hjs : (map none referringSample).jobs ⟨1, 22⟩ = .ok
      [⟨"a", [.onPlatform .linux [.job "b" [.print "x"]]]⟩, ⟨"b", [.print "x"]⟩] :=
    (jobsWithin_eq_jobs (by decide : 2 < 3) fun _ _ => .ok default).symm.trans rfl
  obtain ⟨hwithin, hperm⟩ := jobs_references hkeys hjs
  refine ⟨hkeys, _, hjs, ⟨_, List.mem_cons_self, ?_, ?_⟩, ?_⟩
  · exact .child List.mem_cons_self (.child List.mem_cons_self .self)
  · have hb : (Task.job "b" [.print "x"]).Within
        (Job.task ⟨"a", [.onPlatform .linux [.job "b" [.print "x"]]]⟩) :=
      .child List.mem_cons_self (.child List.mem_cons_self .self)
    exact hwithin _ List.mem_cons_self "b" _ (by decide) hb
  · obtain ⟨f, -, hjs', hreverse⟩ := hperm none _ (List.reverse_perm referringSample)
    exact ⟨f, hjs', hreverse⟩

end Node
end Runbook
