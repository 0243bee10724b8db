import Runbook.Proofs.Cycles
import Runbook.Proofs.Expansion

set_option autoImplicit false

/-! # The jobs that a job contains

A reference is replaced by the job that it names, and nothing else in a body stands for a job. So the
jobs that occur in an accepted one, at whatever depth, are those that it leads to by references. The
block that is kept out of the jobs of a document is passed over among its entries only: it is a job
as any other where a reference names it. -/

namespace Runbook

open Parsed Relation

/-- Occurrence goes through: what a task holds, the tasks around it hold as well. -/
theorem Task.Within.trans {s t u : Task} (hst : s.Within t) (htu : t.Within u) : s.Within u := by
  induction htu with
  | self => exact hst
  | child hu _ ih => exact .child hu ih

namespace Entries

variable {d : TaskDefaults} {root : Entries} {stack : List String} {name other : String} {j : Job}

/-- What a job refers to occurs in it. -/
theorem within_of_refers (h : job d root stack name = .ok j) (hother : root.Refers name other) :
    ∃ us, (Task.job other us).Within j.task := by
  rw [job_of_not_mem (not_mem_of_job_ok h), jobWith_eq_ok] at h
  obtain ⟨place, body, ts, hvalue, hts, rfl⟩ := h
  obtain ⟨place', body', hvalue', n, hn, hmentions⟩ := hother
  rw [hvalue] at hvalue'
  cases hvalue'
  obtain ⟨t, ht, hnt⟩ := Node.exists_mem_of_tasks hts hn
  obtain ⟨u, hu, hut⟩ := Node.exists_within_of_mentions hmentions hnt
  -- the reference stands for a job, and the job that is found has the name that was looked for
  obtain ⟨k, hk, rfl⟩ := map_eq_ok.1 hu
  obtain ⟨rfl, -⟩ := entry_of_job_ok hk
  exact ⟨k.tasks, .child ht hut⟩

/-- A job that occurs in another one is reached from it by references. -/
theorem reaches_of_within {us : List Task} (h : job d root stack name = .ok j)
    (hw : (Task.job other us).Within j.task) : ReflTransGen root.Refers name other := by
  induction stack, name using inductionOnChain root generalizing j with
  | h stack name ih =>
    have hname := not_mem_of_job_ok h
    rw [job_of_not_mem hname, jobWith_eq_ok] at h
    obtain ⟨place, body, ts, hvalue, hts, rfl⟩ := h
    rcases hw.eq_or_child with heq | ⟨t, ht, hw⟩
    · cases heq
      exact .refl
    · obtain ⟨n, hn, hnt⟩ := Node.exists_of_mem_tasks hts ht
      obtain ⟨next, u, hmentions, hu, hw⟩ := Node.exists_mentions_of_within hnt hw
      obtain ⟨k, hk, rfl⟩ := map_eq_ok.1 hu
      have hrefers : root.Refers name next := ⟨place, body, hvalue, n, hn, hmentions⟩
      exact .head hrefers (ih _ hname hvalue next hk hw)

/-- The jobs that occur in an accepted job are those that it leads to by references. -/
theorem within_iff_reaches (h : job d root [] name = .ok j) :
    (∃ us, (Task.job other us).Within j.task) ↔ ReflTransGen root.Refers name other := by
  constructor
  · rintro ⟨us, hw⟩
    exact reaches_of_within h hw
  · intro hreach
    induction hreach with
    | refl =>
      obtain ⟨rfl, -⟩ := entry_of_job_ok h
      exact ⟨j.tasks, .self⟩
    | tail _ hrefers ih =>
      obtain ⟨us, hmid⟩ := ih
      obtain ⟨vs, hlast⟩ := within_of_refers (job_of_within h hmid) hrefers
      exact ⟨vs, hlast.trans hmid⟩

end Entries

namespace Node

variable {d : TaskDefaults} {n : Node} {js : List Job}

/-- The jobs of an accepted document have the names of its entries, in order, but for the block that
    is passed over. -/
theorem names_of_jobs (h : n.jobs d = .ok js) : js.map Job.name = n.entries.jobNames := by
  cases n with
  | map place root =>
    rw [jobs_map] at h
    obtain ⟨-, hall⟩ := Entries.jobsBy_eq_ok.1 h
    obtain ⟨f, rfl, hf⟩ := Entries.exists_map_of_forall₂ hall
    calc ((Entries.jobNames root).map f).map Job.name
        = (Entries.jobNames root).map (Job.name ∘ f) := List.map_map
      _ = (Entries.jobNames root).map id := List.map_congr_left fun name hname =>
          (Entries.entry_of_job_ok (hf name hname)).1
      _ = Entries.jobNames root := List.map_id _
  | _ => exact (refuse_ne_ok _ _ h).elim

/-- Each job of an accepted document is the one that its name leads to. -/
theorem job_of_mem_jobs {j : Job} (h : n.jobs d = .ok js) (hj : j ∈ js) :
    Entries.job d n.entries [] j.name = .ok j := by
  cases n with
  | map place root =>
    rw [jobs_map] at h
    exact ((Entries.mem_iff_job_of_jobsBy h).1 hj).2
  | _ => exact (refuse_ne_ok _ _ h).elim

/-- The block that is passed over is none of the jobs of an accepted document, and it occurs below
    one of them exactly where a chain of references leads from there to it. -/
theorem jobs_ignoredBlock (h : n.jobs d = .ok js) :
    (∀ j ∈ js, j.name ≠ Entries.ignoredKey) ∧
    ∀ j ∈ js, (∃ us, (Task.job Entries.ignoredKey us).Within j.task) ↔
      TransGen n.entries.Refers j.name Entries.ignoredKey := by
  have hnames : ∀ j ∈ js, j.name ≠ Entries.ignoredKey := fun j hj =>
    (Entries.mem_jobNames.1 (names_of_jobs h ▸ List.mem_map_of_mem hj)).1
  refine ⟨hnames, fun j hj => ?_⟩
  rw [Entries.within_iff_reaches (job_of_mem_jobs h hj), reflTransGen_iff_eq_or_transGen]
  exact or_iff_right fun heq => hnames j hj heq.symm

/-- A job with a reference to the block that is passed over. -/
def ignoredSample : Node :=
  map none [(.text "IGNORE", list none [map none [(.text "print", text "x")]]),
    (.text "a", list none [text "IGNORE"])]

theorem jobs_ignoredSample : ignoredSample.jobs ⟨1, 22⟩
    = .ok [⟨"a", [.job "IGNORE" [.print "x"]]⟩] :=
  (jobsWithin_eq_jobs (by decide : 2 < 3) fun _ _ => .ok default).symm.trans rfl

theorem jobs_ignoredBlock_sample :
    ignoredSample.jobs ⟨1, 22⟩ = .ok [⟨"a", [.job "IGNORE" [.print "x"]]⟩] ∧
      TransGen ignoredSample.entries.Refers "a" "IGNORE" := by
  have hblock := (jobs_ignoredBlock jobs_ignoredSample).2 _ List.mem_cons_self
  refine ⟨jobs_ignoredSample, hblock.1 ⟨[.print "x"], ?_⟩⟩
  exact .child List.mem_cons_self .self

/-- The block that is passed over becomes a job below one that refers to it. -/
theorem jobs_ignoredBlock_referred : ¬ ∀ (d : TaskDefaults) (n : Node) (js : List Job),
    n.jobs d = .ok js → ∀ j ∈ js, ∀ us, ¬ (Task.job Entries.ignoredKey us).Within j.task := by
  intro h
  refine h _ _ _ jobs_ignoredSample _ List.mem_cons_self [.print "x"] ?_
  exact .child List.mem_cons_self .self

end Node
end Runbook
