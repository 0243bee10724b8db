import Runbook.Proofs.References
import Mathlib.Data.List.Chain
import Mathlib.Data.List.Nodup

set_option autoImplicit false

/-! # Cycles of references

The expansion of references ends, whatever the document: no chain of references is longer than the
document has entries, so what would be done beyond that never matters. A cycle that is reported is
one of the document, in which no name comes twice; and where a document is accepted, no job leads to
a cycle. -/

namespace Runbook

open Parsed Relation

namespace Entries

variable {d : TaskDefaults} {root : Entries} {stack : List String} {name other : String}

/-! ## The expansion ends -/

/-- The job of a name, found with references followed to some depth only. What is said of a name
    that is reached beyond it is left open. -/
def jobWithin (d : TaskDefaults) (root : Entries) (beyond : List String → String → Parsed Job) :
    Nat → List String → String → Parsed Job
  | 0, stack, name => beyond stack name
  | depth + 1, stack, name =>
    if name ∈ stack then refuse (.jobCycle (stack.dropWhile (· ≠ name) ++ [name]))
    else jobWith d root
      (fun other => (jobWithin d root beyond depth (stack ++ [name]) other).map Job.task) name

/-- To look as deep as there are jobs that are not on the chain yet is enough. -/
theorem jobWithin_eq_job {beyond : List String → String → Parsed Job} {depth : Nat}
    (h : root.freshCount stack < depth) :
    jobWithin d root beyond depth stack name = job d root stack name := by
  induction depth generalizing stack name with
  | zero => exact absurd h (Nat.not_lt_zero _)
  | succ depth ih =>
    rw [jobWithin]
    by_cases hname : name ∈ stack
    · rw [if_pos hname, job_of_mem hname]
    · rw [if_neg hname, job_of_not_mem hname]
      cases hvalue : root.get? name with
      | none => rw [jobWith_of_get?_eq_none hvalue, jobWith_of_get?_eq_none hvalue]
      | some value =>
        have hless := freshCount_lt hvalue hname
        have hsame : (fun other =>
              (jobWithin d root beyond depth (stack ++ [name]) other).map Job.task)
            = referenceFrom d root (stack ++ [name]) := by
          funext other
          rw [ih (by omega), referenceFrom]
        rw [hsame]

/-! ## What is reported -/

/-- References that come back to the name they start from, and come to no other name twice. -/
def IsReferenceCycle (root : Entries) (names : List String) : Prop :=
  ∃ first rest, names = first :: rest ++ [first] ∧ (first :: rest).Nodup ∧
    (∀ name ∈ first :: rest, ∃ value, root.get? name = some value) ∧ names.IsChain root.Refers

/-- A chain of references below which a name is looked up. -/
structure IsReferencePath (root : Entries) (stack : List String) (name : String) : Prop where
  chain : (stack ++ [name]).IsChain root.Refers
  nodup : stack.Nodup
  keys : ∀ name ∈ stack, ∃ value, root.get? name = some value

theorem IsReferencePath.nil (root : Entries) (name : String) : root.IsReferencePath [] name :=
  ⟨List.isChain_singleton name, List.nodup_nil, by simp⟩

theorem IsReferencePath.extend (h : root.IsReferencePath stack name) (hname : name ∉ stack)
    {value : Node} (hvalue : root.get? name = some value) (hother : root.Refers name other) :
    root.IsReferencePath (stack ++ [name]) other where
  chain := by
    rw [List.isChain_append]
    refine ⟨h.chain, List.isChain_singleton other, ?_⟩
    simpa using hother
  nodup := List.nodup_append.2 ⟨h.nodup, List.nodup_singleton name, by
    intro a ha b hb
    rw [List.mem_singleton] at hb
    rintro rfl
    exact hname (hb ▸ ha)⟩
  keys := by
    intro k hk
    rcases List.mem_append.1 hk with hk | hk
    · exact h.keys k hk
    · rw [List.mem_singleton.1 hk]
      exact ⟨value, hvalue⟩

/-- Where a name is on the chain that led to it, the chain from there on is a cycle. -/
theorem IsReferencePath.cycle (h : root.IsReferencePath stack name) (hname : name ∈ stack) :
    root.IsReferenceCycle (stack.dropWhile (· ≠ name) ++ [name]) := by
  obtain ⟨lead, rest, rfl, hlead⟩ := List.eq_append_cons_of_mem hname
  have hdrop : (lead ++ name :: rest).dropWhile (· ≠ name) = name :: rest := by
    rw [List.dropWhile_append_of_pos]
    · simp
    · intro a ha
      simpa using fun heq : a = name => hlead (heq ▸ ha)
  rw [hdrop]
  refine ⟨name, rest, rfl, ?_, ?_, ?_⟩
  · exact (List.nodup_append.1 h.nodup).2.1
  · exact fun k hk => h.keys k (List.mem_append_right _ hk)
  · have hchain := h.chain
    rw [List.append_assoc] at hchain
    exact (List.isChain_append.1 hchain).2.1

/-- A cycle that a job reports is one of the document. -/
theorem isReferenceCycle_of_reports {c : Cause} (hc : c.kind = .jobCycle)
    (hpath : root.IsReferencePath stack name) (h : Reports (job d root stack name) c) :
    ∃ names, c = .grammar (.jobCycle names) ∧ root.IsReferenceCycle names := by
  induction stack, name using inductionOnChain root with
  | h stack name ih =>
    by_cases hname : name ∈ stack
    · -- the cycle is what the chain holds from that name on
      rw [job_of_mem hname, reports_refuse] at h
      exact ⟨_, h, hpath.cycle hname⟩
    · rw [job_of_not_mem hname] at h
      obtain ⟨value, other, hvalue, hother, h⟩ := exists_refers_of_reports hc h
      exact ih value hname hvalue other (hpath.extend hname hvalue hother) (reports_map.1 h)

/-! ## What is accepted -/

/-- What a job leads to is accepted below a chain that the job is on. -/
theorem accepted_job_of_transGen (h : Accepted (job d root stack name))
    (hreach : TransGen root.Refers name other) :
    ∃ more, Accepted (job d root (stack ++ name :: more) other) := by
  induction hreach with
  | single hother => exact ⟨[], accepted_job_of_refers h hother⟩
  | tail _ hother ih =>
    obtain ⟨more, hmore⟩ := ih
    have hnext := accepted_job_of_refers hmore hother
    rw [List.append_assoc, List.cons_append] at hnext
    exact ⟨_, hnext⟩

/-- A job that is accepted leads to no cycle. -/
theorem not_transGen_of_accepted (h : Accepted (job d root stack name))
    (hreach : ReflTransGen root.Refers name other) : ¬ TransGen root.Refers other other := by
  intro hcycle
  have hother : ∃ stack', Accepted (job d root stack' other) := by
    rcases reflTransGen_iff_eq_or_transGen.1 hreach with rfl | hreach
    · exact ⟨stack, h⟩
    · obtain ⟨more, hmore⟩ := accepted_job_of_transGen h hreach
      exact ⟨_, hmore⟩
  obtain ⟨stack', h'⟩ := hother
  obtain ⟨more, j, hj⟩ := accepted_job_of_transGen h' hcycle
  exact not_mem_of_job_ok hj (List.mem_append_right _ List.mem_cons_self)

end Entries

namespace Node

/-- The jobs of a document, found with references followed to some depth only. -/
def jobsWithin (d : TaskDefaults) (beyond : List String → String → Parsed Job) (depth : Nat)
    (n : Node) : Parsed (List Job) := do
  let root ← n.requireEntries "Document root"
  Entries.jobsBy (Entries.jobWithin d root beyond depth []) root

theorem jobsWithin_eq_jobs {d : TaskDefaults} {n : Node} {depth : Nat}
    (h : n.entries.length < depth) (beyond : List String → String → Parsed Job) :
    n.jobsWithin d beyond depth = n.jobs d := by
  cases n with
  | map place root =>
    have hsame : Entries.jobWithin d root beyond depth [] = Entries.job d root [] := by
      funext name
      exact Entries.jobWithin_eq_job (lt_of_le_of_lt List.countP_le_length h)
    rw [jobs_map, ← hsame]
    rfl
  | _ => rfl

/-- Parsing follows references no deeper than the document has entries. If it reports a cycle, this is
    one of the document; and if it succeeds, no job leads to a cycle. -/
theorem jobs_referenceCycles (d : TaskDefaults) (n : Node) :
    (∀ depth, n.entries.length < depth →
      ∀ beyond, n.jobsWithin d beyond depth = n.jobs d) ∧
    (∀ f, n.jobs d = .error f → ∀ c ∈ f.links, c.kind = .jobCycle →
      ∃ names, c = .grammar (.jobCycle names) ∧ n.entries.IsReferenceCycle names) ∧
    (∀ js, n.jobs d = .ok js → ∀ name ∈ n.entries.jobNames, ∀ other,
      ReflTransGen n.entries.Refers name other → ¬ TransGen n.entries.Refers other other) := by
  refine ⟨fun depth => jobsWithin_eq_jobs, ?_, ?_⟩
  · intro f hf c hc hkind
    cases n with
    | map place root =>
      rw [jobs_map] at hf
      obtain ⟨name, -, h⟩ := Entries.exists_mem_of_reports_jobsBy hkind ⟨f, hf, hc⟩
      exact Entries.isReferenceCycle_of_reports hkind (.nil root name) h
    | _ =>
      obtain rfl := reports_refuse.1 ⟨f, hf, hc⟩
      cases hkind
  · intro js hjs name hname other
    cases n with
    | map place root =>
      rw [jobs_map] at hjs
      exact Entries.not_transGen_of_accepted ((Entries.accepted_jobsBy.1 ⟨js, hjs⟩).2 name hname)
    | _ => exact (refuse_ne_ok _ _ hjs).elim

/-- A job with a reference to a second one, which refers back to it from a parallel group. -/
def cyclicSample : Node :=
  map none [(.text "a", list none [text "b"]),
    (.text "b", list none [map none [(.text "parallel", list none [text "a"])]])]

/-- A job with a reference to a second one in a platform branch. -/
def acyclicSample : Node :=
  map none [(.text "a", list none [map none [(.text "on-linux", list none [text "b"])]]),
    (.text "b", list none [])]

theorem jobs_referenceCycles_sample :
    (2 < 3 ∧ ∀ beyond, cyclicSample.jobsWithin ⟨1, 22⟩ beyond 3 = cyclicSample.jobs ⟨1, 22⟩) ∧
    (∃ f c, cyclicSample.jobs ⟨1, 22⟩ = .error f ∧ c ∈ f.links ∧ c.kind = .jobCycle ∧
      ∃ names, c = .grammar (.jobCycle names) ∧ cyclicSample.entries.IsReferenceCycle names) ∧
    (∃ js, acyclicSample.jobs ⟨1, 22⟩ = .ok js ∧ "a" ∈ acyclicSample.entries.jobNames ∧
      ReflTransGen acyclicSample.entries.Refers "a" "b" ∧
        ¬ TransGen acyclicSample.entries.Refers "b" "b") := by
  have hcyclic := jobs_referenceCycles ⟨1, 22⟩ cyclicSample
  have hacyclic := jobs_referenceCycles ⟨1, 22⟩ acyclicSample
  have hfail := (hcyclic.1 3 (by decide) fun _ _ => .ok ⟨"", []⟩).symm
  have hok := (hacyclic.1 3 (by decide) fun _ _ => .ok ⟨"", []⟩).symm
  refine ⟨⟨by decide, hcyclic.1 3 (by decide)⟩, ?_, ?_⟩
  · refine ⟨_, .grammar (.jobCycle ["a", "b", "a"]), hfail.trans rfl, ?_, rfl, ?_⟩
    · decide
    · exact hcyclic.2.1 _ (hfail.trans rfl) _ (by decide) rfl
  · have hrefers : acyclicSample.entries.Refers "a" "b" :=
      ⟨none, _, rfl, _, List.mem_cons_self, .held (.branch (Or.inr rfl) List.mem_cons_self) .here⟩
    exact ⟨_, hok.trans rfl, by decide, .single hrefers,
      hacyclic.2.2 _ (hok.trans rfl) "a" (by decide) "b" (.single hrefers)⟩

end Node
end Runbook
