import Runbook.Proofs.Addresses
import Runbook.Proofs.Disclosure
import Runbook.Proofs.Idempotence
import Runbook.Proofs.InterruptedQuestions
import Runbook.Proofs.JobNames

set_option autoImplicit false

/-! # Interrupted runs

A job and a platform branch let the interrupt of a task pass as it is. A group does not: it reports
whatever a task of it fails with as a failure of the workflow. So the program ends with the code for
interrupts if a task outside of all groups is interrupted, and with that for failures if it is one of a
group, or if a question is interrupted while the workflow is loaded, which no command handles. -/

namespace Runbook

namespace Task

/-! ## The tasks that are run -/

/-- A run of a task runs another one, in some world, and it is said whether as a task of a group. In a
    sequence a task is run if those before it have succeeded and it can be described. -/
inductive Executes (e : Setting) : World → Task → Bool → World → Task → Prop
  | self {w : World} {t : Task} : Executes e w t false w t
  | inSequence {w w₀ w₁ v : World} {t u leaf : Task} {owner : String} {before after : List Task}
      {grouped : Bool}
      (hsequence : t.sequence? (Platform.ofHost? e.platform) = some (owner, before ++ u :: after))
      (hbefore : executeFrom owner 0 before e w = (.ok (), w₀))
      (hdescribed : u.hasWritableDescription = true)
      (hstarted : Console.taskStarted owner before.length u.describe e w₀ = (.ok (), w₁))
      (hrest : Executes e w₁ u grouped v leaf) : Executes e w t grouped v leaf
  | inGroup {w w₁ v : World} {u leaf : Task} {before after : List Task} {threads : Int}
      {outcomes : List (Except Failure Unit)} {grouped : Bool}
      (hbefore : RunsEach e (w.after [.pool (max 1 threads)]) before outcomes w₁)
      (hrest : Executes e w₁ u grouped v leaf) :
      Executes e w (.parallel (before ++ u :: after) threads) true v leaf

variable {e : Setting} {w w₀ w' v : World} {t u : Task} {ts before after : List Task} {f g : Failure}
  {owner : String} {grouped : Bool}

/-- A sequence goes on where the first of its tasks have succeeded. -/
theorem executeFrom_append (rest : List Task) : ∀ (before : List Task) (index : Nat) (w : World),
    executeFrom owner index before e w = (.ok (), w₀) →
      executeFrom owner index (before ++ rest) e w
        = executeFrom owner (index + before.length) rest e w₀
  | [], _, _, h => by
    cases h
    rfl
  | t :: ts, index, w, h => by
    cases hdescribed : t.hasWritableDescription with
    | false =>
      rw [executeFrom_of_unwritable hdescribed] at h
      cases h
    | true =>
      obtain ⟨w₁, -, ⟨w₂, hnext⟩ | ⟨g, w₂, -, hfail⟩⟩ := executeFrom_first index w hdescribed
      · rw [List.cons_append, hnext, executeFrom_append rest ts (index + 1) w₂ (hnext ts ▸ h),
          List.length_cons, Nat.add_comm ts.length, Nat.add_assoc]
      · rw [hfail] at h
        cases h

/-- A sequence ends with the failure of a task that it comes to, which it reports unless it is an
    interrupt. -/
theorem executeFrom_of_error {w₁ : World} (hbefore : executeFrom owner 0 before e w = (.ok (), w₀))
    (hdescribed : u.hasWritableDescription = true)
    (hstarted : Console.taskStarted owner before.length u.describe e w₀ = (.ok (), w₁))
    (hu : (u.execute e w₁).1 = .error g) (after : List Task) :
    (executeFrom owner 0 (before ++ u :: after) e w).1 = .error (if g.isException then
      g.because (.job owner before.length (some u.describe)) else g) := by
  have hdescribe : Effect.ofExcept u.describe? e w₀ = (.ok u.describe, w₀) := by
    rw [describe?, hdescribed]
    rfl
  rw [executeFrom_append (u :: after) before 0 w hbefore, Nat.zero_add, executeFrom,
    Effect.bind_of_ok hdescribe, Effect.bind_of_ok hstarted,
    Effect.bind_of_error (Effect.because_eq_of_error (Prod.ext hu rfl) _ _)]

/-- The outcome of a task of a group is among those of the group. -/
theorem RunsEach.mem_outcomes {outcomes outcomes₀ : List (Except Failure Unit)} {w₁ : World}
    (h : RunsEach e w (before ++ u :: after) outcomes w') (hbefore : RunsEach e w before outcomes₀ w₁) :
    (u.execute e w₁).1 ∈ outcomes := by
  induction hbefore generalizing outcomes with
  | nil =>
    cases h with
    | cons hfirst hrest =>
      rw [hfirst]
      exact List.mem_cons_self
  | cons hfirst _ ih =>
    cases h with
    | cons hfirst' hrest' =>
      rw [hfirst] at hfirst'
      cases hfirst'
      exact List.mem_cons_of_mem _ (ih hrest')

/-- An interrupt of a task that is run ends the whole run, as it is if the task is outside of all
    groups, and as a failure that the workflow reports if it is in a group. -/
theorem Executes.execute_error (h : Executes e w t grouped v u) (hpool : e.PoolsWork)
    (hu : (u.execute e v).1 = .error g) (hg : g.isInterrupt = true) :
    ∃ f, (t.execute e w).1 = .error f ∧
      (grouped = false → f = g) ∧ (grouped = true → f.isWorkflow = true) := by
  induction h with
  | self => exact ⟨g, hu, fun _ => rfl, nofun⟩
  | @inSequence w w₀ w₁ v t u leaf owner before after grouped hsequence hbefore hdescribed hstarted _
      ih =>
    obtain ⟨f, hf, hout, hin⟩ := ih hu
    rw [execute_of_sequence hsequence, executeFrom_of_error hbefore hdescribed hstarted hf after]
    refine ⟨_, rfl, fun hgrouped => ?_, fun hgrouped => ?_⟩
    · rw [hout hgrouped, Failure.not_isException_of_isInterrupt hg]
      rfl
    · split
      · rfl
      · exact hin hgrouped
  | @inGroup w w₁ v u leaf before after threads outcomes grouped hbefore _ ih =>
    -- every task of a group is run to its end, so a group with this one among its tasks fails
    obtain ⟨f, hf, -⟩ := ih hu
    obtain ⟨outcomes', w', hruns, -, hok, hfailed⟩ :=
      parallel_outcomes (before ++ u :: after) threads w hpool
    rcases hresult : ((parallel (before ++ u :: after) threads).execute e w).1 with f' | ⟨⟩
    · obtain ⟨_, _, _, _, -, -, -, rfl⟩ := hfailed f' hresult
      exact ⟨_, rfl, nofun, fun _ => rfl⟩
    · have hall := hok.1 hresult _ (hruns.mem_outcomes hbefore)
      rw [hf] at hall
      cases hall

/-- An interrupt that ends a sequence comes from a task outside of all groups, if those of its tasks
    do. -/
theorem exists_executes_of_sequence
    (hsequence : t.sequence? (Platform.ofHost? e.platform) = some (owner, ts))
    (hall : ∀ u ∈ ts, ∀ w f, (u.execute e w).1 = .error f → f.isInterrupt = true →
      ∃ v leaf, Executes e w u false v leaf ∧ leaf.isInner = false ∧ (leaf.execute e v).1 = .error f)
    (h : (t.execute e w).1 = .error f) (hf : f.isInterrupt = true) :
    ∃ v leaf, Executes e w t false v leaf ∧ leaf.isInner = false ∧
      (leaf.execute e v).1 = .error f := by
  rw [execute_of_sequence hsequence] at h
  obtain ⟨before, u, after, w₀, rfl, hbefore, ⟨-, rfl, -⟩ | ⟨w₁, g, hstarted, hu, hreport⟩⟩ :=
    executeFrom_error ts 0 w (Prod.ext h rfl)
  · cases hf
  · -- what has not been described would have ended the sequence with another failure
    have hdescribed : u.hasWritableDescription = true := by
      rw [← Bool.not_eq_false]
      intro hunwritable
      rw [executeFrom_append (u :: after) before 0 w hbefore, executeFrom_of_unwritable hunwritable] at h
      cases h
      cases hf
    rw [Nat.zero_add] at hstarted hreport
    obtain rfl : f = g := by
      split at hreport
      · rw [hreport] at hf
        cases hf
      · exact hreport
    obtain ⟨v, leaf, hruns, hleaf, hfails⟩ := hall u (by simp) w₁ f (congrArg Prod.fst hu) hf
    exact ⟨v, leaf, .inSequence hsequence hbefore hdescribed hstarted hruns, hleaf, hfails⟩

mutual

/-- An interrupt that ends a run comes from a task outside of all groups. -/
theorem exists_executes (hpool : e.PoolsWork) : ∀ (t : Task) (w : World) (f : Failure),
    (t.execute e w).1 = .error f → f.isInterrupt = true →
      ∃ v leaf, Executes e w t false v leaf ∧ leaf.isInner = false ∧ (leaf.execute e v).1 = .error f
  | job name tasks, w, f, h, hf =>
    exists_executes_of_sequence rfl (exists_executes_of_mem hpool tasks) h hf
  | onPlatform platform tasks, w, f, h, hf => by
    by_cases hhere : Platform.ofHost? e.platform = some platform
    · exact exists_executes_of_sequence (if_pos hhere) (exists_executes_of_mem hpool tasks) h hf
    · rw [execute, Effect.bind_of_ok (Effect.setting_apply e w), if_neg hhere] at h
      obtain ⟨v, hdebug, -⟩ := debug_cases ("skipping on-" ++ platform.name ++ " branch") e w
      rw [hdebug] at h
      cases h
  | parallel tasks threads, w, f, h, hf => by
    obtain ⟨_, _, -, -, -, hfailed⟩ := parallel_outcomes tasks threads w hpool
    obtain ⟨_, _, _, _, -, -, -, rfl⟩ := hfailed f h
    cases hf
  | print _, w, f, h, _ | run _, w, f, h, _ | ssh _ _, w, f, h, _ | transfer _, w, f, h, _
  | probe _ _, w, f, h, _ => ⟨w, _, .self, rfl, h⟩

theorem exists_executes_of_mem (hpool : e.PoolsWork) : ∀ (ts : List Task), ∀ u ∈ ts,
    ∀ (w : World) (f : Failure), (u.execute e w).1 = .error f → f.isInterrupt = true →
      ∃ v leaf, Executes e w u false v leaf ∧ leaf.isInner = false ∧ (leaf.execute e v).1 = .error f
  | [] => by simp
  | t :: ts => List.forall_mem_cons.2 ⟨exists_executes hpool t, exists_executes_of_mem hpool ts⟩

end

end Task

namespace Cli

variable {file : Path} {name arg : String} {verbose debug : Bool} {args : List String} {e : Setting}
  {w v : World} {jobs : List Job} {j : Job} {f : Failure} {n : Nat}

/-! ## The code of a run -/

/-- The code with which the program ends when a run yields a code of its own or is left by a failure. -/
def runCode : Except Failure Nat → Nat
  | .ok n => n
  | .error _ => 1

/-- What is reported ends with the code for failures, whether the report can be written or not. -/
theorem runCode_report (report : Action Unit) (e : Setting) (w : World) :
    runCode ((report >>= fun _ => (pure 1 : Action Nat)) e w).1 = 1 := by
  rcases hreport : report e w with ⟨x | ⟨⟩, w'⟩
  · rw [Effect.bind_of_error hreport]
    rfl
  · rw [Effect.bind_of_ok hreport]
    rfl

theorem runCode_reportOr (title : String) (f : Failure) (e : Setting) (w : World) :
    runCode (reportOr title f e w).1 = 1 := by
  unfold reportOr
  split
  · exact runCode_report _ e w
  · rfl

/-- A selected job ends with the code for interrupts if it is interrupted, and with that for failures if
    it fails otherwise. -/
theorem runCode_runSelected (jobs : List Job) (name : String) (e : Setting) (w : World) :
    runCode (runSelected jobs name e w).1 = match (Job.run jobs name e w).1 with
      | .ok () => 0
      | .error f => if f.isInterrupt then 130 else 1 := by
  have hattempt := Effect.attempt_apply (Job.run jobs name) e w
  rcases hrun : Job.run jobs name e w with ⟨f | ⟨⟩, w'⟩ <;> rw [hrun] at hattempt <;>
    rw [runSelected, Effect.bind_of_ok hattempt]
  · dsimp only
    by_cases hf : f.isInterrupt = true
    · have hkind : f.isA .keyboardInterrupt = true := hf
      rw [if_pos hf, if_pos hkind]
      rfl
    · have hkind : ¬ f.isA .keyboardInterrupt = true := hf
      rw [if_neg hf, if_neg hkind]
      split
      · exact runCode_report _ e w'
      split
      · exact runCode_report _ e w'
      · rfl
  · rfl

/-- A job of a file starts, in some world: the file is loaded, the job is found in it, and its tree is
    shown if that is asked for. -/
def Starts (file : Path) (name : String) (verbose : Bool) (e : Setting) (w : World) (j : Job)
    (v : World) : Prop :=
  ∃ jobs w₁ w₂, Workflow.load file e w = (.ok jobs, w₁) ∧ Job.find jobs name = .ok j ∧
    showTree verbose j e w₁ = (.ok (), w₂) ∧
    Console.jobStarted j.name j.tasks.length e w₂ = (.ok (), v)

/-- A run of a job of a file runs a task that holds no others, in some world, and it is said whether as
    a task of a group. -/
def RunsLeaf (file : Path) (name : String) (verbose : Bool) (e : Setting) (w : World) (grouped : Bool)
    (v : World) (u : Task) : Prop :=
  ∃ j w', Starts file name verbose e w j w' ∧ j.task.Executes e w' grouped v u ∧ u.isInner = false

theorem runCode_of_starts (h : Starts file name verbose e w j v) :
    runCode (run file name verbose e w).1 = match (j.execute e v).1 with
      | .ok () => 0
      | .error f => if f.isInterrupt then 130 else 1 := by
  obtain ⟨jobs, w₁, w₂, hload, hfound, htree, hstarted⟩ := h
  rw [run_of_load hload hfound, runFound_of_tree htree, runCode_runSelected]
  have hfind : Effect.ofExcept (Job.find jobs name) e w₂ = (.ok j, w₂) := by
    rw [hfound]
    rfl
  rw [Job.run, Effect.bind_of_ok hfind, Effect.bind_of_ok hstarted]
  rcases hrun : j.execute e v with ⟨f | ⟨⟩, w'⟩
  · rw [Effect.bind_of_error hrun]
  · rw [Effect.bind_of_ok hrun]
    rfl

/-- Where no job starts, a run ends with the code for failures. -/
theorem exists_starts (h : runCode (run file name verbose e w).1 ≠ 1) :
    ∃ j v, Starts file name verbose e w j v := by
  rcases hload : Workflow.load file e w with ⟨f | jobs, w₁⟩
  · rw [run_of_load_error (congrArg Prod.fst hload)] at h
    exact absurd (runCode_reportOr _ f e _) h
  cases hfound : Job.find jobs name with
  | error f =>
    have hattempt := Effect.attempt_apply (Workflow.load file) e w
    rw [hload] at hattempt
    rw [run, Effect.bind_of_ok hattempt] at h
    dsimp only at h
    rw [hfound] at h
    exact absurd (runCode_reportOr _ f e _) h
  | ok j =>
    rcases htree : showTree verbose j e w₁ with ⟨f | ⟨⟩, w₂⟩
    · rw [run_of_load hload hfound, runFound, Effect.bind_of_error htree] at h
      exact absurd rfl h
    · exact ⟨j, _, jobs, w₁, w₂, hload, hfound, htree, rfl⟩

/-- A run in which a leaf is interrupted ends with the code for interrupts if the leaf is outside of all
    groups, and with that for failures if it is in one. -/
theorem runCode_of_runsLeaf {grouped : Bool} {u : Task} (hpool : e.PoolsWork)
    (h : RunsLeaf file name verbose e w grouped v u) (hu : Interrupted (u.execute e v).1) :
    runCode (run file name verbose e w).1 = if grouped then 1 else 130 := by
  obtain ⟨j, w', hstarts, hexecutes, -⟩ := h
  obtain ⟨g, hg, hinterrupt⟩ := hu
  obtain ⟨f, hf, hout, hin⟩ := hexecutes.execute_error hpool hg hinterrupt
  rw [runCode_of_starts hstarts, Job.execute, hf]
  cases grouped with
  | false =>
    rw [hout rfl]
    exact if_pos hinterrupt
  | true =>
    have hnot : f.isInterrupt = false := Failure.not_isInterrupt_of_isWorkflow (hin rfl)
    dsimp only
    rw [hnot]
    rfl

/-- Only an interrupt of a leaf outside of all groups ends a run with the code for interrupts. -/
theorem exists_runsLeaf (hpool : e.PoolsWork) (h : runCode (run file name verbose e w).1 = 130) :
    ∃ v u, RunsLeaf file name verbose e w false v u ∧ Interrupted (u.execute e v).1 := by
  obtain ⟨j, v, hstarts⟩ := exists_starts (by rw [h]; decide)
  rw [runCode_of_starts hstarts, Job.execute] at h
  cases hrun : (j.task.execute e v).1 with
  | ok u =>
    rw [hrun] at h
    cases h
  | error f =>
    rw [hrun] at h
    by_cases hf : f.isInterrupt = true
    · obtain ⟨v', leaf, hexecutes, hleaf, hfails⟩ := Task.exists_executes hpool j.task v f hrun hf
      exact ⟨v', leaf, ⟨j, v, hstarts, hexecutes, hleaf⟩, f, hfails, hf⟩
    · simp [hf] at h

/-- A question that is interrupted ends the loading of a workflow, and no command handles that. -/
theorem runCode_of_interrupted_load {calls : List Event} {x : Failure}
    (hcalls : (Workflow.load file e w).2.events = w.events ++ calls)
    (hx : e.Interrupts x w.events calls) : runCode (run file name verbose e w).1 = 1 := by
  obtain ⟨calls', hcalls', hend⟩ := Workflow.load_endsAtInterrupts file e w
  obtain rfl := List.append_cancel_left (hcalls.symm.trans hcalls')
  rw [run_of_load_error ((hend x).2 hx).1]
  exact runCode_reportOr _ x e _

/-! ## The code of the program -/

/-- The program ends with a code. -/
def ExitsWith (args : List String) (e : Setting) (w : World) (n : Nat) : Prop :=
  ∃ ending, (program args e w).1 = .ok ending ∧ ending.exitCode = n

theorem finish_cases (f : Failure) (e : Setting) (w : World) :
    ∃ w', finish f e w = (.ok (.code 1), w') ∨ finish f e w = (.ok (.crashed f), w') := by
  unfold finish
  split
  · exact ⟨_, .inl rfl⟩
  split
  · exact ⟨_, .inl rfl⟩
  · exact ⟨_, .inr rfl⟩

/-- A failure that no command reports ends the program with the code for failures. -/
theorem exitsWith_of_perform_error {request : Request} {w' : World}
    (hargs : Request.ofArgs args = .ok (debug, request))
    (hperform : perform request (e.tracing debug) w = (.error f, w')) : ExitsWith args e w 1 := by
  have hattempt := attempt_perform request debug e w
  rw [hperform] at hattempt
  unfold ExitsWith
  rw [program, hargs]
  dsimp only
  rw [Effect.bind_of_ok hattempt]
  obtain ⟨w'', hending | hending⟩ := finish_cases f e w'
  all_goals
    dsimp only
    rw [Effect.bind_of_ok hending]
    exact ⟨_, rfl, rfl⟩

/-- The program ends with the code of the run that a command line asks for. -/
theorem exitsWith_runCode (hargs : Request.ofArgs args = .ok (debug, .run verbose [arg, name]))
    (hfile : workflowFile arg e w = (.ok (.ok file), w)) :
    ExitsWith args e w (runCode (run file name verbose (e.tracing debug) w).1) := by
  have hfile' : workflowFile arg (e.tracing debug) w = (.ok (.ok file), w) :=
    (workflowFile_tracing arg debug e w).trans hfile
  have hperform : perform (.run verbose [arg, name]) (e.tracing debug) w
      = (run file name verbose >>= fun n => pure (.code n)) (e.tracing debug) w := by
    rw [perform, Effect.bind_of_ok hfile']
  rcases hrun : run file name verbose (e.tracing debug) w with ⟨f | n, w'⟩
  · rw [Effect.bind_of_error hrun] at hperform
    exact exitsWith_of_perform_error hargs hperform
  · rw [Effect.bind_of_ok hrun] at hperform
    exact ⟨.code n, congrArg Prod.fst (program_of_perform hargs hperform), rfl⟩

theorem exitsWith_iff (hargs : Request.ofArgs args = .ok (debug, .run verbose [arg, name]))
    (hfile : workflowFile arg e w = (.ok (.ok file), w)) :
    ExitsWith args e w n ↔ runCode (run file name verbose (e.tracing debug) w).1 = n := by
  obtain ⟨ending, hending, hcode⟩ := exitsWith_runCode hargs hfile
  constructor
  · rintro ⟨ending', hending', rfl⟩
    rw [hending] at hending'
    cases hending'
    exact hcode.symm
  · rintro rfl
    exact ⟨ending, hending, hcode⟩

/-- The program that runs a job of a file ends with the code for interrupts if and only if a leaf outside
    of all groups is run and interrupted. If a leaf of a group is interrupted it ends with the code for
    failures, and so it does if an interrupt strikes any call that is made while the file is loaded. A
    leaf is interrupted if the last of its calls that raises anything raises an interrupt. -/
theorem program_run_interrupted (hargs : Request.ofArgs args = .ok (debug, .run verbose [arg, name]))
    (hfile : workflowFile arg e w = (.ok (.ok file), w)) (hpool : e.PoolsWork) :
    (ExitsWith args e w 130 ↔
      ∃ v u, RunsLeaf file name verbose (e.tracing debug) w false v u ∧
        Interrupted (u.execute (e.tracing debug) v).1) ∧
    (∀ v u, RunsLeaf file name verbose (e.tracing debug) w true v u →
      Interrupted (u.execute (e.tracing debug) v).1 → ExitsWith args e w 1) ∧
    (∀ calls x, (Workflow.load file (e.tracing debug) w).2.events = w.events ++ calls →
      (e.tracing debug).Interrupts x w.events calls → ExitsWith args e w 1) ∧
    ∀ grouped v u, RunsLeaf file name verbose (e.tracing debug) w grouped v u →
      (∀ name failure, u ≠ .probe name failure) →
      ∃ calls, (u.execute (e.tracing debug) v).2.events = v.events ++ calls ∧
        (Interrupted (u.execute (e.tracing debug) v).1 ↔
          (e.tracing debug).EndsInterrupted v.events calls) := by
  have hpool' : (e.tracing debug).PoolsWork := ⟨hpool.made, hpool.shut⟩
  refine ⟨(exitsWith_iff hargs hfile).trans ⟨exists_runsLeaf hpool', ?_⟩, ?_, ?_, ?_⟩
  · rintro ⟨v, u, hleaf, hu⟩
    exact runCode_of_runsLeaf hpool' hleaf hu
  · exact fun v u hleaf hu => (exitsWith_iff hargs hfile).2 (runCode_of_runsLeaf hpool' hleaf hu)
  · exact fun calls x hcalls hx => (exitsWith_iff hargs hfile).2 (runCode_of_interrupted_load hcalls hx)
  · rintro grouped v u ⟨-, -, -, -, hleaf⟩ hprobe
    exact Task.passesInterrupts_execute hleaf hprobe v

/-- A setting in which every local process is interrupted. -/
def interruptedSetting : Setting :=
  { Setting.calm with process := fun _ _ => ⟨0, "", some (.of (.reported .keyboardInterrupt none))⟩ }

theorem interruptedSetting_poolsWork : interruptedSetting.PoolsWork := ⟨fun _ _ => rfl, fun _ => rfl⟩

theorem ofArgs_runSample :
    Request.ofArgs ["run", "w.yml", "a"] = .ok (false, .run false ["w.yml", "a"]) := by
  decide +kernel

/-- A local command. -/
def commandSample : Task := .run ⟨.bash, ["x"], none, none⟩

/-- The command is interrupted wherever it is run. -/
theorem interrupted_commandSample (w : World) :
    Interrupted (commandSample.execute interruptedSetting w).1 := ⟨_, rfl, rfl⟩

/-- Where a document has no tags, its jobs start without questions. -/
theorem exists_starts_of_untagged {content : Bytes} {n : Node} {j : Job}
    (hdocument : Node.ofBytes content = .ok n) (htags : n.Untagged false) (hplaces : Node.Consistent [n])
    (hjobs : n.unshared.jobs interruptedSetting.taskDefaults = .ok [j]) :
    ∃ v, Starts Workflow.samplePath j.name false interruptedSetting (worldWith content) j v := by
  have hcontent : Workflow.HasContent Workflow.samplePath interruptedSetting (worldWith content)
      content := ⟨_, rfl, hasFile_worldWith content []⟩
  have hresolved : n.resolveAlone interruptedSetting (worldWith content)
      = (.ok n.unshared, worldWith content) := by
    have hyields : n.resolve interruptedSetting (worldWith content, [])
        = (.ok n.unshared, (worldWith content, [])) := Node.resolve_untagged htags hplaces
    rw [Node.resolveAlone, hyields]
  have hload := (Workflow.load_eq_ok_iff hcontent).2 ⟨n, _, hdocument, hresolved, hjobs⟩
  refine ⟨_, [j], _, _, hload, ?_, rfl, rfl⟩
  simp [Job.find]

/-- A document with a job of one task. -/
def jobDocument (place place' : Option Nat) (task : Node) : Node :=
  .map place [(.text "a", .list place' [task])]

/-- A command in a document. -/
def commandNode (place : Option Nat) : Node := .map place [(.text "bash", .text "x")]

/-- A workflow file in which a job runs a command. -/
def commandContent : Bytes := .ofText "a: [\x7bbash: x\x7d]\n"

/-- The document in it. -/
def commandDocument : Node := jobDocument (some 0) (some 2) (commandNode (some 3))

/-- An interrupt of the command ends the program with the code for interrupts. -/
theorem program_run_interrupted_sample :
    (∃ v u, RunsLeaf Workflow.samplePath "a" false interruptedSetting (worldWith commandContent) false
        v u ∧ Interrupted (u.execute interruptedSetting v).1) ∧
      ExitsWith ["run", "w.yml", "a"] interruptedSetting (worldWith commandContent) 130 := by
  have hdocument : Node.ofBytes commandContent = .ok commandDocument := by decide +kernel
  have htags : commandDocument.Untagged false := by
    simp [Node.Untagged, commandDocument, jobDocument, commandNode, Node.parts, Node.itemParts,
      Node.entryParts, Node.text]
  have hplaces : Node.Consistent [commandDocument] := by
    simp [Node.Consistent, commandDocument, jobDocument, commandNode, Node.parts, Node.itemParts,
      Node.entryParts, Node.place?, Node.text]
  have hjobs : commandDocument.unshared.jobs interruptedSetting.taskDefaults
      = .ok [⟨"a", [commandSample]⟩] :=
    (Node.jobsWithin_eq_jobs (by decide : 1 < 2) fun _ _ => .ok default).symm.trans rfl
  obtain ⟨w', hstarts⟩ := exists_starts_of_untagged hdocument htags hplaces hjobs
  have hexecutes : Task.Executes interruptedSetting w' (.job "a" [commandSample]) false w'
      commandSample :=
    .inSequence (rfl : _ = some ("a", [] ++ commandSample :: [])) rfl rfl rfl .self
  have hleaf : RunsLeaf Workflow.samplePath "a" false interruptedSetting (worldWith commandContent)
      false w' commandSample := ⟨_, w', hstarts, hexecutes, rfl⟩
  obtain ⟨hends, -⟩ := program_run_interrupted ofArgs_runSample
    (rfl : workflowFile "w.yml" interruptedSetting (worldWith commandContent) = _)
    interruptedSetting_poolsWork
  exact ⟨⟨w', _, hleaf, interrupted_commandSample w'⟩,
    hends.2 ⟨w', _, hleaf, interrupted_commandSample w'⟩⟩

/-- A workflow file in which a job runs a group of one command. -/
def groupContent : Bytes := .ofText "a: [\x7bparallel: [\x7bbash: x\x7d]\x7d]\n"

/-- The document in it. -/
def groupDocument : Node := jobDocument (some 0) (some 2)
  (.map (some 3) [(.text "parallel", .list (some 5) [commandNode (some 6)])])

/-- An interrupt of the same command in a group ends the program with the code for failures. -/
theorem program_run_interrupted_grouped :
    (∃ v u, RunsLeaf Workflow.samplePath "a" false interruptedSetting (worldWith groupContent) true
        v u ∧ Interrupted (u.execute interruptedSetting v).1) ∧
      ExitsWith ["run", "w.yml", "a"] interruptedSetting (worldWith groupContent) 1 ∧
      ¬ ExitsWith ["run", "w.yml", "a"] interruptedSetting (worldWith groupContent) 130 := by
  have hdocument : Node.ofBytes groupContent = .ok groupDocument := by decide +kernel
  have htags : groupDocument.Untagged false := by
    simp [Node.Untagged, groupDocument, jobDocument, commandNode, Node.parts, Node.itemParts,
      Node.entryParts, Node.text]
  have hplaces : Node.Consistent [groupDocument] := by
    simp [Node.Consistent, groupDocument, jobDocument, commandNode, Node.parts, Node.itemParts,
      Node.entryParts, Node.place?, Node.text]
  have hjobs : groupDocument.unshared.jobs interruptedSetting.taskDefaults
      = .ok [⟨"a", [.parallel [commandSample] 3]⟩] :=
    (Node.jobsWithin_eq_jobs (by decide : 1 < 2) fun _ _ => .ok default).symm.trans rfl
  obtain ⟨w', hstarts⟩ := exists_starts_of_untagged hdocument htags hplaces hjobs
  have hgroup : Task.Executes interruptedSetting w' (.parallel ([] ++ commandSample :: []) 3) true
      (w'.after [.pool 3]) commandSample := .inGroup .nil .self
  have hexecutes : Task.Executes interruptedSetting w' (.job "a" [.parallel [commandSample] 3]) true
      (w'.after [.pool 3]) commandSample :=
    .inSequence (rfl : _ = some ("a", [] ++ Task.parallel [commandSample] 3 :: [])) rfl
      (by decide +kernel) rfl hgroup
  have hleaf : RunsLeaf Workflow.samplePath "a" false interruptedSetting (worldWith groupContent)
      true (w'.after [.pool 3]) commandSample := ⟨_, w', hstarts, hexecutes, rfl⟩
  have hinterrupted := interrupted_commandSample (w'.after [.pool 3])
  have hcode := runCode_of_runsLeaf interruptedSetting_poolsWork hleaf hinterrupted
  have hexits : ∀ n, ExitsWith ["run", "w.yml", "a"] interruptedSetting (worldWith groupContent) n ↔
      runCode (run Workflow.samplePath "a" false interruptedSetting (worldWith groupContent)).1 = n :=
    fun n => exitsWith_iff ofArgs_runSample rfl
  refine ⟨⟨_, _, hleaf, hinterrupted⟩, (hexits 1).2 hcode, fun h => ?_⟩
  rw [hexits, hcode] at h
  cases h

end Cli
end Runbook
