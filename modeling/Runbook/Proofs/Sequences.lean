import Runbook.Proofs.Processes

set_option autoImplicit false

/-! # Sequences of tasks

Jobs and platform branches run tasks one after the other, and a failure in one of them ends all that
it is nested in. So the nesting does not matter to what is run: it is what the leaves of the tree
do, from left to right, up to the first that fails. Before a task of a sequence is run it is
described, so that a leaf whose description cannot be written ends the run without being run itself.
-/

namespace Runbook.Task

/-! ## The leaves of a tree -/

/-- Whether a task runs others one after the other. -/
def isSequence : Task → Bool
  | job _ _ | onPlatform _ _ => true
  | _ => false

mutual

/-- What is run when a task is run on a platform, from left to right: tasks that are no sequences.
    Branches for other platforms are left out. -/
def leaves (here : Option Platform) : Task → List Task
  | job _ tasks => leavesOf here tasks
  | onPlatform platform tasks => if here = some platform then leavesOf here tasks else []
  | t => [t]

/-- What is run when some tasks are run on a platform one after the other. -/
def leavesOf (here : Option Platform) : List Task → List Task
  | [] => []
  | t :: ts => leaves here t ++ leavesOf here ts

end

/-- A task becomes another one when the tasks of a nested job take the place of the job, somewhere in
    a sequence. -/
inductive Inlines : Task → Task → Prop
  | job {name other : String} {before inner after : List Task} :
      Inlines (.job name (before ++ .job other inner :: after)) (.job name (before ++ inner ++ after))
  | onPlatform {platform : Platform} {other : String} {before inner after : List Task} :
      Inlines (.onPlatform platform (before ++ .job other inner :: after))
        (.onPlatform platform (before ++ inner ++ after))
  | inJob {name : String} {before after : List Task} {t t' : Task} (h : Inlines t t') :
      Inlines (.job name (before ++ t :: after)) (.job name (before ++ t' :: after))
  | inPlatform {platform : Platform} {before after : List Task} {t t' : Task} (h : Inlines t t') :
      Inlines (.onPlatform platform (before ++ t :: after))
        (.onPlatform platform (before ++ t' :: after))

/-- Some leaves are run one after the other up to the first that fails: which of them are run,
    whether all succeed, and the world that is left behind. It is said whether each has to be
    described before it is run. -/
inductive Ends (described : Bool) (e : Setting) :
    World → List Task → List Task → Bool → World → Prop
  | nil {w : World} : Ends described e w [] [] true w
  | success {w w₁ w₂ : World} {leaf : Task} {rest executed : List Task} {ok : Bool}
      (hdescribed : described = true → leaf.hasWritableDescription = true)
      (hleaf : leaf.execute e w = (.ok (), w₁)) (hrest : Ends described e w₁ rest executed ok w₂) :
      Ends described e w (leaf :: rest) (leaf :: executed) ok w₂
  | failure {w w₁ : World} {leaf : Task} {rest : List Task} {f : Failure}
      (hdescribed : described = true → leaf.hasWritableDescription = true)
      (hleaf : leaf.execute e w = (.error f, w₁)) :
      Ends described e w (leaf :: rest) [leaf] false w₁
  | undescribed {w : World} {leaf : Task} {rest : List Task} (hdescribed : described = true)
      (hleaf : leaf.hasWritableDescription = false) : Ends described e w (leaf :: rest) [] false w

variable {here : Option Platform} {described ok ok' : Bool} {e : Setting} {w w' w₁ w₂ v : World}
  {t t' : Task} {ts xs ys executed executed' : List Task}

theorem leavesOf_append : leavesOf here (xs ++ ys) = leavesOf here xs ++ leavesOf here ys := by
  induction xs with
  | nil => rfl
  | cons t ts ih => rw [List.cons_append, leavesOf, leavesOf, ih, List.append_assoc]

theorem Inlines.leaves_eq (h : t.Inlines t') : t'.leaves here = t.leaves here := by
  induction h with
  | job | onPlatform => simp only [leaves, leavesOf, leavesOf_append, List.append_assoc]
  | inJob _ ih | inPlatform _ ih => simp only [leaves, leavesOf, leavesOf_append, ih]

theorem Inlines.isSequence (h : t.Inlines t') : t.isSequence = true ∧ t'.isSequence = true := by
  cases h <;> exact ⟨rfl, rfl⟩

theorem leaves_of_not_isSequence (h : t.isSequence = false) : t.leaves here = [t] := by
  cases t with
  | job | onPlatform => cases h
  | _ => rfl

theorem hasWritableDescription_of_isSequence (h : t.isSequence = true) :
    t.hasWritableDescription = true := by
  cases t with
  | job | onPlatform => rfl
  | _ => cases h

/-- Only leaves may have a description that cannot be written. -/
theorem isSequence_of_unwritable (h : t.hasWritableDescription = false) : t.isSequence = false := by
  rw [← Bool.not_eq_true]
  intro hseq
  rw [hasWritableDescription_of_isSequence hseq] at h
  cases h

/-! ## Runs of leaves -/

/-- How a run of leaves ends is determined. -/
theorem Ends.unique (h : Ends described e w xs executed ok w₁)
    (h' : Ends described e w xs executed' ok' w₂) : executed = executed' ∧ ok = ok' ∧ w₁ = w₂ := by
  induction h generalizing executed' with
  | nil =>
    cases h'
    exact ⟨rfl, rfl, rfl⟩
  | success hdescribed hleaf _ ih =>
    cases h' with
    | success _ hleaf' hrest' =>
      rw [hleaf] at hleaf'
      cases hleaf'
      obtain ⟨rfl, rfl, rfl⟩ := ih hrest'
      exact ⟨rfl, rfl, rfl⟩
    | failure _ hleaf' =>
      rw [hleaf] at hleaf'
      cases hleaf'
    | undescribed h hunwritable =>
      rw [hdescribed h] at hunwritable
      cases hunwritable
  | failure hdescribed hleaf =>
    cases h' with
    | success _ hleaf' _ =>
      rw [hleaf] at hleaf'
      cases hleaf'
    | failure _ hleaf' =>
      rw [hleaf] at hleaf'
      cases hleaf'
      exact ⟨rfl, rfl, rfl⟩
    | undescribed h hunwritable =>
      rw [hdescribed h] at hunwritable
      cases hunwritable
  | undescribed h hunwritable =>
    cases h' with
    | success hdescribed _ _ | failure hdescribed _ =>
      rw [hdescribed h] at hunwritable
      cases hunwritable
    | undescribed => exact ⟨rfl, rfl, rfl⟩

/-- A run that fails fails whatever would come after it. -/
theorem Ends.append_of_failed (h : Ends described e w xs executed false w') :
    Ends described e w (xs ++ ys) executed false w' := by
  generalize hok : false = ok at h
  induction h with
  | nil => cases hok
  | success hdescribed hleaf _ ih => exact .success hdescribed hleaf (ih hok)
  | failure hdescribed hleaf => exact .failure hdescribed hleaf
  | undescribed hdescribed hleaf => exact .undescribed hdescribed hleaf

/-- A run that succeeds goes on with what comes after it. -/
theorem Ends.append (h : Ends described e w xs executed true w₁)
    (h' : Ends described e w₁ ys executed' ok w₂) :
    Ends described e w (xs ++ ys) (executed ++ executed') ok w₂ := by
  generalize hok : true = ok' at h
  induction h with
  | nil => exact h'
  | success hdescribed hleaf _ ih => exact .success hdescribed hleaf (ih h' hok)
  | failure | undescribed => cases hok

/-- An outcome, and the world it leaves, are what a run of some leaves would end with. -/
def Matches (described : Bool) (e : Setting) (w : World) (leaves : List Task)
    (r : Except Failure Unit × World) : Prop :=
  ∃ executed ok w', Ends described e w leaves executed ok w' ∧ (r.1 = .ok () ↔ ok = true) ∧
    r.2.Alike w'

/-- A leaf does the same in worlds that are alike. -/
theorem matches_leaf (hdescribed : described = true → t.hasWritableDescription = true)
    (h : v.Alike w) : Matches described e w [t] (t.execute e v) := by
  obtain ⟨hr, hw⟩ := steady_execute t e e v w (.refl e) h
  rcases hrun : t.execute e w with ⟨f | u, w'⟩
  · rw [hrun] at hr hw
    exact ⟨[t], false, w', .failure hdescribed hrun, by simp [hr], hw⟩
  · rw [hrun] at hr hw
    exact ⟨[t], true, w', .success hdescribed hrun .nil, by simp [hr], hw⟩

/-! ## Runs of sequences -/

/-- A task whose description cannot be written ends a sequence before anything is done. -/
theorem executeFrom_of_unwritable {owner : String} {index : Nat}
    (h : t.hasWritableDescription = false) (ts : List Task) (e : Setting) (v : World) :
    executeFrom owner index (t :: ts) e v = (.error .unwritable, v) := by
  have hdescribe : t.describe? = .error .unwritable := by
    rw [describe?, h]
    rfl
  rw [executeFrom, hdescribe]
  rfl

/-- A sequence runs its first task and goes on if this succeeds. -/
theorem executeFrom_of_writable {owner : String} {index : Nat}
    (h : t.hasWritableDescription = true) (ts : List Task) (e : Setting) (v : World) :
    ∃ v' c, v'.Alike v ∧
      executeFrom owner index (t :: ts) e v = ((execute t).because Failure.isException c >>= fun _ =>
        executeFrom owner (index + 1) ts) e v' := by
  have hdescribe : t.describe? = .ok t.describe := by
    rw [describe?, h]
    rfl
  have hstarted : ∃ v', Console.taskStarted owner index t.describe e v = (.ok (), v') ∧ v'.Alike v :=
    debug_cases _ e v
  obtain ⟨v', hstarted, hv⟩ := hstarted
  refine ⟨v', .job owner index (some t.describe), hv, ?_⟩
  have hok : (Effect.ofExcept (.ok t.describe) : Action String) e v = (.ok t.describe, v) := rfl
  rw [executeFrom, hdescribe, Effect.bind_of_ok hok, Effect.bind_of_ok hstarted]

/-- What a sequence runs after a task is a run of leaves after those of the task. -/
theorem Matches.bind {c : Cause} {more : Action Unit}
    (h : Matches described e w xs (t.execute e v))
    (hmore : ∀ w' v', World.Alike v' w' → Matches described e w' ys (more e v')) :
    Matches described e w (xs ++ ys)
      (((execute t).because Failure.isException c >>= fun _ => more) e v) := by
  obtain ⟨executed, ok, w', hends, hok, hw⟩ := h
  rcases hrun : t.execute e v with ⟨f | u, v'⟩
  · -- the first part fails, and with it the sequence
    rw [hrun] at hok hw
    obtain rfl : ok = false := by simpa using hok
    obtain ⟨g, hfail⟩ := Effect.because_of_error hrun
    rw [Effect.bind_of_error hfail]
    exact ⟨executed, false, w', hends.append_of_failed, by simp, hw⟩
  · rw [hrun] at hok hw
    obtain rfl : ok = true := hok.1 rfl
    rw [Effect.bind_of_ok (Effect.because_of_ok hrun)]
    obtain ⟨executed', ok', w'', hends', hok', hw'⟩ := hmore w' v' hw
    exact ⟨_, ok', w'', hends.append hends', hok', hw'⟩

mutual

/-- What is run where a task is run, in a world like another, are its leaves in the other world. -/
theorem matches_execute (e : Setting) : ∀ t : Task, t.hasWritableDescription = true →
    ∀ w v, World.Alike v w → Matches true e w (t.leaves (Platform.ofHost? e.platform)) (t.execute e v)
  | job name tasks => by
    intro _ w v h
    rw [leaves, execute]
    exact matches_executeFrom e name 0 tasks w v h
  | onPlatform platform tasks => by
    intro _ w v h
    rw [leaves, execute, Effect.bind_of_ok (Effect.setting_apply e v)]
    by_cases hhere : Platform.ofHost? e.platform = some platform
    · rw [if_pos hhere, if_pos hhere]
      exact matches_executeFrom e _ 0 tasks w v h
    · rw [if_neg hhere, if_neg hhere]
      obtain ⟨v', hdebug, hv⟩ := debug_cases ("skipping on-" ++ platform.name ++ " branch") e v
      rw [hdebug]
      exact ⟨[], true, w, .nil, by simp, hv.trans h⟩
  | parallel _ _ | print _ | run _ | ssh _ _ | transfer _ | probe _ _ => by
    intro hdescribed w v h
    rw [leaves_of_not_isSequence rfl]
    exact matches_leaf (fun _ => hdescribed) h

theorem matches_executeFrom (e : Setting) (owner : String) (index : Nat) : ∀ ts : List Task,
    ∀ w v, World.Alike v w →
      Matches true e w (leavesOf (Platform.ofHost? e.platform) ts) (executeFrom owner index ts e v)
  | [] => by
    intro w v h
    rw [executeFrom]
    exact ⟨[], true, w, .nil, by simp, h⟩
  | t :: ts => by
    intro w v h
    rw [leavesOf]
    cases hdescribed : t.hasWritableDescription with
    | false =>
      rw [leaves_of_not_isSequence (isSequence_of_unwritable hdescribed),
        executeFrom_of_unwritable hdescribed]
      exact ⟨[], false, w, .undescribed rfl hdescribed, by simp, h⟩
    | true =>
      obtain ⟨v', c, hv, hrun⟩ := executeFrom_of_writable hdescribed ts e v
      rw [hrun]
      exact (matches_execute e t hdescribed w v' (hv.trans h)).bind
        (matches_executeFrom e owner (index + 1) ts)

end

/-- A task runs its leaves on the platform of the setting, in order and each once, up to the first
    that fails, and fails if and only if it comes to such a leaf, or to one of a sequence that cannot
    be described. With the tasks of a nested job in place of the job, the same leaves are run, with
    the same outcome. The worlds that are left behind are those that the leaves alone would leave,
    but for the error output. -/
theorem execute_leaves (e : Setting) (w : World) (t : Task) :
    ∃ executed ok w',
      Ends t.isSequence e w (t.leaves (Platform.ofHost? e.platform)) executed ok w' ∧
      ((t.execute e w).1 = .ok () ↔ ok = true) ∧ (t.execute e w).2.Alike w' ∧
      ∀ t', t.Inlines t' →
        Ends t'.isSequence e w (t'.leaves (Platform.ofHost? e.platform)) executed ok w' ∧
        ((t'.execute e w).1 = .ok () ↔ ok = true) ∧ (t'.execute e w).2.Alike w' := by
  have hmatches : ∀ u : Task, Matches u.isSequence e w (u.leaves (Platform.ofHost? e.platform))
      (u.execute e w) := by
    intro u
    cases hu : u.isSequence with
    | false =>
      rw [leaves_of_not_isSequence hu]
      exact matches_leaf (fun h => by cases h) (.refl w)
    | true => exact matches_execute e u (hasWritableDescription_of_isSequence hu) w w (.refl w)
  obtain ⟨executed, ok, w', hends, hok, hw⟩ := hmatches t
  refine ⟨executed, ok, w', hends, hok, hw, fun t' h => ?_⟩
  obtain ⟨executed', ok', w'', hends', hok', hw'⟩ := hmatches t'
  have hsame : Ends t.isSequence e w (t.leaves (Platform.ofHost? e.platform)) executed' ok' w'' := by
    rw [h.isSequence.1, ← h.isSequence.2, ← h.leaves_eq]
    exact hends'
  obtain ⟨rfl, rfl, rfl⟩ := hends.unique hsame
  exact ⟨hends', hok', hw'⟩

theorem isWritable_eq_false {n : Nat} (h : tenPow Numeral.digitLimit ≤ n) :
    Numeral.isWritable n = false := by
  rw [Numeral.isWritable, Int.natAbs_natCast]
  exact decide_eq_false (Nat.not_lt.2 h)

/-- A command with an exit code of more digits than an integer is written with. -/
def unwritableSample : Task :=
  run ⟨.bash, ["true"], none, some [0, tenPow Numeral.digitLimit]⟩

/-- A leaf that would succeed, but that a job does not come to run: it cannot be described. -/
theorem execute_leaves_unwritable :
    (job "a" [unwritableSample]).leaves (Platform.ofHost? Setting.calm.platform)
        = [unwritableSample] ∧
      (unwritableSample.execute .calm (.initial (.dir []) [])).1 = .ok () ∧
      (unwritableSample.execute .calm (.initial (.dir []) [])).2.events ≠ [] ∧
      ((job "a" [unwritableSample]).execute .calm (.initial (.dir []) [])).1
        = .error .unwritable ∧
      ((job "a" [unwritableSample]).execute .calm (.initial (.dir []) [])).2.events = [] := by
  have hunwritable : unwritableSample.hasWritableDescription = false := by
    have hcodes : unwritableSample.hasWritableDescription = (Numeral.isWritable 0 &&
        (Numeral.isWritable (tenPow Numeral.digitLimit) && true)) := rfl
    rw [hcodes, isWritable_eq_false (Nat.le_refl _), Bool.false_and, Bool.and_false]
  have hjob : (job "a" [unwritableSample]).execute .calm (.initial (.dir []) [])
      = (.error .unwritable, .initial (.dir []) []) := by
    rw [execute]
    exact executeFrom_of_unwritable hunwritable _ _ _
  obtain ⟨hresult, hworld⟩ := LocalCommand.execute_eq
    ⟨.bash, ["true"], none, some [0, tenPow Numeral.digitLimit]⟩ .calm (.initial (.dir []) [])
  have hended : (unwritableSample.execute .calm (.initial (.dir []) [])).1 = .ok () :=
    hresult.trans (LocalCommand.outcome_eq_ok.2 ⟨rfl, ⟨"", Streams.errorText_coe ""⟩, by
      rw [LocalCommand.isAllowed_iff]
      exact List.mem_cons_self ..⟩)
  have hevents : (unwritableSample.execute .calm (.initial (.dir []) [])).2.events
      = [.spawn ["bash", "-c", "true"] none] := hworld.events
  rw [hjob, hended, hevents]
  exact ⟨rfl, rfl, by simp, rfl, rfl⟩

/-- A job with a nested job, of which the second task fails. -/
def nestedSample : Task :=
  job "a" ([] ++ job "b" [probe "x" none, probe "y" (some .unwritable)] :: [probe "z" none])

/-- The same tasks without the nested job. -/
def inlinedSample : Task :=
  job "a" ([] ++ [probe "x" none, probe "y" (some .unwritable)] ++ [probe "z" none])

theorem execute_leaves_sample :
    nestedSample.Inlines inlinedSample ∧
      ∃ w', Ends true .calm (.initial (.dir []) [])
          [probe "x" none, probe "y" (some .unwritable), probe "z" none]
          [probe "x" none, probe "y" (some .unwritable)] false w' ∧
        (nestedSample.execute .calm (.initial (.dir []) [])).1 ≠ .ok () ∧
        (nestedSample.execute .calm (.initial (.dir []) [])).2.Alike w' ∧
        (inlinedSample.execute .calm (.initial (.dir []) [])).1 ≠ .ok () ∧
        (inlinedSample.execute .calm (.initial (.dir []) [])).2.Alike w' := by
  have hinlines : nestedSample.Inlines inlinedSample := .job
  obtain ⟨executed, ok, w', hends, hok, hw, hinlined⟩ :=
    execute_leaves .calm (.initial (.dir []) []) nestedSample
  obtain ⟨-, hok', hw'⟩ := hinlined _ hinlines
  have hstops : Ends true .calm (.initial (.dir []) [])
      [probe "x" none, probe "y" (some .unwritable), probe "z" none]
      [probe "x" none, probe "y" (some .unwritable)] false
      ((World.initial (.dir []) []).after [.ran "x", .ran "y"]) :=
    .success (fun _ => rfl) rfl (.failure (fun _ => rfl) rfl)
  obtain ⟨rfl, rfl, rfl⟩ := hends.unique hstops
  refine ⟨hinlines, _, hstops, ?_, hw, ?_, hw'⟩
  · intro h
    cases hok.1 h
  · intro h
    cases hok'.1 h

end Runbook.Task
