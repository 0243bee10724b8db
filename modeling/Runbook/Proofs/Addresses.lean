import Runbook.Proofs.Groups

set_option autoImplicit false

/-! # Where a failure comes from

Each task that holds others puts an error of its own in front of a failure of one of them. Read from
the outermost inwards these errors are an address: each names the task that holds, and the place of
the task that it holds and from which the failure came. The address ends at a leaf, and what is
behind it is what this leaf failed with. An interrupt from the keyboard is not reported by jobs and
platform branches, which let it pass, but by groups. -/

namespace Runbook

/-- What a failure has become when it has passed the tasks that report it, the outermost first. A
    sequence does not report an interrupt. -/
def Failure.reported (g : Failure) : List Cause → Failure
  | [] => g
  | c@(.job _ _ _) :: causes =>
    if (g.reported causes).isException then (g.reported causes).because c else g.reported causes
  | c :: causes => (g.reported causes).because c

namespace Task

/-- The tasks that a task runs one after the other on a platform, and the name that it runs them
    under. -/
def sequence? (here : Option Platform) : Task → Option (String × List Task)
  | job name tasks => some (name, tasks)
  | onPlatform platform tasks =>
    if here = some platform then some ("on-" ++ platform.name, tasks) else none
  | _ => none

/-- A run of a task comes to run another one, in some world. Each task on the way there is named by
    the error with which it reports a failure of the next one. -/
inductive Reaches (e : Setting) : World → Task → List Cause → World → Task → Prop
  | self {w : World} {t : Task} : Reaches e w t [] w t
  | inSequence {w w₀ w₁ v : World} {t u leaf : Task} {owner : String} {before after : List Task}
      {causes : List Cause}
      (hsequence : t.sequence? (Platform.ofHost? e.platform) = some (owner, before ++ u :: after))
      (hbefore : executeFrom owner 0 before e w = (.ok (), w₀))
      (hstarted : Console.taskStarted owner before.length u.describe e w₀ = (.ok (), w₁))
      (hrest : Reaches e w₁ u causes v leaf) :
      Reaches e w t (.job owner before.length (some u.describe) :: causes) v leaf
  | inGroup {w w₁ v : World} {u leaf : Task} {before after : List Task} {threads : Int}
      {outcomes : List (Except Failure Unit)} {pending : List Int} {causes : List Cause}
      (hbefore : RunsEach e (w.after [.pool (max 1 threads)]) before outcomes w₁)
      (hrest : Reaches e w₁ u causes v leaf) :
      Reaches e w (.parallel (before ++ u :: after) threads)
        (.parallelTask before.length (before ++ u :: after).length pending :: causes) v leaf

/-- A run of a task stops before one of the tasks that it runs one after the other, because this one
    cannot be described. -/
def StopsAtUndescribed (e : Setting) (w : World) (t : Task) (w' : World) : Prop :=
  ∃ owner before u after,
    t.sequence? (Platform.ofHost? e.platform) = some (owner, before ++ u :: after) ∧
    executeFrom owner 0 before e w = (.ok (), w') ∧ u.hasWritableDescription = false

/-- A failure of a run comes from a task that is reached, and has been reported on the way out. This
    task holds no others, unless the run stops before a task that cannot be described. -/
def ComesFromLeaf (e : Setting) (w : World) (t : Task) (f : Failure) : Prop :=
  ∃ causes v u g v', Reaches e w t causes v u ∧ u.execute e v = (.error g, v') ∧
    f = g.reported causes ∧
    (u.isInner = false ∨ (u.StopsAtUndescribed e v v' ∧ g = .unwritable))

variable {e : Setting} {w w' v : World} {t u : Task} {ts : List Task} {f g : Failure}
  {causes : List Cause} {owner : String}

/-! ## Reports -/

/-- What is no interrupt is reported by every task on the way. -/
theorem Reaches.links_reported (h : Reaches e w t causes v u) (hg : g.isException = true) :
    (g.reported causes).isException = true ∧ (g.reported causes).links = causes ++ g.links := by
  induction h with
  | self => exact ⟨hg, rfl⟩
  | inSequence _ _ _ _ ih =>
    rw [Failure.reported, if_pos ih.1]
    exact ⟨rfl, congrArg _ ih.2⟩
  | inGroup _ _ ih =>
    rw [Failure.reported]
    · exact ⟨rfl, congrArg _ ih.2⟩
    · simp

/-! ## One step on the way -/

theorem execute_of_sequence (h : t.sequence? (Platform.ofHost? e.platform) = some (owner, ts)) :
    t.execute e w = executeFrom owner 0 ts e w := by
  cases t with
  | job name tasks =>
    cases h
    rw [execute]
  | onPlatform platform tasks =>
    rw [sequence?] at h
    rw [execute, Effect.bind_of_ok (Effect.setting_apply e w)]
    split at h
    · next hhere =>
      cases h
      rw [if_pos hhere]
    · cases h
  | _ => cases h

/-- A sequence announces its first task and runs it. It goes on if the task succeeds, and else reports
    the failure. -/
theorem executeFrom_first (index : Nat) (w : World) (h : t.hasWritableDescription = true) :
    ∃ w₁, Console.taskStarted owner index t.describe e w = (.ok (), w₁) ∧
      ((∃ w₂, ∀ rest,
          executeFrom owner index (t :: rest) e w = executeFrom owner (index + 1) rest e w₂) ∨
        ∃ g w₂, t.execute e w₁ = (.error g, w₂) ∧ ∀ rest,
          executeFrom owner index (t :: rest) e w = (.error (if g.isException then
            g.because (.job owner index (some t.describe)) else g), w₂)) := by
  obtain ⟨w₁, hstarted, -⟩ : ∃ w₁,
      Console.taskStarted owner index t.describe e w = (.ok (), w₁) ∧ w₁.Alike w := debug_cases _ _ _
  have hdescribe : Effect.ofExcept t.describe? e w = (.ok t.describe, w) := by
    rw [describe?, h]
    rfl
  refine ⟨w₁, hstarted, ?_⟩
  rcases hfirst : t.execute e w₁ with ⟨g | r, w₂⟩
  · refine .inr ⟨g, w₂, rfl, fun rest => ?_⟩
    rw [executeFrom, Effect.bind_of_ok hdescribe, Effect.bind_of_ok hstarted]
    refine Effect.bind_of_error ?_
    rw [Effect.because, Effect.mapFailure, hfirst]
  · refine .inl ⟨w₂, fun rest => ?_⟩
    rw [executeFrom, Effect.bind_of_ok hdescribe, Effect.bind_of_ok hstarted,
      Effect.bind_of_ok (Effect.because_of_ok hfirst)]

/-- A sequence that fails has run some of its tasks, and then either cannot describe the next one or
    reports the failure of it. -/
theorem executeFrom_error : ∀ (ts : List Task) (index : Nat) (w : World),
    executeFrom owner index ts e w = (.error f, w') →
      ∃ before u after w₀, ts = before ++ u :: after ∧
        executeFrom owner index before e w = (.ok (), w₀) ∧
        ((u.hasWritableDescription = false ∧ f = .unwritable ∧ w' = w₀) ∨
          ∃ w₁ g, Console.taskStarted owner ↑(index + before.length) u.describe e w₀ = (.ok (), w₁) ∧
            u.execute e w₁ = (.error g, w') ∧
            f = if g.isException then
                g.because (.job owner ↑(index + before.length) (some u.describe)) else g)
  | [], _, _, h => by cases h
  | t :: ts, index, w, h => by
    cases hdescribed : t.hasWritableDescription with
    | false =>
      rw [executeFrom_of_unwritable hdescribed] at h
      cases h
      exact ⟨[], t, ts, _, rfl, rfl, .inl ⟨hdescribed, rfl, rfl⟩⟩
    | true =>
      obtain ⟨w₁, hstarted, ⟨w₂, hnext⟩ | ⟨g, w₂, hfirst, hfail⟩⟩ :=
        executeFrom_first index w hdescribed
      · -- The first task does the same with only those before the failing one behind it.
        obtain ⟨before, u, after, w₀, rfl, hbefore, hstop⟩ :=
          executeFrom_error ts (index + 1) w₂ (hnext ts ▸ h)
        refine ⟨t :: before, u, after, w₀, rfl, (hnext before).trans hbefore, ?_⟩
        rw [List.length_cons, Nat.add_comm before.length, ← Nat.add_assoc]
        exact hstop
      · rw [hfail] at h
        cases h
        exact ⟨[], t, ts, w, rfl, rfl, .inr ⟨w₁, g, hstarted, hfirst, rfl⟩⟩

/-- The outcome at an index is the one of the task there, which has been run after those before it. -/
theorem RunsEach.split {outcomes : List (Except Failure Unit)} (h : RunsEach e w ts outcomes w')
    {i : Nat} (hi : outcomes[i]? = some (.error g)) :
    ∃ before u after outcomes₀ w₁ w₂, ts = before ++ u :: after ∧ before.length = i ∧
      RunsEach e w before outcomes₀ w₁ ∧ u.execute e w₁ = (.error g, w₂) := by
  induction h generalizing i with
  | nil => cases hi
  | @cons w w₁ w₂ t ts r rs hfirst hrest ih =>
    cases i with
    | zero =>
      cases hi
      exact ⟨[], t, ts, [], w, w₁, rfl, rfl, .nil, hfirst⟩
    | succ i =>
      obtain ⟨before, u, after, outcomes₀, v, v', rfl, rfl, hbefore, hu⟩ := ih hi
      exact ⟨t :: before, u, after, r :: outcomes₀, v, v', rfl, rfl, .cons hfirst hbefore, hu⟩

/-! ## The whole way -/

/-- A failure of a sequence comes from a leaf if the failures of its tasks do. -/
theorem comesFromLeaf_sequence
    (hsequence : t.sequence? (Platform.ofHost? e.platform) = some (owner, ts))
    (hall : ∀ u ∈ ts, ∀ w f w', u.execute e w = (.error f, w') → u.ComesFromLeaf e w f)
    (h : t.execute e w = (.error f, w')) : t.ComesFromLeaf e w f := by
  have hfrom := execute_of_sequence hsequence ▸ h
  obtain ⟨before, u, after, w₀, rfl, hbefore, ⟨hdescribed, rfl, rfl⟩ | ⟨w₁, g, hstarted, hu, rfl⟩⟩ :=
    executeFrom_error ts 0 w hfrom
  · exact ⟨[], w, t, .unwritable, w', .self, h, rfl,
      .inr ⟨⟨owner, before, u, after, hsequence, hbefore, hdescribed⟩, rfl⟩⟩
  · rw [Nat.zero_add] at hstarted ⊢
    obtain ⟨causes, v, leaf, g', v', hreach, hleaf, rfl, hlast⟩ := hall u (by simp) _ _ _ hu
    exact ⟨_, v, leaf, g', v', .inSequence hsequence hbefore hstarted hreach, hleaf, rfl, hlast⟩

/-- A failure of a group comes from a leaf if the failures of its tasks do. -/
theorem comesFromLeaf_group {threads : Int} (hpool : e.PoolsWork)
    (hall : ∀ u ∈ ts, ∀ w f w', u.execute e w = (.error f, w') → u.ComesFromLeaf e w f)
    (h : (parallel ts threads).execute e w = (.error f, w')) :
    (parallel ts threads).ComesFromLeaf e w f := by
  obtain ⟨outcomes, w₁, hruns, -, -, hfailed⟩ := parallel_outcomes ts threads w hpool
  obtain ⟨order, i, rest, g, -, -, hi, rfl⟩ := hfailed f (congrArg Prod.fst h)
  obtain ⟨before, u, after, outcomes₀, v, w₂, rfl, rfl, hbefore, hu⟩ := hruns.split hi
  obtain ⟨causes, v, leaf, g, v', hreach, hleaf, rfl, hlast⟩ := hall u (by simp) _ _ _ hu
  refine ⟨.parallelTask _ _ (pendingAmong rest) :: causes, v, leaf, g, v', .inGroup hbefore hreach,
    hleaf, ?_, hlast⟩
  rw [Failure.reported]
  simp

mutual

/-- Every failure comes from a leaf. -/
theorem comesFromLeaf (hpool : e.PoolsWork) : ∀ (t : Task) (w : World) (f : Failure) (w' : World),
    t.execute e w = (.error f, w') → t.ComesFromLeaf e w f
  | job name tasks, w, f, w', h => comesFromLeaf_sequence rfl (comesFromLeaf_of_mem hpool tasks) h
  | onPlatform platform tasks, w, f, w', h => by
    by_cases hhere : Platform.ofHost? e.platform = some platform
    · exact comesFromLeaf_sequence (if_pos hhere) (comesFromLeaf_of_mem hpool tasks) h
    · -- On another platform the branch is passed over, and does not fail.
      rw [execute, Effect.bind_of_ok (Effect.setting_apply e w), if_neg hhere] at h
      obtain ⟨v, hdebug, -⟩ := debug_cases ("skipping on-" ++ platform.name ++ " branch") e w
      rw [hdebug] at h
      cases h
  | parallel tasks threads, w, f, w', h =>
    comesFromLeaf_group hpool (comesFromLeaf_of_mem hpool tasks) h
  | print _, w, f, w', h | run _, w, f, w', h | ssh _ _, w, f, w', h | transfer _, w, f, w', h
  | probe _ _, w, f, w', h => ⟨[], w, _, f, w', .self, h, rfl, .inl rfl⟩

theorem comesFromLeaf_of_mem (hpool : e.PoolsWork) : ∀ (ts : List Task), ∀ u ∈ ts,
    ∀ (w : World) (f : Failure) (w' : World), u.execute e w = (.error f, w') → u.ComesFromLeaf e w f
  | [] => by simp
  | t :: ts => List.forall_mem_cons.2 ⟨comesFromLeaf hpool t, comesFromLeaf_of_mem hpool ts⟩

end

/-- A run that fails comes to a leaf that fails, and the errors of the failure are an address of this
    leaf, one error for each task that holds another on the way to it, followed by the errors of the
    leaf. What is reported of an interrupt is the same without the errors of sequences up to the
    innermost group. -/
theorem execute_address (hpool : e.PoolsWork) (h : t.execute e w = (.error f, w')) :
    ∃ causes v u g v', Reaches e w t causes v u ∧ u.execute e v = (.error g, v') ∧
      f = g.reported causes ∧ (g.isException = true → f.links = causes ++ g.links) ∧
      (u.isInner = false ∨ (u.StopsAtUndescribed e v v' ∧ g = .unwritable)) := by
  obtain ⟨causes, v, u, g, v', hreach, hu, rfl, hlast⟩ := comesFromLeaf hpool t w f w' h
  exact ⟨causes, v, u, g, v', hreach, hu, rfl, fun hg => (hreach.links_reported hg).2, hlast⟩

/-- A group with a platform branch, of which a nested job fails at its second task. -/
def addressSample : Task :=
  parallel [probe "x" none, onPlatform .linux [probe "y" none,
    job "b" [probe "z" none, probe "u" (some .unwritable)]]] 2

theorem execute_address_sample :
    Setting.calm.PoolsWork ∧ ∃ f w',
      addressSample.execute .calm (.initial (.dir []) []) = (.error f, w') ∧
      f.links = [.parallelTask 1 2 [], .job "on-linux" 1 (some "Job 'b'"),
        .job "b" 1 (some "Fake u")] ++ Failure.unwritable.links ∧
      ∃ causes v u g v', Reaches .calm (.initial (.dir []) []) addressSample causes v u ∧
        u.execute .calm v = (.error g, v') ∧ f = g.reported causes ∧
        (g.isException = true → f.links = causes ++ g.links) ∧
        (u.isInner = false ∨ (u.StopsAtUndescribed .calm v v' ∧ g = .unwritable)) := by
  have hpool : Setting.calm.PoolsWork := ⟨fun _ _ => rfl, fun _ => rfl⟩
  have hpending : pendingAmong [] = [] := by simp [pendingAmong]
  have hfailed : (addressSample.execute .calm (.initial (.dir []) [])).1
      = .error (Failure.unwritable.reported [.parallelTask 1 2 [], .job "on-linux" 1 (some "Job 'b'"),
        .job "b" 1 (some "Fake u")]) := by
    rw [← hpending]
    rfl
  exact ⟨hpool, _, _, Prod.ext hfailed rfl, rfl, execute_address hpool (Prod.ext hfailed rfl)⟩

end Task
end Runbook
