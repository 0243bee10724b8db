import Mathlib.Data.List.Nodup
import Mathlib.Data.List.Perm.Subperm
import Runbook.Error.Graph
import Runbook.Host.Console
import Runbook.Proofs.Sequences

set_option autoImplicit false

/-! # Chains of errors

Errors that refer to each other may go round in circles. The walk from one of them to those behind it
ends all the same, for it stops where an error would come up again, and there is only one such walk.
A report of it has an entry for each of its errors, up to one whose message cannot be written. -/

namespace Runbook

namespace ErrorGraph

variable {g : ErrorGraph} {seen walk other : List Nat} {i j start : Nat}

/-! ## What stands behind an error -/

/-- An error stands behind another one: as its cause, or as its context if there is no cause and no
    mark that the context is not to be shown. -/
def Follows (g : ErrorGraph) (i j : Nat) : Prop :=
  ∃ e, g[i]? = some e ∧
    (e.cause = some j ∨ e.cause = none ∧ e.suppressed = false ∧ e.context = some j)

theorem next?_eq_some_iff : g.next? i = some j ↔ g.Follows i j := by
  unfold next? Follows
  cases g[i]? with
  | none => simp
  | some e =>
    cases hcause : e.cause with
    | some k => simp [hcause]
    | none => cases hsuppressed : e.suppressed <;> simp [hcause, hsuppressed]

theorem Follows.eq {k : Nat} (hj : g.Follows i j) (hk : g.Follows i k) : j = k := by
  rw [← next?_eq_some_iff] at hj hk
  exact Option.some.inj (hj.symm.trans hk)

theorem not_follows_of_next? (h : g.next? i = none) (j : Nat) : ¬ g.Follows i j := by
  intro hj
  rw [← next?_eq_some_iff, h] at hj
  cases hj

theorem Follows.lt_length (h : g.Follows i j) : i < g.length := by
  obtain ⟨e, he, -⟩ := h
  exact (List.getElem?_eq_some_iff.1 he).1

/-- Every error that is referred to is there. -/
def IsClosed (g : ErrorGraph) : Prop := ∀ i j, g.Follows i j → j < g.length

/-! ## The walk -/

/-- The errors that come up from an error on, when some have been seen: the walk stops at one of
    those, and where no error stands behind. -/
inductive Walks (g : ErrorGraph) : List Nat → Nat → List Nat → Prop
  | again {seen : List Nat} {i : Nat} (hseen : i ∈ seen) : Walks g seen i []
  | last {seen : List Nat} {i : Nat} (hseen : i ∉ seen) (hnext : ∀ j, ¬ g.Follows i j) :
    Walks g seen i [i]
  | step {seen walk : List Nat} {i j : Nat} (hseen : i ∉ seen) (hnext : g.Follows i j)
    (hrest : Walks g (i :: seen) j walk) : Walks g seen i (i :: walk)

theorem length_le_of_seen (hseen : seen.Nodup) (hlt : ∀ k ∈ seen, k < g.length) :
    seen.length ≤ g.length := by
  have hsub : seen ⊆ List.range g.length := fun k hk => List.mem_range.2 (hlt k hk)
  simpa using (hseen.subperm hsub).length_le

/-- Each step sees an error more, and there are only so many that have another behind them: so the walk
    ends before the steps do. -/
theorem walks_chainFrom {fuel : Nat} (hseen : seen.Nodup) (hlt : ∀ k ∈ seen, k < g.length)
    (hfuel : g.length < seen.length + fuel) : g.Walks seen i (g.chainFrom fuel seen i) := by
  induction fuel generalizing seen i with
  | zero =>
    have hle := length_le_of_seen hseen hlt
    omega
  | succ fuel ih =>
    rw [chainFrom]
    by_cases hi : i ∈ seen
    · simp only [List.contains_iff_mem, hi, if_true]
      exact .again hi
    · simp only [List.contains_iff_mem, hi, if_false]
      cases hnext : g.next? i with
      | none => exact .last hi (not_follows_of_next? hnext)
      | some j =>
        have hfollows : g.Follows i j := next?_eq_some_iff.1 hnext
        refine .step hi hfollows (ih (List.nodup_cons.2 ⟨hi, hseen⟩) ?_ ?_)
        · intro k hk
          rcases List.mem_cons.1 hk with rfl | hk
          · exact hfollows.lt_length
          · exact hlt k hk
        · simp only [List.length_cons]
          omega

theorem walks_chain (g : ErrorGraph) (start : Nat) : g.Walks [] start (g.chain start) :=
  walks_chainFrom List.nodup_nil (by simp) (by simp)

namespace Walks

theorem eq (h : g.Walks seen i walk) (hother : g.Walks seen i other) : walk = other := by
  induction h generalizing other with
  | again hseen =>
    cases hother with
    | again => rfl
    | last hnot => exact absurd hseen hnot
    | step hnot => exact absurd hseen hnot
  | last hseen hnext =>
    cases hother with
    | again hin => exact absurd hin hseen
    | last => rfl
    | step _ hfollows => exact absurd hfollows (hnext _)
  | step hseen hnext _ ih =>
    cases hother with
    | again hin => exact absurd hin hseen
    | last _ hnone => exact absurd hnext (hnone _)
    | step _ hfollows hrest =>
      obtain rfl := hnext.eq hfollows
      rw [ih hrest]

theorem head?_eq (h : g.Walks seen i walk) (hseen : i ∉ seen) : walk.head? = some i := by
  cases h with
  | again hin => exact absurd hin hseen
  | last => rfl
  | step => rfl

theorem not_mem_seen (h : g.Walks seen i walk) : ∀ k ∈ walk, k ∉ seen := by
  induction h with
  | again => simp
  | last hseen => simpa using hseen
  | step hseen _ _ ih =>
    intro k hk
    rcases List.mem_cons.1 hk with rfl | hk
    · exact hseen
    · exact fun hin => ih k hk (List.mem_cons_of_mem _ hin)

theorem nodup (h : g.Walks seen i walk) : walk.Nodup := by
  induction h with
  | again => exact List.nodup_nil
  | last => exact List.nodup_singleton _
  | step _ _ hrest ih =>
    exact List.nodup_cons.2 ⟨fun hin => hrest.not_mem_seen _ hin List.mem_cons_self, ih⟩

theorem isChain (h : g.Walks seen i walk) : walk.IsChain g.Follows := by
  induction h with
  | again => exact .nil
  | last => exact .singleton _
  | step hseen hnext hrest ih =>
    cases hrest with
    | again => exact .singleton _
    | last => exact .cons_cons hnext ih
    | step => exact .cons_cons hnext ih

/-- What stands behind the last error of a walk has come up already. -/
theorem mem_of_follows_last (h : g.Walks seen i walk) :
    ∀ last ∈ walk.getLast?, ∀ j, g.Follows last j → j ∈ seen ∨ j ∈ walk := by
  induction h with
  | again => simp
  | last hseen hnext =>
    intro last hlast j hj
    obtain rfl : _ = last := by simpa using hlast
    exact absurd hj (hnext j)
  | @step seen walk i j hseen hnext hrest ih =>
    intro last hlast k hk
    cases walk with
    | nil =>
      obtain rfl : i = last := by simpa using hlast
      obtain rfl := hnext.eq hk
      -- a walk is empty only where an error has been seen
      cases hrest with
      | again hin =>
        rcases List.mem_cons.1 hin with rfl | hin
        · exact .inr List.mem_cons_self
        · exact .inl hin
    | cons second rest =>
      rw [List.getLast?_cons_cons] at hlast
      rcases ih last hlast k hk with hin | hin
      · rcases List.mem_cons.1 hin with rfl | hin
        · exact .inr List.mem_cons_self
        · exact .inl hin
      · exact .inr (List.mem_cons_of_mem _ hin)

end Walks

/-! ## The chain of an error -/

/-- A walk through errors, from one to the next behind it and with none of them twice, that ends only
    where no error stands behind or one that has come up. -/
structure IsWalk (g : ErrorGraph) (start : Nat) (walk : List Nat) : Prop where
  head : walk.head? = some start
  nodup : walk.Nodup
  steps : walk.IsChain g.Follows
  last : ∀ i ∈ walk.getLast?, ∀ j, g.Follows i j → j ∈ walk

theorem isWalk_chain (g : ErrorGraph) (start : Nat) : g.IsWalk start (g.chain start) where
  head := (walks_chain g start).head?_eq List.not_mem_nil
  nodup := (walks_chain g start).nodup
  steps := (walks_chain g start).isChain
  last i hi j hj :=
    ((walks_chain g start).mem_of_follows_last i hi j hj).resolve_left List.not_mem_nil

theorem walks_of_isChain (hhead : walk.head? = some i) (hnodup : walk.Nodup)
    (hsteps : walk.IsChain g.Follows) (hseen : ∀ k ∈ walk, k ∉ seen)
    (hlast : ∀ last ∈ walk.getLast?, ∀ j, g.Follows last j → j ∈ seen ∨ j ∈ walk) :
    g.Walks seen i walk := by
  induction walk generalizing seen i with
  | nil => cases hhead
  | cons first rest ih =>
    obtain rfl : first = i := Option.some.inj hhead
    have hfirst : first ∉ seen := hseen first List.mem_cons_self
    cases rest with
    | nil =>
      by_cases hnext : ∃ j, g.Follows first j
      · obtain ⟨j, hj⟩ := hnext
        refine .step hfirst hj (.again ?_)
        have hmem := hlast first rfl j hj
        simp only [List.mem_singleton] at hmem
        exact List.mem_cons.2 hmem.symm
      · exact .last hfirst (not_exists.1 hnext)
    | cons second rest =>
      obtain ⟨hfollows, hrest⟩ := List.isChain_cons_cons.1 hsteps
      obtain ⟨hnot, hnodup⟩ := List.nodup_cons.1 hnodup
      refine .step hfirst hfollows (ih rfl hnodup hrest ?_ ?_)
      · intro k hk hin
        rcases List.mem_cons.1 hin with rfl | hin
        · exact hnot hk
        · exact hseen k (List.mem_cons_of_mem _ hk) hin
      · intro last hmem j hj
        rw [← List.getLast?_cons_cons] at hmem
        rcases hlast last hmem j hj with hin | hin
        · exact .inl (List.mem_cons_of_mem _ hin)
        · rcases List.mem_cons.1 hin with rfl | hin
          · exact .inl List.mem_cons_self
          · exact .inr hin

/-- There is one walk from an error on, and it is the chain of that error. -/
theorem isWalk_iff : g.IsWalk start walk ↔ walk = g.chain start := by
  constructor
  · intro h
    refine Walks.eq (walks_of_isChain h.head h.nodup h.steps (by simp) ?_) (walks_chain g start)
    exact fun last hmem j hj => .inr (h.last last hmem j hj)
  · rintro rfl
    exact isWalk_chain g start

theorem getLast?_chain (g : ErrorGraph) (start : Nat) :
    (g.chain start).getLast? = some (g.root start) := by
  have hhead := (isWalk_chain g start).head
  rw [root]
  cases hchain : g.chain start with
  | nil =>
    rw [hchain] at hhead
    cases hhead
  | cons first rest => rw [List.getLast?_cons, List.getLastD_cons, List.getLastD_eq_getLast?]

/-! ## The errors of a chain -/

/-- The error of a number is of a kind. -/
def HasKind (g : ErrorGraph) (k : Kind) (i : Nat) : Prop := ∃ c ∈ g.error? i, c.isA k = true

theorem hasKind_iff {k : Kind} :
    ((g.error? i).map (·.isA k)).getD false = true ↔ g.HasKind k i := by
  unfold HasKind
  cases g.error? i <;> simp

theorem find?_eq_some_iff {k : Kind} : g.find? start k = some i ↔
    g.HasKind k i ∧ ∃ before after, g.chain start = before ++ i :: after ∧
      ∀ j ∈ before, ¬ g.HasKind k j := by
  unfold find?
  rw [List.find?_eq_some_iff_append]
  simp only [hasKind_iff, Bool.not_eq_true', ← Bool.not_eq_true]

theorem find?_eq_none_iff {k : Kind} :
    g.find? start k = none ↔ ∀ i ∈ g.chain start, ¬ g.HasKind k i := by
  unfold find?
  rw [List.find?_eq_none]
  simp only [hasKind_iff]

theorem Walks.lt_length (h : g.Walks seen i walk) (hclosed : g.IsClosed) (hi : i < g.length) :
    ∀ k ∈ walk, k < g.length := by
  induction h with
  | again => simp
  | last => simpa using hi
  | step _ hnext _ ih =>
    intro k hk
    rcases List.mem_cons.1 hk with rfl | hk
    · exact hi
    · exact ih (hclosed _ _ hnext) k hk

/-- Each number of a chain is that of an error, if all that is referred to is there. -/
theorem map_some_links (hclosed : g.IsClosed) (hstart : start < g.length) :
    (g.links start).map some = (g.chain start).map g.error? := by
  have hlt := (walks_chain g start).lt_length hclosed hstart
  unfold links
  generalize g.chain start = numbers at hlt
  induction numbers with
  | nil => rfl
  | cons i numbers ih =>
    obtain ⟨hi, hrest⟩ := List.forall_mem_cons.1 hlt
    have herror : g.error? i = some g[i].error := by simp [error?, hi]
    rw [List.filterMap_cons_some herror, List.map_cons, List.map_cons, ih hrest, herror]

end ErrorGraph

/-! ## The report of a chain -/

namespace Console

variable {links : List Cause}

theorem errorLines_apply (texts : List String) (e : Setting) (w : World) :
    errorLines texts e w
      = (.ok (), { w with err := w.err ++ String.join (texts.map (· ++ "\n")) }) := by
  induction texts generalizing w with
  | nil => simp [errorLines]
  | cons text texts ih =>
    have hfirst : Action.writeErrorLine text e w
        = (.ok (), { w with err := w.err ++ (text ++ "\n") }) := rfl
    rw [errorLines, Effect.bind_of_ok hfirst, ih, List.map_cons, String.join_cons,
      String.append_assoc]

/-- The entries of a report, one for each error, the first at a given depth. -/
def entriesFrom (depth : Nat) (links : List Cause) : List (List String) :=
  links.mapIdx fun k c => c.report (depth + k)

theorem entriesFrom_cons (depth : Nat) (c : Cause) (links : List Cause) :
    entriesFrom depth (c :: links) = c.report depth :: entriesFrom (depth + 1) links := by
  simp [entriesFrom, List.mapIdx_cons, Nat.add_comm, Nat.add_left_comm]

/-- The errors of a report, up to the first whose message cannot be written. -/
def reported (links : List Cause) : List Cause := links.takeWhile (·.isWritable)

theorem errorsFrom_apply (depth : Nat) (links : List Cause) (e : Setting) (w : World) :
    errorsFrom depth links e w
      = (if links.all (·.isWritable) then .ok () else .error .unwritable,
        { w with err := w.err ++
            String.join ((entriesFrom depth (reported links)).flatten.map (· ++ "\n")) }) := by
  induction links generalizing depth w with
  | nil => simp [errorsFrom, reported, entriesFrom]
  | cons c links ih =>
    rw [errorsFrom, reported, List.takeWhile_cons]
    cases hwritable : c.isWritable with
    | false => simp [hwritable, entriesFrom, Effect.bind_apply]
    | true =>
      have hreport := errorLines_apply (c.report depth) e w
      simp only [hwritable, Bool.not_true, Bool.false_eq_true, if_false, if_true, List.all_cons,
        Bool.true_and, entriesFrom_cons, List.flatten_cons, List.map_append, String.join_append]
      rw [Effect.bind_of_ok hreport]
      exact (ih _ _).trans (by rw [String.append_assoc]; rfl)

/-- The lines of a report of some errors. The trace comes last in a debugging run, if the report comes
    to its end. -/
def reportLines (title : String) (debugging : Bool) (links : List Cause) : List String :=
  ("\nERROR: " ++ title) :: (entriesFrom 0 (reported links)).flatten
    ++ (if links.all (·.isWritable) && debugging then [traceLine] else [])

theorem errorChain_apply (title : String) (links : List Cause) (e : Setting) (w : World) :
    errorChain title links e w
      = (if links.all (·.isWritable) then .ok () else .error .unwritable,
        { w with err := w.err
            ++ String.join ((reportLines title e.debug links).map (· ++ "\n")) }) := by
  have htitle : Action.writeErrorLine ("\nERROR: " ++ title) e w
      = (.ok (), { w with err := w.err ++ ("\nERROR: " ++ title ++ "\n") }) := rfl
  have hfrom := errorsFrom_apply 0 links e { w with err := w.err ++ ("\nERROR: " ++ title ++ "\n") }
  rw [errorChain, Effect.bind_of_ok htitle]
  cases hall : links.all (·.isWritable) with
  | false =>
    rw [hall] at hfrom
    rw [Effect.bind_of_error hfrom]
    simp [reportLines, hall, String.append_assoc]
  | true =>
    rw [hall] at hfrom
    rw [Effect.bind_of_ok hfrom, whenDebugging, Effect.bind_of_ok (Effect.setting_apply e _)]
    cases e.debug with
    | false => simp [reportLines, hall, String.append_assoc]
    | true => simp [reportLines, hall, Action.writeErrorLine, String.append_assoc]

end Console

namespace ErrorGraph

variable {g : ErrorGraph} {start : Nat}

/-- Errors that refer to each other in any way have one walk from each of them on, which is its chain.
    The root is the last error of the chain, and the error that is found for a kind is the first of that
    kind. The report of the chain has one entry for each of its errors, if all their messages can be
    written. Otherwise it has the entries of those before the first whose message cannot, and fails. -/
theorem isWalk_iff_of_isClosed (hclosed : g.IsClosed) (hstart : start < g.length) :
    (∀ walk, g.IsWalk start walk ↔ walk = g.chain start) ∧
    (g.chain start).getLast? = some (g.root start) ∧
    (∀ k i, g.find? start k = some i ↔ g.HasKind k i ∧
      ∃ before after, g.chain start = before ++ i :: after ∧ ∀ j ∈ before, ¬ g.HasKind k j) ∧
    (∀ k, g.find? start k = none ↔ ∀ i ∈ g.chain start, ¬ g.HasKind k i) ∧
    (g.links start).map some = (g.chain start).map g.error? ∧
    ∀ title e w, Console.errorChain title (g.links start) e w
      = (if (g.links start).all (·.isWritable) then .ok () else .error .unwritable,
        { w with err := w.err
            ++ String.join ((Console.reportLines title e.debug (g.links start)).map (· ++ "\n")) }) :=
  ⟨fun _ => isWalk_iff, getLast?_chain g start, fun _ _ => find?_eq_some_iff,
    fun _ => find?_eq_none_iff, map_some_links hclosed hstart,
    fun title e w => Console.errorChain_apply title _ e w⟩

/-- Three errors that go round in a circle: by a cause, by a context, and by a context again. A fourth
    one would come next if the cause did not go before it. -/
def circleSample : ErrorGraph :=
  [⟨.job "a" 0 none, some 1, some 3, true⟩,
    ⟨.parallelTask 0 1 [], none, some 2, false⟩,
    ⟨.nullInPath, none, some 0, false⟩,
    ⟨.aborted, none, some 0, true⟩]

theorem isClosed_circleSample : circleSample.IsClosed := by
  intro i j h
  rw [← next?_eq_some_iff] at h
  have hlt := (next?_eq_some_iff.1 h).lt_length
  have hall : ∀ i < 4, ∀ j ∈ circleSample.next? i, j < 4 := by decide
  exact hall i hlt j h

theorem isWalk_circleSample : circleSample.IsWalk 0 [0, 1, 2] ∧
    circleSample.find? 0 .exception = some 0 := by
  obtain ⟨hwalk, -, hfind, -⟩ := isWalk_iff_of_isClosed isClosed_circleSample (by decide : 0 < 4)
  refine ⟨(hwalk _).2 (by decide), (hfind _ _).2 ⟨⟨_, rfl, by decide⟩, [], [1, 2], by decide, ?_⟩⟩
  simp

/-- A task of a job whose command is reported with an exit code of too many digits. -/
def unwritableChain : ErrorGraph :=
  [⟨.job "a" 0 none, some 1, none, true⟩,
    ⟨.shellCommand ["x"] 1 [tenPow Numeral.digitLimit] "", none, none, false⟩]

/-- The chain has two errors, and its report one entry. -/
theorem errorChain_unwritableChain :
    unwritableChain.chain 0 = [0, 1] ∧
    Console.errorChain "T" (unwritableChain.links 0) .calm (.initial .empty [])
      = (.error .unwritable, { World.initial .empty [] with
          err := "\nERROR: T\nJobError: Job 'a' failed at task 0\n" }) := by
  have hfirst : (Cause.job "a" 0 none).isWritable = true := rfl
  have hsecond : (Cause.shellCommand ["x"] 1 [tenPow Numeral.digitLimit] "").isWritable = false := by
    have hcodes : (Cause.shellCommand ["x"] 1 [tenPow Numeral.digitLimit] "").isWritable
        = (Numeral.isWritable 1 && (Numeral.isWritable (tenPow Numeral.digitLimit) && true)) := rfl
    rw [hcodes, Task.isWritable_eq_false (Nat.le_refl _), Bool.false_and, Bool.and_false]
  have hlinks : unwritableChain.links 0
      = [.job "a" 0 none, .shellCommand ["x"] 1 [tenPow Numeral.digitLimit] ""] := rfl
  refine ⟨by decide, ?_⟩
  rw [Console.errorChain_apply, hlinks]
  simp only [Console.reportLines, Console.reported, List.all_cons, List.takeWhile_cons, hfirst,
    hsecond, Bool.true_and, Bool.false_and, Bool.false_eq_true, if_true, if_false]
  rfl

end ErrorGraph
end Runbook
