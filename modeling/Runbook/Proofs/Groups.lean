import Mathlib.Data.List.Sort
import Runbook.Proofs.Sequences

set_option autoImplicit false

/-! # Groups in any order of delivery

The tasks of a group are all run, whatever becomes of the others, and then delivered in some order.
The first failure that is delivered is the failure of the group, so the order decides which one is
reported. It does not decide whether there is one: a group succeeds if and only if all its tasks do,
and so do all groups that are nested in it, in whatever order each of them delivers. -/

namespace Runbook

/-! ## The order of delivery -/

namespace Delivery

variable {n : Nat} {order : List Nat}

theorem nodup_eraseDups : ∀ l : List Nat, l.eraseDups.Nodup
  | [] => List.nodup_nil
  | a :: l => by
    rw [List.eraseDups_cons, List.nodup_cons]
    refine ⟨fun h => ?_, nodup_eraseDups _⟩
    have hmem := (List.mem_filter.1 (List.mem_eraseDups.1 h)).2
    simp at hmem
termination_by l => l.length
decreasing_by exact Nat.lt_succ_of_le (List.length_filter_le _ _)

theorem eraseDups_of_nodup {l : List Nat} (h : l.Nodup) : l.eraseDups = l := by
  induction h with
  | nil => rfl
  | cons hfirst _ ih =>
    rw [List.eraseDups_cons, List.filter_eq_self.2, ih]
    intro b hb
    simpa using (hfirst b hb).symm

/-- Whatever is to come first, every index below the count is delivered once. -/
theorem order_perm (d : Delivery) (n : Nat) : (d.order n).Perm (List.range n) := by
  cases d with
  | ascending => exact .refl _
  | descending => exact List.reverse_perm _
  | first indices =>
    rw [Delivery.order]
    generalize hnamed : List.eraseDups (List.filterMap (α := Int) (β := Nat) _ indices) = named
    have hrange : ∀ i ∈ named, i < n := by
      intro i hi
      rw [← hnamed, List.mem_eraseDups, List.mem_filterMap] at hi
      obtain ⟨k, -, hk⟩ := hi
      split at hk
      · next hcond =>
        simp only [Bool.and_eq_true, decide_eq_true_eq] at hcond
        obtain rfl := Option.some.inj hk
        omega
      · cases hk
    have hnodup : named.Nodup := hnamed ▸ nodup_eraseDups _
    -- Nothing stands in either list twice, so it is enough that they have the same members.
    refine (List.perm_ext_iff_of_nodup ?_ List.nodup_range).2 fun i => ?_
    · refine List.Nodup.append hnodup (List.nodup_range.filter _) fun i hi hrest => ?_
      simp [hi] at hrest
    · have := hrange i
      simp only [List.mem_append, List.mem_filter, List.mem_range, Bool.not_eq_true',
        List.contains_eq_mem, decide_eq_false_iff_not]
      tauto

/-- Every order of the indices is the order of some delivery. -/
theorem exists_order_iff : (∃ d : Delivery, d.order n = order) ↔ order.Perm (List.range n) := by
  refine ⟨fun ⟨d, hd⟩ => hd ▸ d.order_perm n, fun h => ⟨.first (order.map Int.ofNat), ?_⟩⟩
  have hnamed : (order.map Int.ofNat).filterMap (fun (i : Int) =>
      if 0 ≤ i && decide (i < (n : Int)) then some i.toNat else none) = order := by
    rw [List.filterMap_map, List.filterMap_congr (g := some), List.filterMap_some]
    intro i hi
    have : i < n := List.mem_range.1 (h.mem_iff.1 hi)
    simp [this]
  rw [Delivery.order, hnamed, eraseDups_of_nodup (h.nodup_iff.2 List.nodup_range)]
  have hrest : (List.range n).filter (!order.contains ·) = [] := by
    rw [List.filter_eq_nil_iff]
    intro i hi
    simpa using h.mem_iff.2 hi
  rw [hrest, List.append_nil]

end Delivery

/-! ## Going through the outcomes -/

variable {e e' : Setting} {w w' w₁ w₂ : World} {outcomes outcomes' : List (Except Failure Unit)}

/-- What is named as pending when some tasks are not delivered any more. -/
def pendingAmong (rest : List Nat) : List Int :=
  (rest.mergeSort (· ≤ ·)).map fun (n : Nat) => (n : Int)

/-- A success is passed over. -/
theorem deliver_of_ok {i : Nat} (h : outcomes[i]? = some (.ok ())) (rest : List Nat) (e : Setting)
    (w : World) :
    ∃ v, v.Alike w ∧ deliver outcomes (i :: rest) e w = deliver outcomes rest e v := by
  obtain ⟨v, hdebug, hv⟩ := debug_cases ("parallel task " ++ toString i ++ " done") e w
  refine ⟨v, hv, ?_⟩
  rw [deliver, h]
  exact Effect.bind_of_ok hdebug

/-- A failure is reported, with what has not been delivered. -/
theorem deliver_of_error {i : Nat} {f : Failure} (h : outcomes[i]? = some (.error f))
    (rest : List Nat) (e : Setting) (w : World) :
    ∃ v, v.Alike w ∧ deliver outcomes (i :: rest) e w
      = (.error (f.because (.parallelTask i outcomes.length (pendingAmong rest))), v) := by
  obtain ⟨v, hdebug, hv⟩ := debug_cases ("parallel task " ++ toString i
    ++ " failed, detaching " ++ toString rest.length ++ " remaining") e w
  refine ⟨v, hv, ?_⟩
  rw [deliver, h]
  exact Effect.bind_of_ok hdebug

/-- Either all outcomes are successes, or some come before the first failure and some after it. -/
theorem deliver_cases : ∀ (order : List Nat) (w : World), (∀ i ∈ order, i < outcomes.length) →
    ∃ w', w'.Alike w ∧
      (((∀ i ∈ order, outcomes[i]? = some (.ok ())) ∧ deliver outcomes order e w = (.ok (), w')) ∨
        ∃ before i after f, order = before ++ i :: after ∧
          (∀ j ∈ before, outcomes[j]? = some (.ok ())) ∧ outcomes[i]? = some (.error f) ∧
          deliver outcomes order e w
            = (.error (f.because (.parallelTask i outcomes.length (pendingAmong after))), w'))
  | [], w, _ => ⟨w, .refl w, .inl ⟨by simp, rfl⟩⟩
  | i :: rest, w, h => by
    have hi : i < outcomes.length := h i List.mem_cons_self
    rcases hout : outcomes[i] with f | u
    · have hfailed : outcomes[i]? = some (.error f) := List.getElem?_eq_some_iff.2 ⟨hi, hout⟩
      obtain ⟨w', hw, hrun⟩ := deliver_of_error hfailed rest e w
      exact ⟨w', hw, .inr ⟨[], i, rest, f, rfl, by simp, hfailed, hrun⟩⟩
    · have hdone : outcomes[i]? = some (.ok ()) := List.getElem?_eq_some_iff.2 ⟨hi, hout⟩
      obtain ⟨v, hv, hstep⟩ := deliver_of_ok hdone rest e w
      -- What is split is the rest. The success that was passed over goes in front of it.
      obtain ⟨w', hw, hrest⟩ := deliver_cases rest v fun j hj => h j (List.mem_cons_of_mem _ hj)
      rw [hstep]
      refine ⟨w', hw.trans hv, ?_⟩
      rcases hrest with ⟨hall, hrun⟩ | ⟨before, k, after, f, rfl, hbefore, hk, hrun⟩
      · exact .inl ⟨List.forall_mem_cons.2 ⟨hdone, hall⟩, hrun⟩
      · exact .inr ⟨i :: before, k, after, f, rfl, List.forall_mem_cons.2 ⟨hdone, hbefore⟩, hk,
          hrun⟩

theorem forall_outcome_iff {order : List Nat} (h : order.Perm (List.range outcomes.length)) :
    (∀ i ∈ order, outcomes[i]? = some (.ok ())) ↔ ∀ r ∈ outcomes, r = .ok () := by
  constructor
  · intro hall r hr
    obtain ⟨i, hi, rfl⟩ := List.mem_iff_getElem.1 hr
    have := hall i (h.mem_iff.2 (List.mem_range.2 hi))
    rw [List.getElem?_eq_getElem hi] at this
    exact Option.some.inj this
  · intro hall i hi
    have hi : i < outcomes.length := List.mem_range.1 (h.mem_iff.1 hi)
    rw [List.getElem?_eq_getElem hi, hall _ (List.getElem_mem hi)]

/-- Going through all outcomes succeeds if and only if they all are successes. -/
theorem deliver_ok_iff {order : List Nat} (h : order.Perm (List.range outcomes.length)) :
    (deliver outcomes order e w).1 = .ok () ↔ ∀ r ∈ outcomes, r = .ok () := by
  obtain ⟨w', -, ⟨hall, hrun⟩ | ⟨before, i, after, f, rfl, -, hf, hrun⟩⟩ :=
    deliver_cases (e := e) order w fun i hi => List.mem_range.1 (h.mem_iff.1 hi)
  · rw [hrun]
    exact ⟨fun _ => (forall_outcome_iff h).1 hall, fun _ => rfl⟩
  · rw [hrun]
    refine ⟨(nomatch ·), fun hall => ?_⟩
    have := (forall_outcome_iff h).2 hall i (by simp)
    rw [hf] at this
    cases this

theorem deliver_alike {order : List Nat} (h : order.Perm (List.range outcomes.length)) :
    (deliver outcomes order e w).2.Alike w := by
  obtain ⟨w', hw, ⟨-, hrun⟩ | ⟨_, _, _, _, -, -, -, hrun⟩⟩ :=
    deliver_cases (e := e) order w fun i hi => List.mem_range.1 (h.mem_iff.1 hi)
  · rw [hrun]
    exact hw
  · rw [hrun]
    exact hw

/-- What is pending after a failure is named in ascending order, and is what was not delivered. -/
theorem exists_pending {n i : Nat} {before after : List Nat}
    (h : (before ++ i :: after).Perm (List.range n)) :
    ∃ pending : List Nat, pendingAmong after = pending.map (fun (k : Nat) => (k : Int)) ∧
      pending.Pairwise (· < ·) ∧ (before ++ i :: pending).Perm (List.range n) := by
  have hperm : (after.mergeSort (· ≤ ·)).Perm after := List.mergeSort_perm _ _
  have hnodup : (before ++ i :: after).Nodup := h.nodup_iff.2 List.nodup_range
  refine ⟨after.mergeSort (· ≤ ·), rfl, ?_, ((hperm.cons i).append_left before).trans h⟩
  have hle : (after.mergeSort (· ≤ ·)).Pairwise (· ≤ ·) := List.pairwise_mergeSort' _ after
  have hne : (after.mergeSort (· ≤ ·)).Nodup :=
    hperm.nodup_iff.2 (List.nodup_cons.1 hnodup.of_append_right).2
  exact (hle.and hne).imp fun ⟨hab, hne⟩ => Nat.lt_of_le_of_ne hab hne

/-! ## Verdicts

Two runs in which groups deliver in different orders are compared by their verdicts: whether they
succeed, and with what, but not with which failure they fail. -/

/-- Both are successes, with values that are related, or both are failures. -/
def SameVerdict {α : Type} (R : α → α → Prop) : Except Failure α → Except Failure α → Prop
  | .ok a, .ok b => R a b
  | .error _, .error _ => True
  | _, _ => False

/-- Two actions end with the same verdict in settings that may deliver in different orders, and in
    worlds that are alike, and leave such worlds behind. -/
def Corresponds {α : Type} (R : α → α → Prop) (m m' : Action α) : Prop :=
  ∀ e e' w w', Setting.Alike True e e' → World.Alike w w' →
    SameVerdict R (m e w).1 (m' e' w').1 ∧ (m e w).2.Alike (m' e' w').2

theorem sameVerdict_ok_iff {r r' : Except Failure Unit} (h : SameVerdict Eq r r') :
    r = .ok () ↔ r' = .ok () := by
  rcases r with f | u <;> rcases r' with f' | u'
  · simp
  · exact h.elim
  · exact h.elim
  · simp

namespace Corresponds

variable {α β : Type} {R : α → α → Prop} {S : β → β → Prop} {m m' : Action α}

theorem of_steady (h : Steady True m) : Corresponds Eq m m := by
  intro e e' w w' he hw
  obtain ⟨hr, hw⟩ := h e e' w w' he hw
  refine ⟨?_, hw⟩
  rw [← hr]
  cases (m e w).1 with
  | error f => trivial
  | ok a => rfl

theorem bind {f f' : α → Action β} (hm : Corresponds R m m')
    (hf : ∀ a a', R a a' → Corresponds S (f a) (f' a')) : Corresponds S (m >>= f) (m' >>= f') := by
  intro e e' w w' he hw
  obtain ⟨hr, hw⟩ := hm e e' w w' he hw
  rw [Effect.bind_apply, Effect.bind_apply]
  generalize m e w = first at hr hw
  generalize m' e' w' = second at hr hw
  obtain ⟨r | a, v⟩ := first <;> obtain ⟨r' | a', v'⟩ := second
  · exact ⟨trivial, hw⟩
  · exact hr.elim
  · exact hr.elim
  · exact hf a a' hr e e' v v' he hw

theorem setting {f f' : Setting → Action β}
    (hf : ∀ e e', Setting.Alike True e e' → Corresponds S (f e) (f' e')) :
    Corresponds S (Effect.setting >>= f) (Effect.setting >>= f') :=
  fun e e' w w' he hw => hf e e' he e e' w w' he hw

theorem attempt (hm : Corresponds R m m') :
    Corresponds (SameVerdict R) m.attempt m'.attempt := hm

theorem because (hm : Corresponds R m m') (applies : Failure → Bool) (c : Cause) :
    Corresponds R (m.because applies c) (m'.because applies c) := by
  intro e e' w w' he hw
  obtain ⟨hr, hw⟩ := hm e e' w w' he hw
  unfold Effect.because Effect.mapFailure
  generalize m e w = first at hr hw
  generalize m' e' w' = second at hr hw
  obtain ⟨r | a, v⟩ := first <;> obtain ⟨r' | a', v'⟩ := second
  · exact ⟨trivial, hw⟩
  · exact hr.elim
  · exact hr.elim
  · exact ⟨hr, hw⟩

theorem andThenAlways {cleanUp : Action Unit} (hm : Corresponds R m m')
    (hclean : Steady True cleanUp) :
    Corresponds R (m.andThenAlways cleanUp) (m'.andThenAlways cleanUp) := by
  rw [Steady.andThenAlways_eq, Steady.andThenAlways_eq]
  refine hm.attempt.bind fun r r' hr => (of_steady hclean.attempt).bind ?_
  rintro c _ rfl e e' w w' - hw
  cases r <;> cases r' <;> cases c <;> first | exact ⟨hr, hw⟩ | exact ⟨trivial, hw⟩

end Corresponds

theorem forall_ok_iff (h : List.Forall₂ (SameVerdict Eq) outcomes outcomes') :
    (∀ r ∈ outcomes, r = .ok ()) ↔ ∀ r ∈ outcomes', r = .ok () := by
  induction h with
  | nil => simp
  | cons hfirst _ ih =>
    rw [List.forall_mem_cons, List.forall_mem_cons, ih, sameVerdict_ok_iff hfirst]

/-- Going through outcomes of the same verdicts, in any two orders, ends with the same verdict. -/
theorem corresponds_deliver {order order' : List Nat}
    (h : List.Forall₂ (SameVerdict Eq) outcomes outcomes')
    (horder : order.Perm (List.range outcomes.length))
    (horder' : order'.Perm (List.range outcomes'.length)) :
    Corresponds Eq (deliver outcomes order) (deliver outcomes' order') := by
  intro e e' w w' _ hw
  refine ⟨?_, (deliver_alike horder).trans (hw.trans (deliver_alike horder').symm)⟩
  have hiff : (deliver outcomes order e w).1 = .ok () ↔
      (deliver outcomes' order' e' w').1 = .ok () := by
    rw [deliver_ok_iff horder, deliver_ok_iff horder', forall_ok_iff h]
  cases hr : (deliver outcomes order e w).1 <;> cases hr' : (deliver outcomes' order' e' w').1
  · trivial
  · rw [hr, hr'] at hiff
    cases hiff.2 rfl
  · rw [hr, hr'] at hiff
    cases hiff.1 rfl
  · rfl

theorem corresponds_runGroup (threads : Int) {submit submit' : Action (List (Except Failure Unit))}
    (h : Corresponds (List.Forall₂ (SameVerdict Eq)) submit submit') :
    Corresponds Eq (runGroup threads submit) (runGroup threads submit') := by
  refine (Corresponds.of_steady (steady_perform _)).bind fun _ _ _ => ?_
  refine Corresponds.andThenAlways ?_ (steady_perform _)
  refine h.bind fun outcomes outcomes' hout => .setting fun e e' _ => ?_
  intro e₁ e₂ w w' he hw
  -- The two orders have nothing in common, but each goes through all outcomes.
  exact corresponds_deliver hout (Delivery.order_perm _ _) (Delivery.order_perm _ _) e₁ e₂ w w' he hw

namespace Task

mutual

/-- Whether a task succeeds does not depend on the order in which groups deliver. -/
theorem corresponds_execute : ∀ t : Task, Corresponds Eq t.execute t.execute
  | job name tasks => by
    rw [execute]
    exact corresponds_executeFrom name 0 tasks
  | onPlatform platform tasks => by
    rw [execute]
    refine .setting ?_
    rintro e _ ⟨delivery, rfl, -⟩
    dsimp only
    split
    · exact corresponds_executeFrom _ 0 tasks
    · exact .of_steady (steady_debug _)
  | parallel tasks threads => by
    rw [execute]
    exact corresponds_runGroup threads (corresponds_executeEach tasks)
  | print _ | run _ | ssh _ _ | transfer _ | probe _ _ => .of_steady (steady_leaf rfl)

theorem corresponds_executeFrom (owner : String) (index : Nat) :
    ∀ tasks, Corresponds Eq (executeFrom owner index tasks) (executeFrom owner index tasks)
  | [] => .of_steady (.pure ())
  | t :: ts => by
    rw [executeFrom]
    refine (Corresponds.of_steady (.ofExcept _)).bind ?_
    rintro _ _ rfl
    refine (Corresponds.of_steady (steady_debug _)).bind fun _ _ _ => ?_
    refine ((corresponds_execute t).because _ _).bind fun _ _ _ => ?_
    exact corresponds_executeFrom owner (index + 1) ts

theorem corresponds_executeEach : ∀ tasks,
    Corresponds (List.Forall₂ (SameVerdict Eq)) (executeEach tasks) (executeEach tasks)
  | [] => fun _ _ _ _ _ hw => ⟨.nil, hw⟩
  | t :: ts => by
    rw [executeEach]
    refine (corresponds_execute t).attempt.bind fun r r' hr => ?_
    refine (corresponds_executeEach ts).bind fun rs rs' hrs => ?_
    exact fun _ _ _ _ _ hw => ⟨.cons hr hrs, hw⟩

end

/-! ## Runs of groups -/

/-- Some tasks are run one after the other, each once and whatever the outcome of the others. -/
inductive RunsEach (e : Setting) : World → List Task → List (Except Failure Unit) → World → Prop
  | nil {w : World} : RunsEach e w [] [] w
  | cons {w w₁ w₂ : World} {t : Task} {ts : List Task} {r : Except Failure Unit}
      {rs : List (Except Failure Unit)} (hfirst : t.execute e w = (r, w₁))
      (hrest : RunsEach e w₁ ts rs w₂) : RunsEach e w (t :: ts) (r :: rs) w₂

theorem RunsEach.length_eq {ts : List Task} {rs : List (Except Failure Unit)}
    (h : RunsEach e w ts rs w') : rs.length = ts.length := by
  induction h with
  | nil => rfl
  | cons _ _ ih => rw [List.length_cons, List.length_cons, ih]

theorem executeEach_runs (e : Setting) : ∀ (ts : List Task) (w : World),
    ∃ rs w', executeEach ts e w = (.ok rs, w') ∧ RunsEach e w ts rs w'
  | [], w => ⟨[], w, rfl, .nil⟩
  | t :: ts, w => by
    obtain ⟨rs, w', hrest, hruns⟩ := executeEach_runs e ts (t.execute e w).2
    refine ⟨(t.execute e w).1 :: rs, w', ?_, .cons rfl hruns⟩
    rw [executeEach, Effect.bind_of_ok (Effect.attempt_apply _ _ _), Effect.bind_of_ok hrest]
    rfl

end Task

/-- A pool of workers can be made and shut down. -/
structure Setting.PoolsWork (e : Setting) : Prop where
  made : ∀ past workers, e.fault past (.pool workers) = none
  shut : ∀ past, e.fault past .shutdown = none

/-- A group whose tasks have been submitted goes through their outcomes, and shuts its pool down. -/
theorem runGroup_apply {threads : Int} {submit : Action (List (Except Failure Unit))}
    (hpool : e.PoolsWork)
    (hsubmit : submit e (w.after [.pool (max 1 threads)]) = (.ok outcomes, w₁)) :
    let delivered := deliver outcomes ((e.delivery w₁.events).order outcomes.length) e w₁
    runGroup threads submit e w = (delivered.1, delivered.2.after [.shutdown]) := by
  intro delivered
  have hbody : (submit >>= fun outcomes => Effect.setting >>= fun e' => Effect.get >>= fun w' =>
      deliver outcomes ((e'.delivery w'.events).order outcomes.length)) e
        (w.after [.pool (max 1 threads)]) = delivered := Effect.bind_of_ok hsubmit
  have hshut : Action.perform .shutdown e delivered.2 = (.ok (), delivered.2.after [.shutdown]) :=
    Action.perform_of_spared (hpool.shut _)
  rw [runGroup, Effect.bind_of_ok (Action.perform_of_spared (hpool.made _ _))]
  refine Prod.ext (?_ : _ = delivered.1) ?_
  · rw [Effect.andThenAlways_fst]
    · exact congrArg Prod.fst hbody
    · rw [hbody, hshut]
  · rw [Effect.andThenAlways_snd, hbody, hshut]

namespace Task

/-- A group runs each of its tasks, and then fails with the first failure that is delivered, if there
    is one. -/
theorem parallel_outcomes (tasks : List Task) (threads : Int) (w : World) (hpool : e.PoolsWork) :
    ∃ outcomes w₁, RunsEach e (w.after [.pool (max 1 threads)]) tasks outcomes w₁ ∧
      ((parallel tasks threads).execute e w).2.Alike (w₁.after [.shutdown]) ∧
      (((parallel tasks threads).execute e w).1 = .ok () ↔ ∀ r ∈ outcomes, r = .ok ()) ∧
      ∀ f, ((parallel tasks threads).execute e w).1 = .error f →
        ∃ before i after cause,
          (e.delivery w₁.events).order tasks.length = before ++ i :: after ∧
          (∀ j ∈ before, outcomes[j]? = some (.ok ())) ∧ outcomes[i]? = some (.error cause) ∧
          f = cause.because (.parallelTask i tasks.length (pendingAmong after)) := by
  obtain ⟨outcomes, w₁, hrun, hruns⟩ := executeEach_runs e tasks (w.after [.pool (max 1 threads)])
  have hlength : outcomes.length = tasks.length := hruns.length_eq
  have hperm := (e.delivery w₁.events).order_perm outcomes.length
  rw [execute, runGroup_apply hpool hrun]
  refine ⟨outcomes, w₁, hruns, (deliver_alike hperm).after _, deliver_ok_iff hperm, fun f hf => ?_⟩
  obtain ⟨w', -, ⟨-, hdelivered⟩ | ⟨before, i, after, cause, hsplit, hbefore, hi, hdelivered⟩⟩ :=
    deliver_cases (e := e) _ w₁ fun i hi => List.mem_range.1 (hperm.mem_iff.1 hi)
  · rw [hdelivered] at hf
    cases hf
  · rw [hdelivered] at hf
    refine ⟨before, i, after, cause, hlength ▸ hsplit, hbefore, hi, ?_⟩
    rw [← hlength]
    exact (Except.error.inj hf).symm

/-- A group runs each of its tasks once, whatever becomes of the others, and succeeds if and only if
    all of them do. If it fails, then with the first failure that is delivered, which is named with
    the number of tasks and with those that have not been delivered. Any order of the tasks may be
    the one of delivery, and whether the group succeeds is the same for all of them. -/
theorem execute_parallel (tasks : List Task) (threads : Int) {e : Setting} (w : World)
    (hpool : e.PoolsWork) :
    (∀ order : List Nat, (∃ d : Delivery, d.order tasks.length = order) ↔
      order.Perm (List.range tasks.length)) ∧
    (∀ delivery, ((parallel tasks threads).execute { e with delivery := delivery } w).1 = .ok () ↔
      ((parallel tasks threads).execute e w).1 = .ok ()) ∧
    ∃ outcomes w₁, RunsEach e (w.after [.pool (max 1 threads)]) tasks outcomes w₁ ∧
      ((parallel tasks threads).execute e w).2.Alike (w₁.after [.shutdown]) ∧
      (((parallel tasks threads).execute e w).1 = .ok () ↔ ∀ r ∈ outcomes, r = .ok ()) ∧
      ∀ f, ((parallel tasks threads).execute e w).1 = .error f →
        ∃ before i after cause pending,
          (e.delivery w₁.events).order tasks.length = before ++ i :: after ∧
          (∀ j ∈ before, outcomes[j]? = some (.ok ())) ∧ outcomes[i]? = some (.error cause) ∧
          f = cause.because (.parallelTask i tasks.length (pending.map fun (k : Nat) => (k : Int))) ∧
          pending.Pairwise (· < ·) ∧ (before ++ i :: pending).Perm (List.range tasks.length) := by
  refine ⟨fun order => Delivery.exists_order_iff, fun delivery => ?_, ?_⟩
  · obtain ⟨hsame, -⟩ := corresponds_execute (parallel tasks threads) e
      { e with delivery := delivery } w w ⟨delivery, rfl, by simp⟩ (.refl w)
    exact (sameVerdict_ok_iff hsame).symm
  · obtain ⟨outcomes, w₁, hruns, hw, hok, hfailed⟩ := parallel_outcomes tasks threads w hpool
    refine ⟨outcomes, w₁, hruns, hw, hok, fun f hf => ?_⟩
    obtain ⟨before, i, after, cause, hsplit, hbefore, hi, hcause⟩ := hfailed f hf
    obtain ⟨pending, hpending, hsorted, hpart⟩ :=
      exists_pending (hsplit ▸ (e.delivery w₁.events).order_perm tasks.length)
    exact ⟨before, i, after, cause, pending, hsplit, hbefore, hi, hpending ▸ hcause, hsorted, hpart⟩

/-- A group with a nested one, of which the first and the last task fail. -/
def failingSample : List Task :=
  [probe "x" (some .unwritable), parallel [probe "y" none] 2, probe "z" (some (.of .aborted))]

/-- A calm setting in which the last task of a group is delivered first. -/
def backwardsSample : Setting := { Setting.calm with delivery := fun _ => .descending }

theorem execute_parallel_sample :
    backwardsSample.PoolsWork ∧ ∃ outcomes w₁ f,
      RunsEach backwardsSample ((World.initial (.dir []) []).after [.pool 2]) failingSample outcomes
        w₁ ∧
      ((parallel failingSample 0).execute backwardsSample (.initial (.dir []) [])).1 ≠ .ok () ∧
      ((parallel failingSample 2).execute backwardsSample (.initial (.dir []) [])).1 = .error f ∧
      f = (Failure.of .aborted).because (.parallelTask 2 3 [0, 1]) ∧
      ∃ before i after cause pending, [2, 1, 0] = before ++ i :: after ∧
        outcomes[i]? = some (.error cause) ∧
        f = cause.because (.parallelTask i 3 (pending.map fun (k : Nat) => (k : Int))) ∧
        (before ++ i :: pending).Perm [0, 1, 2] := by
  have hpool : backwardsSample.PoolsWork := ⟨fun _ _ => rfl, fun _ => rfl⟩
  obtain ⟨-, -, outcomes, w₁, hruns, -, -, hfailed⟩ :=
    execute_parallel failingSample 2 (World.initial (.dir []) []) hpool
  have hpending : pendingAmong [1, 0] = [0, 1] := by simp [pendingAmong, List.mergeSort]
  have hf : ((parallel failingSample 2).execute backwardsSample (.initial (.dir []) [])).1
      = .error ((Failure.of .aborted).because (.parallelTask 2 3 [0, 1])) := by
    rw [← hpending]
    rfl
  obtain ⟨before, i, after, cause, pending, horder, -, hi, hcause, -, hperm⟩ := hfailed _ hf
  refine ⟨hpool, outcomes, w₁, _, hruns, ?_, hf, rfl, before, i, after, cause, pending, horder, hi,
    hcause, hperm⟩
  intro h
  cases h

end Task
end Runbook
