import Runbook.Proofs.Interrupts
import Runbook.Proofs.Loading
import Runbook.Proofs.Steps

set_option autoImplicit false

/-! # Interrupted questions

All that a workflow calls while it is loaded are the questions to the operator. Nothing in the
interpretation of tags handles an interrupt, so the first question that is interrupted ends the
interpretation, and with it the loading of the workflow, and the interrupt leaves both as it is. -/

namespace Runbook

/-! ## What holds of every step of the interpretation -/

namespace Interpretation

/-- What holds of each step from which the interpretation of tags is built, and of what is built from
    such steps. -/
structure HoldsOfSteps (P : ∀ {α : Type}, Interpretation α → Prop) : Prop where
  pure : ∀ {α : Type} (a : α), P (Pure.pure a : Interpretation α)
  bind : ∀ {α β : Type} {a : Interpretation α} {f : α → Interpretation β},
    P a → (∀ v, P (f v)) → P (a >>= f)
  memory : P memory
  remember : ∀ f, P (remember f)
  check : ∀ {α : Type} (r : Except TagProblem α), P (check r)
  answer : ∀ hidden q, P (answer hidden q)
  under : ∀ {α : Type} {a : Interpretation α} (tag : String), P a → P (under tag a)

namespace HoldsOfSteps

variable {P : ∀ {α : Type}, Interpretation α → Prop} (hP : HoldsOfSteps P)

include hP

theorem progress (place : Option Nat) (n : Node) : P (Interpretation.progress place n) := by
  unfold Interpretation.progress
  split
  · exact hP.pure ()
  · exact hP.remember _

theorem settle (place : Option Nat) (n : Node) : P (Interpretation.settle place n) := by
  unfold Interpretation.settle
  split
  · exact hP.pure ()
  · exact hP.remember _

/-- What holds of all steps holds of those with notes of some places. -/
theorem at_places (T : Nat → Prop) : HoldsOfStepsAt T P where
  pure := hP.pure
  bind := hP.bind
  memory := hP.memory
  progress place n _ := hP.progress place n
  settle place n _ := hP.settle place n
  put _ _ := hP.remember _
  check := hP.check
  answer := hP.answer
  under := hP.under

end HoldsOfSteps
end Interpretation

namespace Node

open Interpretation

/-- What holds of each step holds of the interpretation of a node. -/
theorem holds_interpret {P : ∀ {α : Type}, Interpretation α → Prop} (hP : HoldsOfSteps P) (n : Node) :
    P n.interpret :=
  holds_interpret_at (hP.at_places fun _ => True) n fun _ _ => trivial

end Node

/-! ## Interrupts while a document is interpreted -/

namespace Setting

/-- One of some calls that are made one after the other is struck by an interrupt. -/
def Interrupts (e : Setting) (x : Failure) (past : List Event) : List Event → Prop
  | [] => False
  | call :: calls => (e.fault past call = some x ∧ x.isInterrupt = true) ∨
    e.Interrupts x (past ++ [call]) calls

theorem interrupts_append {e : Setting} {x : Failure} {past calls more : List Event} :
    e.Interrupts x past (calls ++ more) ↔
      e.Interrupts x past calls ∨ e.Interrupts x (past ++ calls) more := by
  induction calls generalizing past with
  | nil => simp [Interrupts]
  | cons call calls ih => simp [Interrupts, ih, or_assoc]

end Setting

/-- What has been done ends with an interrupt if and only if this has struck one of the calls that have
    been made. -/
def EndsAtInterrupts {α : Type} (e : Setting) (past : List Event) (r : Except Failure α)
    (made : List Event) : Prop :=
  ∃ calls, made = past ++ calls ∧
    ∀ x, r = .error x ∧ x.isInterrupt = true ↔ e.Interrupts x past calls

namespace EndsAtInterrupts

variable {α : Type} {e : Setting} {past : List Event} {r : Except Failure α}

/-- Where no call has been made, there is no interrupt. -/
theorem of_quiet (h : ∀ x, r = .error x → x.isInterrupt = false) : EndsAtInterrupts e past r past := by
  refine ⟨[], (List.append_nil _).symm, fun x => iff_of_false ?_ id⟩
  rintro ⟨hx, hinterrupt⟩
  rw [h x hx] at hinterrupt
  cases hinterrupt

theorem of_ok {a : α} : EndsAtInterrupts e past (.ok a) past := of_quiet nofun

/-- The type of a value that there is not does not matter. -/
theorem of_error {β : Type} {made : List Event} {f : Failure}
    (h : EndsAtInterrupts e past (.error f : Except Failure β) made) :
    EndsAtInterrupts e past (.error f : Except Failure α) made := by
  obtain ⟨calls, hmade, hend⟩ := h
  exact ⟨calls, hmade, fun x => Iff.trans (by simp) (hend x)⟩

/-- What makes no more calls after a success may fail with anything but an interrupt. -/
theorem goesOn {β : Type} {made : List Event} {a : β} (h : EndsAtInterrupts e past (.ok a) made)
    (hr : ∀ x, r = .error x → x.isInterrupt = false) : EndsAtInterrupts e past r made := by
  obtain ⟨calls, hmade, hend⟩ := h
  refine ⟨calls, hmade, fun x => iff_of_false ?_ fun hx => nomatch ((hend x).2 hx).1⟩
  rintro ⟨hx, hinterrupt⟩
  rw [hr x hx] at hinterrupt
  cases hinterrupt

/-- A workflow puts nothing in front of interrupts. -/
theorem because {made : List Event} {m : Action α} {w : World}
    (h : EndsAtInterrupts e past (m e w).1 made) {c : Cause}
    (hc : c.isA .keyboardInterrupt = false) :
    EndsAtInterrupts e past (m.because Failure.isWorkflow c e w).1 made := by
  obtain ⟨calls, hmade, hend⟩ := h
  refine ⟨calls, hmade, fun x => (Effect.because_interrupt_iff (fun y hy => ?_) hc x).trans (hend x)⟩
  exact Failure.isA_of_isInterrupt hy _

/-- A line is read after a call. -/
theorem asking (call : Event) {next : Action String} {w : World}
    (hnext : ∀ w, ∃ line w', next e w = (.ok line, w') ∧ w'.events = w.events) :
    EndsAtInterrupts e w.events ((Action.perform call >>= fun _ => next) e w).1
      ((Action.perform call >>= fun _ => next) e w).2.events := by
  cases hfault : e.fault w.events call with
  | none =>
    obtain ⟨line, w', hline, hevents⟩ := hnext (w.after [call])
    rw [Effect.bind_of_ok (Action.perform_of_spared hfault), hline]
    exact ⟨[call], hevents, fun x => by simp [Setting.Interrupts, hfault]⟩
  | some y =>
    rw [Effect.bind_of_error (Action.perform_of_struck hfault)]
    exact ⟨[call], rfl, fun x => by simp [Setting.Interrupts, hfault]⟩

theorem ask (text : String) (w : World) :
    EndsAtInterrupts e w.events (Action.ask text e w).1 (Action.ask text e w).2.events := by
  have hline : ∀ w, ∃ line w', Action.nextLine e w = (.ok line, w') ∧ w'.events = w.events := by
    intro w
    unfold Action.nextLine
    split <;> exact ⟨_, _, rfl, rfl⟩
  rw [Action.ask, Effect.bind_of_ok (Effect.setting_apply e w)]
  cases e.operator with
  | scripted => exact asking (.prompt text) hline
  | terminal =>
    obtain ⟨line, w', hw', hevents⟩ := hline (Action.write (Action.plain text) e w).2
    have hrun : Action.askAtTerminal text e w = (.ok line, w') := hw'
    dsimp only
    rw [hrun, hevents]
    exact of_ok

theorem askHidden (text : String) (w : World) :
    EndsAtInterrupts e w.events (Action.askHidden text e w).1
      (Action.askHidden text e w).2.events := by
  have hline : ∀ w, ∃ line w', Action.nextHidden e w = (.ok line, w') ∧ w'.events = w.events := by
    intro w
    unfold Action.nextHidden
    split <;> exact ⟨_, _, rfl, rfl⟩
  rw [Action.askHidden, Effect.bind_of_ok (Effect.setting_apply e w)]
  cases e.operator with
  | scripted => exact asking (.hiddenPrompt text) hline
  | terminal =>
    dsimp only [Action.askHiddenAtTerminal, Action.write, Action.writeLine, Effect.bind_apply,
      Effect.modify_apply, Effect.get_apply]
    -- without a line the question is aborted, which is no interrupt
    cases w.lines with
    | nil => exact of_quiet fun x hx => by cases hx; rfl
    | cons line rest => exact of_ok

end EndsAtInterrupts

namespace Interpretation

variable {α β : Type} {a : Interpretation α} {f : α → Interpretation β} {e : Setting}

/-- An interpretation fails with an interrupt if and only if this strikes one of its calls. -/
def StopsAtInterrupts (e : Setting) {α : Type} (a : Interpretation α) : Prop :=
  ∀ s, EndsAtInterrupts e s.1.events (a e s).1 (a e s).2.1.events

theorem StopsAtInterrupts.bind (ha : StopsAtInterrupts e a) (hf : ∀ v, StopsAtInterrupts e (f v)) :
    StopsAtInterrupts e (a >>= f) := by
  intro s
  obtain ⟨calls, hevents, hend⟩ := ha s
  rcases hr : a e s with ⟨y | v, s'⟩ <;> rw [hr] at hevents hend
  · rw [Effect.bind_of_error hr]
    exact ⟨calls, hevents, fun x => Iff.trans (by simp) (hend x)⟩
  · rw [Effect.bind_of_ok hr]
    obtain ⟨more, hmore, hend'⟩ := hf v s'
    dsimp only at hevents
    rw [hevents, List.append_assoc] at hmore
    rw [hevents] at hend'
    refine ⟨calls ++ more, hmore, fun x => (hend' x).trans ?_⟩
    have hnot : ¬ e.Interrupts x s.1.events calls := fun h => nomatch ((hend x).2 h).1
    rw [Setting.interrupts_append]
    simp [hnot]

theorem StopsAtInterrupts.answer (hidden : Bool) (q : Question) :
    StopsAtInterrupts e (Interpretation.answer hidden q) := by
  refine .bind (fun s => ?_) fun _ _ => .of_ok
  cases hidden with
  | false => exact .ask q.prompt s.1
  | true => exact .askHidden q.prompt s.1

theorem StopsAtInterrupts.under (ha : StopsAtInterrupts e a) (tag : String) :
    StopsAtInterrupts e (Interpretation.under tag a) := by
  intro s
  obtain ⟨calls, hevents, hend⟩ := ha s
  refine ⟨calls, by rw [Interpretation.under, Effect.because_snd, hevents], fun x => ?_⟩
  refine (Effect.because_interrupt_iff (fun y hy => ?_) rfl x).trans (hend x)
  rw [Failure.isWorkflow, Failure.isA_of_isInterrupt hy, Failure.isA_of_isInterrupt hy]
  rfl

theorem stopsAtInterrupts_check (r : Except TagProblem α) : StopsAtInterrupts e (check r) := by
  refine fun s => .of_quiet fun x hx => ?_
  cases r with
  | ok v => cases hx
  | error p =>
    cases hx
    cases p with
    | misuse m => cases m <;> rfl
    | _ => rfl

theorem holdsOfSteps_stopsAtInterrupts (e : Setting) :
    HoldsOfSteps fun {α} (a : Interpretation α) => StopsAtInterrupts e a where
  pure _ _ := .of_ok
  bind := .bind
  memory _ := .of_ok
  remember _ _ := .of_ok
  check := stopsAtInterrupts_check
  answer := .answer
  under tag ha := ha.under tag

end Interpretation

/-! ## Interrupts while a workflow is loaded -/

theorem Cli.Crashes.not_isInterrupt {f : Failure} (h : Crashes f) : f.isInterrupt = false := by
  rw [← Bool.not_eq_true]
  intro hinterrupt
  have hfinish := congrArg Prod.fst (h.finish .calm (.initial .empty []))
  rw [Cli.finish, if_neg (by rw [Failure.isA_of_isInterrupt hinterrupt]; decide),
    if_pos (by rw [Failure.isA_of_isInterrupt hinterrupt]; rfl)] at hfinish
  cases hfinish

theorem Path.expandHome_snd (p : Path) (e : Setting) (w : World) : (p.expandHome e w).2 = w := by
  have hsame : ∀ m : Action Path, m = p.expandHome → (m e w).2 = w := by
    unfold expandHome
    split
    · split
      · next user _ =>
        rintro _ rfl
        split
        · rfl
        · dsimp only
          rw [Effect.bind_of_ok (Effect.setting_apply e w)]
          cases e.home (String.ofList user) <;> rfl
      · rintro _ rfl
        rfl
    · rintro _ rfl
      rfl
  exact hsame _ rfl

/-- The tags of a document are interpreted up to the first question that is interrupted. -/
theorem Node.resolveAlone_endsAtInterrupts (n : Node) (e : Setting) (w : World) :
    EndsAtInterrupts e w.events (n.resolveAlone e w).1 (n.resolveAlone e w).2.events := by
  obtain ⟨calls, hevents, hend⟩ :=
    holds_interpret (Interpretation.holdsOfSteps_stopsAtInterrupts e) n (w, .start [])
  refine ⟨calls, hevents, fun x => Iff.trans ?_ (hend x)⟩
  unfold resolveAlone resolve
  rcases n.interpret e (w, .start []) with ⟨f | v, s⟩
  · exact Iff.rfl
  · exact ⟨fun h => (nomatch h.1), fun h => (nomatch h.1)⟩

/-- Loading a workflow fails with an interrupt if and only if this strikes a call that is made while it
    is loaded. -/
theorem Workflow.load_endsAtInterrupts (path : Path) (e : Setting) (w : World) :
    EndsAtInterrupts e w.events (load path e w).1 (load path e w).2.events := by
  rcases hpath : path.expandHome e w with ⟨g | p, w₁⟩ <;>
    obtain rfl : w = w₁ := by rw [← path.expandHome_snd e w, hpath]
  · rw [load, Effect.bind_of_error hpath]
    have hg := path.failsOnly_expandHome e w g (congrArg Prod.fst hpath)
    exact .of_quiet fun x hx => by cases hx; exact hg.not_isInterrupt
  rcases hdocument : p.document e w with ⟨g | n, w₂⟩ <;>
    obtain rfl : w = w₂ := by rw [← p.document_snd e w, hdocument]
  · rw [load, Effect.bind_of_ok hpath, Effect.bind_of_error hdocument]
    refine .of_quiet fun x hx => ?_
    cases hx
    rcases Path.isReportable_or_breaksDocument (congrArg Prod.fst hdocument) with
      hg | hbreaks | ⟨rfl, -⟩
    · exact Failure.not_isInterrupt_of_isWorkflow hg.workflow
    · exact hbreaks.crashes.not_isInterrupt
    · rfl
  have hresolved := n.resolveAlone_endsAtInterrupts e w
  rcases htags : n.resolveAlone e w with ⟨g | m, w₃⟩
  · have hcontext := hresolved.because (c := .resolveFile p.toText) rfl
    rw [Effect.because_eq_of_error htags, htags] at hcontext
    rw [load_of_document hpath hdocument,
      Effect.bind_of_error (Effect.because_eq_of_error htags _ _)]
    exact hcontext.of_error
  · rw [htags] at hresolved
    rw [load_of_resolved hpath hdocument htags, Effect.because_snd]
    refine .because (hresolved.goesOn fun x hx => ?_) rfl
    rcases m.refusesWith_jobs e.taskDefaults x hx with hreportable | ⟨rfl, -⟩
    · exact Failure.not_isInterrupt_of_isWorkflow hreportable.workflow
    · rfl

end Runbook
