import Runbook.Proofs.EncodedText
import Runbook.Proofs.Runs
import Runbook.Proofs.Unread

set_option autoImplicit false

/-! # The processes of local commands

Running a local command is one call that is to start its process. How the command ends is decided by
what comes of this call: whether the process runs to its end, whether what it has written is text, and
its exit code. -/

namespace Runbook.LocalCommand

open Action

variable {e : Setting} {w : World}

/-- What keeps the process of a command from running to its end, if anything does: the call is struck,
    there is no such program, an argument cannot be handed to one, or the process is interrupted. -/
def runFault? (c : LocalCommand) (e : Setting) (past : List Event) : Option Failure :=
  (e.fault past (.spawn c.argv c.workDir)).or (e.process past c.argv).fault

/-- What comes of the process of a command: its exit code and the text on its error output. -/
def ended (c : LocalCommand) (e : Setting) (past : List Event) : Except Failure (Int × String) :=
  match c.runFault? e past with
  | some x => .error x
  | none =>
    let p := e.process past c.argv
    p.streams.errorText.map fun stderr => (p.code, stderr)

/-- How a command ends, by what comes of its process. -/
def outcome (c : LocalCommand) (e : Setting) (past : List Event) : Except Failure Unit :=
  match c.ended e past with
  | .error x =>
    .error (if x.isA .system then x.because (.onHost (.runCommand c.program c.words)) else x)
  | .ok (code, stderr) =>
    if c.isAllowed code then .ok ()
    else .error (.of (.shellCommand c.words code c.reportedCodes (Text.tail e.stderrTail stderr)))

variable {c : LocalCommand} {past : List Event}

theorem ended_of_fault {x : Failure} (h : c.runFault? e past = some x) :
    c.ended e past = .error x := by
  rw [ended, h]

theorem ended_of_run (h : c.runFault? e past = none) :
    c.ended e past = (e.process past c.argv).streams.errorText.map
      fun stderr => ((e.process past c.argv).code, stderr) := by
  rw [ended, h]

theorem ended_of_text {stderr : String} (h : c.runFault? e past = none)
    (htext : (e.process past c.argv).streams.errorText = .ok stderr) :
    c.ended e past = .ok ((e.process past c.argv).code, stderr) := by
  rw [ended_of_run h, htext]
  rfl

/-- What a process has written is refused only where it is no text. -/
theorem undecodable_of_ended {f : Failure} (h : c.runFault? e past = none)
    (hended : c.ended e past = .error f) :
    (e.process past c.argv).streams.errorText = .error f ∧ ∃ fault, f = .of (.undecodable fault) := by
  rw [ended_of_run h] at hended
  cases htext : (e.process past c.argv).streams.errorText with
  | error x =>
    rw [htext] at hended
    obtain rfl := Except.error.inj hended
    exact ⟨rfl, Streams.undecodable_of_errorText htext⟩
  | ok stderr =>
    rw [htext] at hended
    cases hended

/-! ## Running a command -/

theorem spawn_eq (c : LocalCommand) (e : Setting) (w : World) :
    c.spawn e w = (c.ended e w.events, w.after [.spawn c.argv c.workDir]) := by
  rw [spawn, Effect.bind_of_ok (Effect.get_apply e w), ended, runFault?]
  dsimp only
  cases hcall : e.fault w.events (.spawn c.argv c.workDir) with
  | some x => rw [Effect.bind_of_error (perform_of_struck hcall), Option.some_or]
  | none =>
    rw [Effect.bind_of_ok (perform_of_spared hcall), Effect.bind_of_ok (Effect.setting_apply e _),
      Option.none_or]
    cases (e.process w.events c.argv).fault with
    | some x => rfl
    | none => rfl

/-- A command is to start its process, once, and ends by what comes of it. Nothing else is done, but for
    a line of the trace. -/
theorem execute_eq (c : LocalCommand) (e : Setting) (w : World) :
    (c.execute e w).1 = c.outcome e w.events ∧
      (c.execute e w).2.Alike (w.after [.spawn c.argv c.workDir]) := by
  obtain ⟨v, hdebug, hv⟩ := debug_cases
    ("spawn " ++ Text.quotedWords c.argv ++ " (cwd=" ++ c.shownDirectory ++ ")") e w
  have hafter := hv.after [.spawn c.argv c.workDir]
  -- the trace makes no calls, so the process is the one of the world before it
  rw [execute, Effect.bind_of_ok hdebug, outcome, ← hv.events]
  rcases hended : c.ended e v.events with x | ⟨code, stderr⟩
  · have hbecause : (c.spawn.because (·.isA .system) (.onHost (.runCommand c.program c.words))) e v
        = (.error (if x.isA .system then x.because (.onHost (.runCommand c.program c.words)) else x),
          v.after [.spawn c.argv c.workDir]) := by
      rw [Effect.because, Effect.mapFailure, spawn_eq, hended]
    rw [Effect.bind_of_error hbecause]
    exact ⟨rfl, hafter⟩
  · have hspawn : c.spawn e v = (.ok (code, stderr), v.after [.spawn c.argv c.workDir]) := by
      rw [spawn_eq, hended]
    rw [Effect.bind_of_ok (Effect.because_of_ok hspawn)]
    dsimp only
    cases c.isAllowed code with
    | true => exact ⟨rfl, hafter⟩
    | false => exact ⟨rfl, hafter⟩

theorem outcome_eq_ok : c.outcome e past = .ok () ↔
    c.runFault? e past = none ∧
      (∃ stderr, (e.process past c.argv).streams.errorText = .ok stderr) ∧
      c.isAllowed (e.process past c.argv).code = true := by
  unfold outcome
  cases hrun : c.runFault? e past with
  | some x => simp [ended_of_fault hrun]
  | none =>
    rw [ended_of_run hrun]
    cases (e.process past c.argv).streams.errorText with
    | error x => simp [Except.map]
    | ok stderr =>
      cases hallowed : c.isAllowed (e.process past c.argv).code <;> simp [Except.map, hallowed]

/-- A process that runs to its end and has written what is no text ends its command with this alone,
    whatever the exit code. -/
theorem outcome_of_undecodable {f : Failure} (h : c.runFault? e past = none)
    (htext : (e.process past c.argv).streams.errorText = .error f) :
    c.outcome e past = .error f := by
  have hended : c.ended e past = .error f := by rw [ended_of_run h, htext]; rfl
  obtain ⟨-, fault, rfl⟩ := undecodable_of_ended h hended
  rw [outcome, hended]
  rfl

theorem isAllowed_iff {code : Int} : c.isAllowed code = true ↔ code ∈ c.allowed.getD [0] := by
  unfold isAllowed
  cases c.allowed <;> simp

end Runbook.LocalCommand
