import Mathlib.Data.List.DropRight
import Runbook.Proofs.Turns

set_option autoImplicit false

/-! # Questions of a document

What the two tags that ask a question accept, and what they come to. The tags in the payload are
interpreted first. If what the payload comes to has one of the forms of a question, the question is put
to the operator, once, and the answer to it is the value; otherwise nothing is asked and the tag fails.
This holds in the middle of any pass, whatever is known by then. -/

namespace Runbook

open Interpretation

variable {e : Setting} {s s' : World × TagMemory} {hidden : Bool} {q : Question} {n v payload : Node}
  {w w' : World}

/-! ## The forms of a question -/

/-- A payload poses a question: it is the text of the prompt, a list of the prompt and perhaps the text
    of a default, or a mapping with both as fields, where a null stands for no default. -/
inductive Node.Poses : Node → Question → Prop
  | text (prompt : String) : Poses (.text prompt) ⟨prompt, none⟩
  | prompt (place : Option Nat) (prompt : String) : Poses (.list place [.text prompt]) ⟨prompt, none⟩
  | promptAndDefault (place : Option Nat) (prompt default : String) :
      Poses (.list place [.text prompt, .text default]) ⟨prompt, some default⟩
  | field {place : Option Nat} {entries : Entries} {prompt : String}
      (hprompt : entries.get? "prompt" = some (.text prompt))
      (hdefault : entries.get? "default" = none ∨ entries.get? "default" = some (.scalar .null)) :
      Poses (.map place entries) ⟨prompt, none⟩
  | fields {place : Option Nat} {entries : Entries} {prompt default : String}
      (hprompt : entries.get? "prompt" = some (.text prompt))
      (hdefault : entries.get? "default" = some (.text default)) :
      Poses (.map place entries) ⟨prompt, some default⟩

namespace Question

theorem poses_of_ofItems {place : Option Nat} {items : List Node} (h : ofItems items = .ok q) :
    (Node.list place items).Poses q := by
  unfold ofItems at h
  split at h <;> cases h
  · exact .prompt place _
  · exact .promptAndDefault place _ _

theorem poses_of_ofEntries {place : Option Nat} {entries : Entries} (h : ofEntries entries = .ok q) :
    (Node.map place entries).Poses q := by
  unfold ofEntries at h
  split at h
  · cases h
  · next prompt hprompt =>
    split at h <;> cases h
    · next hdefault => exact .field hprompt (.inl hdefault)
    · next hdefault => exact .field hprompt (.inr hdefault)
    · next hdefault => exact .fields hprompt hdefault
  · cases h

/-- A payload is accepted exactly where it poses a question. -/
theorem ofNode_eq_ok : ofNode n = .ok q ↔ n.Poses q := by
  constructor
  · intro h
    cases n with
    | scalar scalar =>
      cases scalar with
      | text prompt =>
        cases h
        exact .text prompt
      | _ => cases h
    | list place items => exact poses_of_ofItems h
    | map place entries => exact poses_of_ofEntries h
    | _ => cases h
  · intro h
    cases h with
    | text prompt | prompt place prompt | promptAndDefault place prompt default => rfl
    | field hprompt hdefault =>
      rcases hdefault with hdefault | hdefault <;>
        simp only [ofNode, ofEntries, hprompt, hdefault, Node.text]
    | fields hprompt hdefault => simp only [ofNode, ofEntries, hprompt, hdefault, Node.text]

/-- A payload that poses no question is refused for its shape, for the type of one of its parts, or because
    the prompt is missing. -/
theorem kind_of_ofNode_error {p : TagProblem} (h : ofNode n = .error p) :
    p.kind = .shape ∨ p.kind = .valueType ∨ p.kind = .missingField := by
  unfold ofNode ofItems ofEntries at h
  repeat' split at h
  all_goals cases h
  all_goals simp [TagProblem.kind]

end Question

/-! ## Putting a question -/

/-- The reader of the answers to questions of one of the two kinds. -/
def Action.reader (hidden : Bool) : String → Action String :=
  if hidden then Action.askHidden else Action.ask

/-- What a terminal shows of a question. A hidden one ends its own line. -/
def Question.atTerminal (hidden : Bool) (prompt : String) : String :=
  if hidden then
    Action.plain (String.ofList (Text.dropEndWhile (· = ' ') prompt.toList)) ++ " \n"
  else Action.plain prompt

/-- A question of a kind is put to the operator, once: in a call of the reader for this kind, or on the
    terminal, where a hidden question that nothing is typed for ends one more line. -/
structure World.Asked (e : Setting) (hidden : Bool) (prompt : String) (w w' : World) : Prop where
  events : w'.events = w.events ++ match e.operator with
    | .scripted => [if hidden then .hiddenPrompt prompt else .prompt prompt]
    | .terminal => []
  out : w'.out = w.out ++ match e.operator with
    | .scripted => ""
    | .terminal => Question.atTerminal hidden prompt ++ if hidden && w.lines.isEmpty then "\n" else ""

/-- A call of a reader puts its question, once, and then takes the answer from those that are given. -/
theorem asked_of_call (hidden : Bool) {prompt : String} (hop : e.operator = .scripted) {next : Action String}
    (hnext : ∀ w, (next e w).2.events = w.events ∧ (next e w).2.out = w.out) (w : World) :
    w.Asked e hidden prompt ((Action.perform
      (if hidden then .hiddenPrompt prompt else .prompt prompt) >>= fun _ => next) e w).2 := by
  generalize hcall : (if hidden then Event.hiddenPrompt prompt else .prompt prompt) = call
  have hw : w.Asked e hidden prompt (w.after [call]) :=
    ⟨by simp [hop, hcall], by simp [hop, World.after]⟩
  cases hfault : e.fault w.events call with
  | some x =>
    rw [Effect.bind_of_error (Action.perform_of_struck hfault)]
    exact hw
  | none =>
    rw [Effect.bind_of_ok (Action.perform_of_spared hfault)]
    obtain ⟨hevents, hout⟩ := hnext (w.after [call])
    exact ⟨hevents.trans hw.events, hout.trans hw.out⟩

theorem nextLine_keeps (e : Setting) (w : World) :
    (Action.nextLine e w).2.events = w.events ∧ (Action.nextLine e w).2.out = w.out := by
  unfold Action.nextLine
  split <;> exact ⟨rfl, rfl⟩

theorem nextHidden_keeps (e : Setting) (w : World) :
    (Action.nextHidden e w).2.events = w.events ∧ (Action.nextHidden e w).2.out = w.out := by
  unfold Action.nextHidden
  split <;> exact ⟨rfl, rfl⟩

theorem asked_atTerminal (hop : e.operator = .terminal) (prompt : String) (w : World) :
    w.Asked e false prompt (Action.askAtTerminal prompt e w).2 := by
  obtain ⟨hevents, hout⟩ := nextLine_keeps e (Action.write (Action.plain prompt) e w).2
  have hshown : (Action.askAtTerminal prompt e w).2.out = w.out ++ Action.plain prompt := hout
  have hquiet : (Action.askAtTerminal prompt e w).2.events = w.events := hevents
  exact ⟨by simp [hop, hquiet], by simp [hop, hshown, Question.atTerminal]⟩

theorem asked_hiddenAtTerminal (hop : e.operator = .terminal) (prompt : String) (w : World) :
    w.Asked e true prompt (Action.askHiddenAtTerminal prompt e w).2 := by
  obtain ⟨out, err, events, files, peer, lines, hiddenLines⟩ := w
  -- without a line to read, the run is aborted on a line of its own
  cases lines with
  | nil =>
    have hquiet : (Action.askHiddenAtTerminal prompt e
        ⟨out, err, events, files, peer, [], hiddenLines⟩).2.events = events := rfl
    have hshown : (Action.askHiddenAtTerminal prompt e
        ⟨out, err, events, files, peer, [], hiddenLines⟩).2.out
      = out ++ Action.plain (String.ofList (Text.dropEndWhile (· = ' ') prompt.toList))
        ++ (" " ++ "\n") ++ ("" ++ "\n") := rfl
    exact ⟨by simp [hop, hquiet], by simp [hop, hshown, Question.atTerminal, String.append_assoc]⟩
  | cons line rest =>
    have hquiet : (Action.askHiddenAtTerminal prompt e
        ⟨out, err, events, files, peer, line :: rest, hiddenLines⟩).2.events = events := rfl
    have hshown : (Action.askHiddenAtTerminal prompt e
        ⟨out, err, events, files, peer, line :: rest, hiddenLines⟩).2.out
      = out ++ Action.plain (String.ofList (Text.dropEndWhile (· = ' ') prompt.toList))
        ++ (" " ++ "\n") := rfl
    exact ⟨by simp [hop, hquiet], by simp [hop, hshown, Question.atTerminal, String.append_assoc]⟩

/-- The readers put their question, once. -/
theorem asked_reader (hidden : Bool) (prompt : String) (e : Setting) (w : World) :
    w.Asked e hidden prompt (Action.reader hidden prompt e w).2 := by
  cases hidden with
  | false =>
    change w.Asked e false prompt (Action.ask prompt e w).2
    rw [Action.ask, Effect.bind_of_ok (Effect.setting_apply e w)]
    cases hop : e.operator with
    | scripted => exact asked_of_call false hop (nextLine_keeps e) w
    | terminal => exact asked_atTerminal hop prompt w
  | true =>
    change w.Asked e true prompt (Action.askHidden prompt e w).2
    rw [Action.askHidden, Effect.bind_of_ok (Effect.setting_apply e w)]
    cases hop : e.operator with
    | scripted => exact asked_of_call true hop (nextHidden_keeps e) w
    | terminal => exact asked_hiddenAtTerminal hop prompt w

/-! ## What is typed -/

/-- What was typed as an answer: the line without the longest run of line feeds and carriage returns at
    its end. -/
structure Text.IsTyped (line typed : String) : Prop where
  ends : ∃ run : List Char, line.toList = typed.toList ++ run ∧ ∀ c ∈ run, c = '\n' ∨ c = '\r'
  last : ∀ c ∈ typed.toList.getLast?, c ≠ '\n' ∧ c ≠ '\r'

theorem Text.endsAnswer_iff {c : Char} : endsAnswer c = true ↔ c = '\n' ∨ c = '\r' := by
  simp [endsAnswer]

theorem Text.isTyped_stripLineEnd (line : String) : IsTyped line (stripLineEnd line) := by
  obtain ⟨run, hline, hrun⟩ := dropEndWhile_append endsAnswer line.toList
  refine ⟨⟨run, ?_, fun c hc => endsAnswer_iff.1 (hrun c hc)⟩, fun c hc => ?_⟩
  · rwa [stripLineEnd, String.toList_ofList]
  · rw [stripLineEnd, String.toList_ofList] at hc
    obtain ⟨hne, rfl⟩ := List.mem_getLast?_eq_getLast hc
    have hlast := List.rdropWhile_last_not endsAnswer line.toList hne
    exact not_or.1 fun h => hlast (endsAnswer_iff.2 h)

/-! ## The tags that ask -/

/-- The name of the tag that asks a question of a kind. -/
def Question.tag (hidden : Bool) : String := if hidden then "HiddenInput" else "Input"

/-- What a tag fails with where something it does fails: what a workflow reports and errors of the
    operating system are put into the context of the tag. -/
def Failure.inTag (tag : String) (f : Failure) : Failure :=
  if f.isWorkflow || f.isA .system then f.because (.tag (.failed tag)) else f

/-- What is wrong with the payload of a question is reported in the context of the tag. -/
theorem Failure.inTag_of_kind {p : TagProblem} (tag : String)
    (hp : p.kind = .shape ∨ p.kind = .valueType ∨ p.kind = .missingField) :
    (Failure.of (.tag p)).inTag tag = ⟨.tag (.failed tag), [.tag p]⟩ := by
  have hworkflow : (Failure.of (.tag p)).isWorkflow = true := by
    change p.kind.isA .workflow = true
    rcases hp with hp | hp | hp <;> rw [hp] <;> rfl
  rw [inTag, hworkflow]
  rfl

/-- How a tag that asks a question ends, by how the pass over its payload ends. -/
inductive Question.Ends (e : Setting) (hidden : Bool) :
    Except Failure Node × (World × TagMemory) → Except Failure Node × (World × TagMemory) → Prop
  /-- The pass over the payload fails, and the tag asks nothing. -/
  | failed (f : Failure) (s : World × TagMemory) :
      Ends e hidden (.error f, s) (.error (f.inTag (Question.tag hidden)), s)
  /-- The payload poses no question, which is what the tag fails with, and it asks nothing. -/
  | refused {v : Node} {s : World × TagMemory} {p : TagProblem} (hno : ∀ q, ¬ v.Poses q)
      (hp : p.kind = .shape ∨ p.kind = .valueType ∨ p.kind = .missingField) :
      Ends e hidden (.ok v, s) (.error ⟨.tag (.failed (Question.tag hidden)), [.tag p]⟩, s)
  /-- The question of the payload is put, and reading the answer fails. -/
  | unanswered {v : Node} {q : Question} {w w' : World} {m : TagMemory} {f : Failure} (hq : v.Poses q)
      (hread : Action.reader hidden q.prompt e w = (.error f, w'))
      (hasked : w.Asked e hidden q.prompt w') :
      Ends e hidden (.ok v, (w, m)) (.error (f.inTag (Question.tag hidden)), (w', m))
  /-- The question of the payload is put. What is typed is the value, or the default, if there is one
      and nothing is typed. -/
  | answered {v : Node} {q : Question} {w w' : World} {m : TagMemory} {line typed : String}
      (hq : v.Poses q) (hread : Action.reader hidden q.prompt e w = (.ok line, w'))
      (hasked : w.Asked e hidden q.prompt w') (htyped : Text.IsTyped line typed) :
      Ends e hidden (.ok v, (w, m))
        (.ok (.text (if typed = "" then q.default.getD "" else typed)), (w', m))

namespace Question

theorem answer_eq (q : Question) (typed : String) :
    q.answer typed = if typed = "" then q.default.getD "" else typed := by
  unfold answer
  cases q.default with
  | none => by_cases h : typed = "" <;> simp [h]
  | some default => rfl

end Question

namespace Interpretation

theorem input_of_error {p : TagProblem} (h : Question.ofNode v = .error p) (s : World × TagMemory) :
    input hidden v e s = (.error (.of (.tag p)), s) := by
  rw [input, h]
  rfl

theorem input_of_ok (h : Question.ofNode v = .ok q) (s : World × TagMemory) :
    input hidden v e s = ((answer hidden q >>= fun a => pure (.text a)) e s) := by
  rw [input, h]
  rfl

theorem answer_apply (hidden : Bool) (q : Question) (e : Setting) (w : World) (m : TagMemory) :
    answer hidden q e (w, m) = match Action.reader hidden q.prompt e w with
      | (.error f, w') => (.error f, (w', m))
      | (.ok line, w') => (.ok (q.answer (Text.stripLineEnd line)), (w', m)) := by
  have hreader : (if hidden then Action.askHidden q.prompt else Action.ask q.prompt)
      = Action.reader hidden q.prompt := by cases hidden <;> rfl
  rw [answer, hreader]
  rcases hread : Action.reader hidden q.prompt e w with ⟨f | line, w'⟩
  · exact Effect.bind_of_error (by rw [ofAction, hread])
  · exact Effect.bind_of_ok (by rw [ofAction, hread])

theorem ends_input (v : Node) (s : World × TagMemory) :
    Question.Ends e hidden (.ok v, s) (under (Question.tag hidden) (input hidden v) e s) := by
  obtain ⟨w, m⟩ := s
  cases hq : Question.ofNode v with
  | error p =>
    -- the state is the one that the payload leaves, so nothing has been asked
    have hkind := Question.kind_of_ofNode_error hq
    rw [under_of_error (input_of_error hq (w, m)), ← Failure.inTag, Failure.inTag_of_kind _ hkind]
    refine .refused (fun q hposes => ?_) hkind
    rw [Question.ofNode_eq_ok.2 hposes] at hq
    cases hq
  | ok q =>
    have hposes := Question.ofNode_eq_ok.1 hq
    have hasked := asked_reader hidden q.prompt e w
    have hanswer := answer_apply hidden q e w m
    rcases hread : Action.reader hidden q.prompt e w with ⟨f | line, w'⟩ <;>
      rw [hread] at hasked hanswer
    · have hinput : input hidden v e (w, m) = (.error f, (w', m)) := by
        rw [input_of_ok hq, Effect.bind_of_error hanswer]
      rw [under_of_error hinput]
      exact .unanswered hposes hread hasked
    · have hinput : input hidden v e (w, m)
          = (.ok (.text (q.answer (Text.stripLineEnd line))), (w', m)) := by
        rw [input_of_ok hq, Effect.bind_of_ok hanswer]
        rfl
      rw [under, Effect.because_of_ok hinput, q.answer_eq]
      exact .answered hposes hread hasked (Text.isTyped_stripLineEnd line)

end Interpretation

/-- A tag that asks a question interprets the tags in its payload, one after the other. If what the
    payload comes to poses a question, it is put to the operator, once, by the reader for the kind of the
    tag, and what is typed as the answer is the value, with the default in the place of nothing. With
    any other payload the tag asks nothing itself and fails. -/
theorem Node.interpret_question (hidden : Bool) (payload : Node) (e : Setting)
    (s : World × TagMemory) :
    GoesThrough e s (payload.openTags s.2.settled) payload.workPlaces.Nodup (payload.interpret e s) ∧
    Question.Ends e hidden (payload.interpret e s)
      ((tagged (Question.tag hidden) payload).interpret e s) := by
  refine ⟨goesThrough_interpret payload s, ?_⟩
  have htag : (tagged (Question.tag hidden) payload).interpret
      = under (Question.tag hidden) (payload.interpret >>= input hidden) := by
    cases hidden with
    | false => exact interpret_input payload
    | true => exact interpret_hiddenInput payload
  rw [htag]
  rcases hpayload : payload.interpret e s with ⟨f | v, s'⟩
  · rw [under_of_error (Effect.bind_of_error hpayload)]
    exact .failed f s'
  · have hrest : (payload.interpret >>= input hidden) e s = input hidden v e s' :=
      Effect.bind_of_ok hpayload
    rw [under_congr hrest]
    exact ends_input v s'

end Runbook
