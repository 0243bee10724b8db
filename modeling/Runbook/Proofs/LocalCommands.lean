import Runbook.Proofs.ParsedTrees
import Runbook.Proofs.Processes

set_option autoImplicit false

/-! # Local commands, from their text to their process

A local command is one text, which a workflow cuts at its spaces and a shell gets again: as one text, or
as the words between the spaces. Nothing of the text is lost on the way. Running the command is to start
one process, and how this ends decides how the command ends: by its exit code, but only if what it has
written is text. What is reported of a process that has not succeeded is its exit code, the codes that
would have been a success, and the end of its error output. Where no code at all is a success, the
report names zero as one all the same; and where nothing is to be kept of the error output, all of it is
kept. -/

namespace Runbook

open Parsed

/-! ## Texts -/

namespace Text

theorem joinWithChar_eq (sep : Char) (pieces : List (List Char)) :
    joinWithChar sep pieces = [sep].intercalate pieces := by
  induction pieces with
  | nil => rfl
  | cons piece pieces ih =>
    cases pieces with
    | nil => simp [joinWithChar, List.intercalate]
    | cons next pieces =>
      rw [joinWithChar, ih, List.intercalate_cons_cons, List.append_assoc, List.singleton_append]
      simp

/-- The words of a text with single spaces between them are the text. -/
theorem unwords_words (s : String) : unwords (words s) = s := by
  have hpieces : (words s).map String.toList = splitAtChar ' ' s.toList := by
    simp [words, Function.comp_def]
  apply String.toList_injective
  calc (unwords (words s)).toList
      = [' '].intercalate (splitAtChar ' ' s.toList) := by
        rw [unwords, String.toList_intercalate, hpieces]
        rfl
    _ = s.toList := by rw [← joinWithChar_eq, joinWithChar_splitAtChar]

/-- The end of a text that is kept when some characters are asked for: as many as there are, but all of
    them when none is asked for. -/
theorem exists_append_tail (n : Nat) (s : String) :
    ∃ front, s = front ++ tail n s ∧ (tail n s).length = if n = 0 then s.length else min n s.length := by
  by_cases hn : n = 0
  · subst hn
    exact ⟨"", by simp [tail], by simp [tail]⟩
  · have htail : tail n s = String.ofList (s.toList.drop (s.toList.length - n)) := by
      simp [tail, hn]
    refine ⟨String.ofList (s.toList.take (s.toList.length - n)), ?_, ?_⟩
    · rw [htail, ← String.ofList_append, List.take_append_drop, String.ofList_toList]
    · rw [htail, if_neg hn, String.length_ofList, List.length_drop, String.length_toList]
      omega

end Text

/-! ## From the text -/

/-- The kind of task that runs a command with a shell. -/
def Shell.kind : Shell → String
  | bash => "bash"
  | cmd => "cmd"

namespace Node

/-- A node gives the text of a local command, and perhaps the directory it runs in and the exit codes
    with which it succeeds. -/
inductive GivesCommand (c : String) : Option String → Option (List Int) → Node → Prop
  | short : GivesCommand c none none (text c)
  | long {place : Option Nat} {es : Entries} {dir : Option String} {codes : Option (List Int)}
      (hcommand : es.get? "command" = some (text c)) (hdir : es.get? "work_dir" = dir.map text)
      (hcodes : es.GivesCodes codes) : GivesCommand c dir codes (map place es)

end Node

namespace Entries

variable {es : Entries} {field : String}

theorem text_of_get? {s : String} (h : es.get? field = some (Node.text s)) :
    es.text field = .ok s := by
  simp only [text, text?, h, Node.text, bind, Except.bind]
  rfl

theorem text?_of_get? {s : Option String} (h : es.get? field = s.map Node.text) :
    es.text? field = .ok s := by
  cases s with
  | none => rw [text?, h, Option.map_none]
  | some s => rw [text?, h, Option.map_some, Node.text]

theorem GivesCodes.exitCodes? {codes : Option (List Int)} (h : es.GivesCodes codes) :
    es.exitCodes? = .ok codes := by
  rcases h with ⟨hget, rfl⟩ | ⟨place, codes, hget, hne, rfl⟩
  · rw [Entries.exitCodes?, hget]
  · have hall : all Node.exitCode (codes.map fun code => .scalar (.int code)) = .ok codes :=
      all_eq_ok.2 (List.forall₂_map_left_iff.2 (List.forall₂_same.2 fun _ _ => rfl))
    simp [Entries.exitCodes?, hget, Node.requireItems, bind, Except.bind, hne, hall, pure, Except.pure]

end Entries

namespace Node

variable {c : String} {dir : Option String} {codes : Option (List Int)} {config : Node}
  {place : Option Nat} {rest : Entries}

theorem GivesCommand.localCommand (h : config.GivesCommand c dir codes) (shell : Shell) :
    config.localCommand shell = .ok ⟨shell, Text.words c, dir, codes⟩ := by
  cases h with
  | short => rfl
  | long hcommand hdir hcodes =>
    simp only [Node.localCommand, requireEntries, Entries.text_of_get? hcommand,
      Entries.text?_of_get? hdir, hcodes.exitCodes?, bind, Except.bind, pure, Except.pure]

theorem GivesCommand.task (h : config.GivesCommand c dir codes) (d : TaskDefaults)
    (reference : String → Parsed Task) (shell : Shell) :
    task d reference (map place ((.text shell.kind, config) :: rest))
      = .ok (.run ⟨shell, Text.words c, dir, codes⟩) := by
  cases shell <;> simp [Node.task, Shell.kind, h.localCommand, inside, Except.map, Except.mapError]

/-- The text of a local command reaches its shell as it is: as one argument, or as its words, of which
    none holds a space and which make the text when they are joined. To run the command is to start one
    process, with these arguments and in the directory that is given. It succeeds if the process runs
    to its end, writes text only and ends with one of the exit codes that are given, or with zero if none
    are. A process that runs to its end and writes what is no text makes the command fail, whatever its
    exit code, and this failure is put into no context. -/
theorem task_localCommand (h : config.GivesCommand c dir codes) (d : TaskDefaults)
    (reference : String → Parsed Task) (shell : Shell) :
    ∃ command : LocalCommand,
      task d reference (map place ((.text shell.kind, config) :: rest)) = .ok (.run command) ∧
      (shell = .bash → command.argv = ["bash", "-c", c]) ∧
      (shell = .cmd → ∃ words, command.argv = "cmd" :: "/c" :: words ∧ words ≠ [] ∧
        (∀ word ∈ words, ' ' ∉ word.toList) ∧ " ".intercalate words = c) ∧
      ∀ (e : Setting) (w : World),
        ((Task.run command).execute e w).2.Alike (w.after [.spawn command.argv dir]) ∧
        (((Task.run command).execute e w).1 = .ok () ↔
          command.runFault? e w.events = none ∧
          (∃ stderr, (e.process w.events command.argv).streams.errorText = .ok stderr) ∧
          (e.process w.events command.argv).code ∈ codes.getD [0]) ∧
        ∀ f, command.runFault? e w.events = none →
          (e.process w.events command.argv).streams.errorText = .error f →
          ((Task.run command).execute e w).1 = .error f ∧ ∃ fault, f = .of (.undecodable fault) := by
  refine ⟨_, h.task d reference shell, ?_, ?_, fun e w => ?_⟩
  · rintro rfl
    rw [LocalCommand.argv, Text.unwords_words]
  · rintro rfl
    exact ⟨Text.words c, rfl, Text.words_ne_nil c, fun word => Text.space_not_mem_words,
      Text.unwords_words c⟩
  · obtain ⟨hresult, hworld⟩ := LocalCommand.execute_eq ⟨shell, Text.words c, dir, codes⟩ e w
    rw [Task.execute, hresult]
    refine ⟨hworld, ?_, fun f hrun htext => ?_⟩
    · rw [LocalCommand.outcome_eq_ok, LocalCommand.isAllowed_iff]
    · exact ⟨LocalCommand.outcome_of_undecodable hrun htext,
        Streams.undecodable_of_errorText htext⟩

/-- A command with a space in front and two in its middle, a directory, and an exit code of its own. -/
def spacedSample : Node :=
  map none [(.text "command", text " dir  /s"), (.text "work_dir", text "d"),
    (.text "exit_codes", list none [scalar (.int 3)])]

theorem givesCommand_spacedSample : spacedSample.GivesCommand " dir  /s" (some "d") (some [3]) :=
  .long rfl rfl (.inr ⟨none, [3], rfl, by simp, rfl⟩)

theorem task_localCommand_sample : ∃ command : LocalCommand,
    task ⟨1, 22⟩ (fun _ => refuse .taskEmpty) (map none [(.text "cmd", spacedSample)])
      = .ok (.run command) ∧
    (∃ words, command.argv = "cmd" :: "/c" :: words ∧ " ".intercalate words = " dir  /s") ∧
    ((Task.run command).execute Setting.calm (.initial .empty [])).1 ≠ .ok () := by
  obtain ⟨command, htask, -, hcmd, hrun⟩ := @task_localCommand " dir  /s" (some "d") (some [3])
    spacedSample none [] givesCommand_spacedSample ⟨1, 22⟩ (fun _ => refuse .taskEmpty) .cmd
  obtain ⟨words, hargv, -, -, hwords⟩ := hcmd rfl
  refine ⟨command, htask, ⟨words, hargv, hwords⟩, fun hok => ?_⟩
  -- the process ends with zero, which is not among the codes
  obtain ⟨-, -, hcode⟩ := (hrun Setting.calm (.initial .empty [])).2.1.1 hok
  have hzero : (Setting.calm.process [] command.argv).code = 0 := rfl
  rw [World.initial, hzero] at hcode
  exact absurd hcode (by decide)

/-- A setting in which each process succeeds and has written one byte that is no text. -/
def garblingSetting : Setting :=
  { Setting.calm with process := fun _ _ => ⟨0, ⟨[255], []⟩, none⟩ }

/-- A command whose process runs to its end and ends with zero, but has written what is no text. -/
theorem task_localCommand_garbled : ∃ command : LocalCommand,
    task ⟨1, 22⟩ (fun _ => refuse .taskEmpty) (map none [(.text "bash", text "printf '\\377'")])
      = .ok (.run command) ∧
    command.argv = ["bash", "-c", "printf '\\377'"] ∧ command.allowed = none ∧
    command.runFault? garblingSetting [] = none ∧
    (garblingSetting.process [] command.argv).code = 0 ∧
    ((Task.run command).execute garblingSetting (.initial .empty [])).1
      = .error (.of (.undecodable ⟨0, 1, 255, .invalidStart⟩)) := by
  refine ⟨⟨.bash, Text.words "printf '\\377'", none, none⟩, ?_, ?_, rfl, rfl, rfl, ?_⟩
  · exact GivesCommand.short.task ⟨1, 22⟩ (fun _ => refuse .taskEmpty) .bash
  · rw [LocalCommand.argv, Text.unwords_words]
  · have htext : (⟨[255], []⟩ : Streams).errorText
        = .error (.of (.undecodable ⟨0, 1, 255, .invalidStart⟩)) := by
      rw [Streams.errorText, Text.decode, Text.decodeFrom]
      rfl
    rw [Task.execute, (LocalCommand.execute_eq _ _ _).1]
    exact LocalCommand.outcome_of_undecodable rfl htext

end Node

/-! ## What is reported -/

namespace LocalCommand

variable {c : LocalCommand} {code : Int}

/-- The exit code of a failure is not among those that its report names as successes, unless no code at
    all is one and the exit code is zero. -/
theorem not_mem_reportedCodes_iff (h : c.isAllowed code = false) :
    code ∉ c.reportedCodes ↔ ¬ (c.allowed = some [] ∧ code = 0) := by
  obtain ⟨shell, words, dir, allowed⟩ := c
  rcases allowed with _ | _ | ⟨first, codes⟩
  · simpa [isAllowed, reportedCodes] using h
  · simp [reportedCodes]
  · simpa [isAllowed, reportedCodes] using h

end LocalCommand

namespace Task

variable {c : LocalCommand} {e : Setting} {w : World}

/-- A command whose process runs to its end and writes text only fails if and only if the exit code is
    none with which it succeeds. The report holds this code, and names the codes that would have been a
    success: the exit code is not among them unless there are none, when zero is named in their place. Of
    the error output it holds the last characters, as many as are to be kept, unless this is none: then
    it holds all. -/
theorem execute_shellFailure {n : Nat} {stderr : String} (hn : e.stderrTail = n)
    (hrun : c.runFault? e w.events = none)
    (htext : (e.process w.events c.argv).streams.errorText = .ok stderr) :
    ((∃ f, ((run c).execute e w).1 = .error f ∧ f.isA .shellCommand = true) ↔
      c.isAllowed (e.process w.events c.argv).code = false) ∧
    ∀ f, ((run c).execute e w).1 = .error f → ∃ codes kept front,
      f = .of (.shellCommand c.words (e.process w.events c.argv).code codes kept) ∧
      ((e.process w.events c.argv).code ∉ codes ↔
        ¬ (c.allowed = some [] ∧ (e.process w.events c.argv).code = 0)) ∧
      stderr = front ++ kept ∧
      (kept.length = min n stderr.length ↔ n ≠ 0 ∨ stderr = "") ∧
      (n = 0 → kept = stderr) := by
  have hended := LocalCommand.ended_of_text hrun htext
  generalize (e.process w.events c.argv).code = code at hended ⊢
  have hresult : ((run c).execute e w).1 = if c.isAllowed code then .ok ()
      else .error (.of (.shellCommand c.words code c.reportedCodes (Text.tail n stderr))) := by
    rw [execute, (c.execute_eq e w).1, LocalCommand.outcome, hended, hn]
  obtain ⟨front, hfront, hlength⟩ := Text.exists_append_tail n stderr
  have hkept : (Text.tail n stderr).length = min n stderr.length ↔ n ≠ 0 ∨ stderr = "" := by
    rw [hlength, ← String.length_eq_zero_iff]
    split_ifs <;> omega
  cases hcode : c.isAllowed code with
  | true =>
    rw [hresult, hcode, if_pos rfl]
    exact ⟨by simp, fun f hf => by cases hf⟩
  | false =>
    rw [hresult, hcode, if_neg Bool.false_ne_true]
    refine ⟨iff_of_true ⟨_, rfl, rfl⟩ rfl, fun f hf => ?_⟩
    obtain rfl := Except.error.inj hf
    refine ⟨c.reportedCodes, Text.tail n stderr, front, rfl,
      LocalCommand.not_mem_reportedCodes_iff hcode, hfront, hkept, ?_⟩
    rintro rfl
    rfl

/-- A setting in which each process ends with a code and an error output, of which some characters are
    kept in reports. -/
def processSetting (code : Int) (stderr : String) (kept : Int) : Setting :=
  { Setting.calm with process := fun _ _ => ⟨code, stderr, none⟩, stderrTail := kept }

theorem execute_shellFailure_sample : ∃ codes kept front,
    ((run ⟨.bash, ["x"], none, some [2]⟩).execute (processSetting 1 "no such file" 4)
      (.initial .empty [])).1 = .error (.of (.shellCommand ["x"] 1 codes kept)) ∧
    1 ∉ codes ∧ "no such file" = front ++ kept ∧ kept.length = 4 := by
  obtain ⟨hfails, hreport⟩ := @execute_shellFailure ⟨.bash, ["x"], none, some [2]⟩
    (processSetting 1 "no such file" 4) (.initial .empty []) 4 "no such file" rfl rfl
    (Streams.errorText_coe _)
  obtain ⟨f, hf, -⟩ := hfails.2 (by decide)
  obtain ⟨codes, kept, front, rfl, hcodes, hfront, hkept, -⟩ := hreport f hf
  exact ⟨codes, kept, front, hf, hcodes.2 (by decide), hfront, hkept.2 (.inl (by decide))⟩

/-- A report names zero as a success where zero is what the process has ended with, as no code is a
    success; and it holds all of the error output where none of it is to be kept. -/
theorem execute_shellFailure_contrary :
    ((run ⟨.bash, ["x"], none, some []⟩).execute (processSetting 0 "" 4) (.initial .empty [])).1
      = .error (.of (.shellCommand ["x"] 0 [0] "")) ∧
    ((run ⟨.bash, ["x"], none, none⟩).execute (processSetting 1 "boom" 0) (.initial .empty [])).1
      = .error (.of (.shellCommand ["x"] 1 [0] "boom")) := by
  constructor
  · rw [execute, (LocalCommand.execute_eq _ _ _).1, LocalCommand.outcome,
      LocalCommand.ended_of_text rfl (Streams.errorText_coe "")]
    rfl
  · rw [execute, (LocalCommand.execute_eq _ _ _).1, LocalCommand.outcome,
      LocalCommand.ended_of_text rfl (Streams.errorText_coe "boom")]
    rfl

end Task
end Runbook
