import Runbook.Cli.Program
import Runbook.Proofs.ForeignWords

set_option autoImplicit false

/-! # When a run shows a password

A job is run with a password that stands nowhere but in the target of its remote commands, in the
commands, and in what they yield. The trace, the tree of the job and the descriptions of its tasks do
not show it. The report of a failure does if a command that is named there holds it: such a command is
reported as it is. So no line of the outputs shows the password if and only if no command with the
password in it is reported. -/

namespace Runbook

open Text (Lacks AtLineStart)

/-! ## Lines of texts -/

namespace Text

variable {needle cs piece line : List Char} {sep c : Char}

theorem isPrefix_of_splitAtChar {pieces : List (List Char)}
    (h : splitAtChar sep cs = piece :: pieces) : piece <+: cs := by
  induction cs generalizing piece pieces with
  | nil =>
    cases h
    exact List.nil_prefix
  | cons c cs ih =>
    rw [splitAtChar] at h
    split at h
    · cases h
      exact List.nil_prefix
    · split at h
      · next hnone => exact absurd hnone (splitAtChar_ne_nil sep cs)
      · next first rest hfirst =>
        cases h
        exact List.cons_prefix_cons.2 ⟨rfl, ih hfirst⟩

/-- A piece between two separators stands in the text. -/
theorem isInfix_of_mem_splitAtChar (h : piece ∈ splitAtChar sep cs) : piece <:+: cs := by
  induction cs with
  | nil => simp [splitAtChar] at h; simp [h]
  | cons c cs ih =>
    rw [splitAtChar] at h
    split at h
    · rcases List.mem_cons.1 h with rfl | h
      · exact List.nil_infix
      · exact (ih h).trans (List.suffix_cons c cs).isInfix
    · split at h
      · next hnone => exact absurd hnone (splitAtChar_ne_nil sep cs)
      · next first rest hfirst =>
        rcases List.mem_cons.1 h with rfl | h
        · exact (List.cons_prefix_cons.2 ⟨rfl, isPrefix_of_splitAtChar hfirst⟩).isInfix
        · exact (ih (hfirst ▸ List.mem_cons_of_mem _ h)).trans (List.suffix_cons c cs).isInfix

/-- What has no separator in it stands within a piece. -/
theorem exists_piece_of_isInfix (hsep : sep ∉ needle) (h : needle <:+: cs) :
    ∃ piece ∈ splitAtChar sep cs, needle <:+: piece := by
  obtain ⟨pieces, hpieces⟩ : ∃ pieces, pieces = splitAtChar sep cs := ⟨_, rfl⟩
  rw [← joinWithChar_splitAtChar sep cs, ← hpieces] at h
  rw [← hpieces]
  have hne : pieces ≠ [] := hpieces ▸ splitAtChar_ne_nil sep cs
  clear hpieces
  induction pieces with
  | nil => exact absurd rfl hne
  | cons first rest ih =>
    cases rest with
    | nil => exact ⟨first, List.mem_singleton_self _, h⟩
    | cons second rest =>
      rcases isInfix_of_append_cons hsep h with h | h
      · exact ⟨first, List.mem_cons_self, h⟩
      · obtain ⟨piece, hmem, hin⟩ := ih h (by simp)
        exact ⟨piece, List.mem_cons_of_mem _ hmem, hin⟩

theorem lineList_cons (h : isLineEnd c = false) (cs : List Char) :
    lineList (c :: cs) = match lineList cs with
      | [] => [[c]]
      | line :: lines => (c :: line) :: lines := by
  have hreturn : c ≠ '\r' := by
    rintro rfl
    revert h
    decide
  rw [lineList, h]
  · rfl
  · intro rest hc
    exact absurd hc hreturn

/-- What a text begins with and has no line ends in it, its first line begins with. -/
theorem exists_first_line (hne : needle ≠ []) (hends : ∀ c ∈ needle, isLineEnd c = false)
    (h : needle <+: cs) : ∃ line lines, lineList cs = line :: lines ∧ needle <+: line := by
  induction needle generalizing cs with
  | nil => exact absurd rfl hne
  | cons c needle ih =>
    obtain ⟨rest, rfl, hrest⟩ : ∃ rest, cs = c :: rest ∧ needle <+: rest := by
      cases cs with
      | nil => simp at h
      | cons d rest =>
        obtain ⟨rfl, hrest⟩ := List.cons_prefix_cons.1 h
        exact ⟨rest, rfl, hrest⟩
    rw [lineList_cons (hends c List.mem_cons_self)]
    by_cases hnil : needle = []
    · subst hnil
      cases lineList rest with
      | nil => exact ⟨_, _, rfl, List.prefix_rfl⟩
      | cons line lines => exact ⟨_, _, rfl, List.cons_prefix_cons.2 ⟨rfl, List.nil_prefix⟩⟩
    · obtain ⟨line, lines, hlines, hpre⟩ :=
        ih hnil (fun d hd => hends d (List.mem_cons_of_mem _ hd)) hrest
      rw [hlines]
      exact ⟨_, _, rfl, List.cons_prefix_cons.2 ⟨rfl, hpre⟩⟩

/-- A line of a text stands within a line of a longer one. -/
theorem exists_line_of_mem (c : Char) (h : line ∈ lineList cs) :
    ∃ longer ∈ lineList (c :: cs), line <:+: longer := by
  by_cases hend : isLineEnd c = true
  · by_cases hpair : ∃ rest, c = '\r' ∧ cs = '\n' :: rest
    · obtain ⟨rest, rfl, rfl⟩ := hpair
      refine ⟨line, ?_, List.infix_rfl⟩
      rw [lineList]
      rwa [lineList, if_pos (by decide)] at h
      intro _ hc
      cases hc
    · refine ⟨line, ?_, List.infix_rfl⟩
      rw [lineList, if_pos hend]
      · exact List.mem_cons_of_mem _ h
      · intro rest hc hcs
        exact hpair ⟨rest, hc, hcs⟩
  · rw [lineList_cons (Bool.eq_false_iff.2 hend)]
    cases hlines : lineList cs with
    | nil =>
      rw [hlines] at h
      cases h
    | cons first lines =>
      rw [hlines] at h
      rcases List.mem_cons.1 h with rfl | h
      · exact ⟨_, List.mem_cons_self, (List.suffix_cons c line).isInfix⟩
      · exact ⟨line, List.mem_cons_of_mem _ h, List.infix_rfl⟩

/-- What has no line ends in it stands within a line. -/
theorem exists_line_of_isInfix (hne : needle ≠ []) (hends : ∀ c ∈ needle, isLineEnd c = false)
    (h : needle <:+: cs) : ∃ line ∈ lineList cs, needle <:+: line := by
  induction cs with
  | nil => exact absurd (List.infix_nil.1 h) hne
  | cons c cs ih =>
    rcases List.infix_cons_iff.1 h with h | h
    · obtain ⟨line, lines, hlines, hpre⟩ := exists_first_line hne hends h
      exact ⟨line, by rw [hlines]; exact List.mem_cons_self, hpre.isInfix⟩
    · obtain ⟨line, hmem, hin⟩ := ih h
      obtain ⟨longer, hlonger, hlonger'⟩ := exists_line_of_mem c hmem
      exact ⟨longer, hlonger, hin.trans hlonger'⟩

/-- Whether a text has no ends of lines in it. -/
def IsOneLine (s : String) : Prop := ∀ c ∈ s.toList, isLineEnd c = false

instance (s : String) : Decidable (IsOneLine s) :=
  decidable_of_iff (s.toList.all fun c => !isLineEnd c) (by simp [IsOneLine, List.all_eq_true])

theorem IsOneLine.append {s t : String} (hs : IsOneLine s) (ht : IsOneLine t) :
    IsOneLine (s ++ t) := by
  intro c hc
  rw [String.toList_append] at hc
  exact (List.mem_append.1 hc).elim (hs c) (ht c)

theorem IsOneLine.not_mem_feed {s : String} (h : IsOneLine s) : '\n' ∉ s.toList := by
  intro hmem
  have hend := h _ hmem
  revert hend
  decide

end Text

open Text (IsOneLine)

/-- No line of either output holds a literal. -/
def World.Hides (w : World) (p : String) : Prop :=
  ∀ line ∈ Text.splitAtChar '\n' w.out.toList ++ Text.splitAtChar '\n' w.err.toList,
    ¬ p.toList <:+: line

instance (w : World) (p : String) : Decidable (w.Hides p) := inferInstanceAs (Decidable (∀ _ ∈ _, _))

namespace World

variable {w : World} {p : String}

/-- A literal with a line feed in it is on no line. -/
theorem hides_of_feed (hfeed : '\n' ∈ p.toList) : w.Hides p := by
  intro line hline hin
  rcases List.mem_append.1 hline with hline | hline
  · exact Text.sep_not_mem_splitAtChar '\n' _ line hline (hin.subset hfeed)
  · exact Text.sep_not_mem_splitAtChar '\n' _ line hline (hin.subset hfeed)

/-- Any other is on a line of the outputs if and only if it is in one of them. -/
theorem hides_iff_lacks (hfeed : '\n' ∉ p.toList) : w.Hides p ↔ Lacks p w.out ∧ Lacks p w.err := by
  constructor
  · intro h
    refine ⟨fun hin => ?_, fun hin => ?_⟩
    · obtain ⟨line, hmem, hline⟩ := Text.exists_piece_of_isInfix hfeed hin
      exact h line (List.mem_append_left _ hmem) hline
    · obtain ⟨line, hmem, hline⟩ := Text.exists_piece_of_isInfix hfeed hin
      exact h line (List.mem_append_right _ hmem) hline
  · rintro ⟨hout, herr⟩ line hline hin
    rcases List.mem_append.1 hline with hline | hline
    · exact hout (hin.trans (Text.isInfix_of_mem_splitAtChar hline))
    · exact herr (hin.trans (Text.isInfix_of_mem_splitAtChar hline))

end World

/-! ## Reports of failures -/

namespace Cause

variable {p line : String} {c : Cause}

theorem isOneLine_label (k : Kind) : IsOneLine k.label := by
  cases k <;> decide +kernel

theorem isOneLine_indentation (depth : Nat) : IsOneLine (indentation depth) := by
  intro c hc
  rw [indentation, String.toList_ofList] at hc
  rw [List.eq_of_mem_replicate hc]
  decide

theorem isOneLine_of_mem_lines {s : String} (h : line ∈ Text.lines s) : IsOneLine line := by
  obtain ⟨cs, hcs, rfl⟩ := List.mem_map.1 h
  intro c hc
  rw [String.toList_ofList] at hc
  exact Text.not_isLineEnd_of_mem_lineList _ cs hcs c hc

/-- No line of a report goes over the end of one. -/
theorem isOneLine_of_mem_report {depth : Nat} (h : line ∈ c.report depth) : IsOneLine line := by
  have hlead : IsOneLine (if depth = 0 then "" else "Caused by ") := by
    split <;> decide
  have hfirst : IsOneLine ((Text.lines c.message).headD "") := by
    cases hm : Text.lines c.message with
    | nil => decide
    | cons first rest => exact isOneLine_of_mem_lines (hm ▸ List.mem_cons_self)
  rcases List.mem_cons.1 h with rfl | h
  · exact ((((isOneLine_indentation depth).append hlead).append (isOneLine_label _)).append
      (by decide)).append hfirst
  · obtain ⟨rest, hrest, rfl⟩ := List.mem_map.1 h
    exact ((isOneLine_indentation depth).append (by decide)).append
      (isOneLine_of_mem_lines (List.mem_of_mem_drop hrest))

/-- A literal in the message of an error is in a line of its report, if it does not go over lines. -/
theorem exists_line_of_message (hne : p ≠ "") (hends : IsOneLine p) (h : ¬ Lacks p c.message)
    (depth : Nat) : ∃ line ∈ c.report depth, ¬ Lacks p line := by
  obtain ⟨cs, hcs, hin⟩ := Text.exists_line_of_isInfix
    (fun hnil => hne (String.toList_inj.1 hnil)) hends (Decidable.not_not.1 h)
  have hmem : String.ofList cs ∈ Text.lines c.message := List.mem_map_of_mem hcs
  have hline : ¬ Lacks p (String.ofList cs) := not_not.2 (by rwa [String.toList_ofList])
  unfold report
  cases hm : Text.lines c.message with
  | nil =>
    rw [hm] at hmem
    cases hmem
  | cons first rest =>
    rw [hm] at hmem
    rcases List.mem_cons.1 hmem with rfl | hmem
    · exact ⟨_, List.mem_cons_self, fun hlacks => hline hlacks.right⟩
    · exact ⟨_, List.mem_cons_of_mem _ (List.mem_map_of_mem hmem), fun hlacks => hline hlacks.right⟩

end Cause

/-- The lines of a report of some errors, the first at a given depth, each with the error that it is
    about. Nothing follows an error whose message cannot be written. -/
def reportOf (depth : Nat) : List Cause → List (Cause × String)
  | [] => []
  | c :: cs =>
    if c.isWritable then (c.report depth).map (c, ·) ++ reportOf (depth + 1) cs else []

/-- Every line of a report is one of those of an error that is reported, which all are in the report. -/
theorem exists_depth_of_mem_reportOf {depth : Nat} {links : List Cause} {x : Cause × String}
    (h : x ∈ reportOf depth links) :
    x.1 ∈ links ∧
      ∃ d, x.2 ∈ x.1.report d ∧ ∀ line ∈ x.1.report d, (x.1, line) ∈ reportOf depth links := by
  induction links generalizing depth with
  | nil => cases h
  | cons c cs ih =>
    rw [reportOf] at h ⊢
    split at h
    · next hwritable =>
      rw [if_pos hwritable]
      rcases List.mem_append.1 h with h | h
      · obtain ⟨line, hline, rfl⟩ := List.mem_map.1 h
        exact ⟨List.mem_cons_self, depth, hline, fun other hother =>
          List.mem_append_left _ (List.mem_map_of_mem hother)⟩
      · obtain ⟨hmem, d, hd, hall⟩ := ih h
        exact ⟨List.mem_cons_of_mem _ hmem, d, hd, fun line hline =>
          List.mem_append_right _ (hall line hline)⟩
    · cases h

namespace Console

variable {p line : String} {e : Setting}

theorem errorLines_append (xs ys : List String) :
    errorLines (xs ++ ys) = errorLines xs >>= fun _ => errorLines ys := by
  induction xs with
  | nil => rfl
  | cons x xs ih =>
    rw [List.cons_append, errorLines, errorLines, ih, bind_assoc]

theorem errorLines_ok (lines : List String) (e : Setting) (w : World) :
    (errorLines lines e w).1 = .ok () := by
  induction lines generalizing w with
  | nil => rfl
  | cons line lines ih => exact ih _

/-- The errors of a chain leave the lines of their report behind. -/
theorem errorsFrom_snd (depth : Nat) (links : List Cause) (e : Setting) (w : World) :
    (errorsFrom depth links e w).2 = (errorLines ((reportOf depth links).map Prod.snd) e w).2 := by
  induction links generalizing depth w with
  | nil => rfl
  | cons c cs ih =>
    rw [errorsFrom, reportOf]
    by_cases hwritable : c.isWritable = true
    · have hreport : errorLines (c.report depth) e w
          = (.ok (), (errorLines (c.report depth) e w).2) := Prod.ext (errorLines_ok _ _ _) rfl
      rw [if_pos hwritable, List.map_append, errorLines_append, List.map_map]
      simp only [hwritable, Bool.not_true, Bool.false_eq_true, if_false]
      rw [Function.comp_def, List.map_id', Effect.bind_of_ok hreport, Effect.bind_of_ok hreport]
      exact ih _ _
    · rw [if_neg hwritable]
      simp only [Bool.eq_false_iff.2 hwritable, Bool.not_false, if_true]
      rfl

theorem silent_errorLines (hfeed : '\n' ∉ p.toList) {lines : List String}
    (h : ∀ line ∈ lines, Lacks p line) : Silent p e (errorLines lines) := by
  induction lines with
  | nil => exact .pure ()
  | cons line lines ih =>
    refine (Silent.writeErrorLine hfeed (h line List.mem_cons_self)).bind fun _ => ih ?_
    exact fun other hother => h other (List.mem_cons_of_mem _ hother)

theorem silent_errorChain (hfeed : '\n' ∉ p.toList) {title : String} {links : List Cause}
    (htitle : Lacks p ("\nERROR: " ++ title)) (hlines : ∀ x ∈ reportOf 0 links, Lacks p x.2)
    (htrace : e.debug = true → Lacks p traceLine) : Silent p e (errorChain title links) := by
  have hfrom : Silent p e (errorsFrom 0 links) := by
    intro w hw
    rw [errorsFrom_snd]
    refine silent_errorLines hfeed (fun line hline => ?_) w hw
    obtain ⟨x, hx, rfl⟩ := List.mem_map.1 hline
    exact hlines x hx
  refine (Silent.writeErrorLine hfeed htitle).bind fun _ => hfrom.bind fun _ => .setting ?_
  by_cases hdebug : e.debug = true
  · rw [if_pos hdebug]
    exact .writeErrorLine hfeed (htrace hdebug)
  · rw [if_neg hdebug]
    exact .pure ()

theorem lacks_of_errorLines {w : World} {lines : List String}
    (h : Lacks p (errorLines lines e w).2.err) :
    Lacks p w.err ∧ ∀ line ∈ lines, Lacks p line := by
  induction lines generalizing w with
  | nil => exact ⟨h, by simp⟩
  | cons line lines ih =>
    obtain ⟨hw, hlines⟩ := ih h
    refine ⟨hw.left, fun other hother => ?_⟩
    rcases List.mem_cons.1 hother with rfl | hother
    · exact hw.right.left
    · exact hlines other hother

/-- What is not in the error output after a report is in no line of it. -/
theorem lacks_of_errorChain {w : World} {title : String} {links : List Cause}
    (h : Lacks p (errorChain title links e w).2.err) : ∀ x ∈ reportOf 0 links, Lacks p x.2 := by
  obtain ⟨w', hw'⟩ : ∃ w', w' = { w with err := w.err ++ ("\nERROR: " ++ title ++ "\n") } :=
    ⟨_, rfl⟩
  have hfrom : Lacks p (errorsFrom 0 links e w').2.err := by
    have hrun : errorChain title links e w
        = (errorsFrom 0 links >>= fun _ => whenDebugging (Action.writeErrorLine traceLine)) e w' := by
      rw [hw']
      rfl
    rw [hrun] at h
    rcases hr : errorsFrom 0 links e w' with ⟨f | ⟨⟩, w''⟩
    · rwa [Effect.bind_of_error hr] at h
    · rw [Effect.bind_of_ok hr] at h
      by_cases hdebug : e.debug = true
      · have htrace : whenDebugging (Action.writeErrorLine traceLine) e w''
            = (.ok (), { w'' with err := w''.err ++ (traceLine ++ "\n") }) := by
          simp only [whenDebugging, Effect.bind_apply, Effect.setting_apply, hdebug, if_true]
          rfl
        rw [htrace] at h
        exact h.left
      · have hquiet : whenDebugging (Action.writeErrorLine traceLine) e w'' = (.ok (), w'') := by
          simp only [whenDebugging, Effect.bind_apply, Effect.setting_apply, hdebug]
          rfl
        rwa [hquiet] at h
  rw [errorsFrom_snd] at hfrom
  intro x hx
  exact (lacks_of_errorLines hfrom).2 x.2 (List.mem_map_of_mem hx)

end Console

/-! ## Failures of jobs -/

/-- The exceptions that tasks in a row fail with are reported by the workflow, but for the failure to
    describe one of them: each task is described first, outside of the context that it is run in. -/
theorem Task.isWorkflow_or_eq_of_executeFrom {owner : String} {index : Nat} {tasks : List Task}
    {e : Setting} {w : World} {f : Failure} (h : (executeFrom owner index tasks e w).1 = .error f)
    (hexception : f.isException = true) : f.isWorkflow = true ∨ f = .unwritable := by
  induction tasks generalizing index w with
  | nil => cases h
  | cons t ts ih =>
    rw [executeFrom] at h
    cases hdescribed : t.describe? with
    | error x =>
      have hx : x = .unwritable := by
        unfold describe? at hdescribed
        split at hdescribed
        · cases hdescribed
        · exact (Except.error.inj hdescribed).symm
      rw [hdescribed, Effect.bind_of_error rfl] at h
      exact .inr (Except.error.inj h ▸ hx)
    | ok shown =>
      obtain ⟨v, hdebug, -⟩ := debug_cases
        ("[" ++ owner ++ "] #" ++ toString (index : Int) ++ " " ++ shown) e w
      rw [hdescribed, Effect.bind_of_ok rfl, Console.taskStarted, Effect.bind_of_ok hdebug] at h
      rcases hrun : t.execute e v with ⟨x | ⟨⟩, v'⟩
      · have hbecause : (t.execute.because Failure.isException (.job owner index (some t.describe))) e v
            = (.error (if x.isException then x.because (.job owner index (some t.describe)) else x),
              v') := by
          rw [Effect.because, Effect.mapFailure, hrun]
        rw [Effect.bind_of_error hbecause] at h
        obtain rfl := Except.error.inj h
        by_cases hx : x.isException = true
        · rw [if_pos hx]
          exact .inl rfl
        · rw [if_neg hx] at hexception
          exact absurd hexception hx
      · rw [Effect.bind_of_ok (Effect.because_of_ok hrun)] at h
        exact ih h

/-! ## Runs of a job -/

namespace Cli

/-- Shows the tree of a job, if that is asked for. -/
def showTree (verbose : Bool) (j : Job) : Action Unit := do
  if verbose then
    Console.header ("Job tree: " ++ j.name)
    Console.taskTree j.task 0
    Console.info ""

/-- What a run does with a job that has been found in a workflow. -/
def runFound (jobs : List Job) (name : String) (j : Job) (verbose : Bool) : Action Nat := do
  showTree verbose j
  runSelected jobs name

/-- How a job that has been found fails, if it comes to run. -/
def failed? (jobs : List Job) (name : String) (j : Job) (verbose : Bool) (e : Setting) (w : World) :
    Option Failure :=
  match showTree verbose j e w with
  | (.error _, _) => none
  | (.ok (), w') =>
    match Job.run jobs name e w' with
    | (.error f, _) => some f
    | (.ok (), _) => none

/-- What says that a job starts. -/
def startLine (j : Job) : String :=
  "Executing Job " ++ j.name ++ " (" ++ toString (j.tasks.length : Int) ++ " task(s))"

/-- The report of a failure is about a remote command that holds a literal, on one line. -/
def Discloses (p : String) (f : Failure) : Prop :=
  f.isWorkflow = true ∧ (∃ x ∈ reportOf 0 f.links, x.1.Quotes p) ∧ IsOneLine p

instance (p : String) (f : Failure) : Decidable (Discloses p f) := inferInstanceAs (Decidable (_ ∧ _))

/-- What is written of an exception that no workflow reports. -/
def unexpectedLine : String :=
  "Unexpected error: ValueError: Exceeds the limit (4300 digits) for integer string conversion; "
    ++ "use sys.set_int_max_str_digits() to increase the limit"

/-- A password can be told from the marker that stands in place of it, and comes up in remote commands
    and in what they yield only: it is in none of the texts of the console with the names and numbers in
    them, in none of the faults, and not in what is reported of hosts, paths, processes and exit codes.
    What has been written before does not hold it either. The texts are taken with the names in them, as
    a password may begin in a name and end in what is put around it. -/
structure Confined (p : String) (e : Setting) (w : World) (jobs : List Job) (name : String) (j : Job)
    (verbose : Bool) : Prop where
  found : Job.find jobs name = .ok j
  nonempty : p ≠ ""
  star : '*' ∉ p.toList
  marker : ¬ p.toList <:+: Redaction.standardMarker.toList
  out : Lacks p (w.out ++ if verbose then "\nJob tree: " ++ j.name else startLine j)
  err : Lacks p w.err
  errStart : AtLineStart w.err
  tree : verbose = true →
    Lacks p (String.ofList (List.replicate ("Job tree: " ++ j.name).length '-')) ∧
      ∀ x ∈ j.task.levels 0, x.2.Shows p (indentation x.1.toNat)
  started : Lacks p (startLine j)
  task : j.task.Discreet p e
  success : Lacks p ("Job " ++ j.name ++ ": SUCCESS")
  interrupted : Lacks p "\nInterrupted by user"
  title : Lacks p ("\nERROR: " ++ ("Job " ++ name ++ " failed"))
  trace : e.debug = true → Lacks p traceLine
  unexpected : Lacks p unexpectedLine
  faults : e.FaultsUnsaid p
  plain : PlainUnsaid p
  reports : ∃ N : String → Prop, w.OnlyNames N ∧ j.task.IsUnsaid p N e

variable {p : String} {e : Setting} {w w' : World} {jobs : List Job} {name : String} {j : Job}
  {verbose : Bool} {f : Failure}

theorem lacks_nil (hne : p ≠ "") : Lacks p "" :=
  fun hin => hne (String.toList_inj.1 (List.infix_nil.1 hin))

/-- After a first line the outputs show nothing if they do not with the text of that line. -/
theorem conceals_writeLine {line : String} (hfeed : '\n' ∉ p.toList) (hout : Lacks p (w.out ++ line))
    (herr : Lacks p w.err) (hstart : AtLineStart w.err) :
    (Action.writeLine line e w).2.Conceals p where
  out := by
    have := hout.append_feed hfeed
    rwa [String.append_assoc] at this
  err := herr
  outStart := .inr ⟨w.out ++ line, String.append_assoc.symm⟩
  errStart := hstart

theorem silent_taskLines (hp : Redaction.Hideable p) {levels : List (Int × Task)}
    (h : ∀ x ∈ levels, x.2.Shows p (indentation x.1.toNat)) :
    Silent p e (Console.taskLines levels) := by
  induction levels with
  | nil => exact .pure ()
  | cons x levels ih =>
    refine (Silent.ofExcept _).bind fun _ => (Silent.writeLine hp.feed ?_).bind fun _ => ?_
    · exact (h x List.mem_cons_self).lacks hp
    · exact ih fun y hy => h y (List.mem_cons_of_mem _ hy)

theorem guarded_taskLines {N : String → Prop} (hplain : PlainUnsaid p) (levels : List (Int × Task)) :
    Guarded p N e (fun _ => True) (Console.taskLines levels) := by
  induction levels with
  | nil => exact .pure trivial
  | cons x levels ih =>
    have hdescribe := Task.guardedOutcome_describe? hplain x.2
    exact (Guarded.ofExcept hdescribe).bind fun _ _ => (Guarded.writeLine _).bind fun _ _ => ih

theorem guarded_showTree {N : String → Prop} (hplain : PlainUnsaid p) :
    Guarded p N e (fun _ => True) (showTree verbose j) := by
  refine .ite (fun _ => ?_) fun _ => .pure trivial
  refine Guarded.bind ((Guarded.writeLine _).bind fun _ _ => Guarded.writeLine _) fun _ _ => ?_
  exact (guarded_taskLines hplain _).bind fun _ _ => Guarded.writeLine _

theorem mem_failed? {w'' : World} (htree : showTree verbose j e w = (.ok (), w'))
    (hrun : Job.run jobs name e w' = (.error f, w'')) : f ∈ failed? jobs name j verbose e w := by
  unfold failed?
  rw [htree]
  dsimp only
  rw [hrun]
  rfl

theorem exists_of_mem_failed? (h : f ∈ failed? jobs name j verbose e w) :
    ∃ w' w'', showTree verbose j e w = (.ok (), w') ∧ Job.run jobs name e w' = (.error f, w'') := by
  unfold failed? at h
  split at h
  · cases h
  · next w' htree =>
    split at h
    · next g w'' hrun =>
      cases h
      exact ⟨w', w'', htree, hrun⟩
    · cases h

theorem run_of_find (h : Job.find jobs name = .ok j) : Job.run jobs name
    = Action.writeLine (startLine j) >>= fun _ => j.execute >>= fun _ => Console.success j.name := by
  unfold Job.run
  rw [h]
  rfl

/-- The failure of a job is one that the workflow reports, or an interrupt, or the failure to describe a
    task. -/
theorem eq_unwritable_of_run (hfound : Job.find jobs name = .ok j)
    (hrun : Job.run jobs name e w = (.error f, w')) (hexception : f.isException = true)
    (hwork : f.isWorkflow ≠ true) : f = .unwritable := by
  rw [run_of_find hfound] at hrun
  obtain ⟨v, hv⟩ : ∃ v, Action.writeLine (startLine j) e w = (.ok (), v) := ⟨_, rfl⟩
  rw [Effect.bind_of_ok hv] at hrun
  have herror : (Task.executeFrom j.name 0 j.tasks e v).1 = .error f := by
    rcases hexecute : j.execute e v with ⟨x | ⟨⟩, v'⟩
    · rw [Effect.bind_of_error hexecute] at hrun
      rw [Job.execute, Job.task, Task.execute] at hexecute
      rw [hexecute]
      exact congrArg Prod.fst hrun
    · rw [Effect.bind_of_ok hexecute] at hrun
      cases hrun
  exact (Task.isWorkflow_or_eq_of_executeFrom herror hexception).resolve_left hwork

namespace Confined

variable (h : Confined p e w jobs name j verbose)

include h

/-- The report of a failure says the password only of commands that hold it. -/
theorem guards (hf : f ∈ failed? jobs name j verbose e w) : f.Guards p := by
  obtain ⟨N, hnames, htask⟩ := h.reports
  obtain ⟨w', w'', htree, hrun⟩ := exists_of_mem_failed? hf
  have hw' : w'.OnlyNames N := by
    have htreeNames : Guarded p N e (fun _ => True) (showTree verbose j) := guarded_showTree h.plain
    have := (htreeNames w hnames).1
    rwa [htree] at this
  have hguarded : Guarded p N e (fun _ => True) (Job.run jobs name) := by
    rw [run_of_find h.found]
    refine (Guarded.writeLine _).bind fun _ _ => ?_
    exact (Task.guarded_execute h.faults h.plain j.task htask).bind fun _ _ => Guarded.writeLine _
  have hout := (hguarded w' hw').2
  rw [hrun] at hout
  exact hout

theorem hideable (hfeed : '\n' ∉ p.toList) : Redaction.Hideable p :=
  ⟨h.nonempty, h.star, h.marker, hfeed⟩

/-- A job that has started ends without showing the password. -/
theorem silent_rest (hfeed : '\n' ∉ p.toList) :
    Silent p e (j.execute >>= fun _ => Console.success j.name) :=
  (Task.silent_execute (h.hideable hfeed) j.task h.task).bind fun _ => .writeLine hfeed h.success

/-- The tree and the run of a job do not show the password. -/
theorem conceals_run (hfeed : '\n' ∉ p.toList) :
    (∀ x w', showTree verbose j e w = (.error x, w') → w'.Conceals p) ∧
      ∀ w', showTree verbose j e w = (.ok (), w') → (Job.run jobs name e w').2.Conceals p := by
  have hrun := run_of_find h.found
  have hsilent : Silent p e (Job.run jobs name) := by
    rw [hrun]
    exact (Silent.writeLine hfeed h.started).bind fun _ => h.silent_rest hfeed
  cases verbose with
  | false =>
    refine ⟨fun x w' hx => ?_, fun w' hw' => ?_⟩
    · have hok : (Except.ok () : Except Failure Unit) = .error x := congrArg Prod.fst hx
      cases hok
    · obtain rfl : w = w' := congrArg Prod.snd hw'
      rw [hrun]
      exact h.silent_rest hfeed _ (conceals_writeLine (e := e) hfeed h.out h.err h.errStart)
  | true =>
    obtain ⟨hdashes, hlevels⟩ := h.tree rfl
    have hrest : Silent p e (Action.writeLine
        (String.ofList (List.replicate ("Job tree: " ++ j.name).length '-')) >>= fun _ =>
          Console.taskTree j.task 0 >>= fun _ => Console.info "") :=
      (Silent.writeLine hfeed hdashes).bind fun _ =>
        (silent_taskLines (h.hideable hfeed) hlevels).bind fun _ =>
          .writeLine hfeed (lacks_nil h.nonempty)
    have htree := hrest _ (conceals_writeLine (e := e) hfeed h.out h.err h.errStart)
    refine ⟨fun x w' hx => ?_, fun w' hw' => ?_⟩
    · obtain rfl : _ = w' := congrArg Prod.snd hx
      exact htree
    · obtain rfl : _ = w' := congrArg Prod.snd hw'
      exact hsilent _ htree

/-- The lines of a report that discloses nothing do not hold the password. -/
theorem lacks_of_mem_report (hf : f ∈ failed? jobs name j verbose e w) (hwork : f.isWorkflow = true)
    (hclosed : ¬ Discloses p f) : ∀ x ∈ reportOf 0 f.links, Lacks p x.2 := by
  intro x hx
  by_cases hquotes : x.1.Quotes p
  · -- the password goes over the end of a line, so the lines of the message are pieces without it
    intro hin
    obtain ⟨-, depth, hline, -⟩ := exists_depth_of_mem_reportOf hx
    have hends : IsOneLine p := fun c hc =>
      Cause.isOneLine_of_mem_report hline c (hin.subset hc)
    exact hclosed ⟨hwork, ⟨x, hx, hquotes⟩, hends⟩
  · obtain ⟨hmem, depth, hline, -⟩ := exists_depth_of_mem_reportOf hx
    rw [Cause.report_eq] at hline
    exact (h.guards hf x.1 hmem).resolve_left hquotes depth x.2 hline

end Confined

theorem runFound_of_tree (htree : showTree verbose j e w = (.ok (), w')) :
    runFound jobs name j verbose e w = runSelected jobs name e w' := by
  rw [runFound, Effect.bind_of_ok htree]

/-- A run of a job of a file goes on with the job that is found in it. -/
theorem run_of_load {file : Path} {w₀ : World} (hload : Workflow.load file e w₀ = (.ok jobs, w))
    (hfound : Job.find jobs name = .ok j) :
    run file name verbose e w₀ = runFound jobs name j verbose e w := by
  have hattempt : (Workflow.load file).attempt e w₀ = (.ok (.ok jobs), w) := by
    rw [Effect.attempt_apply, hload]
  rw [run, Effect.bind_of_ok hattempt]
  dsimp only
  rw [hfound]
  cases verbose with
  | false => rfl
  | true =>
    dsimp only
    rw [runFound, showTree, if_pos rfl, if_pos rfl]
    simp only [bind_assoc]

/-- What a failure that the workflow reports itself leaves behind. -/
theorem runSelected_of_isWorkflow (hrun : Job.run jobs name e w = (.error f, w'))
    (hwork : f.isWorkflow = true) :
    (runSelected jobs name e w).2
      = (Console.errorChain ("Job " ++ name ++ " failed") f.links e w').2 := by
  have hkey : f.isA .keyboardInterrupt = false := by
    unfold Failure.isWorkflow Failure.isA Cause.isA at *
    revert hwork
    cases f.head.kind <;> decide
  have hattempt : (Job.run jobs name).attempt e w = (.ok (.error f), w') := by
    rw [Effect.attempt_apply, hrun]
  rw [runSelected, Effect.bind_of_ok hattempt]
  dsimp only
  rw [hkey, hwork]
  rcases hr : Console.errorChain ("Job " ++ name ++ " failed") f.links e w' with ⟨x | ⟨⟩, w''⟩
  · exact congrArg Prod.snd (Effect.bind_of_error hr)
  · exact congrArg Prod.snd (Effect.bind_of_ok hr)

/-- Any other end of a run does not show the password. -/
theorem Confined.conceals_runSelected (h : Confined p e w jobs name j verbose)
    (hfeed : '\n' ∉ p.toList) (htree : showTree verbose j e w = (.ok (), w'))
    (hclosed : ¬ ∃ f ∈ failed? jobs name j verbose e w, Discloses p f) :
    (runSelected jobs name e w').2.Conceals p := by
  rcases hrun : Job.run jobs name e w' with ⟨f | ⟨⟩, w''⟩
  all_goals
    have hw'' : w''.Conceals p := by
      have := (h.conceals_run hfeed).2 w' htree
      rwa [hrun] at this
    have hattempt := Effect.attempt_apply (Job.run jobs name) e w'
    rw [hrun] at hattempt
  · have hf : f ∈ failed? jobs name j verbose e w := mem_failed? htree hrun
    by_cases hwork : f.isWorkflow = true
    · rw [runSelected_of_isWorkflow hrun hwork]
      refine Console.silent_errorChain hfeed h.title ?_ h.trace _ hw''
      exact h.lacks_of_mem_report hf hwork fun hdiscloses => hclosed ⟨f, hf, hdiscloses⟩
    · rw [runSelected, Effect.bind_of_ok hattempt]
      dsimp only
      refine Silent.ite ((Silent.writeLine hfeed h.interrupted).bind fun _ => .pure 130) ?_ _ hw''
      rw [if_neg hwork]
      by_cases hexception : f.isException = true
      · obtain rfl := eq_unwritable_of_run h.found hrun hexception hwork
        refine Silent.bind (.setting ?_) fun _ => .pure 1
        by_cases hdebug : e.debug = true
        · rw [if_pos hdebug]
          exact .writeErrorLine hfeed (h.trace hdebug)
        · rw [if_neg hdebug]
          exact .writeErrorLine hfeed h.unexpected
      · rw [if_neg hexception]
        exact .fail f
  · rw [runSelected, Effect.bind_of_ok hattempt]
    exact hw''

theorem Confined.hides_of_not_discloses (h : Confined p e w jobs name j verbose)
    (hclosed : ¬ ∃ f ∈ failed? jobs name j verbose e w, Discloses p f) :
    (runFound jobs name j verbose e w).2.Hides p := by
  by_cases hfeed : '\n' ∈ p.toList
  · exact World.hides_of_feed hfeed
  · have hconceals : (runFound jobs name j verbose e w).2.Conceals p := by
      rcases htree : showTree verbose j e w with ⟨x | ⟨⟩, w'⟩
      · rw [runFound, Effect.bind_of_error htree]
        exact (h.conceals_run hfeed).1 x w' htree
      · rw [runFound_of_tree htree]
        exact h.conceals_runSelected hfeed htree hclosed
    exact (World.hides_iff_lacks hfeed).2 ⟨hconceals.out, hconceals.err⟩

theorem Confined.not_hides_of_discloses (h : Confined p e w jobs name j verbose)
    (hf : f ∈ failed? jobs name j verbose e w) (hdiscloses : Discloses p f) :
    ¬ (runFound jobs name j verbose e w).2.Hides p := by
  obtain ⟨hwork, ⟨x, hx, hquotes⟩, hends⟩ := hdiscloses
  intro hhides
  obtain ⟨-, herr⟩ := (World.hides_iff_lacks hends.not_mem_feed).1 hhides
  obtain ⟨w', w'', htree, hrun⟩ := exists_of_mem_failed? hf
  rw [runFound_of_tree htree, runSelected_of_isWorkflow hrun hwork] at herr
  obtain ⟨-, depth, -, hlines⟩ := exists_depth_of_mem_reportOf hx
  obtain ⟨line, hline, hin⟩ :=
    Cause.exists_line_of_message h.nonempty hends hquotes.not_lacks_message depth
  exact hin (Console.lacks_of_errorChain herr _ (hlines line hline))

theorem lacks_startLine (hp : Console.IsForeign p) (hname : Lacks p j.name) :
    Lacks p (startLine j) :=
  hp.close (hp.link (hp.lead (by decide) hname) (by decide) (hp.number j.tasks.length)) (by decide)

/-- A password that is a word is confined if the console does not write it on its own account, and if it
    is in no name, message, path, host or local command of the job, not in the messages of the faults, and
    not in what has been written before. Remote commands and what they yield may hold it. -/
theorem Confined.of_omits (hp : Console.IsForeign p) (hfound : Job.find jobs name = .ok j)
    (hname : Lacks p name) (hfaults : ∀ past call x, e.fault past call = some x → x.Omits p)
    (hout : Lacks p w.out) (herr : Lacks p w.err) (houtStart : AtLineStart w.out)
    (herrStart : AtLineStart w.err) {N : String → Prop} (hnames : w.OnlyNames N)
    (homits : j.task.Omits p N e) : Confined p e w jobs name j verbose where
  found := hfound
  nonempty := hp.ne_empty
  star := hp.not_mem (by decide)
  marker := hp.marker
  out := by
    have hline : Lacks p (if verbose then "\nJob tree: " ++ j.name else startLine j) := by
      split
      · exact hp.lead (by decide) homits.1
      · exact lacks_startLine hp homits.1
    rcases houtStart with hnil | ⟨front, hfront⟩
    · rwa [hnil, String.empty_append]
    · rw [hfront] at hout ⊢
      exact hp.append_of_ends (Text.endsApart_append (by decide)) hout hline
  err := herr
  errStart := herrStart
  tree _ := by
    refine ⟨hp.lacks_of_isLetterless ?_, fun x hx => ?_⟩
    · rw [Text.isLetterless, String.toList_ofList, List.all_replicate]
      simp
    · exact (Task.omits_of_mem_levels _ _ homits x hx).shows hp
        (hp.precedes_indentation _)
  started := lacks_startLine hp homits.1
  task := homits.discreet hp
  success := hp.enclose (by decide) homits.1 (by decide)
  interrupted := hp.phrases _ (by decide)
  title := hp.lead (by decide) (hp.enclose (by decide) hname (by decide))
  trace _ := hp.phrases _ (by decide)
  unexpected := hp.append_of_ends (by decide) (hp.phrases _ (by decide)) (hp.phrases _ (by decide))
  faults past call x hx := (hfaults past call x hx).isUnsaid hp
  plain := plainUnsaid_of_isForeign hp
  reports := ⟨N, hnames, homits.isUnsaid hp⟩

/-- No line that a run of a job leaves on the outputs holds the password if and only if the report of its
    failure, if there is one, is about no remote command that holds it on one line. The run is what the
    program does with the job of that name, whatever file the jobs have been loaded from. -/
theorem hides_iff_not_discloses (h : Confined p e w jobs name j verbose) :
    ((runFound jobs name j verbose e w).2.Hides p ↔
      ¬ ∃ f ∈ failed? jobs name j verbose e w, Discloses p f) ∧
    ∀ file w₀, Workflow.load file e w₀ = (.ok jobs, w) →
      run file name verbose e w₀ = runFound jobs name j verbose e w :=
  ⟨⟨fun hhides ⟨_, hf, hdiscloses⟩ => h.not_hides_of_discloses hf hdiscloses hhides,
    h.hides_of_not_discloses⟩, fun _ _ hload => run_of_load hload h.found⟩

/-- A job whose remote commands may hold the password of their host. -/
def secretJob (commands : List String) : Job :=
  ⟨"a", [.ssh .sample (commands.map (⟨·, [0]⟩))]⟩

/-- A traced run in which a host answers each command with the password, and one command succeeds. -/
def secretSetting : Setting :=
  { Setting.calm with
    debug := true
    result := fun _ command => ⟨[115, 101, 99, 114, 101, 116], if command = "echo secret" then 0 else 1⟩ }

theorem isForeign_secret : Console.IsForeign "secret" where
  alphanumeric := List.all_eq_true.1 (by decide)
  letter := ⟨'s', by decide, by decide⟩
  marker := by decide +kernel
  labels k := by cases k <;> decide +kernel
  leads := by decide +kernel
  links := by decide +kernel
  closes := by decide +kernel
  phrases := by decide +kernel

/-- The password of a host comes up in commands for that host and in what they yield only. -/
theorem confined_secretJob (commands : List String) (verbose : Bool) :
    Confined "secret" secretSetting (.initial .empty []) [secretJob commands] "a"
      (secretJob commands) verbose := by
  have hbatch : BatchOmits "secret" secretSetting .sample (commands.map (⟨·, [0]⟩)) :=
    ⟨⟨by decide +kernel, by decide +kernel⟩, .inl rfl, .inl rfl⟩
  have hname : Lacks "secret" "a" ∧ Lacks "secret" (Text.quoted "a") := by decide +kernel
  exact .of_omits (N := fun _ => True) isForeign_secret rfl (by decide)
    (fun _ _ _ hfault => nomatch hfault) (by decide) (by decide) (.inl rfl) (.inl rfl)
    ⟨trivial, fun _ hx => nomatch hx⟩ ⟨hname.1, hname.2, hbatch, trivial⟩

theorem hides_sample :
    (failed? [secretJob ["echo secret", "false"]] "a" (secretJob ["echo secret", "false"]) true
      secretSetting (.initial .empty [])).isSome = true ∧
    (runFound [secretJob ["echo secret", "false"]] "a" (secretJob ["echo secret", "false"]) true
      secretSetting (.initial .empty [])).2.Hides "secret" := by
  have hconfined : Confined "secret" secretSetting (.initial .empty [])
      [secretJob ["echo secret", "false"]] "a" (secretJob ["echo secret", "false"]) true :=
    confined_secretJob ["echo secret", "false"] true
  refine ⟨by decide +kernel, (hides_iff_not_discloses hconfined).1.2 ?_⟩
  decide +kernel

/-- The report of a failure shows the password in the command that it is about. -/
theorem discloses_sample :
    Confined "secret" secretSetting (.initial .empty []) [secretJob ["test secret"]] "a"
      (secretJob ["test secret"]) false ∧
    ¬ (runFound [secretJob ["test secret"]] "a" (secretJob ["test secret"]) false secretSetting
      (.initial .empty [])).2.Hides "secret" := by
  have hconfined : Confined "secret" secretSetting (.initial .empty []) [secretJob ["test secret"]]
      "a" (secretJob ["test secret"]) false := confined_secretJob ["test secret"] false
  obtain ⟨f, hf, hdiscloses⟩ : ∃ f ∈ failed? [secretJob ["test secret"]] "a"
      (secretJob ["test secret"]) false secretSetting (.initial .empty []), Discloses "secret" f := by
    decide +kernel
  exact ⟨hconfined, hconfined.not_hides_of_discloses hf hdiscloses⟩

end Cli
end Runbook
