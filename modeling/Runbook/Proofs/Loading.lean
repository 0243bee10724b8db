import Runbook.Cli.Program
import Runbook.Proofs.Disclosure
import Runbook.Proofs.ReportedFailures

set_option autoImplicit false

/-! # How loading fails

A workflow file is found, read, worked through and searched for jobs, and each of these stages may fail.
Most failures are put into the context of the stage, and a command reports them with all errors behind
them. What breaks through is told apart here: a home directory that is not known, a path that no file
can have, bytes that are no text, a value that its type does not admit, and a value with too many
digits to be shown. Nothing else does, as long as every question is answered. This is said of files of
which all texts can be held here: none names a half of a surrogate pair. -/

namespace Runbook

/-! ## Reports -/

namespace Console

theorem lines_ok (texts : List String) (e : Setting) (w : World) :
    (lines texts e w).1 = .ok () := by
  induction texts generalizing w with
  | nil => rfl
  | cons text texts ih => exact ih _

theorem errorsFrom_ok {links : List Cause} (h : ∀ c ∈ links, c.isWritable = true) (depth : Nat)
    (e : Setting) (w : World) : (errorsFrom depth links e w).1 = .ok () := by
  induction links generalizing depth w with
  | nil => rfl
  | cons c cs ih =>
    have hreport : errorLines (c.report depth) e w
        = (.ok (), (errorLines (c.report depth) e w).2) := Prod.ext (errorLines_ok _ _ _) rfl
    rw [errorsFrom, h c List.mem_cons_self]
    simp only [Bool.not_true, Bool.false_eq_true, if_false]
    rw [Effect.bind_of_ok hreport]
    exact ih (fun d hd => h d (List.mem_cons_of_mem _ hd)) _ _

/-- A chain of errors whose messages can be written is reported down to its root. -/
theorem errorChain_ok {links : List Cause} (h : ∀ c ∈ links, c.isWritable = true) (title : String)
    (e : Setting) (w : World) : (errorChain title links e w).1 = .ok () := by
  obtain ⟨w', hw'⟩ : ∃ w', w' = { w with err := w.err ++ ("\nERROR: " ++ title ++ "\n") } :=
    ⟨_, rfl⟩
  have hfrom : errorsFrom 0 links e w' = (.ok (), (errorsFrom 0 links e w').2) :=
    Prod.ext (errorsFrom_ok h 0 e w') rfl
  have hrun : errorChain title links e w
      = (errorsFrom 0 links >>= fun _ => whenDebugging (Action.writeErrorLine traceLine)) e w' := by
    rw [hw']
    rfl
  rw [hrun, Effect.bind_of_ok hfrom, whenDebugging, Effect.bind_of_ok (Effect.setting_apply e _)]
  split <;> rfl

end Console

namespace Cli

theorem reportOr_of_isReportable {f : Failure} (hf : f.IsReportable) (title : String) (e : Setting)
    (w : World) : reportOr title f e w = (.ok 1, (Console.errorChain title f.links e w).2) := by
  have hchain : Console.errorChain title f.links e w
      = (.ok (), (Console.errorChain title f.links e w).2) :=
    Prod.ext (Console.errorChain_ok hf.writable title e w) rfl
  rw [reportOr, if_pos hf.workflow, Effect.bind_of_ok hchain]
  rfl

/-- A failure that no command reports and that ends the program as it is. -/
structure Crashes (f : Failure) : Prop where
  foreign : f.isWorkflow = false
  finish : ∀ e w, finish f e w = (.ok (.crashed f), w)

theorem reportOr_of_crashes {f : Failure} (hf : Crashes f) (title : String) (e : Setting)
    (w : World) : reportOr title f e w = (.error f, w) := by
  rw [reportOr, hf.foreign]
  rfl

theorem Crashes.not_isReportable {f : Failure} (hf : Crashes f) : ¬ f.IsReportable := fun h => by
  have hforeign := hf.foreign
  rw [h.workflow] at hforeign
  cases hforeign

theorem not_crashes_aborted : ¬ Crashes (.of .aborted) := fun h => by
  cases congrArg Prod.fst (h.finish .calm (.initial .empty []))

end Cli

/-! ## Reading a document -/

namespace Path

/-- Whether a text in the file at a path is to hold a half of a surrogate pair, which no text here can. -/
def HoldsSurrogate (p : Path) (e : Setting) (w : World) : Prop :=
  ∃ content text, w.files.read e.workingDir p = .ok content ∧ sourceOfBytes content = .ok text ∧
    Yaml.read text = .error .surrogate

/-- A failure of reading a document that is put into no context: the path holds a null character, or
    the bytes of the file are no text, or a value in the text is none of its type. -/
inductive BreaksDocument (p : Path) (e : Setting) (w : World) : Failure → Prop
  | nullInPath (hnull : noNull p.toText = false) : BreaksDocument p e w (.of .nullInPath)
  | undecodable {content : Bytes} {fault : Text.Utf8Fault} (hnull : noNull p.toText = true)
      (hread : w.files.read e.workingDir p = .ok content)
      (hdecode : Text.decode content = .error fault) : BreaksDocument p e w (.of (.undecodable fault))
  | badValue {content : Bytes} {text : String} {fault : Yaml.Fault} (hnull : noNull p.toText = true)
      (hread : w.files.read e.workingDir p = .ok content) (htext : sourceOfBytes content = .ok text)
      (hvalue : Yaml.read text = .error fault) (hfault : fault ≠ .malformed)
      (hsurrogate : fault ≠ .surrogate) :
      BreaksDocument p e w (.of (.badValue fault))

variable {p : Path} {e : Setting} {w : World} {f : Failure}

theorem document_snd (p : Path) (e : Setting) (w : World) : (p.document e w).2 = w := by
  have hcall : ∀ context, (p.call context FileTree.read e w).2 = w := by
    intro context
    unfold call
    split
    · split <;> rfl
    · rfl
  rw [document, Effect.bind_apply]
  have h := hcall (.openDocument p.toText)
  rcases hr : p.call (.openDocument p.toText) FileTree.read e w with ⟨x | content, w'⟩ <;>
    rw [hr] at h <;> exact h

/-- The document in a file that is read. -/
theorem document_of_read {content : Bytes} (hnull : noNull p.toText = true)
    (hread : w.files.read e.workingDir p = .ok content) :
    p.document e w = ((sourceOfBytes content).bind Node.ofSource, w) := by
  have hcall : p.call (.openDocument p.toText) FileTree.read e w = (.ok content, w) := by
    rw [call, if_pos hnull, hread]
  rw [document, Effect.bind_of_ok hcall]
  rfl

theorem BreaksDocument.document_eq (h : p.BreaksDocument e w f) : p.document e w = (.error f, w) := by
  cases h with
  | nullInPath hnull =>
    have hcall : p.call (.openDocument p.toText) FileTree.read e w = (.error (.of .nullInPath), w) := by
      rw [call, hnull]
      rfl
    rw [document, Effect.bind_of_error hcall]
  | undecodable hnull hread hdecode =>
    rw [document_of_read hnull hread, sourceOfBytes, hdecode]
    rfl
  | badValue hnull hread htext hvalue hfault hsurrogate =>
    rw [document_of_read hnull hread, htext]
    simp only [Except.bind, Node.ofSource, hvalue, Except.mapError]
    cases ‹Yaml.Fault› <;> first | rfl | exact absurd rfl hfault

theorem BreaksDocument.crashes (h : p.BreaksDocument e w f) : Cli.Crashes f := by
  cases h with
  | badValue _ _ _ _ hfault _ =>
    cases ‹Yaml.Fault› <;> first | exact absurd rfl hfault | exact ⟨rfl, fun _ _ => rfl⟩
  | _ => exact ⟨rfl, fun _ _ => rfl⟩

/-- Any other failure of reading a document can be reported, if all texts in it can be held. -/
theorem isReportable_or_breaksDocument (h : (p.document e w).1 = .error f) :
    f.IsReportable ∨ p.BreaksDocument e w f ∨
      (f = .of (.badValue .surrogate) ∧ p.HoldsSurrogate e w) := by
  cases hnull : noNull p.toText with
  | false =>
    have hbreaks : p.BreaksDocument e w (.of .nullInPath) := .nullInPath hnull
    rw [hbreaks.document_eq] at h
    cases h
    exact .inr (.inl hbreaks)
  | true =>
    cases hread : w.files.read e.workingDir p with
    | error x =>
      have hcall : p.call (.openDocument p.toText) FileTree.read e w
          = (.error (.because (.onHost (.openDocument p.toText)) (p.failure x)), w) := by
        rw [call, if_pos hnull, hread]
      rw [document, Effect.bind_of_error hcall] at h
      cases h
      exact .inl ⟨rfl, by cases x <;> simp [failure, FileError.cause, Cause.isWritable]⟩
    | ok content =>
      rw [document_of_read hnull hread] at h
      cases htext : sourceOfBytes content with
      | error x =>
        rw [htext] at h
        cases h
        unfold sourceOfBytes at htext
        split at htext
        · cases htext
        · next fault hdecode =>
          cases htext
          exact .inr (.inl (.undecodable hnull hread hdecode))
      | ok text =>
        rw [htext] at h
        change Node.ofSource text = _ at h
        unfold Node.ofSource at h
        cases hvalue : Yaml.read text with
        | ok n =>
          rw [hvalue] at h
          cases h
        | error fault =>
          rw [hvalue] at h
          by_cases hfault : fault = .malformed
          · subst hfault
            cases h
            exact .inl ⟨rfl, by simp [Node.sourceFailure, Cause.isWritable]⟩
          · obtain rfl : f = .of (.badValue fault) := by
              cases fault <;> first | exact absurd rfl hfault | (cases h; rfl)
            by_cases hsurrogate : fault = .surrogate
            · subst hsurrogate
              exact .inr (.inr ⟨rfl, content, text, hread, htext, hvalue⟩)
            · exact .inr (.inl (.badValue hnull hread htext hvalue hfault hsurrogate))

/-! ## Finding the file -/

/-- A path is expanded, or that fails as no command reports it. -/
theorem failsOnly_expandHome (p : Path) (e : Setting) : p.expandHome.FailsOnly e Cli.Crashes := by
  unfold expandHome
  split
  · split
    · refine .ite (.bind (.fail ⟨rfl, fun _ _ => rfl⟩) fun _ => .setting ?_) (.setting ?_)
      all_goals
        split
        · exact .pure _
        · exact .fail ⟨rfl, fun _ _ => rfl⟩
    · exact .pure _
  · exact .pure _

end Path

/-! ## Loading -/

namespace Workflow

/-- A failure of loading that is put into no context: the home directory in the path is not known, or
    reading the document breaks, or a tag or the search for jobs needs to show a value that has too many
    digits. -/
inductive Breaks (path : Path) (e : Setting) (w : World) : Failure → Prop
  | home {f : Failure} {w₁ : World} (hpath : path.expandHome e w = (.error f, w₁)) : Breaks path e w f
  | document {p : Path} {f : Failure} {w₁ : World} (hpath : path.expandHome e w = (.ok p, w₁))
      (hdocument : p.BreaksDocument e w₁ f) : Breaks path e w f
  | tags {p : Path} {n : Node} {w₁ w₂ w₃ : World} (hpath : path.expandHome e w = (.ok p, w₁))
      (hdocument : p.document e w₁ = (.ok n, w₂))
      (htags : n.resolveAlone e w₂ = (.error (.of (.tag .unwritable)), w₃)) :
      Breaks path e w (.of (.tag .unwritable))
  | jobs {p : Path} {n m : Node} {w₁ w₂ w₃ : World} (hpath : path.expandHome e w = (.ok p, w₁))
      (hdocument : p.document e w₁ = (.ok n, w₂)) (htags : n.resolveAlone e w₂ = (.ok m, w₃))
      (hjobs : m.jobs e.taskDefaults = .error (.of (.grammar .unwritable))) :
      Breaks path e w (.of (.grammar .unwritable))

/-- Every question that is asked while a file is loaded is answered. -/
structure IsAnswered (path : Path) (e : Setting) (w : World) : Prop where
  spares : e.SparesQuestions
  answered : (load path e w).1 ≠ .error (.of .aborted)

/-- Every text can be held that is in the file at a path, as it is written or with the home directory in
    it. -/
structure HoldsTexts (path : Path) (e : Setting) (w : World) : Prop where
  written : ¬ path.HoldsSurrogate e w
  expanded : ∀ p w₁, path.expandHome e w = (.ok p, w₁) → ¬ p.HoldsSurrogate e w₁

variable {path p : Path} {e : Setting} {w w₁ w₂ w₃ : World} {n m : Node} {f : Failure}

theorem load_of_document (hpath : path.expandHome e w = (.ok p, w₁))
    (hdocument : p.document e w₁ = (.ok n, w₂)) :
    load path e w
      = ((n.resolveAlone.because Failure.isWorkflow (.resolveFile p.toText)) >>= fun m =>
          (Effect.ofExcept (m.jobs e.taskDefaults)).because Failure.isWorkflow
            (.parseFile p.toText)) e w₂ := by
  rw [load, Effect.bind_of_ok hpath, Effect.bind_of_ok hdocument]
  rfl

theorem load_of_resolved (hpath : path.expandHome e w = (.ok p, w₁))
    (hdocument : p.document e w₁ = (.ok n, w₂)) (htags : n.resolveAlone e w₂ = (.ok m, w₃)) :
    load path e w = ((Effect.ofExcept (m.jobs e.taskDefaults)).because Failure.isWorkflow
      (.parseFile p.toText)) e w₃ := by
  rw [load_of_document hpath hdocument, Effect.bind_of_ok (Effect.because_of_ok htags)]

/-- What breaks loading is what loading ends with. -/
theorem Breaks.load_fst (h : Breaks path e w f) : (load path e w).1 = .error f := by
  cases h with
  | home hpath => rw [load, Effect.bind_of_error hpath]
  | document hpath hdocument =>
    rw [load, Effect.bind_of_ok hpath, Effect.bind_of_error hdocument.document_eq]
  | tags hpath hdocument htags =>
    rw [load_of_document hpath hdocument,
      Effect.bind_of_error (Effect.because_eq_of_error htags _ _)]
    rfl
  | jobs hpath hdocument htags hjobs =>
    rw [load_of_resolved hpath hdocument htags, hjobs]
    rfl

theorem Breaks.crashes (h : Breaks path e w f) : Cli.Crashes f := by
  cases h with
  | home hpath => exact path.failsOnly_expandHome e w f (congrArg Prod.fst hpath)
  | document _ hdocument => exact hdocument.crashes
  | tags _ _ _ => exact ⟨rfl, fun _ _ => rfl⟩
  | jobs _ _ _ _ => exact ⟨rfl, fun _ _ => rfl⟩

/-- A failure of loading can be reported, or it breaks through, or a question was aborted, or there is a
    text in the file that cannot be held. -/
theorem load_cases (he : e.SparesQuestions) (h : (load path e w).1 = .error f) :
    f.IsReportable ∨ Breaks path e w f ∨ (f = .of .aborted ∧ e.operator = .terminal) ∨
      (f = .of (.badValue .surrogate) ∧
        ∃ p w₁, path.expandHome e w = (.ok p, w₁) ∧ p.HoldsSurrogate e w₁) := by
  rcases hpath : path.expandHome e w with ⟨g | p, w₁⟩
  · rw [load, Effect.bind_of_error hpath] at h
    cases h
    exact .inr (.inl (.home hpath))
  rcases hdocument : p.document e w₁ with ⟨g | n, w₂⟩
  · rw [load, Effect.bind_of_ok hpath, Effect.bind_of_error hdocument] at h
    cases h
    rcases Path.isReportable_or_breaksDocument (congrArg Prod.fst hdocument) with
      hreportable | hbreaks | ⟨hf, hholds⟩
    · exact .inl hreportable
    · exact .inr (.inl (.document hpath hbreaks))
    · exact .inr (.inr (.inr ⟨hf, p, w₁, rfl, hholds⟩))
  rcases htags : n.resolveAlone e w₂ with ⟨g | m, w₃⟩
  · have hcontext := Effect.because_eq_of_error htags Failure.isWorkflow (.resolveFile p.toText)
    rw [load_of_document hpath hdocument, Effect.bind_of_error hcontext] at h
    rcases (n.resolveAlone_cases he w₂).2 g (congrArg Prod.fst htags) with
      hg | ⟨rfl, -⟩ | ⟨rfl, hop⟩
    · rw [if_pos hg.workflow] at h
      cases h
      exact .inl (hg.because rfl rfl)
    · cases h
      exact .inr (.inl (.tags hpath hdocument htags))
    · cases h
      exact .inr (.inr (.inl ⟨rfl, hop⟩))
  rw [load_of_resolved hpath hdocument htags] at h
  cases hjobs : m.jobs e.taskDefaults with
  | ok js =>
    rw [hjobs] at h
    cases h
  | error g =>
    rw [hjobs, Effect.because_eq_of_error (rfl : Effect.ofExcept (.error g) e w₃ = _)] at h
    rcases m.refusesWith_jobs e.taskDefaults g hjobs with hg | ⟨rfl, -⟩
    · rw [if_pos hg.workflow] at h
      cases h
      exact .inl (hg.because rfl rfl)
    · cases h
      exact .inr (.inl (.jobs hpath hdocument htags hjobs))

/-- A document breaks nothing once it has been read, as long as everything in it can be shown. -/
theorem not_breaks_of_isWritable (he : e.SparesQuestions)
    (hpath : path.expandHome e w = (.ok p, w₁)) (hdocument : p.document e w₁ = (.ok n, w₂))
    (hn : n.isWritable = true) : ¬ Breaks path e w f := by
  rintro (hpath' | ⟨hpath', hbreaks⟩ | ⟨hpath', hdocument', htags⟩ |
    ⟨hpath', hdocument', htags, hjobs⟩) <;> rw [hpath] at hpath' <;> cases hpath'
  · rw [hbreaks.document_eq] at hdocument
    cases hdocument
  · rw [hdocument] at hdocument'
    cases hdocument'
    rcases (n.resolveAlone_cases he w₂).2 _ (congrArg Prod.fst htags) with
      hg | ⟨-, hwritable⟩ | ⟨hg, -⟩
    · cases hg.workflow
    · exact hwritable hn
    · cases hg
  · rw [hdocument] at hdocument'
    cases hdocument'
    have hm := (n.resolveAlone_cases he w₂).1 _ (congrArg Prod.fst htags) hn
    rcases Node.refusesWith_jobs e.taskDefaults _ _ hjobs with hg | ⟨-, hwritable⟩
    · cases hg.workflow
    · rw [hm] at hwritable
      cases hwritable

/-- A scripted operator answers every question. -/
theorem isAnswered_of_scripted (he : e.SparesQuestions) (hop : e.operator = .scripted) :
    IsAnswered path e w := by
  refine ⟨he, fun haborted => ?_⟩
  rcases load_cases he haborted with hreportable | hbreaks | ⟨-, hterminal⟩ | ⟨hf, -⟩
  · cases hreportable.workflow
  · exact Cli.not_crashes_aborted hbreaks.crashes
  · rw [hop] at hterminal
    cases hterminal
  · cases hf

end Workflow

/-! ## The commands -/

namespace Cli

variable {path : Path} {e : Setting} {w : World} {f : Failure}

/-- What a command says about a file that it cannot load. -/
def loadTitle (path : Path) : String := "Could not load workflow " ++ path.toText

theorem run_of_load_error (h : (Workflow.load path e w).1 = .error f) (job : String) (verbose : Bool) :
    run path job verbose e w = reportOr (loadTitle path) f e (Workflow.load path e w).2 := by
  have hattempt : (Workflow.load path).attempt e w = (.ok (.error f), (Workflow.load path e w).2) := by
    rw [Effect.attempt_apply, h]
  rw [run, Effect.bind_of_ok hattempt]
  rfl

theorem list_of_document_error (h : (path.document e w).1 = .error f) :
    list path e w = reportOr (loadTitle path) f e w := by
  have hattempt : path.document.attempt e w = (.ok (.error f), w) := by
    rw [Effect.attempt_apply, h, path.document_snd e w]
  rw [list, Effect.bind_of_ok hattempt]
  rfl

/-- What ends the listing of jobs as it is: a failure that breaks the reading of the document, or a name
    with too many digits to be shown. -/
inductive BreaksList (path : Path) (e : Setting) (w : World) : Failure → Prop
  | document {f : Failure} (h : path.BreaksDocument e w f) : BreaksList path e w f
  | names {place : Option Nat} {entries : Entries}
      (hdocument : path.document e w = (.ok (.map place entries), w))
      (hnames : listed entries = .error .unwritable) : BreaksList path e w .unwritable

theorem BreaksList.list_eq (h : BreaksList path e w f) : list path e w = (.error f, w) := by
  cases h with
  | document h =>
    rw [list_of_document_error (congrArg Prod.fst h.document_eq), reportOr_of_crashes h.crashes]
  | names hdocument hnames =>
    have hattempt := Effect.attempt_apply path.document e w
    rw [hdocument] at hattempt
    have hfail : Effect.ofExcept (listed _) e w = (.error .unwritable, w) := congrArg (·, w) hnames
    rw [list, Effect.bind_of_ok hattempt]
    exact Effect.bind_of_error hfail

theorem listed_of_isWritable {entries : Entries} (h : ∀ x ∈ entries, x.1.isWritable = true) :
    ∃ names, listed entries = .ok names := by
  have hall : ∀ s ∈ (entries.filter fun x => !x.1.isText Entries.ignoredKey).map (·.1),
      s.isWritable = true :=
    List.forall_mem_map.2 fun x hx => h x (List.mem_of_mem_filter hx)
  exact ⟨_, if_pos (List.all_eq_true.2 hall)⟩

/-- The names in a document are listed as long as everything in it can be shown. -/
theorem not_breaksList_of_isWritable {n : Node} (hdocument : path.document e w = (.ok n, w))
    (hn : n.isWritable = true) : ¬ BreaksList path e w f := by
  rintro (hbreaks | ⟨hdocument', hnames⟩)
  · rw [hbreaks.document_eq] at hdocument
    cases hdocument
  · rw [hdocument] at hdocument'
    cases hdocument'
    rw [Node.isWritable, Node.entriesAreWritable_iff] at hn
    obtain ⟨names, hlisted⟩ := listed_of_isWritable fun x hx => (hn x hx).1
    rw [hlisted] at hnames
    cases hnames

/-- Every other listing ends with a code, if all texts in the file can be held. -/
theorem list_cases (hheld : ¬ path.HoldsSurrogate e w) :
    (∃ code, (list path e w).1 = .ok code) ∨ ∃ f, BreaksList path e w f := by
  rcases hdocument : path.document e w with ⟨f | n, w₁⟩ <;>
    obtain rfl : w₁ = w := by rw [← path.document_snd e w, hdocument]
  · have herror := congrArg Prod.fst hdocument
    rcases Path.isReportable_or_breaksDocument herror with hreportable | hbreaks | ⟨-, hholds⟩
    · rw [list_of_document_error herror, reportOr_of_isReportable hreportable]
      exact .inl ⟨1, rfl⟩
    · exact .inr ⟨f, .document hbreaks⟩
    · exact absurd hholds hheld
  · have hattempt := Effect.attempt_apply path.document e w₁
    rw [hdocument] at hattempt
    rw [list, Effect.bind_of_ok hattempt]
    cases n with
    | map place entries =>
      cases hnames : listed entries with
      | error f =>
        obtain rfl : f = .unwritable := by
          unfold listed at hnames
          dsimp only at hnames
          split at hnames <;> cases hnames
          rfl
        exact .inr ⟨_, .names hdocument hnames⟩
      | ok names =>
        have hok : Effect.ofExcept (listed entries) e w₁ = (.ok names, w₁) :=
          congrArg (·, w₁) hnames
        dsimp only
        rw [Effect.bind_of_ok hok]
        cases names with
        | nil => exact .inl ⟨0, rfl⟩
        | cons name names =>
          have hlines : ∀ w', Console.lines ((name :: names).map ("- " ++ ·)) e w'
              = (.ok (), (Console.lines ((name :: names).map ("- " ++ ·)) e w').2) :=
            fun w' => Prod.ext (Console.lines_ok _ e w') rfl
          exact .inl ⟨0, congrArg Prod.fst (Effect.bind_of_ok (hlines _))⟩
    | _ => exact .inl ⟨1, rfl⟩

end Cli

namespace Workflow

variable {path : Path} {e : Setting} {w : World}

/-- The path of a workflow file in the working directory. -/
def samplePath : Path := ⟨.working, ["w.yml"]⟩

theorem expandHome_samplePath (w : World) :
    samplePath.expandHome .calm w = (.ok samplePath, w) := rfl

theorem isAnswered_sample (w : World) : IsAnswered samplePath .calm w :=
  isAnswered_of_scripted (fun _ _ => ⟨rfl, rfl⟩) rfl

theorem holdsTexts_samplePath {w : World} (h : ¬ samplePath.HoldsSurrogate .calm w) :
    HoldsTexts samplePath .calm w := by
  refine ⟨h, fun p w₁ hpath => ?_⟩
  rw [expandHome_samplePath] at hpath
  cases hpath
  exact h

/-- The report that the file is not there, with the error of the system behind it. -/
def missingSample : Failure :=
  ⟨.onHost (.openDocument "w.yml"), [.system 2 "No such file or directory" (some "w.yml")]⟩

/-- A world with a workflow file that holds a letter and a byte that begins no character. -/
def garbledWorld : World := .initial (.dir [("w.yml", .file [97, 255])]) []

/-- Where that byte stands and why it is no text. -/
def garbledSample : Failure := .of (.undecodable ⟨1, 1, 255, .invalidStart⟩)

end Workflow
end Runbook
