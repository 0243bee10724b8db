import Runbook.Proofs.IgnoredBlock
import Runbook.Proofs.Loading

set_option autoImplicit false

/-! # The names of the jobs

The command that lists jobs reads their names from the document as it is written; the command that runs
one finds them after the tags have been interpreted and the bodies have been read. Both find the same
names: the interpretation of a mapping leaves its keys and their order alone, whatever is answered to
its questions. Only a document that is no mapping before its tags are interpreted is told apart. -/

namespace Runbook

open Parsed

/-! ## What the interpretation of tags keeps -/

/-- At first no container has been worked through. -/
theorem TagMemory.at?_settled_start (idents : Idents) (place : Option Nat) :
    (TagMemory.start idents).settled.at? place = none := by
  cases place <;> rfl

namespace Node

open Interpretation

variable {e : Setting} {s s' : World × TagMemory} {place : Option Nat} {n m : Node} {w w' : World}
  {entries es : List (Scalar × Node)}

/-- The values of a mapping are replaced under the same keys. -/
theorem keys_interpretEntries {done : List (Scalar × Node)}
    (h : interpretEntries place done entries e s = (.ok es, s')) :
    es.map Prod.fst = done.map Prod.fst ++ entries.map Prod.fst := by
  induction entries generalizing done s with
  | nil =>
    cases h
    simp
  | cons entry entries ih =>
    obtain ⟨key, value⟩ := entry
    rw [interpretEntries] at h
    obtain ⟨-, s₁, -, h⟩ := Effect.exists_of_bind h
    obtain ⟨new, s₂, -, h⟩ := Effect.exists_of_bind h
    rw [ih h]
    simp

/-- What a document becomes is what its interpretation yields, as it stands in the end. -/
theorem exists_of_resolveAlone (h : n.resolveAlone e w = (.ok m, w')) :
    ∃ v s, n.interpret e (w, .start []) = (.ok v, s) ∧ m = s.2.view v := by
  rcases hrun : n.interpret e (w, .start []) with ⟨x | v, s⟩
  · rw [resolveAlone, resolve_of_error hrun] at h
    cases h
  · rw [resolveAlone, resolve_of_ok hrun] at h
    cases h
    exact ⟨v, s, rfl, rfl⟩

/-- A document that is a mapping keeps the keys of its entries, in their order. -/
theorem keys_of_resolveAlone (h : (map place entries).resolveAlone e w = (.ok m, w')) :
    ∃ es, m = map none es ∧ es.map Prod.fst = entries.map Prod.fst := by
  obtain ⟨v, s, hrun, rfl⟩ := exists_of_resolveAlone h
  rw [interpret_map_of_new (TagMemory.at?_settled_start [] place)] at hrun
  obtain ⟨es, s₁, hes, hrun⟩ := Effect.exists_of_bind hrun
  obtain ⟨-, s₂, -, hrun⟩ := Effect.exists_of_bind hrun
  cases hrun
  refine ⟨_, asItStands_map_none _ _, ?_⟩
  rw [List.map_map]
  exact keys_interpretEntries hes

/-- What is joined from parts is a text. -/
theorem exists_text_of_interpretJoin (h : n.interpretJoin e s = (.ok m, s')) :
    ∃ t, m = text t := by
  cases n with
  | list place items =>
    rw [interpretJoin_list] at h
    obtain ⟨t, s₁, -, h⟩ := Effect.exists_of_bind h
    cases h
    exact ⟨t, rfl⟩
  | _ => cases h

/-- What is answered to a question is a text. -/
theorem exists_text_of_input {hidden : Bool} (h : input hidden n e s = (.ok m, s')) :
    ∃ t, m = text t := by
  rw [input] at h
  obtain ⟨q, s₁, -, h⟩ := Effect.exists_of_bind h
  obtain ⟨t, s₂, -, h⟩ := Effect.exists_of_bind h
  cases h
  exact ⟨t, rfl⟩

/-- A tagged node stands for a text, unless it names an id. -/
theorem exists_text_of_tagged {name : String} (hname : name ≠ "Id")
    (h : (tagged name n).interpret e s = (.ok m, s')) : ∃ t, m = text t := by
  by_cases hjoin : name = "StrF"
  · subst hjoin
    rw [interpret_strF] at h
    exact exists_text_of_interpretJoin (of_under h)
  by_cases hinput : name = "Input"
  · subst hinput
    rw [interpret_input] at h
    obtain ⟨k, s₁, -, h⟩ := Effect.exists_of_bind (of_under h)
    exact exists_text_of_input h
  by_cases hhidden : name = "HiddenInput"
  · subst hhidden
    rw [interpret_hiddenInput] at h
    obtain ⟨k, s₁, -, h⟩ := Effect.exists_of_bind (of_under h)
    exact exists_text_of_input h
  · rw [interpret, if_neg hjoin, if_neg hinput, if_neg hhidden, if_neg hname] at h
    cases h

/-- A document is a mapping, as it is written. -/
def IsMapping (n : Node) : Prop := ∃ place entries, n = map place entries

/-- A document that becomes a mapping is one from the start, or the value of an id. -/
theorem isMapping_of_resolveAlone (h : n.resolveAlone e w = (.ok m, w')) (hm : m.IsMapping) :
    n.IsMapping ∨ ∃ payload, n = tagged "Id" payload := by
  obtain ⟨v, s, hrun, rfl⟩ := exists_of_resolveAlone h
  obtain ⟨place, es, hes⟩ := hm
  cases n with
  | map place' entries => exact .inl ⟨place', entries, rfl⟩
  | tagged name payload =>
    by_cases hname : name = "Id"
    · exact .inr ⟨payload, by rw [hname]⟩
    · obtain ⟨t, rfl⟩ := exists_text_of_tagged hname hrun
      rw [TagMemory.view, text, asItStands_scalar] at hes
      cases hes
  | list place' items =>
    -- nothing has been worked through before, so the list does not stand for another container
    rw [interpret_list_of_new (TagMemory.at?_settled_start [] place')] at hrun
    obtain ⟨new, s₁, -, hrun⟩ := Effect.exists_of_bind hrun
    obtain ⟨-, s₂, -, hrun⟩ := Effect.exists_of_bind hrun
    cases hrun
    rw [TagMemory.view, asItStands_list_none] at hes
    cases hes
  | scalar _ =>
    cases hrun
    rw [TagMemory.view, asItStands_scalar] at hes
    cases hes
  | pair _ _ =>
    cases hrun
    rw [TagMemory.view, asItStands_pair] at hes
    cases hes
  | set _ =>
    cases hrun
    rw [TagMemory.view, asItStands.eq_def] at hes
    cases hes

theorem isMapping_of_jobs {d : TaskDefaults} {js : List Job} (h : n.jobs d = .ok js) :
    n.IsMapping := by
  cases n with
  | map place entries => exact ⟨place, entries, rfl⟩
  | _ => exact (refuse_ne_ok _ _ h).elim

theorem hasTextKeys_of_jobs {d : TaskDefaults} {js : List Job}
    (h : (map place entries).jobs d = .ok js) : Entries.HasTextKeys entries := by
  rw [jobs_map] at h
  exact (Entries.jobsBy_eq_ok.1 h).1

end Node

/-! ## The names in a document -/

namespace Entries

variable {es es' : Entries}

/-- The names of the jobs are found among the keys. -/
theorem jobNames_congr (h : es'.map Prod.fst = es.map Prod.fst) : es'.jobNames = es.jobNames := by
  induction es generalizing es' with
  | nil => rw [List.map_eq_nil_iff.1 h]
  | cons e es ih =>
    obtain ⟨e', rest, rfl, hkey, hrest⟩ := List.map_eq_cons_iff.1 h
    simp only [jobNames] at ih ⊢
    simp only [List.filterMap_cons, hkey, ih hrest]

theorem HasTextKeys.congr (h : es'.map Prod.fst = es.map Prod.fst) (hes : es'.HasTextKeys) :
    es.HasTextKeys := by
  intro e he
  have hmem : e.1 ∈ es'.map Prod.fst := h ▸ List.mem_map_of_mem he
  obtain ⟨e', he', hkey⟩ := List.mem_map.1 hmem
  rw [← hkey]
  exact hes e' he'

/-- The keys but for the one that is passed over are the names of the jobs. -/
theorem keys_filter (h : es.HasTextKeys) :
    (es.filter fun e => !e.1.isText ignoredKey).map Prod.fst = es.jobNames.map Scalar.text := by
  induction es with
  | nil => rfl
  | cons e es ih =>
    obtain ⟨key, value⟩ := e
    obtain ⟨name, rfl⟩ : ∃ name, key = .text name := h _ List.mem_cons_self
    have hrest := ih (hasTextKeys_cons.1 h)
    rw [jobNames_cons]
    split_ifs with hname
    · simpa [Scalar.isText, hname] using hrest
    · simpa [Scalar.isText, hname] using hrest

/-- The names of the jobs are listed if all keys are texts. -/
theorem listed_eq (h : es.HasTextKeys) : Cli.listed es = .ok es.jobNames := by
  have hall : (es.jobNames.map Scalar.text).all Scalar.isWritable = true :=
    List.all_eq_true.2 (List.forall_mem_map.2 fun _ _ => rfl)
  unfold Cli.listed
  dsimp only
  rw [keys_filter h, if_pos hall, List.map_map]
  exact congrArg Except.ok (List.map_id _)

end Entries

/-! ## The commands -/

namespace Console

theorem lines_apply (texts : List String) (e : Setting) (w : World) :
    lines texts e w = (.ok (), { w with out := w.out ++ String.join (texts.map (· ++ "\n")) }) := by
  induction texts generalizing w with
  | nil => simp [lines]
  | cons text texts ih =>
    have hfirst : Action.writeLine text e w = (.ok (), { w with out := w.out ++ (text ++ "\n") }) := rfl
    rw [lines, Effect.bind_of_ok hfirst, ih, List.map_cons, String.join_cons, String.append_assoc]

end Console

/-- A file with some content is at a path. -/
def Path.HasFile (p : Path) (e : Setting) (w : World) (content : Bytes) : Prop :=
  noNull p.toText = true ∧ w.files.read e.workingDir p = .ok content

/-- The document that is written in some bytes. -/
def Node.ofBytes (content : Bytes) : Except Failure Node := (sourceOfBytes content).bind Node.ofSource

theorem Path.HasFile.document_eq {p : Path} {e : Setting} {w : World} {content : Bytes}
    (h : p.HasFile e w content) : p.document e w = (Node.ofBytes content, w) :=
  document_of_read h.1 h.2

/-- A setting in which a run is traced or not. -/
def Setting.tracing (e : Setting) (debug : Bool) : Setting := { e with debug := debug }

namespace Workflow

variable {path : Path} {e : Setting} {w w' : World} {jobs : List Job} {content : Bytes}

/-- The file of a workflow has some content, where a tilde in its path is expanded. -/
def HasContent (path : Path) (e : Setting) (w : World) (content : Bytes) : Prop :=
  ∃ p, path.expandHome e w = (.ok p, w) ∧ p.HasFile e w content

/-- The jobs of a file are those of the document in it, with its tags interpreted. -/
theorem load_eq_ok_iff (hcontent : HasContent path e w content) :
    load path e w = (.ok jobs, w') ↔ ∃ n m, Node.ofBytes content = .ok n ∧
      n.resolveAlone e w = (.ok m, w') ∧ m.jobs e.taskDefaults = .ok jobs := by
  obtain ⟨p, hpath, hfile⟩ := hcontent
  have hdocument := hfile.document_eq
  constructor
  · intro h
    cases hn : Node.ofBytes content with
    | error f =>
      rw [hn] at hdocument
      rw [load, Effect.bind_of_ok hpath, Effect.bind_of_error hdocument] at h
      cases h
    | ok n =>
      rw [hn] at hdocument
      rcases htags : n.resolveAlone e w with ⟨f | m, w₁⟩
      · rw [load_of_document hpath hdocument,
          Effect.bind_of_error (Effect.because_eq_of_error htags _ _)] at h
        cases h
      · rw [load_of_resolved hpath hdocument htags] at h
        cases hjobs : m.jobs e.taskDefaults with
        | error f =>
          rw [hjobs, Effect.because_eq_of_error (rfl : Effect.ofExcept (.error f) e w₁ = _)] at h
          cases h
        | ok js =>
          rw [hjobs] at h
          cases h
          exact ⟨n, m, rfl, htags, hjobs⟩
  · rintro ⟨n, m, hn, htags, hjobs⟩
    rw [hn] at hdocument
    rw [load_of_resolved hpath hdocument htags, hjobs]
    rfl

end Workflow

namespace Cli

variable {file : Path} {e : Setting} {w w' : World} {n : Node} {args : List String} {arg : String}
  {debug : Bool} {code : Nat}

/-- The list of the names of some jobs, one on each line. -/
def listing : List String → String
  | [] => "No jobs defined.\n"
  | names => "Jobs:\n" ++ String.join (names.map fun name => "- " ++ name ++ "\n")

/-- What is said about a file whose document is no mapping. -/
def notMapping (file : Path) : String :=
  "\nERROR: Invalid workflow\n" ++ (file.toText ++ " does not contain a mapping of jobs" ++ "\n")

theorem list_of_mapping {place : Option Nat} {entries : Entries}
    (hdocument : file.document e w = (.ok (.map place entries), w)) (hkeys : entries.HasTextKeys) :
    list file e w = (.ok 0, { w with out := w.out ++ listing entries.jobNames }) := by
  have hattempt := Effect.attempt_apply file.document e w
  rw [hdocument] at hattempt
  have hlisted : Effect.ofExcept (listed entries) e w = (.ok entries.jobNames, w) :=
    congrArg (·, w) (Entries.listed_eq hkeys)
  rw [list, Effect.bind_of_ok hattempt]
  dsimp only
  rw [Effect.bind_of_ok hlisted]
  cases entries.jobNames with
  | nil => rfl
  | cons name names =>
    have htitle : Console.info "Jobs:" e w = (.ok (), { w with out := w.out ++ "Jobs:\n" }) := rfl
    have hlisting : listing (name :: names)
        = "Jobs:\n" ++ String.join ((name :: names).map fun name => "- " ++ name ++ "\n") := rfl
    dsimp only
    rw [Effect.bind_of_ok htitle, Effect.bind_of_ok (Console.lines_apply _ _ _), hlisting,
      List.map_map, String.append_assoc]
    rfl

theorem list_of_not_mapping (hdocument : file.document e w = (.ok n, w)) (hn : ¬ n.IsMapping) :
    list file e w = (.ok 1, { w with err := w.err ++ notMapping file }) := by
  have hattempt := Effect.attempt_apply file.document e w
  rw [hdocument] at hattempt
  rw [list, Effect.bind_of_ok hattempt]
  cases n with
  | map place entries => exact absurd ⟨place, entries, rfl⟩ hn
  | _ => exact congrArg (fun err => (_, { w with err := err })) String.append_assoc

/-- Whether the run is traced does not matter to which file an argument names. -/
theorem workflowFile_tracing (arg : String) (debug : Bool) (e : Setting) (w : World) :
    workflowFile arg (e.tracing debug) w = workflowFile arg e w := by
  unfold workflowFile
  cases noNull arg with
  | false => rfl
  | true =>
    simp only [Bool.not_true, Bool.false_eq_true, if_false, Effect.bind_apply, Effect.get_apply,
      Effect.setting_apply, Setting.tracing]
    rcases w.files.atText? e.workingDir arg with _ | _ | _
    · rfl
    · dsimp only
      split <;> rfl
    · rfl

/-- The request of a command line is carried out with its outcome kept as a value. -/
theorem attempt_perform (request : Request) (debug : Bool) (e : Setting) (w : World) :
    ((perform request).within fun e => { e with debug := debug }).attempt e w
      = (.ok (perform request (e.tracing debug) w).1, (perform request (e.tracing debug) w).2) := rfl

/-- The program ends with the code that the request of its command line yields. -/
theorem program_of_perform {request : Request} (hargs : Request.ofArgs args = .ok (debug, request))
    (hperform : perform request (e.tracing debug) w = (.ok (.code code), w')) :
    program args e w = (.ok (.code code), w') := by
  have hattempt := attempt_perform request debug e w
  rw [hperform] at hattempt
  rw [program, hargs]
  dsimp only
  rw [Effect.bind_of_ok hattempt]
  rfl

/-- A command line that asks for the jobs of a file ends as the listing of that file does. -/
theorem program_list (hargs : Request.ofArgs args = .ok (debug, .list [arg]))
    (hfile : workflowFile arg e w = (.ok (.ok file), w))
    (hlist : list file (e.tracing debug) w = (.ok code, w')) :
    program args e w = (.ok (.code code), w') := by
  have hfile' : workflowFile arg (e.tracing debug) w = (.ok (.ok file), w) :=
    (workflowFile_tracing arg debug e w).trans hfile
  refine program_of_perform hargs ?_
  rw [perform, Effect.bind_of_ok hfile']
  dsimp only [List.isEmpty]
  rw [if_pos rfl, Effect.bind_of_ok hlist]
  rfl

/-- A world with a workflow file of some content. -/
def worldWith (content : Bytes) : World := .initial (.dir [("w.yml", .file content)]) []

theorem hasFile_worldWith (content : Bytes) (lines : List String) :
    Workflow.samplePath.HasFile .calm { worldWith content with lines := lines } content :=
  ⟨by decide +kernel, rfl⟩

theorem ofArgs_listSample : Request.ofArgs ["list", "w.yml"] = .ok (false, .list ["w.yml"]) := by
  decide +kernel

/-- A workflow file in which a question is asked. -/
def askingContent : Bytes := .ofText "a: [\x7bprint: !Input x\x7d]\nb: []\n"

/-- The document in it. -/
def askingDocument : Node :=
  .map (some 0) [(.text "a", .list (some 2) [.map (some 3) [(.text "print", .tagged "Input"
    (.text "x"))]]), (.text "b", .list (some 7) [])]

/-- The same document, with the question answered. -/
def answeredDocument : Node :=
  .map none [(.text "a", .list none [.map none [(.text "print", .text "me")]]),
    (.text "b", .list none [])]

/-- A workflow file whose document is the value of an id. -/
def taggedContent : Bytes := .ofText "!Id [x, \x7ba: []\x7d]\n"

/-- The document in it. -/
def taggedDocument : Node :=
  .tagged "Id" (.list (some 0) [.text "x", .map (some 2) [(.text "a", .list (some 4) [])]])

end Cli
end Runbook
