import Runbook.Proofs.GuardedRuns

set_option autoImplicit false

/-! # Passwords that are words

The console puts names into texts of its own. What stands next to a name there is neither a letter nor a
digit. So a password of letters and digits is in such a text only if it is in a name, or in a text of
the console; and one with a letter is in no number. What is written and reported in a run does not hold
such a password if the names do not, but for the commands for its host and what they yield. -/

namespace Runbook

open Text (Lacks Misses Unsaid)

/-! ## Texts around names -/

namespace Text

variable {p s t : String}

/-- Letters and digits, with a letter among them. -/
structure IsWord (p : String) : Prop where
  alphanumeric : ∀ c ∈ p.toList, c.isAlphanum = true
  letter : ∃ c ∈ p.toList, c.isDigit = false

/-- Whether a text begins with a character that is in no word. -/
def startsApart (s : String) : Bool := s.toList.head?.any fun c => !c.isAlphanum

/-- Whether a text ends with a character that is in no word. -/
def endsApart (s : String) : Bool := s.toList.getLast?.any fun c => !c.isAlphanum

/-- Whether the characters of a text are digits, or in no word. -/
def isLetterless (s : String) : Bool := s.toList.all fun c => c.isDigit || !c.isAlphanum

theorem startsApart_iff : startsApart s = true ↔
    ∃ c rest, s.toList = c :: rest ∧ c.isAlphanum = false := by
  rw [startsApart, Option.any_eq_true]
  simp [List.head?_eq_some_iff]

theorem endsApart_iff : endsApart s = true ↔
    ∃ c front, s.toList = front ++ [c] ∧ c.isAlphanum = false := by
  rw [endsApart, Option.any_eq_true]
  simp [List.getLast?_eq_some_iff]

theorem startsApart_append (h : startsApart s = true) : startsApart (s ++ t) = true := by
  obtain ⟨c, rest, hrest, hc⟩ := startsApart_iff.1 h
  exact startsApart_iff.2 ⟨c, rest ++ t.toList, by rw [String.toList_append, hrest]; rfl, hc⟩

theorem endsApart_append (h : endsApart t = true) : endsApart (s ++ t) = true := by
  obtain ⟨c, front, hfront, hc⟩ := endsApart_iff.1 h
  refine endsApart_iff.2 ⟨c, s.toList ++ front, ?_, hc⟩
  rw [String.toList_append, hfront, List.append_assoc]

namespace IsWord

variable (hp : IsWord p)

include hp

theorem not_mem {c : Char} (hc : c.isAlphanum = false) : c ∉ p.toList := by
  intro hmem
  rw [hp.alphanumeric c hmem] at hc
  cases hc

theorem ne_empty : p ≠ "" := by
  rintro rfl
  obtain ⟨c, hc, -⟩ := hp.letter
  cases hc

theorem append_of_ends (hends : endsApart s = true) (hs : Lacks p s) (ht : Lacks p t) :
    Lacks p (s ++ t) := by
  obtain ⟨c, front, hfront, hc⟩ := endsApart_iff.1 hends
  intro hin
  rw [String.toList_append, hfront, List.append_assoc] at hin
  rcases isInfix_of_append_cons (hp.not_mem hc) hin with hin | hin
  · exact hs (hfront ▸ hin.trans (List.prefix_append front [c]).isInfix)
  · exact ht hin

theorem append_of_starts (hstarts : startsApart t = true) (hs : Lacks p s) (ht : Lacks p t) :
    Lacks p (s ++ t) := by
  obtain ⟨c, rest, hrest, hc⟩ := startsApart_iff.1 hstarts
  intro hin
  rw [String.toList_append, hrest] at hin
  rcases isInfix_of_append_cons (hp.not_mem hc) hin with hin | hin
  · exact hs hin
  · exact ht (hrest ▸ hin.trans (List.suffix_cons c rest).isInfix)

theorem precedes_of_ends (hends : endsApart s = true) (hs : Lacks p s) : Precedes p s := by
  obtain ⟨c, front, hfront, hc⟩ := endsApart_iff.1 hends
  intro body tail htail hne hpre
  rw [hfront] at htail
  obtain rfl | ⟨rest, rfl, hrest⟩ := List.suffix_concat_iff.1 htail
  · exact hne rfl
  -- an occurrence that begins in front of the last character does not go over it
  · have hlast := List.prefix_append (rest ++ [c]) body.toList
    rcases List.prefix_or_prefix_of_prefix hpre hlast with h | h
    · exact hs (hfront ▸ h.isInfix.trans htail.isInfix)
    · exact hp.not_mem hc (h.subset (by simp))

theorem precedes_indentation (depth : Nat) : Precedes p (indentation depth) :=
  Text.precedes_indentation (hp.not_mem (by decide)) hp.ne_empty depth

theorem lacks_of_isLetterless (hs : isLetterless s = true) : Lacks p s := by
  intro hin
  obtain ⟨c, hc, hletter⟩ := hp.letter
  have hplain := List.all_eq_true.1 hs c (hin.subset hc)
  rw [hletter, hp.alphanumeric c hc] at hplain
  cases hplain

end IsWord

theorem isLetterless_int (n : Int) : isLetterless (toString n) = true := by
  rw [isLetterless, List.all_eq_true]
  intro c hc
  rcases mem_toString_int hc with hdigit | rfl
  · rw [hdigit, Bool.true_or]
  · decide

theorem isLetterless_shownInts (ns : List Int) : isLetterless (shownInts ns) = true := by
  rw [isLetterless, List.all_eq_true]
  intro c hc
  rcases mem_bracketed hc with ⟨s, hs, hmem⟩ | hmark
  · obtain ⟨n, -, rfl⟩ := List.mem_map.1 hs
    exact List.all_eq_true.1 (isLetterless_int n) c hmem
  · simp only [List.mem_cons, List.not_mem_nil, or_false] at hmark
    rcases hmark with rfl | rfl | rfl | rfl <;> decide

end Text

/-! ## Texts of the console -/

namespace Console

/-- What the console writes in front of a name or a number. -/
def leads : List String :=
  ["[DEBUG] ", "[", "\n", "ssh ", "spawn ", "parallel task ", "skipping on-", "on-", "Executing Job ",
    "Job ", "\nJob tree: ", "\nERROR: ", "Job '", "Parallel task ", "OSDependent ",
    "ParallelTask (threads=", "PrintTask(prompt=", "Fake ", "Failed to connect via ssh to ",
    "Error while executing command via ssh: \x60",
    "Something went wrong while executing a command (\x60", "Failed while executing ",
    " (detached without waiting: ", "Error while reading file ", "Could not create local file ",
    "Error while creating directory ", "Error while reading directory ", "Local ", "Path ", "File ",
    "Directory ", "[Errno 2] No such file or directory: ", "[Errno 21] Is a directory: ",
    "[Errno 20] Not a directory: ", "[Errno 17] File exists: ", "[Errno 36] File name too long: ",
    "Error while getting stats of remote path ", "Could not read remote file ",
    "Error while writing to remote file ", "Could not create remote directory ", "Remote path ",
    "Error while receiving ", "Error while creating file ", "scp: "]

/-- What the console writes between two names or numbers. -/
def links : List String :=
  [": ", ":", " as ", " (", "] #", " (cwd=", " failed, detaching ", "' failed at task ", " of ",
    ", tasks=", "(args=", ", work_dir=", ", allowed_exit_codes=", "\x60). Exit code ", " command ",
    " did not succeed (exit=", ", allowed="]

/-- What the console writes behind a name or a number. -/
def closes : List String :=
  [" ", ")", "\x60", ".", " task(s))", ": SUCCESS", " failed", " done", " remaining", " branch",
    " does not exist", " already exists", " via sftp", " is neither a file nor a directory",
    " via scp", " on remote machine", ": No such file or directory"]

/-- What the console writes as a name of its own, or as a message without names. -/
def phrases : List String :=
  ["Caused by", "None", "Bash", "Cmd", "bash", "cmd", "linux", "windows", "'linux'", "'windows'",
    "<traceback>", "\nInterrupted by user", "embedded null byte", "Could not create sftp subsystem",
    "[Errno 2] No such file", "Exceeds the limit (4300 digits) for integer string conversion; ",
    "Unexpected error: ValueError: Exceeds the limit (4300 digits) for integer string conversion; ",
    "use sys.set_int_max_str_digits() to increase the limit"]

/-- A word that the console does not write on its own account: it is not in the marker, in no label of an
    error, and in none of the texts around names. -/
structure IsForeign (p : String) : Prop extends Text.IsWord p where
  marker : Lacks p Redaction.standardMarker
  labels : ∀ k : Kind, Lacks p k.label
  leads : ∀ s ∈ leads, Lacks p s
  links : ∀ s ∈ links, Lacks p s
  closes : ∀ s ∈ closes, Lacks p s
  phrases : ∀ s ∈ phrases, Lacks p s

namespace IsForeign

variable {p s t cut : String} (hp : IsForeign p)

include hp

theorem lead (hs : s ∈ Console.leads) (ht : Lacks p t) : Lacks p (s ++ t) := by
  have hends : ∀ s ∈ Console.leads, Text.endsApart s = true := by decide +kernel
  exact hp.append_of_ends (hends s hs) (hp.leads s hs) ht

theorem close (hs : Lacks p s) (ht : t ∈ Console.closes) : Lacks p (s ++ t) := by
  have hstarts : ∀ s ∈ Console.closes, Text.startsApart s = true := by decide +kernel
  exact hp.append_of_starts (hstarts t ht) hs (hp.closes t ht)

theorem link (hs : Lacks p s) (hcut : cut ∈ Console.links) (ht : Lacks p t) :
    Lacks p (s ++ cut ++ t) := by
  have hapart : ∀ s ∈ Console.links, Text.startsApart s = true ∧ Text.endsApart s = true := by
    decide +kernel
  obtain ⟨hstarts, hends⟩ := hapart cut hcut
  refine hp.append_of_ends (Text.endsApart_append hends) ?_ ht
  exact hp.append_of_starts hstarts hs (hp.links cut hcut)

theorem enclose (hs : s ∈ Console.leads) (h : Lacks p cut) (ht : t ∈ Console.closes) :
    Lacks p (s ++ cut ++ t) := hp.close (hp.lead hs h) ht

theorem number (n : Int) : Lacks p (toString n) := hp.lacks_of_isLetterless (Text.isLetterless_int n)

theorem count (n : Nat) : Lacks p (toString n) := hp.number n

theorem numbers (ns : List Int) : Lacks p (Text.shownInts ns) :=
  hp.lacks_of_isLetterless (Text.isLetterless_shownInts ns)

theorem unsaid {message : String} (k : Kind) (h : Lacks p message) : Unsaid p k.label message :=
  Text.unsaid_of_lacks hp.ne_empty (hp.not_mem (by decide)) (hp.not_mem (by decide))
    (hp.phrases _ (by decide)) (hp.labels k) h

end IsForeign
end Console

/-! ## What does not hold a word -/

section Omits

open Console (IsForeign)

variable {p : String} {N : String → Prop} {e : Setting}

/-- No message of a failure holds a literal. -/
def Failure.Omits (p : String) (f : Failure) : Prop := ∀ c ∈ f.links, Lacks p c.message

/-- What is said of a host does not hold a literal. -/
structure Target.Omits (p : String) (target : Target) : Prop where
  address : Lacks p target.address
  username : Lacks p target.username

/-- A path does not hold a literal, as it is and in quotes. -/
structure PathOmits (p path : String) : Prop where
  shown : Lacks p path
  quoted : Lacks p (Text.quoted path)

/-- A local command does not hold a literal as it is shown, and neither does what comes of it. -/
structure LocalCommand.Omits (p : String) (e : Setting) (c : LocalCommand) : Prop where
  words : Lacks p (Text.quotedWords c.words)
  argv : Lacks p (Text.quotedWords c.argv)
  workDir : Lacks p (shownText? c.workDir)
  directory : Lacks p c.shownDirectory
  fault : ∀ past x, c.ended e past = .error x → x.Omits p
  stderr : ∀ past code stderr, c.ended e past = .ok (code, stderr) →
    Lacks p (Text.trimEnd (Text.tail e.stderrTail stderr))

/-- A literal is not in the paths that a transfer may come across if all names are of a kind, nor in its
    host; it is in the text of the transfer only as the password that is taken out. -/
structure Transfer.Omits (p : String) (N : String → Prop) (t : Transfer) : Prop where
  target : t.target.Omits p
  text : t.target.password = p ∨ Lacks p (t.kind.shown ++ "(target=" ++ t.target.shown
    ++ ", remote_path=" ++ Text.quoted t.remotePath ++ ", local_path=" ++ Text.quoted t.localPath
    ++ ")")
  localNames : Text.OnlyNames N t.localPath
  remoteNames : Text.OnlyNames N t.remotePath
  remotePath : Lacks p t.remotePath
  here : ∀ q, Path.LeadsOn N (Path.ofText t.localPath) q → PathOmits p q.toText
  parent : PathOmits p (Path.ofText t.localPath).parent.toText
  there : ∀ q, Path.LeadsOn N (Path.ofText t.remotePath) q → Lacks p q.toText

/-- A literal is not in what is said of a batch of commands and what these yield, unless it is the
    password that is taken out. -/
structure BatchOmits (p : String) (e : Setting) (target : Target) (commands : List RemoteCommand) :
    Prop where
  host : target.Omits p
  text : target.password = p ∨ Lacks p ("SshTask(target=" ++ target.shown ++ ", commands="
    ++ Text.bracketed (commands.map RemoteCommand.shown) ++ ")")
  commands : target.password = p ∨ ∀ c ∈ commands, Lacks p c.command ∧
    ∀ past, Lacks p (Text.trimEnd (Text.decodeLossy (e.result past c.command).output))

namespace Task

mutual

/-- A literal is in no name of a task and the tasks that it holds, in no message that these print, and in
    none of their paths, hosts and local commands. -/
def Omits (p : String) (N : String → Prop) (e : Setting) : Task → Prop
  | job name tasks => Lacks p name ∧ Lacks p (Text.quoted name) ∧ OmitsEach p N e tasks
  | onPlatform _ tasks => OmitsEach p N e tasks
  | parallel tasks _ => OmitsEach p N e tasks
  | print message => Lacks p message ∧ Lacks p (Text.quoted message)
  | run command => command.Omits p e
  | ssh target commands => BatchOmits p e target commands
  | transfer t => t.Omits p N
  | probe name failure => Lacks p name ∧ ∀ f ∈ failure, f.Omits p

/-- The same for each of some tasks. -/
def OmitsEach (p : String) (N : String → Prop) (e : Setting) : List Task → Prop
  | [] => True
  | t :: ts => Omits p N e t ∧ OmitsEach p N e ts

end

mutual

theorem omits_of_mem_levels : ∀ (t : Task) (d : Int), t.Omits p N e →
    ∀ x ∈ t.levels d, x.2.Omits p N e
  | job name tasks, d, h, x, hx => by
    rw [levels] at hx
    rcases List.mem_cons.1 hx with rfl | hx
    · exact h
    · exact omits_of_mem_levelsOf tasks (d + 1) h.2.2 x hx
  | onPlatform platform tasks, d, h, x, hx => by
    rw [levels] at hx
    rcases List.mem_cons.1 hx with rfl | hx
    · exact h
    · exact omits_of_mem_levelsOf tasks (d + 1) h x hx
  | parallel tasks threads, d, h, x, hx => by
    rw [levels] at hx
    rcases List.mem_cons.1 hx with rfl | hx
    · exact h
    · exact omits_of_mem_levelsOf tasks (d + 1) h x hx
  | print _, _, h, x, hx | run _, _, h, x, hx | ssh _ _, _, h, x, hx | transfer _, _, h, x, hx
  | probe _ _, _, h, x, hx => by
    obtain rfl := List.mem_singleton.1 hx
    exact h

theorem omits_of_mem_levelsOf : ∀ (ts : List Task) (d : Int), OmitsEach p N e ts →
    ∀ x ∈ levelsOf d ts, x.2.Omits p N e
  | [], _, _, x, hx => nomatch hx
  | t :: ts, d, h, x, hx => by
    rw [levelsOf] at hx
    rcases List.mem_append.1 hx with hx | hx
    · exact omits_of_mem_levels t d h.1 x hx
    · exact omits_of_mem_levelsOf ts d h.2 x hx

end

end Task

/-! ## Reports with names in them -/

variable (hp : IsForeign p)

include hp

theorem Failure.Omits.isUnsaid {f : Failure} (h : f.Omits p) : f.IsUnsaid p :=
  fun c hc => hp.unsaid c.kind (h c hc)

theorem unsaid_job {owner : String} (howner : Lacks p owner) (index : Int) :
    Unsaid p "JobError" ("Job '" ++ owner ++ "' failed at task " ++ toString index) :=
  hp.unsaid .job (hp.link (hp.lead (by decide) howner) (by decide) (hp.number index))

theorem groupUnsaid_of_isForeign (count : Nat) : GroupUnsaid p count := by
  intro i _ pending _ _
  have hfailed : Lacks p ("Parallel task " ++ toString (i : Int) ++ " of "
      ++ toString (count : Int) ++ " failed") :=
    hp.close (hp.link (hp.lead (by decide) (hp.number i)) (by decide) (hp.number count)) (by decide)
  refine hp.unsaid .parallelTask ?_
  -- the list of the pending tasks follows unless there are none
  split
  · rwa [String.append_empty]
  · refine hp.append_of_starts ?_ hfailed (hp.enclose (by decide) (hp.numbers _) (by decide))
    exact Text.startsApart_append (Text.startsApart_append (by decide))

theorem plainUnsaid_of_isForeign : PlainUnsaid p where
  unwritable := by
    refine hp.unsaid .value (hp.append_of_ends (by decide) ?_ ?_)
    · exact hp.phrases _ (by decide)
    · exact hp.phrases _ (by decide)
  nullInPath := hp.unsaid .value (hp.phrases _ (by decide))
  openSftp := hp.unsaid .remoteChannel (hp.phrases _ (by decide))
  noFile := hp.unsaid .fileNotFound (hp.phrases _ (by decide))

theorem Target.Omits.isUnsaid {target : Target} (h : target.Omits p) : target.IsUnsaid p := by
  refine hp.unsaid .remoteConnect (hp.link (hp.link ?_ (by decide) ?_) (by decide) h.username)
  · exact hp.lead (by decide) h.address
  · exact hp.number target.port

theorem RemoteCommand.isUnsaid_of_isForeign (c : RemoteCommand) : c.IsUnsaid p e where
  channel hc := hp.unsaid .remoteChannel (hp.enclose (by decide) hc (by decide))
  code hc past := by
    have hcode := hp.number (e.result past c.command).code
    exact hp.unsaid .remoteCommand
      (hp.close (hp.link (hp.lead (by decide) hc) (by decide) hcode) (by decide))

theorem LocalCommand.Omits.isUnsaid {c : LocalCommand} (h : c.Omits p e) : c.IsUnsaid p e where
  run := by
    have hprogram : Lacks p c.program := by
      unfold LocalCommand.program
      cases c.shell with
      | bash => exact hp.phrases _ (by decide)
      | cmd => exact hp.phrases _ (by decide)
    exact hp.unsaid .localFile (hp.link (hp.lead (by decide) hprogram) (by decide) h.words)
  fault past x hx := (h.fault past x hx).isUnsaid hp
  code past code stderr hended := by
    have hcodes : Lacks p (Text.quotedWords c.words ++ " did not succeed (exit=" ++ toString code
        ++ ", allowed=" ++ Text.shownInts c.reportedCodes ++ ")") := by
      refine hp.close (hp.link (hp.link h.words (by decide) ?_) (by decide) ?_) (by decide)
      · exact hp.number code
      · exact hp.numbers c.reportedCodes
    refine hp.unsaid .shellCommand ?_
    -- the error output follows on a line of its own, unless there is none
    split
    · rwa [String.append_empty]
    · refine hp.append_of_starts (Text.startsApart_append (by decide)) hcodes ?_
      exact hp.lead (by decide) (h.stderr past code stderr hended)

theorem PathOmits.localUnsaid {path : String} (h : PathOmits p path) : LocalUnsaid p path where
  readFile := hp.unsaid .localFile (hp.lead (by decide) h.shown)
  createFile := hp.unsaid .localFile (hp.lead (by decide) h.shown)
  createDirectory := hp.unsaid .localFile (hp.lead (by decide) h.shown)
  readDirectory := hp.unsaid .localFile (hp.lead (by decide) h.shown)
  missing := hp.unsaid .notFound (hp.enclose (by decide) h.shown (by decide))
  missingParent := hp.unsaid .notFound (hp.enclose (by decide) h.shown (by decide))
  fileThere := hp.unsaid .alreadyExists (hp.enclose (by decide) h.shown (by decide))
  directoryThere := hp.unsaid .alreadyExists (hp.enclose (by decide) h.shown (by decide))
  noFile := hp.unsaid .fileNotFound (hp.lead (by decide) h.quoted)
  isDirectory := hp.unsaid .isADirectory (hp.lead (by decide) h.quoted)
  notDirectory := hp.unsaid .notADirectory (hp.lead (by decide) h.quoted)
  occupied := hp.unsaid .fileExists (hp.lead (by decide) h.quoted)
  nameTooLong := hp.unsaid .system (hp.lead (by decide) h.quoted)

theorem remoteUnsaid_of_lacks {path : String} (h : Lacks p path) : RemoteUnsaid p path where
  readStatus := hp.unsaid .remoteChannel (hp.lead (by decide) h)
  readFile := hp.unsaid .remoteChannel (hp.lead (by decide) h)
  readDirectory := hp.unsaid .remoteChannel (hp.enclose (by decide) h (by decide))
  writeFile := hp.unsaid .remoteChannel (hp.lead (by decide) h)
  createDirectory := hp.unsaid .remoteChannel (hp.lead (by decide) h)
  missing := hp.unsaid .notFound (hp.enclose (by decide) h (by decide))
  neither := hp.unsaid .notFound (hp.enclose (by decide) h (by decide))
  there := hp.unsaid .alreadyExists (hp.enclose (by decide) h (by decide))

theorem copyUnsaid_of_lacks {path : String} (h : Lacks p path) : CopyUnsaid p path where
  receive := hp.unsaid .remoteChannel (hp.enclose (by decide) h (by decide))
  create := hp.unsaid .remoteChannel (hp.enclose (by decide) h (by decide))
  noFile := hp.unsaid .scp (hp.enclose (by decide) h (by decide))

theorem Transfer.Omits.isUnsaid {t : Transfer} (h : t.Omits p N) : t.IsUnsaid p N where
  target := h.target.isUnsaid hp
  localNames := h.localNames
  remoteNames := h.remoteNames
  copy := copyUnsaid_of_lacks hp h.remotePath
  here q hq := (h.here q hq).localUnsaid hp
  parent := h.parent.localUnsaid hp
  there q hq := remoteUnsaid_of_lacks hp (h.there q hq)

theorem lacks_branch (platform : Platform) : Lacks p ("on-" ++ platform.name) := by
  refine hp.lead (by decide) ?_
  cases platform with
  | linux => exact hp.phrases _ (by decide)
  | windows => exact hp.phrases _ (by decide)

/-! ## Lines with names in them -/

theorem precedes_debug : Text.Precedes p "[DEBUG] " :=
  hp.precedes_of_ends (by decide) (hp.leads _ (by decide))

theorem precedes_traceLead {owner : String} (howner : Lacks p owner) (index : Nat) :
    Text.Precedes p (Task.traceLead owner index) := by
  refine hp.precedes_of_ends (Text.endsApart_append (Text.endsApart_append (by decide))) ?_
  refine hp.lead (by decide) (hp.close (hp.link (hp.lead (by decide) howner) (by decide) ?_) (by decide))
  exact hp.number index

omit hp in
theorem veils_of_precedes {target : Target} {lead text : String} (hlead : Text.Precedes p lead)
    (h : target.password = p ∨ Lacks p text) : target.Veils p lead text :=
  h.imp (fun hown => ⟨hown, hlead text⟩) (hlead text).lacks

theorem BatchOmits.traced {target : Target} {commands : List RemoteCommand}
    (h : BatchOmits p e target commands) : ∀ c ∈ commands, Session.Traced p e target c := by
  have hdebug := precedes_debug hp
  intro c hc
  refine ⟨veils_of_precedes hdebug ?_, fun past => veils_of_precedes hdebug ?_⟩
  · refine h.commands.imp_right fun hcommands => ?_
    exact hp.link (hp.lead (by decide) h.host.address) (by decide) (hcommands c hc).1
  · exact h.commands.imp_right fun hcommands => (hcommands c hc).2 past

theorem groupTraced_of_isForeign (count : Nat) : Task.GroupTraced p count := by
  intro i _
  refine ⟨hp.lead (by decide) (hp.enclose (by decide) (hp.count i) (by decide)), fun n _ => ?_⟩
  refine hp.lead (by decide) (hp.close (hp.link (hp.lead (by decide) ?_) (by decide) ?_) (by decide))
  · exact hp.count i
  · exact hp.count n

namespace Task

/-- A line that shows what a task is does not show a word that the task omits. -/
theorem Omits.shows {t : Task} (h : t.Omits p N e) {lead : String} (hlead : Text.Precedes p lead) :
    t.Shows p lead := by
  cases t with
  | job name tasks => exact (hlead _).lacks (hp.lead (by decide) h.2.1)
  | onPlatform platform tasks =>
    refine (hlead _).lacks (hp.lead (by decide) ?_)
    cases platform with
    | linux => exact hp.phrases (Text.quoted "linux") (by decide)
    | windows => exact hp.phrases (Text.quoted "windows") (by decide)
  | parallel tasks threads =>
    refine (hlead _).lacks (hp.close (hp.link (hp.lead (by decide) ?_) (by decide) ?_) (by decide))
    · exact hp.number threads
    · exact hp.count tasks.length
  | print message => exact (hlead _).lacks (hp.enclose (by decide) h.2 (by decide))
  | run c =>
    have hshell : Lacks p c.shell.shown := by
      cases c.shell with
      | bash => exact hp.phrases _ (by decide)
      | cmd => exact hp.phrases _ (by decide)
    have hcodes : Lacks p (shownInts? c.allowed) := by
      cases c.allowed with
      | none => exact hp.phrases _ (by decide)
      | some codes => exact hp.numbers codes
    have hfields : Lacks p (c.shell.shown ++ "(args=" ++ Text.quotedWords c.words ++ ", work_dir="
        ++ shownText? c.workDir) :=
      hp.link (hp.link hshell (by decide) h.words) (by decide) h.workDir
    exact (hlead _).lacks (hp.close (hp.link hfields (by decide) hcodes) (by decide))
  | ssh target commands => exact veils_of_precedes hlead (BatchOmits.text h)
  | transfer t => exact veils_of_precedes hlead (Transfer.Omits.text h)
  | probe name failure => exact (hlead _).lacks (hp.lead (by decide) h.1)

omit hp in
mutual

/-- What a run of a task writes does not show a word that the task omits. -/
theorem Omits.discreet (hp : IsForeign p) : ∀ {t : Task}, t.Omits p N e → t.Discreet p e
  | job _ _, h => discreetFrom_of_omits hp h.1 0 h.2.2
  | onPlatform platform _, h => by
    rw [Discreet]
    split
    · exact discreetFrom_of_omits hp (lacks_branch hp platform) 0 h
    · have hname : Lacks p platform.name := (lacks_branch hp platform).right
      exact fun _ => hp.lead (by decide) (hp.enclose (by decide) hname (by decide))
  | parallel tasks _, h =>
    ⟨discreetEach_of_omits hp h, fun _ => groupTraced_of_isForeign hp tasks.length⟩
  | print _, h => h.1
  | run _, h => fun _ => by
    refine hp.lead (by decide) (hp.close (hp.link (hp.lead (by decide) ?_) (by decide) ?_) (by decide))
    · exact LocalCommand.Omits.argv h
    · exact LocalCommand.Omits.directory h
  | ssh _ _, h => fun _ => BatchOmits.traced hp h
  | transfer _, _ => trivial
  | probe _ _, _ => trivial

theorem discreetFrom_of_omits (hp : IsForeign p) {owner : String} (howner : Lacks p owner)
    (index : Nat) : ∀ {ts : List Task}, OmitsEach p N e ts → DiscreetFrom p e owner index ts
  | [], _ => trivial
  | _ :: _, h => ⟨fun _ => Omits.shows hp h.1 (precedes_traceLead hp howner index),
      Omits.discreet hp h.1, discreetFrom_of_omits hp howner (index + 1) h.2⟩

theorem discreetEach_of_omits (hp : IsForeign p) :
    ∀ {ts : List Task}, OmitsEach p N e ts → DiscreetEach p e ts
  | [], _ => trivial
  | _ :: _, h => ⟨Omits.discreet hp h.1, discreetEach_of_omits hp h.2⟩

end

omit hp in
mutual

/-- What is reported of a task does not say a word that the task omits. -/
theorem Omits.isUnsaid (hp : IsForeign p) : ∀ {t : Task}, t.Omits p N e → t.IsUnsaid p N e
  | job _ _, h => unsaidFrom_of_omits hp h.1 0 h.2.2
  | onPlatform platform _, h => unsaidFrom_of_omits hp (lacks_branch hp platform) 0 h
  | parallel tasks _, h =>
    ⟨groupUnsaid_of_isForeign hp tasks.length, unsaidEach_of_omits hp h⟩
  | print _, _ => trivial
  | run _, h => LocalCommand.Omits.isUnsaid hp h
  | ssh _ _, h =>
    ⟨(BatchOmits.host h).isUnsaid hp, fun c _ => c.isUnsaid_of_isForeign hp⟩
  | transfer _, h => Transfer.Omits.isUnsaid hp h
  | probe _ _, h => fun f hf => (h.2 f hf).isUnsaid hp

theorem unsaidFrom_of_omits (hp : IsForeign p) {owner : String} (howner : Lacks p owner)
    (index : Nat) : ∀ {ts : List Task}, OmitsEach p N e ts → UnsaidFrom p N e owner index ts
  | [], _ => trivial
  | _ :: _, h => ⟨unsaid_job hp howner index, Omits.isUnsaid hp h.1,
      unsaidFrom_of_omits hp howner (index + 1) h.2⟩

theorem unsaidEach_of_omits (hp : IsForeign p) :
    ∀ {ts : List Task}, OmitsEach p N e ts → UnsaidEach p N e ts
  | [], _ => trivial
  | _ :: _, h => ⟨Omits.isUnsaid hp h.1, unsaidEach_of_omits hp h.2⟩

end

end Task

end Omits

end Runbook
