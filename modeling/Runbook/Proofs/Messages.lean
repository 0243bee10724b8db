import Runbook.Proofs.Processes
import Runbook.Proofs.Silence

set_option autoImplicit false

/-! # What the reports of failures say

A failure is reported with all errors behind it, and each of them is shown by its class and a message
of its own. What is in these messages is told here for the errors of a run, one class after the other:
names, addresses, numbers and paths, and the commands of a batch. What a remote command has yielded is
in none of them, and neither is what is known of its host, but for its address and the name of the user.
So a literal that is not in the texts with those names in them comes up in a report only within a
command. -/

namespace Runbook

open Text (Lacks)

/-- The lines that report an error with a label and a message at some depth of a chain. -/
def reportLines (depth : Nat) (label message : String) : List String :=
  (indentation depth ++ (if depth = 0 then "" else "Caused by ") ++ label ++ ": "
      ++ (Text.lines message).headD "")
    :: ((Text.lines message).drop 1).map (indentation depth ++ "  " ++ ·)

theorem Cause.report_eq (depth : Nat) (c : Cause) :
    c.report depth = reportLines depth c.kind.label c.message := rfl

namespace Text

variable {p label message s : String}

/-- Whether a literal is in no report of an error with a label and a message, however deep the error
    stands in a chain. -/
def Unsaid (p label message : String) : Prop :=
  ∀ depth, ∀ line ∈ reportLines depth label message, Lacks p line

theorem isPrefix_of_lineList {cs first : List Char} {rest : List (List Char)}
    (h : lineList cs = first :: rest) : first <+: cs := by
  fun_induction lineList cs generalizing first rest with
  | case1 => cases h
  | case2 rest ih =>
    cases h
    exact List.nil_prefix
  | case3 c rest _ hc ih =>
    cases h
    exact List.nil_prefix
  | case4 c rest _ hc hr ih =>
    cases h
    exact List.cons_prefix_cons.2 ⟨rfl, List.nil_prefix⟩
  | case5 c rest _ hc line lines hr ih =>
    cases h
    exact List.cons_prefix_cons.2 ⟨rfl, ih hr⟩

/-- A line of a text stands in the text. -/
theorem isInfix_of_mem_lineList {line cs : List Char} (h : line ∈ lineList cs) : line <:+: cs := by
  fun_induction lineList cs with
  | case1 => cases h
  | case2 rest ih =>
    rcases List.mem_cons.1 h with rfl | h
    · exact List.nil_infix
    · exact (ih h).trans (List.suffix_append ['\r', '\n'] rest).isInfix
  | case3 c rest _ hc ih =>
    rcases List.mem_cons.1 h with rfl | h
    · exact List.nil_infix
    · exact (ih h).trans (List.suffix_cons c rest).isInfix
  | case4 c rest _ hc hr ih =>
    rw [List.mem_singleton.1 h]
    exact (List.prefix_append [c] rest).isInfix
  | case5 c rest _ hc first lines hr ih =>
    rcases List.mem_cons.1 h with rfl | h
    · exact (List.cons_prefix_cons.2 ⟨rfl, isPrefix_of_lineList hr⟩).isInfix
    · exact (ih (hr ▸ List.mem_cons_of_mem _ h)).trans (List.suffix_cons c rest).isInfix

theorem lacks_of_mem_lines (h : Lacks p message) (hs : s ∈ lines message) : Lacks p s := by
  obtain ⟨line, hline, rfl⟩ := List.mem_map.1 hs
  intro hin
  rw [String.toList_ofList] at hin
  exact h (hin.trans (isInfix_of_mem_lineList hline))

/-- What stands before a character that is not in a literal, and what stands after it, may be looked at
    on their own. -/
theorem Lacks.around {c : Char} {t : String} (h : Lacks p s) (cut : String) (hcut : cut.toList = [c])
    (hc : c ∉ p.toList) (ht : Lacks p t) : Lacks p (s ++ cut ++ t) := by
  intro hin
  rw [String.toList_append, String.toList_append, hcut, List.append_assoc] at hin
  exact (isInfix_of_append_cons hc hin).elim h ht

/-- Whether no occurrence of a literal begins in a text, whatever follows it. -/
def Precedes (p lead : String) : Prop := ∀ body, Misses p lead body

theorem precedes_indentation (hspace : ' ' ∉ p.toList) (hne : p ≠ "") (depth : Nat) :
    Precedes p (indentation depth) := by
  intro body tail htail htne hpre
  cases tail with
  | nil => exact htne rfl
  | cons c tail =>
    have hc : c = ' ' := by
      have hmem : c ∈ (indentation depth).toList := htail.subset List.mem_cons_self
      rw [indentation, String.toList_ofList] at hmem
      exact List.eq_of_mem_replicate hmem
    rcases List.prefix_cons_iff.1 hpre with hnil | ⟨rest, hrest, -⟩
    · exact hne (String.toList_eq_nil_iff.1 hnil)
    · exact hspace (by rw [hrest, hc]; exact List.mem_cons_self)

/-- A literal without blanks and colons is in no report of an error if it is neither in the label nor in
    the message: what a report puts around these is cut off at a blank or a colon. -/
theorem unsaid_of_lacks (hne : p ≠ "") (hspace : ' ' ∉ p.toList) (hcolon : ':' ∉ p.toList)
    (hcaused : Lacks p "Caused by") (hlabel : Lacks p label) (hmessage : Lacks p message) :
    Unsaid p label message := by
  have hindent := fun depth => precedes_indentation hspace hne depth
  have hempty : Lacks p "" := fun hin => hmessage (hin.trans List.nil_infix)
  have hfirst : Lacks p ((lines message).headD "") := by
    rcases hlines : lines message with _ | ⟨first, rest⟩
    · exact hempty
    · exact lacks_of_mem_lines hmessage (by rw [hlines]; exact List.mem_cons_self)
  intro depth line hline
  -- the first line stands behind the label and a colon, any other behind blanks
  rcases List.mem_cons.1 hline with rfl | hline
  · have hlead : Lacks p ((if depth = 0 then "" else "Caused by ") ++ label) := by
      split
      · rwa [String.empty_append]
      · exact hcaused.around " " rfl hspace hlabel
    have hlabelled := hlead.around ":" rfl hcolon hempty
    rw [String.append_empty] at hlabelled
    have hcut : ": " = ":" ++ " " := rfl
    rw [hcut]
    simpa only [String.append_assoc] using
      (hindent depth _).lacks (hlabelled.around " " rfl hspace hfirst)
  · obtain ⟨rest, hrest, rfl⟩ := List.mem_map.1 hline
    rw [String.append_assoc]
    refine (hindent depth _).lacks ((hindent 1 _).lacks ?_)
    exact lacks_of_mem_lines hmessage (List.mem_of_mem_drop hrest)

end Text

open Text (Unsaid)

/-! ## Failures -/

namespace Cause

variable {p : String} {c : Cause}

/-- The remote command that the message of an error shows. -/
def command? : Cause → Option String
  | remoteCommand command _ _ => some command
  | onPeer (.runCommand command) => some command
  | _ => none

/-- Whether an error is about a remote command that holds a literal. -/
def Quotes (p : String) (c : Cause) : Prop := ∃ command ∈ c.command?, ¬ Lacks p command

instance (p : String) (c : Cause) : Decidable (c.Quotes p) := inferInstanceAs (Decidable (∃ _ ∈ _, _))

/-- The message of an error holds what its command holds. -/
theorem Quotes.not_lacks_message (h : c.Quotes p) : ¬ Lacks p c.message := by
  obtain ⟨command, hcommand, hin⟩ := h
  intro hmessage
  apply hin
  unfold command? at hcommand
  split at hcommand
  · obtain rfl := Option.some.inj hcommand
    exact hmessage.left.left.left.right
  · obtain rfl := Option.some.inj hcommand
    exact hmessage.left.right
  · cases hcommand

/-- Whether a literal is in no report of an error, however deep the error stands in a chain. -/
def IsUnsaid (p : String) (c : Cause) : Prop := Unsaid p c.kind.label c.message

theorem isUnsaid_of {label message : String} (h : Unsaid p label message)
    (hlabel : c.kind.label = label) (hmessage : c.message = message) : c.IsUnsaid p := by
  subst hlabel hmessage
  exact h

end Cause

namespace Failure

variable {p : String} {c : Cause} {f earlier : Failure}

/-- Whether a literal is in no report of a failure. -/
def IsUnsaid (p : String) (f : Failure) : Prop := ∀ c ∈ f.links, c.IsUnsaid p

/-- Whether a literal comes up in the report of a failure only where this is about a remote command that
    holds it. -/
def Guards (p : String) (f : Failure) : Prop := ∀ c ∈ f.links, c.Quotes p ∨ c.IsUnsaid p

theorem IsUnsaid.guards (h : f.IsUnsaid p) : f.Guards p := fun c hc => .inr (h c hc)

theorem guards_of (h : c.Quotes p ∨ c.IsUnsaid p) : (of c).Guards p := by
  intro d hd
  rwa [List.mem_singleton.1 hd]

theorem Guards.because (hf : f.Guards p) (h : c.Quotes p ∨ c.IsUnsaid p) :
    (f.because c).Guards p := by
  intro d hd
  rcases List.mem_cons.1 hd with rfl | hd
  · exact h
  · exact hf d hd

theorem Guards.during (hf : f.Guards p) (h : earlier.Guards p) : (f.during earlier).Guards p := by
  intro d hd
  rw [links_during] at hd
  exact (List.mem_append.1 hd).elim (hf d) (h d)

end Failure

/-! ## What is said of hosts, commands and tasks -/

/-- Whether a literal is not in what is reported of a host that cannot be reached. -/
def Target.IsUnsaid (p : String) (target : Target) : Prop :=
  Unsaid p "RemoteConnectError" ("Failed to connect via ssh to " ++ target.address ++ ":"
    ++ toString target.port ++ " as " ++ target.username)

/-- Whether a literal is not in what is reported of a command of a batch, unless the command itself
    holds it. The code is one with which the command may end. -/
structure RemoteCommand.IsUnsaid (p : String) (e : Setting) (c : RemoteCommand) : Prop where
  channel : Lacks p c.command →
    Unsaid p "RemoteChannelError" ("Error while executing command via ssh: \x60" ++ c.command ++ "\x60")
  code : Lacks p c.command → ∀ past,
    Unsaid p "RemoteCommandError" ("Something went wrong while executing a command (\x60" ++ c.command
      ++ "\x60). Exit code " ++ toString (e.result past c.command).code ++ ".")

/-- Whether a literal is not in what is reported of a local command: that it is not run, why it is not,
    or that it does not succeed, with the last part of its error output. -/
structure LocalCommand.IsUnsaid (p : String) (e : Setting) (c : LocalCommand) : Prop where
  run : Unsaid p "LocalIOError"
    ("Failed while executing " ++ c.program ++ " command " ++ Text.quotedWords c.words)
  fault : ∀ past x, c.ended e past = .error x → x.IsUnsaid p
  code : ∀ past code stderr, c.ended e past = .ok (code, stderr) →
    Unsaid p "ShellCommandError" (Text.quotedWords c.words ++ " did not succeed (exit=" ++ toString code
      ++ ", allowed=" ++ Text.shownInts c.reportedCodes ++ ")"
      ++ (if Text.tail e.stderrTail stderr = "" then ""
        else "\n" ++ Text.trimEnd (Text.tail e.stderrTail stderr)))

/-- Whether a literal is not in what is reported of the tasks of a group: of each that fails, with those
    that are pending then, in ascending order. -/
def GroupUnsaid (p : String) (count : Nat) : Prop :=
  ∀ i < count, ∀ pending : List Nat, pending.Pairwise (· < ·) → (∀ n ∈ pending, n < count) →
    Unsaid p "ParallelTaskError" ("Parallel task " ++ toString (i : Int) ++ " of "
      ++ toString (count : Int) ++ " failed"
      ++ (if pending = [] then ""
        else " (detached without waiting: " ++ Text.shownInts (pending.map (fun (n : Nat) => (n : Int)))
          ++ ")"))

/-! ## What is said of paths -/

/-- Whether a literal is not in what is reported of a local path: that it is refused, and what a call at
    the path has failed with. -/
structure LocalUnsaid (p path : String) : Prop where
  readFile : Unsaid p "LocalIOError" ("Error while reading file " ++ path)
  createFile : Unsaid p "LocalIOError" ("Could not create local file " ++ path)
  createDirectory : Unsaid p "LocalIOError" ("Error while creating directory " ++ path)
  readDirectory : Unsaid p "LocalIOError" ("Error while reading directory " ++ path)
  missing : Unsaid p "NotFoundError" ("Local " ++ path ++ " does not exist")
  missingParent : Unsaid p "NotFoundError" ("Path " ++ path ++ " does not exist")
  fileThere : Unsaid p "AlreadyExistsError" ("File " ++ path ++ " already exists")
  directoryThere : Unsaid p "AlreadyExistsError" ("Directory " ++ path ++ " already exists")
  noFile : Unsaid p "FileNotFoundError"
    ("[Errno 2] No such file or directory: " ++ Text.quoted path)
  isDirectory : Unsaid p "IsADirectoryError" ("[Errno 21] Is a directory: " ++ Text.quoted path)
  notDirectory : Unsaid p "NotADirectoryError" ("[Errno 20] Not a directory: " ++ Text.quoted path)
  occupied : Unsaid p "FileExistsError" ("[Errno 17] File exists: " ++ Text.quoted path)
  nameTooLong : Unsaid p "OSError" ("[Errno 36] File name too long: " ++ Text.quoted path)

/-- Whether a literal is not in what is reported of a path of the peer in a file session. -/
structure RemoteUnsaid (p path : String) : Prop where
  readStatus : Unsaid p "RemoteChannelError" ("Error while getting stats of remote path " ++ path)
  readFile : Unsaid p "RemoteChannelError" ("Could not read remote file " ++ path)
  readDirectory : Unsaid p "RemoteChannelError"
    ("Error while reading directory " ++ path ++ " via sftp")
  writeFile : Unsaid p "RemoteChannelError" ("Error while writing to remote file " ++ path)
  createDirectory : Unsaid p "RemoteChannelError" ("Could not create remote directory " ++ path)
  missing : Unsaid p "NotFoundError" ("Remote path " ++ path ++ " does not exist")
  neither : Unsaid p "NotFoundError"
    ("Remote path " ++ path ++ " is neither a file nor a directory")
  there : Unsaid p "AlreadyExistsError" ("Remote path " ++ path ++ " already exists")

/-- Whether a literal is not in what is reported of a path of the peer that a file is copied to or
    from. -/
structure CopyUnsaid (p path : String) : Prop where
  receive : Unsaid p "RemoteChannelError" ("Error while receiving " ++ path ++ " via scp")
  create : Unsaid p "RemoteChannelError"
    ("Error while creating file " ++ path ++ " on remote machine")
  noFile : Unsaid p "SCPException" ("scp: " ++ path ++ ": No such file or directory")

/-- Whether a literal is not in what is reported without a name: an integer that is not written, a path
    that is none, and a file session that does not start or finds no file. -/
structure PlainUnsaid (p : String) : Prop where
  unwritable : Unsaid p "ValueError"
    ("Exceeds the limit (4300 digits) for integer string conversion; "
      ++ "use sys.set_int_max_str_digits() to increase the limit")
  nullInPath : Unsaid p "ValueError" "embedded null byte"
  openSftp : Unsaid p "RemoteChannelError" "Could not create sftp subsystem"
  noFile : Unsaid p "FileNotFoundError" "[Errno 2] No such file"

/-! ## Errors by what they are about -/

/-- The path that a local problem is about while a job runs. -/
def LocalProblem.path? : LocalProblem → Option String
  | readFile path | createFile path | createDirectory path | readDirectory path | missing path
  | missingParent path | fileThere path | directoryThere path => some path
  | openDocument _ | runCommand _ _ => none

/-- The path that a problem of a file session is about. -/
def RemoteProblem.path? : RemoteProblem → Option String
  | readStatus path | readFile path | readDirectory path | writeFile path | createDirectory path
  | missing path | neither path | there path => some path
  | connect _ _ _ | runCommand _ | scpReceive _ | scpCreate _ | openSftp => none

/-- The message of an error of the system about a path, by what it begins with. -/
theorem Cause.message_system {errno : Int} {text path lead : String}
    (h : "[Errno " ++ toString errno ++ "] " ++ text ++ ": " = lead) :
    (system errno text (some path)).message = lead ++ Text.quoted path := by
  rw [← h, String.append_assoc]
  rfl

namespace LocalUnsaid

variable {p path : String}

theorem problem {problem : LocalProblem} (h : LocalUnsaid p path)
    (hpath : problem.path? = some path) : (Cause.onHost problem).IsUnsaid p := by
  cases problem with
  | openDocument path => cases hpath
  | runCommand program words => cases hpath
  | readFile path => cases hpath; exact h.readFile
  | createFile path => cases hpath; exact h.createFile
  | createDirectory path => cases hpath; exact h.createDirectory
  | readDirectory path => cases hpath; exact h.readDirectory
  | missing path => cases hpath; exact h.missing
  | missingParent path => cases hpath; exact h.missingParent
  | fileThere path => cases hpath; exact h.fileThere
  | directoryThere path => cases hpath; exact h.directoryThere

theorem cause (h : LocalUnsaid p path) (error : FileError) : (error.cause path).IsUnsaid p := by
  unfold Cause.IsUnsaid
  cases error with
  | missing =>
    rw [FileError.cause,
      Cause.message_system (by decide +kernel : _ = "[Errno 2] No such file or directory: ")]
    exact h.noFile
  | isDirectory =>
    rw [FileError.cause, Cause.message_system (by decide +kernel : _ = "[Errno 21] Is a directory: ")]
    exact h.isDirectory
  | notDirectory =>
    rw [FileError.cause, Cause.message_system (by decide +kernel : _ = "[Errno 20] Not a directory: ")]
    exact h.notDirectory
  | occupied =>
    rw [FileError.cause, Cause.message_system (by decide +kernel : _ = "[Errno 17] File exists: ")]
    exact h.occupied
  | nameTooLong =>
    rw [FileError.cause,
      Cause.message_system (by decide +kernel : _ = "[Errno 36] File name too long: ")]
    exact h.nameTooLong

end LocalUnsaid

theorem RemoteUnsaid.problem {p path : String} {problem : RemoteProblem} (h : RemoteUnsaid p path)
    (hpath : problem.path? = some path) : (Cause.onPeer problem).IsUnsaid p := by
  cases problem with
  | connect address port user => cases hpath
  | runCommand command => cases hpath
  | scpReceive path => cases hpath
  | scpCreate path => cases hpath
  | openSftp => cases hpath
  | readStatus path => cases hpath; exact h.readStatus
  | readFile path => cases hpath; exact h.readFile
  | readDirectory path => cases hpath; exact h.readDirectory
  | writeFile path => cases hpath; exact h.writeFile
  | createDirectory path => cases hpath; exact h.createDirectory
  | missing path => cases hpath; exact h.missing
  | neither path => cases hpath; exact h.neither
  | there path => cases hpath; exact h.there

namespace CopyUnsaid

variable {p path : String}

theorem scpReceive (h : CopyUnsaid p path) : (Cause.onPeer (.scpReceive path)).IsUnsaid p := h.receive

theorem scpCreate (h : CopyUnsaid p path) : (Cause.onPeer (.scpCreate path)).IsUnsaid p := h.create

theorem noSuchFile (h : CopyUnsaid p path) : (Scp.noSuchFile path).IsUnsaid p := by
  intro c hc
  rw [List.mem_singleton.1 hc]
  exact h.noFile

end CopyUnsaid

namespace PlainUnsaid

variable {p : String}

theorem failure (h : PlainUnsaid p) : Failure.unwritable.IsUnsaid p := by
  intro c hc
  rw [List.mem_singleton.1 hc]
  exact h.unwritable

theorem noSuchFile (h : PlainUnsaid p) : Sftp.noSuchFile.IsUnsaid p := by
  intro c hc
  rw [List.mem_singleton.1 hc]
  have hmessage : Sftp.noSuchFile.head.message = "[Errno 2] No such file" := by decide +kernel
  rw [Cause.IsUnsaid, hmessage]
  exact h.noFile

end PlainUnsaid

theorem Cause.message_parallelTask (index total : Int) (pending : List Int) :
    (parallelTask index total pending).message = "Parallel task " ++ toString index ++ " of "
      ++ toString total ++ " failed"
      ++ (if pending = [] then ""
        else " (detached without waiting: " ++ Text.shownInts pending ++ ")") := rfl

theorem GroupUnsaid.parallelTask {p : String} {count i : Nat} {pending : List Nat}
    (h : GroupUnsaid p count) (hi : i < count) (hsorted : pending.Pairwise (· < ·))
    (hbelow : ∀ n ∈ pending, n < count) :
    (Cause.parallelTask i count (pending.map fun (n : Nat) => (n : Int))).IsUnsaid p := by
  refine Cause.isUnsaid_of (h i hi pending hsorted hbelow) rfl ?_
  rw [Cause.message_parallelTask]
  by_cases hnil : pending = []
  · rw [if_pos hnil, if_pos (by rw [hnil, List.map_nil])]
  · rw [if_neg hnil, if_neg (by rwa [List.map_eq_nil_iff])]

/-- The report of what stops a command of a batch shows the command, and of what it yields the exit code
    only. -/
theorem RemoteCommand.IsUnsaid.remoteCommand {p : String} {e : Setting} {c : RemoteCommand}
    (h : c.IsUnsaid p e) (past : List Event) (output : String) :
    (Cause.remoteCommand c.command (e.result past c.command).code output).Quotes p ∨
      (Cause.remoteCommand c.command (e.result past c.command).code output).IsUnsaid p := by
  by_cases hlacks : Lacks p c.command
  · exact .inr (h.code hlacks past)
  · exact .inl ⟨c.command, rfl, hlacks⟩

theorem RemoteCommand.IsUnsaid.runCommand {p : String} {e : Setting} {c : RemoteCommand}
    (h : c.IsUnsaid p e) : (Cause.onPeer (.runCommand c.command)).Quotes p ∨
      (Cause.onPeer (.runCommand c.command)).IsUnsaid p := by
  by_cases hlacks : Lacks p c.command
  · exact .inr (h.channel hlacks)
  · exact .inl ⟨c.command, rfl, hlacks⟩

end Runbook
