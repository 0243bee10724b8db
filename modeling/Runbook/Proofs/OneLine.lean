import Runbook.Proofs.Disclosure

set_option autoImplicit false

/-! # Texts on one line

Quoted text has no line ends, since none of them has a visible form, and a number has none. So what is
shown of a task is on one line, whatever its texts are. Taking a password out of it does not change
that: neither the description nor the marker has a line end. Nor does it begin with a blank. -/

namespace Runbook

namespace Text

variable {s t : String} {c mark : Char} {cs needle marker : List Char}

/-! ## Characters -/

/-- Every range of line ends lies within a range of characters without a visible form. -/
theorem not_isLineEnd_of_isVisible (h : isVisible c = true) : isLineEnd c = false := by
  rw [Bool.eq_false_iff]
  intro hend
  simp only [isLineEnd, inRanges, List.any_cons, List.any_nil, Bool.or_false, Bool.or_eq_true,
    Bool.and_eq_true, decide_eq_true_eq] at hend
  have hhidden : ∀ r ∈ invisibleRanges, r.1 ≤ c.toNat → c.toNat ≤ r.2 →
      inRanges invisibleRanges c.toNat = true := by
    intro r hr hlow hhigh
    exact List.any_eq_true.2 ⟨r, hr, by simp [hlow, hhigh]⟩
  have hin : inRanges invisibleRanges c.toNat = true := by
    rcases hend with h | h | h | h
    · exact hhidden (0, 31) (by decide +kernel) (by omega) (by omega)
    · exact hhidden (0, 31) (by decide +kernel) (by omega) (by omega)
    · exact hhidden (127, 160) (by decide +kernel) (by omega) (by omega)
    · exact hhidden (8232, 8239) (by decide +kernel) (by omega) (by omega)
  simp only [isVisible, hin, Bool.not_true, Bool.or_false, Bool.and_eq_true, decide_eq_true_eq] at h
  omega

theorem not_isLineEnd_of_isDigit (h : c.isDigit = true) : isLineEnd c = false := by
  refine not_isLineEnd_of_isVisible ?_
  simp only [Char.isDigit, Bool.and_eq_true, decide_eq_true_eq, UInt32.le_iff_toNat_le] at h
  simp only [isVisible, Bool.or_eq_true, Bool.and_eq_true, decide_eq_true_eq]
  have hlow : 48 ≤ c.toNat := h.1
  have hhigh : c.toNat ≤ 57 := h.2
  omega

theorem not_isLineEnd_hexDigits (width n : Nat) : ∀ c ∈ hexDigits width n, isLineEnd c = false := by
  induction width generalizing n with
  | zero => simp [hexDigits]
  | succ width ih =>
    have hdigit : ∀ d < 16, isLineEnd (Nat.digitChar d) = false := by decide
    intro c hc
    rw [hexDigits] at hc
    rcases List.mem_append.1 hc with hc | hc
    · exact ih _ c hc
    · rw [List.mem_singleton.1 hc]
      exact hdigit _ (Nat.mod_lt _ (by decide))

/-- A number follows a backslash and a letter. -/
theorem not_isLineEnd_numberEscape (n : Nat) : ∀ c ∈ numberEscape n, isLineEnd c = false := by
  have hescape : ∀ letter width, isLineEnd letter = false →
      ∀ c ∈ '\\' :: letter :: hexDigits width n, isLineEnd c = false := by
    intro letter width hletter
    simp only [List.forall_mem_cons]
    exact ⟨by decide, hletter, not_isLineEnd_hexDigits width n⟩
  unfold numberEscape
  split
  · exact hescape 'x' 2 (by decide)
  · split
    · exact hescape 'u' 4 (by decide)
    · exact hescape 'U' 8 (by decide)

theorem not_isLineEnd_escapeChar (hmark : isLineEnd mark = false) (c : Char) :
    ∀ d ∈ escapeChar mark c, isLineEnd d = false := by
  unfold escapeChar
  split
  · next hself =>
    -- a line end is neither the quote nor a backslash
    have hc : isLineEnd c = false := by
      simp only [Bool.or_eq_true, decide_eq_true_eq] at hself
      rcases hself with rfl | rfl
      · exact hmark
      · decide
    simp only [List.forall_mem_cons]
    exact ⟨by decide, hc, by simp⟩
  · have hshort : ∀ letter, isLineEnd letter = false → ∀ d ∈ ['\\', letter], isLineEnd d = false := by
      intro letter hletter
      simp only [List.forall_mem_cons]
      exact ⟨by decide, hletter, by simp⟩
    split_ifs with htab hline hreturn hvisible
    · exact hshort 't' (by decide)
    · exact hshort 'n' (by decide)
    · exact hshort 'r' (by decide)
    · simpa using not_isLineEnd_of_isVisible hvisible
    · exact not_isLineEnd_numberEscape _

/-! ## Texts -/

theorem isOneLine_quoted (s : String) : IsOneLine (quoted s) := by
  have hmark : isLineEnd (quoteMark s.toList) = false := by
    unfold quoteMark
    split <;> decide
  intro c hc
  rw [quoted, String.toList_ofList, quotedList] at hc
  rcases List.mem_cons.1 hc with rfl | hc
  · exact hmark
  · rcases List.mem_append.1 hc with hc | hc
    · obtain ⟨d, -, hd⟩ := List.mem_flatMap.1 hc
      exact not_isLineEnd_escapeChar hmark d c hd
    · rw [List.mem_singleton.1 hc]
      exact hmark

theorem isOneLine_int (n : Int) : IsOneLine (toString n) := by
  intro c hc
  rcases mem_toString_int hc with hdigit | rfl
  · exact not_isLineEnd_of_isDigit hdigit
  · decide

theorem isOneLine_nat (n : Nat) : IsOneLine (toString n) := isOneLine_int n

theorem isOneLine_bracketed {shown : List String} (h : ∀ s ∈ shown, IsOneLine s) :
    IsOneLine (bracketed shown) := by
  intro c hc
  rcases mem_bracketed hc with ⟨s, hs, hmem⟩ | hmark
  · exact h s hs c hmem
  · simp only [List.mem_cons, List.not_mem_nil, or_false] at hmark
    rcases hmark with rfl | rfl | rfl | rfl <;> decide

theorem isOneLine_quotedWords (ws : List String) : IsOneLine (quotedWords ws) := by
  refine isOneLine_bracketed fun s hs => ?_
  obtain ⟨w, -, rfl⟩ := List.mem_map.1 hs
  exact isOneLine_quoted w

theorem isOneLine_shownInts (ns : List Int) : IsOneLine (shownInts ns) := by
  refine isOneLine_bracketed fun s hs => ?_
  obtain ⟨n, -, rfl⟩ := List.mem_map.1 hs
  exact isOneLine_int n

/-- What is put into a text comes from it or from the marker. -/
theorem mem_of_mem_replaceFrom {skip : Nat} (h : c ∈ replaceFrom needle marker skip cs) :
    c ∈ marker ∨ c ∈ cs := by
  fun_induction replaceFrom needle marker skip cs with
  | case1 => exact .inr h
  | case2 skip d rest ih => exact (ih h).imp_right (List.mem_cons_of_mem _)
  | case3 d rest hpre ih =>
    rcases List.mem_append.1 h with h | h
    · exact .inl h
    · exact (ih h).imp_right (List.mem_cons_of_mem _)
  | case4 d rest hpre ih =>
    rcases List.mem_cons.1 h with rfl | h
    · exact .inr List.mem_cons_self
    · exact (ih h).imp_right (List.mem_cons_of_mem _)

/-! ## How a text begins -/

/-- Whether a text begins with a character that is no blank. -/
def IsFlush (s : String) : Prop := ∃ c ∈ s.toList.head?, isBlank c = false

instance (s : String) : Decidable (IsFlush s) :=
  decidable_of_iff (s.toList.head?.any fun c => !isBlank c) (by simp [IsFlush, Option.any_eq_true])

theorem IsFlush.append (h : IsFlush s) (t : String) : IsFlush (s ++ t) := by
  obtain ⟨c, hc, hblank⟩ := h
  refine ⟨c, ?_, hblank⟩
  rw [String.toList_append, List.head?_append, Option.mem_def.1 hc]
  rfl

theorem IsFlush.exists_cons (h : IsFlush s) :
    ∃ c rest, s.toList = c :: rest ∧ isBlank c = false := by
  obtain ⟨c, hc, hblank⟩ := h
  obtain ⟨rest, hrest⟩ := List.head?_eq_some_iff.1 hc
  exact ⟨c, rest, hrest, hblank⟩

end Text

open Text (IsOneLine IsFlush)

namespace Redaction

variable {s : String}

theorem isOneLine_scrub (p : String) (h : IsOneLine s) : IsOneLine ((password p).scrub s) := by
  by_cases hp : p = ""
  · rwa [hp, scrub_password_empty]
  · rw [scrub_password hp]
    intro c hc
    rw [Text.replaceAll, String.toList_ofList] at hc
    have hmarker : IsOneLine standardMarker := by decide +kernel
    exact (Text.mem_of_mem_replaceFrom hc).elim (hmarker c) (h c)

/-- What a text begins with stays there, or the marker takes its place. -/
theorem isFlush_scrub (p : String) (h : IsFlush s) : IsFlush ((password p).scrub s) := by
  by_cases hp : p = ""
  · rwa [hp, scrub_password_empty]
  · obtain ⟨c, rest, hs, hblank⟩ := h.exists_cons
    rw [scrub_password hp, Text.replaceAll, hs]
    unfold IsFlush
    rw [String.toList_ofList, Text.replaceFrom]
    split
    · exact ⟨'*', rfl, by decide⟩
    · exact ⟨c, rfl, hblank⟩

end Redaction

/-! ## What is shown -/

theorem Target.isOneLine_shown (t : Target) : IsOneLine t.shown := by
  refine Redaction.isOneLine_scrub _ ?_
  have haddress : IsOneLine ("RemoteTarget(address=" ++ Text.quoted t.address) :=
    .append (by decide) (Text.isOneLine_quoted _)
  have husername := (haddress.append (by decide : IsOneLine ", username=")).append
    (Text.isOneLine_quoted t.username)
  have hpassword := (husername.append (by decide : IsOneLine ", password=")).append
    (Text.isOneLine_quoted t.password)
  have hport := (hpassword.append (by decide : IsOneLine ", port=")).append
    (Text.isOneLine_int t.port)
  exact hport.append (by decide)

theorem RemoteCommand.isOneLine_shown (c : RemoteCommand) : IsOneLine c.shown := by
  have hcommand : IsOneLine ("SshCommand(command=" ++ Text.quoted c.command) :=
    .append (by decide) (Text.isOneLine_quoted _)
  have hcodes := (hcommand.append (by decide : IsOneLine ", allowed_exit_codes=")).append
    (Text.isOneLine_shownInts c.allowed)
  exact hcodes.append (by decide)

theorem isOneLine_shownBatch (target : Target) (commands : List RemoteCommand) :
    IsOneLine (shownBatch target commands) := by
  refine Redaction.isOneLine_scrub _ ?_
  have htarget : IsOneLine ("SshTask(target=" ++ target.shown) :=
    .append (by decide) target.isOneLine_shown
  have hcommands : IsOneLine (Text.bracketed (commands.map RemoteCommand.shown)) := by
    refine Text.isOneLine_bracketed fun s hs => ?_
    obtain ⟨c, -, rfl⟩ := List.mem_map.1 hs
    exact c.isOneLine_shown
  exact ((htarget.append (by decide)).append hcommands).append (by decide)

theorem isFlush_shownBatch (target : Target) (commands : List RemoteCommand) :
    IsFlush (shownBatch target commands) :=
  Redaction.isFlush_scrub _ (((IsFlush.append (by decide) _).append _).append _ |>.append _)

theorem Transfer.isOneLine_shown (t : Transfer) : IsOneLine t.shown := by
  refine Redaction.isOneLine_scrub _ ?_
  have hkind : IsOneLine t.kind.shown := by
    cases t.kind <;> decide
  have htarget := (hkind.append (by decide : IsOneLine "(target=")).append t.target.isOneLine_shown
  have hremote := (htarget.append (by decide : IsOneLine ", remote_path=")).append
    (Text.isOneLine_quoted t.remotePath)
  have hlocal := (hremote.append (by decide : IsOneLine ", local_path=")).append
    (Text.isOneLine_quoted t.localPath)
  exact hlocal.append (by decide)

theorem Transfer.isFlush_shown (t : Transfer) : IsFlush t.shown := by
  have hkind : IsFlush t.kind.shown := by
    cases t.kind <;> decide
  refine Redaction.isFlush_scrub _ ?_
  exact ((((((hkind.append _).append _).append _).append _).append _).append _).append _

theorem LocalCommand.isOneLine_shown (c : LocalCommand) : IsOneLine c.shown := by
  have hshell : IsOneLine c.shell.shown := by
    cases c.shell <;> decide
  have hdir : IsOneLine (shownText? c.workDir) := by
    cases c.workDir with
    | none => decide
    | some s => exact Text.isOneLine_quoted s
  have hcodes : IsOneLine (shownInts? c.allowed) := by
    cases c.allowed with
    | none => decide
    | some ns => exact Text.isOneLine_shownInts ns
  have hargs := (hshell.append (by decide : IsOneLine "(args=")).append
    (Text.isOneLine_quotedWords c.words)
  have hplace := (hargs.append (by decide : IsOneLine ", work_dir=")).append hdir
  exact ((hplace.append (by decide : IsOneLine ", allowed_exit_codes=")).append hcodes).append
    (by decide)

theorem LocalCommand.isFlush_shown (c : LocalCommand) : IsFlush c.shown := by
  have hshell : IsFlush c.shell.shown := by
    cases c.shell <;> decide
  exact ((((((hshell.append _).append _).append _).append _).append _).append _).append _

namespace Task

/-- Whether a task is a probe, whose name is shown as it is. -/
def isProbe : Task → Bool
  | probe _ _ => true
  | _ => false

theorem isOneLine_describe {t : Task} (h : t.isProbe = false) : IsOneLine t.describe := by
  cases t with
  | job name tasks => exact .append (by decide) (Text.isOneLine_quoted name)
  | onPlatform platform tasks => exact .append (by decide) (Text.isOneLine_quoted platform.name)
  | parallel tasks threads =>
    have hthreads : IsOneLine ("ParallelTask (threads=" ++ toString threads) :=
      .append (by decide) (Text.isOneLine_int threads)
    exact ((hthreads.append (by decide)).append (Text.isOneLine_nat _)).append (by decide)
  | print message =>
    exact (IsOneLine.append (by decide) (Text.isOneLine_quoted message)).append (by decide)
  | run command => exact command.isOneLine_shown
  | ssh target commands => exact isOneLine_shownBatch target commands
  | transfer t => exact t.isOneLine_shown
  | probe name failure => cases h

theorem isFlush_describe (t : Task) : IsFlush t.describe := by
  cases t with
  | job name tasks => exact IsFlush.append (by decide) _
  | onPlatform platform tasks => exact IsFlush.append (by decide) _
  | parallel tasks threads =>
    exact (((IsFlush.append (by decide) _).append _).append _).append _
  | print message => exact (IsFlush.append (by decide) _).append _
  | run command => exact command.isFlush_shown
  | ssh target commands => exact isFlush_shownBatch target commands
  | transfer t => exact t.isFlush_shown
  | probe name failure => exact IsFlush.append (by decide) _

end Task
end Runbook
