import Mathlib.Data.List.Infix
import Runbook.Task.Execution

set_option autoImplicit false

/-! # Passwords that are not shown

What stands between two occurrences of a password in a text may join with the markers that replace
them. It does not make the password appear again if the marker begins and ends with a character that
the password does not have: an occurrence is then within a marker, or it has been there before. So a
password is hidden wherever it is taken out of a finished text: in what is shown of a remote host and
of the tasks that talk to it, and in every message of the trace of a batch of commands. -/

namespace Runbook

namespace Text

variable {needle marker cs before rest : List Char} {edge : Char}

/-- What has no `edge` in it stands before an `edge` or after it. -/
theorem isInfix_of_append_cons (hedge : edge ∉ cs) (h : cs <:+: before ++ edge :: rest) :
    cs <:+: before ∨ cs <:+: rest := by
  rcases List.infix_append_iff.1 h with h | h | ⟨front, tail, rfl, hfront, htail⟩
  · exact .inl h
  · rcases List.infix_cons_iff.1 h with h | h
    · rcases List.prefix_cons_iff.1 h with rfl | ⟨tail, rfl, -⟩
      · exact .inl List.nil_infix
      · simp at hedge
    · exact .inr h
  · rcases List.prefix_cons_iff.1 htail with rfl | ⟨tail, rfl, -⟩
    · exact .inl (by simpa using hfront.isInfix)
    · simp at hedge

/-- What a text begins with after a literal is replaced, it begins with before, if the marker begins
    with something else. -/
theorem isPrefix_of_replaceFrom (hmarker : ∃ tail, marker = edge :: tail) (hedge : edge ∉ before)
    (h : before <+: replaceFrom needle marker 0 cs) : before <+: cs := by
  induction cs generalizing before with
  | nil => exact h
  | cons c cs ih =>
    rw [replaceFrom] at h
    split at h
    · obtain ⟨tail, rfl⟩ := hmarker
      rcases List.prefix_cons_iff.1 h with rfl | ⟨t, rfl, -⟩
      · exact List.nil_prefix
      · simp at hedge
    · rcases List.prefix_cons_iff.1 h with rfl | ⟨t, rfl, ht⟩
      · exact List.nil_prefix
      · exact List.cons_prefix_cons.2 ⟨rfl, ih (List.not_mem_of_not_mem_cons hedge) ht⟩

theorem isPrefix_append_replaceFrom {lead : List Char} (hmarker : ∃ tail, marker = edge :: tail)
    (hedge : edge ∉ before) (h : before <+: lead ++ replaceFrom needle marker 0 cs) :
    before <+: lead ++ cs := by
  induction lead generalizing before with
  | nil => exact isPrefix_of_replaceFrom hmarker hedge h
  | cons c lead ih =>
    rcases List.prefix_cons_iff.1 h with rfl | ⟨t, rfl, ht⟩
    · exact List.nil_prefix
    · exact List.cons_prefix_cons.2 ⟨rfl, ih (List.not_mem_of_not_mem_cons hedge) ht⟩

/-- What occurs in a text after a literal is replaced, and is not of the marker, has occurred there
    before. -/
theorem isInfix_of_replaceFrom {sought : List Char} (hfirst : ∃ tail, marker = edge :: tail)
    (hlast : ∃ front, marker = front ++ [edge]) (hedge : edge ∉ sought)
    (hmarker : ¬ sought <:+: marker) {skip : Nat}
    (h : sought <:+: replaceFrom needle marker skip cs) : sought <:+: cs := by
  induction cs generalizing skip with
  | nil => exact h
  | cons c cs ih =>
    cases skip with
    | succ skip => exact (ih h).trans (List.suffix_cons c cs).isInfix
    | zero =>
      rw [replaceFrom] at h
      split at h
      · obtain ⟨front, rfl⟩ := hlast
        rw [List.append_assoc] at h
        rcases isInfix_of_append_cons hedge h with h | h
        · exact absurd (h.trans (List.prefix_append front [edge]).isInfix) hmarker
        · exact (ih h).trans (List.suffix_cons c cs).isInfix
      · rcases List.infix_cons_iff.1 h with h | h
        · rcases List.prefix_cons_iff.1 h with rfl | ⟨t, rfl, ht⟩
          · exact List.nil_infix
          · have htext : t <+: cs :=
              isPrefix_of_replaceFrom hfirst (List.not_mem_of_not_mem_cons hedge) ht
            exact (List.cons_prefix_cons.2 ⟨rfl, htext⟩).isInfix
        · exact (ih h).trans (List.suffix_cons c cs).isInfix

/-- A literal does not occur any more after it is replaced. -/
theorem not_isInfix_replaceFrom (hne : needle ≠ []) (hfirst : ∃ tail, marker = edge :: tail)
    (hlast : ∃ front, marker = front ++ [edge]) (hedge : edge ∉ needle)
    (hmarker : ¬ needle <:+: marker) (skip : Nat) (cs : List Char) :
    ¬ needle <:+: replaceFrom needle marker skip cs := by
  induction cs generalizing skip with
  | nil =>
    rw [replaceFrom, List.infix_nil]
    exact hne
  | cons c cs ih =>
    cases skip with
    | succ skip => exact ih skip
    | zero =>
      rw [replaceFrom]
      split
      · -- An occurrence cannot reach over the last character of the marker.
        intro h
        obtain ⟨front, rfl⟩ := hlast
        rw [List.append_assoc] at h
        rcases isInfix_of_append_cons hedge h with h | h
        · exact hmarker (h.trans (List.prefix_append front [edge]).isInfix)
        · exact ih _ h
      · next hc =>
        intro h
        rcases List.infix_cons_iff.1 h with h | h
        · -- Nor can it begin before a marker, as it would reach over its first character.
          rcases List.prefix_cons_iff.1 h with rfl | ⟨t, rfl, ht⟩
          · exact hne rfl
          · refine hc (List.isPrefixOf_iff_prefix.2 (List.cons_prefix_cons.2 ⟨rfl, ?_⟩))
            exact isPrefix_of_replaceFrom hfirst (List.not_mem_of_not_mem_cons hedge) ht
        · exact ih 0 h

end Text

namespace Redaction

/-- A password is not in a text from which it is taken out, unless it is in the marker or reaches over
    the ends of the marker. -/
theorem not_isInfix_scrub {p : String} (hne : p ≠ "") (hstar : '*' ∉ p.toList)
    (hmarker : ¬ p.toList <:+: standardMarker.toList) (s : String) :
    ¬ p.toList <:+: ((password p).scrub s).toList := by
  rw [scrub_password hne, Text.replaceAll, String.toList_ofList]
  refine Text.not_isInfix_replaceFrom ?_ ?_ ?_ hstar hmarker 0 s.toList
  · exact fun h => hne (String.toList_eq_nil_iff.1 h)
  · exact ⟨_, rfl⟩
  · exact ⟨"***Not displayed for security reasons**".toList, by decide⟩

/-- What is in a text from which a password is taken out, and is not of the marker, is in the text
    itself, also where the text stands behind another one. -/
theorem isInfix_of_append_scrub {p q lead s : String} (hstar : '*' ∉ p.toList)
    (hmarker : ¬ p.toList <:+: standardMarker.toList)
    (h : p.toList <:+: lead.toList ++ ((password q).scrub s).toList) :
    p.toList <:+: lead.toList ++ s.toList := by
  by_cases hq : q = ""
  · subst hq
    rwa [scrub_password_empty] at h
  rw [scrub_password hq, Text.replaceAll, String.toList_ofList] at h
  have hfirst : ∃ tail, standardMarker.toList = '*' :: tail := ⟨_, rfl⟩
  have hlast : ∃ front, standardMarker.toList = front ++ ['*'] :=
    ⟨"***Not displayed for security reasons**".toList, by decide⟩
  generalize lead.toList = cs at h
  induction cs with
  | nil => exact Text.isInfix_of_replaceFrom hfirst hlast hstar hmarker h
  | cons c cs ih =>
    rcases List.infix_cons_iff.1 h with h | h
    · have hpre : p.toList <+: (c :: cs) ++ Text.replaceFrom q.toList standardMarker.toList 0 s.toList :=
        h
      exact (Text.isPrefix_append_replaceFrom hfirst hstar hpre).isInfix
    · exact (ih h).trans (List.suffix_cons c _).isInfix

end Redaction

/-! ## Tasks -/

namespace Session

/-- Runs the commands of a batch in an open session, and hands the messages of the trace to a
    listener. -/
def commandsTelling (tell : String → Action Unit) (target : Target) :
    List RemoteCommand → Action Unit
  | [] => pure ()
  | c :: rest => do
    tell (target.redaction.scrub ("ssh " ++ target.address ++ ": " ++ c.command))
    let output ← c.execute
    if output ≠ "" then tell (target.redaction.scrub (Text.trimEnd output))
    commandsTelling tell target rest

/-- Runs a batch of commands in a session of its own, and hands the messages of the trace to a
    listener. -/
def batchTelling (tell : String → Action Unit) (target : Target) (cs : List RemoteCommand) :
    Action Unit :=
  withConnection target (commandsTelling tell target cs)

/-- A batch hands the messages of its trace to the console. -/
theorem batch_eq (target : Target) (cs : List RemoteCommand) :
    batch target cs = batchTelling Console.debug target cs := by
  rw [batch, batchTelling]
  congr 1
  induction cs with
  | nil => rfl
  | cons c cs ih => rw [commands, commandsTelling, ih]

/-- Only what has been redacted is handed to a listener. -/
theorem batchTelling_congr {tell tell' : String → Action Unit} {target : Target}
    (h : ∀ s, tell (target.redaction.scrub s) = tell' (target.redaction.scrub s))
    (cs : List RemoteCommand) : batchTelling tell target cs = batchTelling tell' target cs := by
  rw [batchTelling, batchTelling]
  congr 1
  induction cs with
  | nil => rfl
  | cons c cs ih =>
    rw [commandsTelling, commandsTelling, ih, h]
    simp only [h]

end Session

namespace Task

/-- What is shown of a task that talks to a remote host is redacted, and there is one text for it. -/
theorem describe_of_target {t : Task} {target : Target} (h : t.target? = some target) :
    t.shown = t.describe ∧ ∃ s, t.describe = target.redaction.scrub s := by
  cases t with
  | ssh target' commands =>
    obtain rfl := Option.some.inj h
    exact ⟨rfl, _, rfl⟩
  | transfer t' =>
    obtain rfl := Option.some.inj h
    exact ⟨rfl, _, rfl⟩
  | _ => cases h

/-- A password that cannot be mistaken for the marker is in no text from which it is taken out. So it is
    not in what is shown of the host it belongs to, nor of a task that talks to this host, nor in any
    message of the trace of a batch there: what a listener does with messages that hold the password
    makes no difference. -/
theorem password_hidden {p : String} (hne : p ≠ "") (hstar : '*' ∉ p.toList)
    (hmarker : ¬ p.toList <:+: Redaction.standardMarker.toList) :
    (∀ s, ¬ p.toList <:+: ((Redaction.password p).scrub s).toList) ∧
    (∀ (t : Task) (target : Target), t.target? = some target → target.password = p →
      t.shown = t.describe ∧ ¬ p.toList <:+: t.describe.toList ∧
        ¬ p.toList <:+: target.shown.toList) ∧
    ∀ (target : Target) (cs : List RemoteCommand), target.password = p →
      (ssh target cs).execute = Session.batchTelling Console.debug target cs ∧
      ∀ tell tell' : String → Action Unit,
        (∀ message, ¬ p.toList <:+: message.toList → tell message = tell' message) →
          Session.batchTelling tell target cs = Session.batchTelling tell' target cs := by
  have hscrub := Redaction.not_isInfix_scrub hne hstar hmarker
  refine ⟨hscrub, fun t target htarget hp => ?_, fun target cs hp => ⟨?_, fun tell tell' h => ?_⟩⟩
  · subst hp
    obtain ⟨hshown, s, hs⟩ := describe_of_target htarget
    exact ⟨hshown, hs ▸ hscrub s, hscrub _⟩
  · rw [execute, Session.batch_eq]
  · subst hp
    exact Session.batchTelling_congr (fun s => h _ (hscrub s)) cs

/-- A host with a password that can overlap itself and stands in the address as well. -/
def overlapTarget : Target := ⟨"abab", "user", "aba", 22⟩

theorem password_hidden_sample :
    "aba" ≠ "" ∧ '*' ∉ "aba".toList ∧ ¬ "aba".toList <:+: Redaction.standardMarker.toList ∧
    (Redaction.password "aba").scrub "ababa" = "***Not displayed for security reasons***ba" ∧
    ¬ "aba".toList <:+: "***Not displayed for security reasons***ba".toList ∧
    ¬ "aba".toList <:+: (ssh overlapTarget [⟨"echo ababa", [0]⟩]).describe.toList ∧
    ¬ "aba".toList <:+: overlapTarget.shown.toList ∧
    (ssh overlapTarget [⟨"echo ababa", [0]⟩]).execute
      = Session.batchTelling (fun message =>
          if "aba".toList <:+: message.toList then Effect.failWith .aborted
          else Console.debug message) overlapTarget [⟨"echo ababa", [0]⟩] := by
  have hne : "aba" ≠ "" := by decide
  have hstar : '*' ∉ "aba".toList := by decide
  have hmarker : ¬ "aba".toList <:+: Redaction.standardMarker.toList := by decide
  obtain ⟨hscrub, htask, hbatch⟩ := password_hidden hne hstar hmarker
  have hvalue : (Redaction.password "aba").scrub "ababa"
      = "***Not displayed for security reasons***ba" := by decide
  obtain ⟨-, hdescribe, hshown⟩ :=
    htask (ssh overlapTarget [⟨"echo ababa", [0]⟩]) overlapTarget rfl rfl
  obtain ⟨hexecute, htell⟩ := hbatch overlapTarget [⟨"echo ababa", [0]⟩] rfl
  refine ⟨hne, hstar, hmarker, hvalue, hvalue ▸ hscrub "ababa", hdescribe, hshown, ?_⟩
  rw [hexecute]
  exact htell _ _ fun message h => (if_neg h).symm

end Task
end Runbook
