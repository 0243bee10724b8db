import Runbook.Text.Printable

set_option autoImplicit false

/-! # Blank characters

A blank is a character that separates words in free text: the blanks of ASCII with the four
information separators, and the space characters of Unicode. Trailing blanks are dropped when a
multi-line message is quoted inside another one. -/

namespace Runbook.Text

/-- Closed ranges of the blanks. -/
def blankRanges : List (Nat × Nat) :=
  [(9, 13), (28, 32), (133, 133), (160, 160), (5760, 5760), (8192, 8202), (8232, 8233),
    (8239, 8239), (8287, 8287), (12288, 12288)]

/-- Whether a character is a blank. -/
def isBlank (c : Char) : Bool := inRanges blankRanges c.toNat

/-- Every white space character of ASCII is a blank. -/
theorem isBlank_of_isWhitespace (c : Char) (h : c.isWhitespace = true) : isBlank c = true := by
  simp only [Char.isWhitespace, Bool.or_eq_true, decide_eq_true_eq] at h
  rcases h with ((h | h) | h) | h <;> subst h <;> decide

/-- Drops the longest run of characters of a class from the end. -/
def dropEndWhile (p : Char → Bool) (cs : List Char) : List Char :=
  (cs.reverse.dropWhile p).reverse

/-- What is dropped from the end is a run of the class. -/
theorem dropEndWhile_append (p : Char → Bool) (cs : List Char) :
    ∃ tail, cs = dropEndWhile p cs ++ tail ∧ ∀ c ∈ tail, p c = true := by
  refine ⟨(cs.reverse.takeWhile p).reverse, ?_, ?_⟩
  · rw [dropEndWhile, ← List.reverse_append, List.takeWhile_append_dropWhile, List.reverse_reverse]
  · intro c hc
    have h : (cs.reverse.takeWhile p).all p = true := List.all_takeWhile
    exact List.all_eq_true.1 h c (List.mem_reverse.1 hc)

/-- A text without its trailing blanks. -/
def trimEnd (s : String) : String := String.ofList (dropEndWhile isBlank s.toList)

/-- Whether a character is a line feed or a carriage return, the two that a terminal may leave at
    the end of an answer. -/
def endsAnswer (c : Char) : Bool := c = '\n' || c = '\r'

/-- An answer without the line end, or the run of line ends, it was typed with. -/
def stripLineEnd (s : String) : String := String.ofList (dropEndWhile endsAnswer s.toList)

end Runbook.Text
