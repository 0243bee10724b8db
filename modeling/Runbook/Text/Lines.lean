import Runbook.Text.Blank

set_option autoImplicit false

/-! # Lines

A message may hold several lines, and a report indents each of them. A line ends at a line feed, a
carriage return, both in that order, or at one of the other characters that end a line in Unicode
text. Text read from a file or a terminal knows the first three ends only, and turns them into line
feeds. -/

namespace Runbook.Text

/-- Whether a character ends a line on its own. -/
def isLineEnd (c : Char) : Bool :=
  inRanges [(10, 13), (28, 30), (133, 133), (8232, 8233)] c.toNat

/-- The lines of a text without their ends. An end at the very end opens no further line. -/
def lineList : List Char → List (List Char)
  | [] => []
  | '\r' :: '\n' :: rest => [] :: lineList rest
  | c :: rest =>
    if isLineEnd c then [] :: lineList rest
    else match lineList rest with
      | [] => [[c]]
      | line :: lines => (c :: line) :: lines

/-- The lines of a text without their ends. -/
def lines (s : String) : List String := (lineList s.toList).map String.ofList

/-- No line holds a character that ends one. -/
theorem not_isLineEnd_of_mem_lineList (cs : List Char) :
    ∀ line ∈ lineList cs, ∀ c ∈ line, isLineEnd c = false := by
  fun_induction lineList cs with
  | case1 => simp
  | case2 rest ih => simpa using ih
  | case3 c rest _ hc ih => simpa using ih
  | case4 c rest _ hc hr ih => simpa using hc
  | case5 c rest _ hc line lines hr ih =>
      intro l hl d hd
      rcases List.mem_cons.1 hl with rfl | hl
      · rcases List.mem_cons.1 hd with rfl | hd
        · simpa using hc
        · exact ih line (by simp [hr]) d hd
      · exact ih l (by simp [hr, hl]) d hd

/-- Turns the line ends of files and terminals into line feeds. -/
def unifyNewlines : List Char → List Char
  | [] => []
  | '\r' :: '\n' :: rest => '\n' :: unifyNewlines rest
  | c :: rest => (if c = '\r' then '\n' else c) :: unifyNewlines rest

/-- No carriage return is left. -/
theorem unifyNewlines_no_return (cs : List Char) : '\r' ∉ unifyNewlines cs := by
  fun_induction unifyNewlines cs with
  | case1 => simp
  | case2 rest ih => simp [ih]
  | case3 c rest _ ih =>
      by_cases h : c = '\r'
      · simp [h, ih]
      · simp [h, ih, Ne.symm h]

/-- Cuts a text after each line feed. What follows the last one is a line of its own if it is not
    empty. -/
def typedLineList : List Char → List (List Char)
  | [] => []
  | '\n' :: rest => ['\n'] :: typedLineList rest
  | c :: rest =>
    match typedLineList rest with
    | [] => [[c]]
    | line :: lines => (c :: line) :: lines

/-- The lines of what is typed at a terminal, each with the line feed that ends it. -/
def typedLines (s : String) : List String :=
  (typedLineList (unifyNewlines s.toList)).map String.ofList

end Runbook.Text
