set_option autoImplicit false

/-! # Words between single separators

A shell command is written as one text and kept as its words: the pieces between single spaces,
empty pieces included. Nothing is lost, so joining the words gives the text back. -/

namespace Runbook.Text

/-- The pieces between the occurrences of a separator. There is always at least one. -/
def splitAtChar (sep : Char) : List Char → List (List Char)
  | [] => [[]]
  | c :: rest =>
    if c = sep then [] :: splitAtChar sep rest
    else match splitAtChar sep rest with
      | [] => [[c]]
      | word :: words => (c :: word) :: words

/-- Pieces with a separator between each two. -/
def joinWithChar (sep : Char) : List (List Char) → List Char
  | [] => []
  | [word] => word
  | word :: words => word ++ sep :: joinWithChar sep words

theorem splitAtChar_ne_nil (sep : Char) (cs : List Char) : splitAtChar sep cs ≠ [] := by
  cases cs with
  | nil => simp [splitAtChar]
  | cons c rest =>
      simp only [splitAtChar]
      split
      · simp
      · split <;> simp

/-- Joining the pieces gives the text back. -/
theorem joinWithChar_splitAtChar (sep : Char) (cs : List Char) :
    joinWithChar sep (splitAtChar sep cs) = cs := by
  induction cs with
  | nil => rfl
  | cons c rest ih =>
      have hne := splitAtChar_ne_nil sep rest
      simp only [splitAtChar]
      split
      · next h =>
        subst h
        cases hs : splitAtChar c rest with
        | nil => exact absurd hs hne
        | cons word words => rw [← ih, hs]; rfl
      · cases hs : splitAtChar sep rest with
        | nil => exact absurd hs hne
        | cons word words =>
            rw [hs] at ih
            rw [← ih]
            cases words <;> rfl

/-- No piece holds the separator. -/
theorem sep_not_mem_splitAtChar (sep : Char) (cs : List Char) :
    ∀ word ∈ splitAtChar sep cs, sep ∉ word := by
  induction cs with
  | nil => simp [splitAtChar]
  | cons c rest ih =>
      simp only [splitAtChar]
      split
      · simpa using ih
      · next h =>
        split
        · simpa using Ne.symm h
        · next word words hs =>
          rw [hs] at ih
          intro w hw
          rcases List.mem_cons.1 hw with rfl | hw
          · simpa [Ne.symm h] using ih word (by simp)
          · exact ih w (by simp [hw])

/-- The words of a text between single spaces. -/
def words (s : String) : List String := (splitAtChar ' ' s.toList).map String.ofList

/-- Words with single spaces between them. -/
def unwords (ws : List String) : String := " ".intercalate ws

end Runbook.Text
