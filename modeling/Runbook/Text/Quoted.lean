import Runbook.Text.Printable
import Runbook.Text.Utf8

set_option autoImplicit false

/-! # Quoted text

Messages and descriptions show a text in quotes, so that blanks at its ends and characters without a
visible form can be seen. The single quote encloses it, unless the text holds single quotes and no
double quote. The quote itself and the backslash are escaped, tabs and line ends have escapes of
their own, and every other character without a visible form is written by its number, with two, four
or eight hexadecimal digits. -/

namespace Runbook.Text

/-- The last `width` hexadecimal digits of a number. -/
def hexDigits : Nat → Nat → List Char
  | 0, _ => []
  | width + 1, n => hexDigits width (n / 16) ++ [Nat.digitChar (n % 16)]

/-- A character by its number. -/
def numberEscape (n : Nat) : List Char :=
  if n < 256 then '\\' :: 'x' :: hexDigits 2 n
  else if n < 65536 then '\\' :: 'u' :: hexDigits 4 n
  else '\\' :: 'U' :: hexDigits 8 n

/-- The quote that encloses some characters. -/
def quoteMark (cs : List Char) : Char := if '\'' ∈ cs ∧ '"' ∉ cs then '"' else '\''

/-- How one character is written between quotes. -/
def escapeChar (mark c : Char) : List Char :=
  if c = mark || c = '\\' then ['\\', c]
  else if c = '\t' then ['\\', 't']
  else if c = '\n' then ['\\', 'n']
  else if c = '\r' then ['\\', 'r']
  else if isVisible c then [c]
  else numberEscape c.toNat

/-- Characters between quotes. -/
def quotedList (cs : List Char) : List Char :=
  let mark := quoteMark cs
  mark :: (cs.flatMap (escapeChar mark) ++ [mark])

/-- A text between quotes. -/
def quoted (s : String) : String := String.ofList (quotedList s.toList)

/-- Bytes between quotes, after the letter that marks them as bytes: ASCII is shown, and every other
    byte by its number. -/
def quotedBytes (bs : Bytes) : String :=
  let cs := bs.map fun b => Char.ofNat b.toNat
  let mark := quoteMark cs
  let shown := cs.flatMap fun c =>
    if 127 ≤ c.toNat then numberEscape c.toNat else escapeChar mark c
  String.ofList ('b' :: mark :: (shown ++ [mark]))

/-- A list of shown values, in brackets. -/
def bracketed (shown : List String) : String := "[" ++ ", ".intercalate shown ++ "]"

/-- A list of texts, each in quotes. -/
def quotedWords (ws : List String) : String := bracketed (ws.map quoted)

/-- A list of integers. -/
def shownInts (ns : List Int) : String := bracketed (ns.map toString)

/-- What is in shown values in brackets is in one of them, or is put around them. -/
theorem mem_bracketed {c : Char} {shown : List String} (h : c ∈ (bracketed shown).toList) :
    (∃ s ∈ shown, c ∈ s.toList) ∨ c ∈ ['[', ',', ' ', ']'] := by
  have hmiddle : c ∈ (", ".intercalate shown).toList →
      (∃ s ∈ shown, c ∈ s.toList) ∨ c ∈ [',', ' '] := by
    clear h
    induction shown with
    | nil => exact fun h => nomatch h
    | cons first rest ih =>
      cases rest with
      | nil =>
        rw [String.intercalate_singleton]
        exact fun h => .inl ⟨first, List.mem_cons_self, h⟩
      | cons second rest =>
        rw [String.intercalate_cons_cons, String.toList_append, String.toList_append]
        simp only [List.mem_append]
        rintro ((h | h) | h)
        · exact .inl ⟨first, List.mem_cons_self, h⟩
        · exact .inr h
        · exact (ih h).imp_left fun ⟨s, hs, hc⟩ => ⟨s, List.mem_cons_of_mem _ hs, hc⟩
  rw [bracketed, String.toList_append, String.toList_append] at h
  simp only [List.mem_append] at h
  rcases h with (h | h) | h
  · obtain rfl : c = '[' := List.mem_singleton.1 h
    exact .inr List.mem_cons_self
  · refine (hmiddle h).imp_right fun hc => ?_
    exact List.mem_cons_of_mem '[' (List.mem_append_left [']'] hc)
  · obtain rfl : c = ']' := List.mem_singleton.1 h
    exact .inr (by simp)

/-- A number is written in digits, behind a minus if it is below zero. -/
theorem mem_toString_int {c : Char} {n : Int} (h : c ∈ (toString n).toList) :
    c.isDigit = true ∨ c = '-' := by
  have hnat : ∀ n : Nat, c ∈ (toString n).toList → c.isDigit = true := by
    intro n h
    rw [Nat.toString_eq_repr, Nat.toList_repr] at h
    exact Nat.isDigit_of_mem_toDigits (by decide) (by decide) h
  cases n with
  | ofNat n => exact .inl (hnat n h)
  | negSucc n =>
    have hsign : toString (Int.negSucc n) = "-" ++ toString (n + 1) := rfl
    rw [hsign, String.toList_append] at h
    rcases List.mem_append.1 h with h | h
    · exact .inr (List.mem_singleton.1 h)
    · exact .inl (hnat (n + 1) h)

end Runbook.Text
