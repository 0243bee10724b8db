import Runbook.Text.Replace

set_option autoImplicit false

/-! # Redaction

A password is taken out of a finished text by replacing every occurrence of it with a marker.
Whatever else in the text happens to be equal to the password is replaced as well. An empty secret
would stand between any two characters, so it is left out. -/

namespace Runbook

/-- The secrets to take out of a text, and what stands in their place. -/
structure Redaction where
  secrets : List String
  marker : String
deriving DecidableEq, Repr

namespace Redaction

/-- The marker that stands for a password. -/
def standardMarker : String := "***Not displayed for security reasons***"

/-- The redaction of some secrets. Empty ones do not count. -/
def of (secrets : List String) (marker : String) : Redaction :=
  ⟨secrets.filter (· ≠ ""), marker⟩

/-- The redaction of one password. -/
def password (p : String) : Redaction := of [p] standardMarker

/-- A text with the secrets replaced, one after the other. -/
def scrub (r : Redaction) (s : String) : String :=
  r.secrets.foldl (fun s secret => Text.replaceAll secret r.marker s) s

@[simp] theorem scrub_empty (marker s : String) : (of [] marker).scrub s = s := rfl

/-- The empty password takes nothing out. -/
@[simp] theorem scrub_password_empty (s : String) : (password "").scrub s = s := by
  simp [password, of, scrub]

/-- A password that is not empty is replaced wherever it occurs. -/
theorem scrub_password {p : String} (h : p ≠ "") (s : String) :
    (password p).scrub s = Text.replaceAll p standardMarker s := by
  simp [password, of, scrub, h]

end Redaction
end Runbook
