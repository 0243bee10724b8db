set_option autoImplicit false

/-! # Replacing a literal

Every occurrence of a literal is replaced, from the left and without overlaps; what is put in its
place is not looked at again. -/

namespace Runbook.Text

/-- Replaces `needle`, passing over the next `skip` characters, which belong to an occurrence that
    is already replaced. -/
def replaceFrom (needle marker : List Char) : Nat → List Char → List Char
  | _, [] => []
  | skip + 1, _ :: rest => replaceFrom needle marker skip rest
  | 0, c :: rest =>
    if needle.isPrefixOf (c :: rest) then
      marker ++ replaceFrom needle marker (needle.length - 1) rest
    else c :: replaceFrom needle marker 0 rest

/-- Replaces every occurrence of a non-empty literal. -/
def replaceAll (needle marker : String) (s : String) : String :=
  String.ofList (replaceFrom needle.toList marker.toList 0 s.toList)

/-- Whether characters hold a literal. -/
def holds (needle : List Char) : List Char → Bool
  | [] => needle.isEmpty
  | c :: rest => needle.isPrefixOf (c :: rest) || holds needle rest

/-- A text that holds no occurrence stays as it is. -/
theorem replaceFrom_of_not_infix (needle marker : List Char) (cs : List Char)
    (h : ∀ tail, tail <:+ cs → tail ≠ [] → ¬ needle <+: tail) :
    replaceFrom needle marker 0 cs = cs := by
  induction cs with
  | nil => rfl
  | cons c rest ih =>
      have hc : needle.isPrefixOf (c :: rest) = false := by
        have hp := h (c :: rest) (List.suffix_refl _) (by simp)
        exact Bool.eq_false_iff.2 fun hpre => hp (List.isPrefixOf_iff_prefix.1 hpre)
      rw [replaceFrom, hc]
      simp only [Bool.false_eq_true, if_false, List.cons.injEq, true_and]
      exact ih fun tail ht hne => h tail (ht.trans (List.suffix_cons c rest)) hne

end Runbook.Text
