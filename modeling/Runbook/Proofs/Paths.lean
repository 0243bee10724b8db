import Runbook.Files.Path
import Runbook.Host.Files

set_option autoImplicit false

/-! # Names below paths

A name that a directory lists is one component of a path: it is not empty and holds no slash. Put
below a path it is one more part of the path, or the path itself if it is the dot. The names that a
local directory can hold are fewer: no dots, no null character, and at most 255 bytes. -/

namespace Runbook

namespace Text

theorem splitAtChar_of_not_mem {sep : Char} {cs : List Char} (h : sep ∉ cs) :
    splitAtChar sep cs = [cs] := by
  induction cs with
  | nil => rfl
  | cons c rest ih =>
      simp only [List.mem_cons, not_or] at h
      rw [splitAtChar, if_neg (Ne.symm h.1), ih h.2]

end Text

namespace Path

/-- A name that can be listed: one component of a path. -/
def IsComponent (s : String) : Prop := s ≠ "" ∧ '/' ∉ s.toList

instance (s : String) : Decidable (IsComponent s) := inferInstanceAs (Decidable (_ ∧ _))

/-- A name that a local directory can hold. -/
def isLocalName (s : String) : Bool :=
  isPlainName s && noNull s && decide (s.utf8ByteSize ≤ FileTree.nameLimit)

/-- The path that some names lead to below a path. -/
def extend (p : Path) (names : List String) : Path := { p with parts := p.parts ++ names }

/-- Whether the text of a path can be handed to the local file system. -/
def isUsable (p : Path) : Bool :=
  noNull p.toText && decide (p.toText.utf8ByteSize ≤ FileTree.pathLimit)

@[simp] theorem extend_nil (p : Path) : p.extend [] = p := by simp [extend]

@[simp] theorem extend_extend (p : Path) (names more : List String) :
    (p.extend names).extend more = p.extend (names ++ more) := by simp [extend]

@[simp] theorem extend_root (p : Path) (names : List String) : (p.extend names).root = p.root := rfl

@[simp] theorem extend_parts (p : Path) (names : List String) :
    (p.extend names).parts = p.parts ++ names := rfl

theorem start_extend (workingDir : List String) (p : Path) (names : List String) :
    FileTree.start workingDir (p.extend names) = FileTree.start workingDir p := rfl

/-- A path is its parent, extended by its last name. -/
theorem parent_extend {p : Path} (h : p.parts ≠ []) : p.parent.extend [p.name] = p := by
  obtain ⟨root, parts⟩ := p
  rcases List.eq_nil_or_concat parts with rfl | ⟨init, name, rfl⟩
  · exact absurd rfl h
  · simp [parent, extend, Path.name]

theorem parent_of_parts_nil {p : Path} (h : p.parts = []) : p.parent = p := by
  obtain ⟨root, parts⟩ := p
  simp_all [parent]

/-- The characters of a path that are neither dots nor slashes are those of its names. -/
theorem mem_toText {p : Path} {c : Char} (hdot : c ≠ '.') (hslash : c ≠ '/') :
    c ∈ p.toText.toList ↔ ∃ s ∈ p.parts, c ∈ s.toList := by
  have hroot : c ∉ (rootText p.root).toList := by
    cases p.root <;> simp [rootText, hslash]
  have hparts : ∀ parts : List String,
      c ∈ ("/".intercalate parts).toList ↔ ∃ s ∈ parts, c ∈ s.toList := by
    intro parts
    induction parts with
    | nil => simp
    | cons s rest ih =>
        cases rest with
        | nil => simp
        | cons t rest =>
            rw [String.intercalate_cons_cons, String.toList_append, List.mem_append, ih,
              String.toList_append, List.mem_append]
            simp [hslash]
  rw [← hparts, toText]
  split
  · next h =>
    have := congrArg String.toList h
    simp_all
  · simp [hroot]

/-- The text of a path holds no null if and only if no name in it does. -/
theorem noNull_toText {p : Path} :
    noNull p.toText = true ↔ ∀ s ∈ p.parts, noNull s = true := by
  simp [noNull, mem_toText]

theorem noNull_parent {p : Path} (h : noNull p.toText = true) : noNull p.parent.toText = true :=
  noNull_toText.2 fun s hs => noNull_toText.1 h s (List.dropLast_subset _ hs)

theorem IsComponent.rootOf {s : String} (h : IsComponent s) : rootOf s.toList = .working := by
  obtain ⟨hne, hslash⟩ := h
  cases hs : s.toList with
  | nil => exact absurd (String.toList_eq_nil_iff.1 hs) hne
  | cons c cs =>
      have hc : c ≠ '/' := by
        rintro rfl
        exact hslash (by simp [hs])
      simp [Path.rootOf, hc]

theorem IsComponent.partsOf {s : String} (h : IsComponent s) :
    partsOf s.toList = if s = "." then [] else [s] := by
  rw [Path.partsOf, Text.splitAtChar_of_not_mem h.2]
  by_cases hdot : s = "."
  · simp [hdot]
  · simp [hdot, h.1]

/-- A component is a path of one part; the dot is one of none. -/
theorem ofText_of_component {s : String} (h : IsComponent s) :
    ofText s = ⟨.working, if s = "." then [] else [s]⟩ := by
  rw [ofText, h.rootOf, h.partsOf]

/-- A component below a path is one more part of it; the dot is none. -/
theorem below_of_component (p : Path) {s : String} (h : IsComponent s) :
    p.below s = if s = "." then p else p.extend [s] := by
  simp only [below, ofText_of_component h, if_true]
  by_cases hdot : s = "." <;> simp [hdot, extend]

theorem isComponent_of_isLocalName {s : String} (h : isLocalName s = true) : IsComponent s := by
  simp only [isLocalName, isPlainName, Bool.and_eq_true, decide_eq_true_eq] at h
  obtain ⟨⟨⟨⟨⟨hne, -⟩, -⟩, hslash⟩, -⟩, -⟩ := h
  exact ⟨hne, by simpa using hslash⟩

theorem below_of_isLocalName (p : Path) {s : String} (h : isLocalName s = true) :
    p.below s = p.extend [s] := by
  rw [below_of_component p (isComponent_of_isLocalName h), if_neg]
  rintro rfl
  exact absurd h (by decide)

end Path
end Runbook
