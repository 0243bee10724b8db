import Runbook.Proofs.Paths
import Runbook.Remote.Peer

set_option autoImplicit false

/-! # Texts of paths

A path that is read from a text has components for its parts. Going on from such a path appends a
slash and a name to its text for each further name; so different names lead to different texts, and
the peer finds in a directory exactly what goes on from it by one name. -/

namespace Runbook

/-- Nothing is dropped from the end of characters that end in others than those of a class. -/
theorem Text.dropEndWhile_of_not_mem {p : Char → Bool} {cs name : List Char} (hne : name ≠ [])
    (hname : ∀ c ∈ name, p c = false) : dropEndWhile p (cs ++ name) = cs ++ name := by
  rw [dropEndWhile, List.reverse_append]
  cases hrev : name.reverse with
  | nil => exact absurd (List.reverse_eq_nil_iff.1 hrev) hne
  | cons c rest =>
      have hc : p c = false := hname c (List.mem_reverse.1 (by simp [hrev]))
      rw [List.cons_append, List.dropWhile_cons, hc, if_neg (by decide), ← List.cons_append, ← hrev,
        ← List.reverse_append, List.reverse_reverse]

namespace Path

/-- The parts of a path that is read from a text are components, and none is the dot. -/
theorem isComponent_of_mem_parts {s name : String} (h : name ∈ (ofText s).parts) :
    IsComponent name := by
  obtain ⟨hmem, hname⟩ := List.mem_filter.1 h
  obtain ⟨cs, hcs, rfl⟩ := List.mem_map.1 hmem
  have hslash := Text.sep_not_mem_splitAtChar '/' s.toList cs hcs
  simp only [Bool.and_eq_true, decide_eq_true_eq] at hname
  exact ⟨hname.1, by simpa using hslash⟩

/-- A path with a last name, all of whose parts are components. -/
structure IsNamed (p : Path) : Prop where
  parts_ne_nil : p.parts ≠ []
  component : ∀ name ∈ p.parts, IsComponent name

theorem isNamed_ofText {s : String} (h : (ofText s).name ≠ "") : (ofText s).IsNamed where
  parts_ne_nil hnil := h (by simp [Path.name, hnil])
  component _ hname := isComponent_of_mem_parts hname

theorem IsNamed.extend {p : Path} (h : p.IsNamed) {names : List String}
    (hnames : ∀ name ∈ names, IsComponent name) : (p.extend names).IsNamed where
  parts_ne_nil := by simp [h.parts_ne_nil]
  component name hname := (List.mem_append.1 hname).elim (h.component name) (hnames name)

/-- The characters of some names, each after a slash. -/
def slashed (names : List String) : List Char := names.flatMap fun n => '/' :: n.toList

theorem slashed_append (names more : List String) :
    slashed (names ++ more) = slashed names ++ slashed more := List.flatMap_append ..

theorem intercalate_ne_empty {parts : List String} (h : parts ≠ [])
    (hparts : ∀ name ∈ parts, name ≠ "") : "/".intercalate parts ≠ "" := by
  cases parts with
  | nil => exact absurd rfl h
  | cons name rest =>
      have hname := hparts name (List.mem_cons_self ..)
      cases rest with
      | nil => simpa using hname
      | cons other rest =>
          rw [String.intercalate_cons_cons]
          simp [hname]

theorem toList_intercalate_append {parts : List String} (h : parts ≠ []) (names : List String) :
    ("/".intercalate (parts ++ names)).toList
      = ("/".intercalate parts).toList ++ slashed names := by
  induction names generalizing parts with
  | nil => simp [slashed]
  | cons name names ih =>
      rw [List.append_cons, ih (by simp),
        String.intercalate_append_of_ne_nil h (List.cons_ne_nil _ _)]
      simp [slashed]

theorem IsNamed.toText_eq {p : Path} (h : p.IsNamed) :
    p.toText = rootText p.root ++ "/".intercalate p.parts := by
  have hne := intercalate_ne_empty h.parts_ne_nil fun name hname => (h.component name hname).1
  rw [toText, if_neg]
  simp [hne]

/-- The text of a path that goes on from another one. -/
theorem IsNamed.toList_toText_extend {p : Path} (h : p.IsNamed) {names : List String}
    (hnames : ∀ name ∈ names, IsComponent name) :
    (p.extend names).toText.toList = p.toText.toList ++ slashed names := by
  rw [(h.extend hnames).toText_eq, h.toText_eq, extend_parts, extend_root, String.toList_append,
    toList_intercalate_append h.parts_ne_nil, String.toList_append, List.append_assoc]

theorem IsNamed.isComponent_name {p : Path} (h : p.IsNamed) : IsComponent p.name := by
  rw [Path.name, List.getLast?_eq_some_getLast h.parts_ne_nil]
  exact h.component _ (List.getLast_mem _)

/-- The text of a path ends with its last name. -/
theorem IsNamed.exists_toText_eq {p : Path} (h : p.IsNamed) :
    ∃ cs, p.toText.toList = cs ++ p.name.toList := by
  have hparts : p.parts = p.parts.dropLast ++ [p.name] := by
    rw [Path.name, List.getLast?_eq_some_getLast h.parts_ne_nil]
    exact (List.dropLast_concat_getLast _).symm
  rw [h.toText_eq, String.toList_append]
  by_cases hinit : p.parts.dropLast = []
  · rw [hinit] at hparts
    exact ⟨_, by rw [hparts, List.nil_append, String.intercalate_singleton]⟩
  · rw [hparts, toList_intercalate_append hinit]
    exact ⟨(rootText p.root).toList ++ (("/".intercalate p.parts.dropLast).toList ++ ['/']),
      by simp [slashed]⟩

theorem takeWhile_slashed {name : String} (h : '/' ∉ name.toList) (names : List String) :
    (name.toList ++ slashed names).takeWhile (· ≠ '/') = name.toList := by
  rw [List.takeWhile_append_of_pos]
  · cases names <;> simp [slashed]
  · intro c hc
    have hne : c ≠ '/' := fun heq => h (heq ▸ hc)
    simpa using hne

/-- Different names lead to different texts. -/
theorem slashed_inj {names more : List String} (hnames : ∀ name ∈ names, '/' ∉ name.toList)
    (hmore : ∀ name ∈ more, '/' ∉ name.toList) (h : slashed names = slashed more) :
    names = more := by
  induction names generalizing more with
  | nil =>
      cases more with
      | nil => rfl
      | cons name more => cases h
  | cons name names ih =>
      cases more with
      | nil => cases h
      | cons other more =>
          have htail : name.toList ++ slashed names = other.toList ++ slashed more :=
            List.cons.inj h |>.2
          -- the first name ends at the first slash
          have hfirst := congrArg (List.takeWhile (· ≠ '/')) htail
          rw [takeWhile_slashed (hnames name (List.mem_cons_self ..)),
            takeWhile_slashed (hmore other (List.mem_cons_self ..))] at hfirst
          rw [hfirst] at htail
          have hrest := ih (fun n hn => hnames n (List.mem_cons_of_mem _ hn))
            (fun n hn => hmore n (List.mem_cons_of_mem _ hn)) (List.append_cancel_left htail)
          rw [String.toList_inj.1 hfirst, hrest]

theorem IsNamed.toText_extend_inj {p : Path} (h : p.IsNamed) {names more : List String}
    (hnames : ∀ name ∈ names, IsComponent name) (hmore : ∀ name ∈ more, IsComponent name)
    (heq : (p.extend names).toText = (p.extend more).toText) : names = more := by
  have hlist := congrArg String.toList heq
  rw [h.toList_toText_extend hnames, h.toList_toText_extend hmore] at hlist
  exact slashed_inj (fun n hn => (hnames n hn).2) (fun n hn => (hmore n hn).2)
    (List.append_cancel_left hlist)

end Path

namespace Peer

open Path (IsComponent)

/-- A name that a directory lists is what follows the directory and a slash. -/
theorem nameIn?_eq_some_iff {path child name : String} :
    nameIn? path child = some name ↔
      IsComponent name ∧ child.toList = lead path ++ name.toList := by
  unfold nameIn?
  constructor
  · intro h
    simp only [Option.ite_none_right_eq_some, Option.ite_none_left_eq_some, Option.some.injEq,
      Bool.or_eq_true, decide_eq_true_eq, not_or] at h
    obtain ⟨hbelow, ⟨hne, hslash⟩, rfl⟩ := h
    obtain ⟨rest, hrest⟩ := List.isPrefixOf_iff_prefix.1 hbelow
    rw [← hrest, List.drop_left] at hne hslash ⊢
    exact ⟨⟨by simpa using hne, by simpa using hslash⟩, by simp⟩
  · rintro ⟨⟨hne, hslash⟩, hchild⟩
    have hbelow : (lead path).isPrefixOf child.toList = true :=
      List.isPrefixOf_iff_prefix.2 ⟨name.toList, hchild.symm⟩
    simp only [hbelow, if_true]
    simp [hchild, hne, hslash]

/-- No slash at the end of a path is dropped where there is none. -/
theorem lead_of_isNamed {p : Path} (h : p.IsNamed) :
    lead p.toText = p.toText.toList ++ ['/'] := by
  obtain ⟨cs, hcs⟩ := h.exists_toText_eq
  obtain ⟨hne, hslash⟩ := h.isComponent_name
  rw [lead, hcs, Text.dropEndWhile_of_not_mem (by simpa using hne)]
  intro c hc
  have hchar : c ≠ '/' := fun heq => hslash (heq ▸ hc)
  simpa using hchar

/-- A directory lists what goes on from it by one name. -/
theorem nameIn?_extend {p : Path} (h : p.IsNamed) {names : List String}
    (hnames : ∀ name ∈ names, IsComponent name) {child name : String} :
    nameIn? (p.extend names).toText child = some name ↔
      IsComponent name ∧ child = (p.extend (names ++ [name])).toText := by
  rw [nameIn?_eq_some_iff, lead_of_isNamed (h.extend hnames), h.toList_toText_extend hnames]
  refine and_congr_right ?_
  intro hname
  have hmore : ∀ n ∈ names ++ [name], IsComponent n := by
    simpa [or_imp, forall_and, hname] using hnames
  rw [← String.toList_inj, h.toList_toText_extend hmore, Path.slashed_append]
  simp [Path.slashed]

end Peer
end Runbook
