import Mathlib.Tactic.SplitIfs
import Runbook.Proofs.Copies

set_option autoImplicit false

/-! # Valid trees

A node of a local file system holds its entries in the order of their names, each name once, and
only names that a directory can hold. Walking through such a node lists everything below it in the
lexicographic order of the names that lead there: each directory before what it holds, and the
entries of a directory in the order of their names. -/

namespace Runbook.FileTree

open Path (isLocalName)

mutual

/-- Whether a node can be one of a local file system. -/
def isValid : FileTree → Bool
  | file _ => true
  | dir es => areValid es

/-- Whether some entries can be those of a local directory. -/
def areValid : List (String × FileTree) → Bool
  | [] => true
  | (name, t) :: rest =>
    isLocalName name && rest.all (fun x => decide (name < x.1)) && t.isValid && areValid rest

end

theorem areValid_cons {name : String} {t : FileTree} {rest : List (String × FileTree)}
    (h : areValid ((name, t) :: rest) = true) :
    isLocalName name = true ∧ (∀ x ∈ rest, name < x.1) ∧ t.isValid = true ∧
      areValid rest = true := by
  unfold areValid at h
  simpa [and_assoc] using h

theorem child?_eq_none {name : String} {es : List (String × FileTree)}
    (h : ∀ x ∈ es, x.1 ≠ name) : child? name es = none := by
  induction es with
  | nil => rfl
  | cons x rest ih =>
      obtain ⟨n, t⟩ := x
      rw [child?, if_neg (h _ (List.mem_cons_self ..)),
        ih fun y hy => h y (List.mem_cons_of_mem _ hy)]

theorem mem_of_child? {es : List (String × FileTree)} {name : String} {t : FileTree}
    (h : child? name es = some t) : (name, t) ∈ es := by
  induction es with
  | nil => cases h
  | cons x rest ih =>
      obtain ⟨n, u⟩ := x
      by_cases hn : n = name
      · rw [child?, if_pos hn] at h
        cases h
        rw [hn]
        exact List.mem_cons_self ..
      · rw [child?, if_neg hn] at h
        exact List.mem_cons_of_mem _ (ih h)

/-- Each entry of a valid directory has a name that it can hold, and is valid itself. -/
theorem isValid_of_mem {es : List (String × FileTree)} (h : areValid es = true)
    {x : String × FileTree} (hx : x ∈ es) : isLocalName x.1 = true ∧ x.2.isValid = true := by
  induction es with
  | nil => cases hx
  | cons y rest ih =>
      obtain ⟨hname, -, ht, hrest⟩ := areValid_cons h
      rcases List.mem_cons.1 hx with rfl | hx
      · exact ⟨hname, ht⟩
      · exact ih hrest hx

theorem child?_of_mem {es : List (String × FileTree)} (h : areValid es = true)
    {x : String × FileTree} (hx : x ∈ es) : child? x.1 es = some x.2 := by
  induction es with
  | nil => cases hx
  | cons y rest ih =>
      obtain ⟨n, t⟩ := y
      obtain ⟨-, hless, -, hrest⟩ := areValid_cons h
      rcases List.mem_cons.1 hx with rfl | hx
      · rw [child?, if_pos rfl]
      · have hne : n ≠ x.1 := fun heq => by
          have hlt := hless x hx
          rw [heq] at hlt
          exact String.lt_irrefl _ hlt
        rw [child?, if_neg hne, ih hrest hx]

/-- An entry whose name is less than the others is set in front of them. -/
theorem setEntry_front {name : String} {t : FileTree} {es : List (String × FileTree)}
    (h : ∀ x ∈ es, name < x.1) : setEntry name t es = (name, t) :: es := by
  cases es with
  | nil => rfl
  | cons x rest =>
      have hless : name < x.1 := h x (List.mem_cons_self ..)
      have hne : x.1 ≠ name := fun heq => String.lt_irrefl name (heq ▸ hless)
      rw [setEntry, if_neg hne, if_pos hless]

mutual

/-- Sorting leaves a valid node as it is. -/
theorem sorted_of_isValid : ∀ t : FileTree, t.isValid = true → t.sorted = t
  | file _, _ => rfl
  | dir es, h => by
      unfold isValid at h
      rw [sorted, sortedEntries_of_areValid es h]

theorem sortedEntries_of_areValid :
    ∀ es : List (String × FileTree), areValid es = true → sortedEntries es = es
  | [], _ => rfl
  | (_, t) :: rest, h => by
      obtain ⟨-, hless, ht, hrest⟩ := areValid_cons h
      rw [sortedEntries, sorted_of_isValid t ht, sortedEntries_of_areValid rest hrest,
        setEntry_front hless]

end

/-- Every node of a valid tree is valid. -/
theorem isValid_of_get? {t u : FileTree} {names : List String} (h : t.isValid = true)
    (hu : t.get? names = some u) : u.isValid = true := by
  induction names generalizing t with
  | nil =>
      cases hu
      exact h
  | cons name names ih =>
      rw [get?] at hu
      obtain ⟨v, hv, hnames⟩ := Option.bind_eq_some_iff.1 hu
      refine ih ?_ hnames
      cases t with
      | file content => cases hv
      | dir es =>
          unfold isValid at h
          exact (isValid_of_mem h (mem_of_child? hv)).2

/-- What is found at a path of a valid tree is valid. -/
theorem isValid_of_at {t u : FileTree} {workingDir : List String} {p : Path}
    (h : t.isValid = true) (hu : t.at? workingDir p = .ok (some u)) : u.isValid = true := by
  obtain ⟨place, -, hplace⟩ := locate_of_at hu
  exact isValid_of_get? h hplace

/-- No name that leads somewhere in a valid tree holds a null character. -/
theorem noNull_of_step {t : FileTree} {place next : List String} {name : String}
    (h : t.isValid = true) (hstep : t.step place name = .ok (.inside next)) :
    noNull name = true := by
  unfold step at hstep
  split at hstep
  · cases hstep
  · cases hstep
  · next es hes =>
    have hvalid := isValid_of_get? h hes
    unfold isValid at hvalid
    split_ifs at hstep with hlimit hdot hup
    · simp only [Bool.or_eq_true, decide_eq_true_eq] at hdot
      rcases hdot with rfl | rfl <;> decide
    · subst hup
      decide
    · split at hstep
      · next u hu =>
        have hlocal := (isValid_of_mem hvalid (mem_of_child? hu)).1
        simp only [isLocalName, Bool.and_eq_true] at hlocal
        exact hlocal.1.2
      · cases hstep

theorem noNull_of_follow {t : FileTree} {start place names : List String} (h : t.isValid = true)
    (hfollow : t.follow start names = .ok (.inside place)) :
    ∀ name ∈ names, noNull name = true := by
  induction names generalizing start with
  | nil => simp
  | cons name names ih =>
      obtain ⟨next, hstep, hrest⟩ := step_of_follow hfollow
      intro n hn
      rcases List.mem_cons.1 hn with rfl | hn
      · exact noNull_of_step h hstep
      · exact ih hrest n hn

/-- No path at which something is found in a valid tree holds a null character. -/
theorem noNull_of_at {t u : FileTree} {workingDir : List String} {p : Path} (h : t.isValid = true)
    (hu : t.at? workingDir p = .ok (some u)) : noNull p.toText = true := by
  obtain ⟨place, hplace, -⟩ := locate_of_at hu
  exact Path.noNull_toText.2 (noNull_of_follow h (follow_of_locate hplace))

/-! ## The order of the items -/

mutual

theorem exists_of_mem_items : ∀ (t : FileTree) (lead : List String) (item : CopyItem),
    item ∈ t.items lead → ∃ name rest, item.1 = lead ++ name :: rest
  | file _, lead, item, h => by
    unfold items at h
    cases h
  | dir es, lead, item, h => by
    unfold items at h
    obtain ⟨x, -, rest, hrest⟩ := exists_of_mem_entryItems es lead item h
    exact ⟨x.1, rest, hrest⟩

/-- Everything in some entries is below one of them. -/
theorem exists_of_mem_entryItems : ∀ (es : List (String × FileTree)) (lead : List String)
    (item : CopyItem), item ∈ entryItems lead es → ∃ x ∈ es, ∃ rest, item.1 = lead ++ x.1 :: rest
  | [], lead, item, h => by
    unfold entryItems at h
    cases h
  | (name, t) :: es, lead, item, h => by
    rw [entryItems_cons] at h
    rcases List.mem_append.1 h with h | h
    · refine ⟨(name, t), List.mem_cons_self .., ?_⟩
      rcases List.mem_cons.1 h with rfl | h
      · exact ⟨[], rfl⟩
      · obtain ⟨n, rest, hrest⟩ := exists_of_mem_items t _ item h
        exact ⟨n :: rest, by simp [hrest]⟩
    · obtain ⟨x, hx, rest, hrest⟩ := exists_of_mem_entryItems es lead item h
      exact ⟨x, List.mem_cons_of_mem _ hx, rest, hrest⟩

end

/-- Everything that a node and its items are is below the names that lead there. -/
theorem exists_of_mem_nodeItems {t : FileTree} {lead : List String} {item : CopyItem}
    (h : item ∈ t.nodeItems lead) : ∃ rest, item.1 = lead ++ rest := by
  rcases List.mem_cons.1 h with rfl | h
  · exact ⟨[], by simp⟩
  · obtain ⟨name, rest, hrest⟩ := exists_of_mem_items t lead item h
    exact ⟨name :: rest, hrest⟩

theorem lt_append_cons (lead : List String) (name : String) (rest : List String) :
    lead < lead ++ name :: rest := by
  have h : lead ++ [] < lead ++ name :: rest := List.append_left_lt (List.nil_lt_cons name rest)
  rwa [List.append_nil] at h

mutual

theorem items_pairwise : ∀ (t : FileTree) (lead : List String), t.isValid = true →
    (t.items lead).Pairwise fun a b => a.1 < b.1
  | file _, lead, _ => by
    unfold items
    exact .nil
  | dir es, lead, h => by
    unfold items
    unfold isValid at h
    exact entryItems_pairwise es lead h

theorem entryItems_pairwise : ∀ (es : List (String × FileTree)) (lead : List String),
    areValid es = true → (entryItems lead es).Pairwise fun a b => a.1 < b.1
  | [], lead, _ => by
    unfold entryItems
    exact .nil
  | (name, t) :: es, lead, h => by
    obtain ⟨-, hless, ht, hes⟩ := areValid_cons h
    rw [entryItems_cons, List.pairwise_append]
    refine ⟨List.pairwise_cons.2 ⟨fun item hitem => ?_, items_pairwise t _ ht⟩,
      entryItems_pairwise es lead hes, fun a ha b hb => ?_⟩
    · obtain ⟨n, rest, hrest⟩ := exists_of_mem_items t _ item hitem
      rw [hrest]
      exact lt_append_cons _ n rest
    · -- the names part at the entries: whatever follows, the first one is less
      obtain ⟨rest, hrest⟩ := exists_of_mem_nodeItems ha
      obtain ⟨x, hx, rest', hrest'⟩ := exists_of_mem_entryItems es lead b hb
      rw [hrest, hrest', List.append_assoc]
      have hname : name < x.1 := hless x hx
      exact List.append_left_lt (List.cons_lt_cons_iff.2 (Or.inl hname))

end

mutual

theorem isLocalName_of_mem_items : ∀ (t : FileTree) (lead : List String) (item : CopyItem),
    t.isValid = true → item ∈ t.items lead →
    ∃ rest, item.1 = lead ++ rest ∧ ∀ name ∈ rest, isLocalName name = true
  | file _, lead, item, _, h => by
    unfold items at h
    cases h
  | dir es, lead, item, hvalid, h => by
    unfold items at h
    unfold isValid at hvalid
    exact isLocalName_of_mem_entryItems es lead item hvalid h

/-- The names in a valid node are all names that a directory can hold. -/
theorem isLocalName_of_mem_entryItems : ∀ (es : List (String × FileTree)) (lead : List String)
    (item : CopyItem), areValid es = true → item ∈ entryItems lead es →
    ∃ rest, item.1 = lead ++ rest ∧ ∀ name ∈ rest, isLocalName name = true
  | [], lead, item, _, h => by
    unfold entryItems at h
    cases h
  | (name, t) :: es, lead, item, hvalid, h => by
    obtain ⟨hname, -, ht, hes⟩ := areValid_cons hvalid
    rw [entryItems_cons] at h
    rcases List.mem_append.1 h with h | h
    · rcases List.mem_cons.1 h with rfl | h
      · exact ⟨[name], rfl, by simpa using hname⟩
      · obtain ⟨rest, hrest, hlocal⟩ := isLocalName_of_mem_items t _ item ht h
        exact ⟨name :: rest, by simp [hrest], by simpa using ⟨hname, hlocal⟩⟩
    · exact isLocalName_of_mem_entryItems es lead item hes h

end

/-- A walk through a valid node meets everything in the lexicographic order of names. -/
theorem nodeItems_pairwise {t : FileTree} (h : t.isValid = true) (lead : List String) :
    (t.nodeItems lead).Pairwise fun a b => a.1 < b.1 := by
  refine List.pairwise_cons.2 ⟨fun item hitem => ?_, items_pairwise t lead h⟩
  obtain ⟨n, rest, hrest⟩ := exists_of_mem_items t lead item hitem
  rw [hrest]
  exact lt_append_cons lead n rest

end Runbook.FileTree
