import Runbook.Files.Tree

set_option autoImplicit false

/-! # Laws of the tree of files

What is found in a tree after a node is set: below the node what was set, beside it what was there
before, and above it directories. A tree extends another one if every node is still there and still
of its kind; a path that leads to a directory goes on to lead there. -/

namespace Runbook.FileTree

/-! ## Looking up along a path of names -/

theorem get?_cons (t : FileTree) (name : String) (names : List String) :
    t.get? (name :: names) = (child? name t.entries).bind fun u => u.get? names := rfl

/-- Following some names and then others is following them one after the other. -/
theorem get?_append (t : FileTree) (names more : List String) :
    t.get? (names ++ more) = (t.get? names).bind fun u => u.get? more := by
  induction names generalizing t with
  | nil => rfl
  | cons name names ih =>
      rw [List.cons_append, get?_cons, get?_cons]
      rcases child? name t.entries with _ | u
      · rfl
      · exact ih u

theorem get?_concat {t : FileTree} {place : List String} {es : List (String × FileTree)}
    (h : t.get? place = some (.dir es)) (name : String) :
    t.get? (place ++ [name]) = child? name es := by
  rw [get?_append, h, Option.bind_some, get?_cons]
  change (child? name es).bind some = _
  simp

/-- Only a directory holds anything. -/
theorem isDir_of_get?_cons {t u : FileTree} {name : String} {names : List String}
    (h : t.get? (name :: names) = some u) : t.isDir = true := by
  cases t with
  | file content => simp [get?_cons, entries, child?] at h
  | dir es => rfl

theorem get?_dropLast {t : FileTree} {place : List String} {es : List (String × FileTree)}
    (h : t.get? place = some (.dir es)) : ∃ es', t.get? place.dropLast = some (.dir es') := by
  rcases List.eq_nil_or_concat place with rfl | ⟨init, name, rfl⟩
  · exact ⟨es, h⟩
  · rw [List.concat_eq_append, get?_append] at h
    obtain ⟨u, hu, hname⟩ := Option.bind_eq_some_iff.1 h
    have hdir := isDir_of_get?_cons hname
    cases u with
    | file content => cases hdir
    | dir es' => exact ⟨es', by simpa using hu⟩

/-- What stands above a directory is a directory. -/
theorem isDir_above {t u : FileTree} {names place : List String} {es : List (String × FileTree)}
    (h : t.get? place = some (.dir es)) (hpre : names <+: place) (hu : t.get? names = some u) :
    u.isDir = true := by
  obtain ⟨rest, rfl⟩ := hpre
  rw [get?_append, hu, Option.bind_some] at h
  cases rest with
  | nil =>
      obtain rfl : u = .dir es := Option.some.inj h
      rfl
  | cons name rest => exact isDir_of_get?_cons h

/-! ## Looking up after a node is set -/

theorem setEntry_setEntry (name : String) (t u : FileTree) (es : List (String × FileTree)) :
    setEntry name u (setEntry name t es) = setEntry name u es := by
  induction es with
  | nil => simp [setEntry]
  | cons e rest ih =>
      obtain ⟨n, v⟩ := e
      by_cases h : n = name
      · simp [setEntry, h]
      · by_cases hlt : name < n
        · simp [setEntry, h, hlt]
        · simp [setEntry, h, hlt, ih]

/-- Setting a node below one that has just been set is setting it there beforehand. -/
theorem put_put_append (t new below : FileTree) (place names : List String) :
    (t.put place new).put (place ++ names) below = t.put place (new.put names below) := by
  induction place generalizing t with
  | nil => rfl
  | cons name place ih =>
      simp only [List.cons_append, put, entries, child?_setEntry_self, Option.getD_some, ih,
        setEntry_setEntry]

theorem get?_put_below (t new : FileTree) (place names : List String) :
    (t.put place new).get? (place ++ names) = new.get? names := by
  rw [get?_append, get?_put_self, Option.bind_some]

/-- Beside the node that is set nothing changes. -/
theorem get?_put_beside (new : FileTree) {place names : List String}
    (hbelow : ¬ place <+: names) (habove : ¬ names <+: place) (t : FileTree) :
    (t.put place new).get? names = t.get? names := by
  induction place generalizing t names with
  | nil => exact absurd (List.nil_prefix) hbelow
  | cons n place ih =>
      cases names with
      | nil => exact absurd (List.nil_prefix) habove
      | cons m names =>
          rw [put, get?_cons, get?_cons]
          change (child? m (setEntry n _ _)).bind _ = _
          by_cases h : m = n
          · subst h
            rw [child?_setEntry_self, Option.bind_some]
            simp only [List.cons_prefix_cons, true_and] at hbelow habove
            rw [ih hbelow habove]
            cases child? m t.entries with
            | some u => rfl
            | none =>
                cases names with
                | nil => exact absurd (List.nil_prefix) habove
                | cons m' names => rfl
          · rw [child?_setEntry_of_ne h]

/-- Above the node that is set there are directories. -/
theorem get?_put_above (t new : FileTree) {place names : List String} (h : names <+: place)
    (hne : names ≠ place) : ∃ es, (t.put place new).get? names = some (.dir es) := by
  obtain ⟨rest, rfl⟩ := h
  induction names generalizing t with
  | nil =>
      cases rest with
      | nil => exact absurd rfl hne
      | cons name rest => exact ⟨_, rfl⟩
  | cons name names ih =>
      rw [List.cons_append, put, get?_cons]
      simp only [entries, child?_setEntry_self, Option.bind_some]
      exact ih _ fun hn => hne (by rw [List.cons_append, ← hn])

/-- What is set below a spot is not seen beside it. -/
theorem get?_put_beside_of_below (new : FileTree) {spot place names : List String}
    (hplace : spot <+: place) (hbelow : ¬ spot <+: names) (habove : ¬ names <+: spot)
    (t : FileTree) : (t.put place new).get? names = t.get? names := by
  refine get?_put_beside new (fun h => hbelow (hplace.trans h)) (fun h => ?_) t
  rcases List.prefix_or_prefix_of_prefix h hplace with h' | h'
  · exact habove h'
  · exact hbelow h'

/-! ## Trees that extend others -/

/-- Every node of a tree is a node of another one, and of the same kind there. -/
def Extends (t t' : FileTree) : Prop :=
  ∀ names u, t.get? names = some u → ∃ u', t'.get? names = some u' ∧ u'.isDir = u.isDir

theorem Extends.refl (t : FileTree) : t.Extends t := fun _ u h => ⟨u, h, rfl⟩

theorem Extends.trans {t t' t'' : FileTree} (h : t.Extends t') (h' : t'.Extends t'') :
    t.Extends t'' := by
  intro names u hu
  obtain ⟨u', hu', hkind⟩ := h names u hu
  obtain ⟨u'', hu'', hkind'⟩ := h' names u' hu'
  exact ⟨u'', hu'', hkind'.trans hkind⟩

/-- A new entry of a directory, or a file in the place of a file, extends the tree. -/
theorem extends_put {t new : FileTree} {place : List String} {name : String}
    {es : List (String × FileTree)} (hplace : t.get? place = some (.dir es))
    (hold : ∀ u, t.get? (place ++ [name]) = some u → u.isDir = false ∧ new.isDir = false) :
    t.Extends (t.put (place ++ [name]) new) := by
  intro names u hu
  by_cases hbelow : place ++ [name] <+: names
  · obtain ⟨rest, rfl⟩ := hbelow
    rw [get?_append] at hu
    obtain ⟨v, hv, hrest⟩ := Option.bind_eq_some_iff.1 hu
    cases rest with
    | nil =>
        obtain rfl : v = u := Option.some.inj hrest
        exact ⟨new, get?_put_below t new (place ++ [name]) [],
          (hold v hv).2.trans (hold v hv).1.symm⟩
    | cons m rest => exact absurd (isDir_of_get?_cons hrest) (by simp [(hold v hv).1])
  · by_cases habove : names <+: place ++ [name]
    · rcases List.prefix_concat_iff.1 habove with rfl | hpre
      · exact absurd (List.prefix_refl _) hbelow
      · obtain ⟨es', hes'⟩ := get?_put_above t new habove fun h => hbelow (h ▸ List.prefix_refl _)
        exact ⟨_, hes', (isDir_above hplace hpre hu).symm⟩
    · exact ⟨u, by rw [get?_put_beside new hbelow habove, hu], rfl⟩

/-! ## Following paths -/

theorem follow_cons {t : FileTree} {start next : List String} {name : String}
    (h : t.step start name = .ok (.inside next)) (names : List String) :
    t.follow start (name :: names) = t.follow next names := by
  rw [follow, h]

/-- The first of some names that lead to a node leads to a node as well. -/
theorem step_of_follow {t : FileTree} {start place names : List String} {name : String}
    (h : t.follow start (name :: names) = .ok (.inside place)) :
    ∃ next, t.step start name = .ok (.inside next) ∧ t.follow next names = .ok (.inside place) := by
  rw [follow] at h
  split at h
  · cases h
  · next next hnext => exact ⟨next, hnext, h⟩
  · split at h <;> cases h

theorem follow_append {t : FileTree} {names : List String} {start place : List String}
    (h : t.follow start names = .ok (.inside place)) (more : List String) :
    t.follow start (names ++ more) = t.follow place more := by
  induction names generalizing start with
  | nil =>
      obtain rfl : start = place := by simpa [follow] using h
      rfl
  | cons name names ih =>
      obtain ⟨next, hnext, hrest⟩ := step_of_follow h
      rw [List.cons_append, follow_cons hnext, ih hrest]

theorem step_of_extends {t t' : FileTree} (hext : t.Extends t') {start place : List String}
    {name : String} (h : t.step start name = .ok (.inside place)) :
    t'.step start name = .ok (.inside place) := by
  unfold step at h ⊢
  split at h
  · cases h
  · cases h
  · next es hes =>
    obtain ⟨u', hu', hkind⟩ := hext _ _ hes
    cases u' with
    | file content => cases hkind
    | dir es' =>
        simp only [hu']
        split at h
        · cases h
        · next hlimit =>
          rw [if_neg hlimit]
          split at h
          · next hdot => rw [if_pos hdot, h]
          · next hdot =>
            rw [if_neg hdot]
            split at h
            · next hup => rw [if_pos hup, h]
            · next hup =>
              rw [if_neg hup]
              split at h
              · next u hu =>
                obtain ⟨v, hv, -⟩ := hext (start ++ [name]) u (by rw [get?_concat hes, hu])
                rw [get?_concat hu'] at hv
                simp only [hv, h]
              · cases h

/-- Names that lead to a node go on to lead there in every tree that extends the first. -/
theorem follow_of_extends {t t' : FileTree} (hext : t.Extends t') {start place names : List String}
    (h : t.follow start names = .ok (.inside place)) :
    t'.follow start names = .ok (.inside place) := by
  induction names generalizing start with
  | nil => exact h
  | cons name names ih =>
      obtain ⟨next, hnext, hrest⟩ := step_of_follow h
      rw [follow_cons (step_of_extends hext hnext), ih hrest]

/-- What is found at a path is a node to which the path leads. -/
theorem locate_of_at {t u : FileTree} {workingDir : List String} {p : Path}
    (h : t.at? workingDir p = .ok (some u)) :
    ∃ place, t.locate workingDir p = .ok (.inside place) ∧ t.get? place = some u := by
  unfold at? at h
  cases hl : t.locate workingDir p with
  | error x =>
      rw [hl] at h
      cases h
  | ok spot =>
      rw [hl] at h
      cases spot with
      | absent q => cases h
      | inside q => exact ⟨q, rfl, Except.ok.inj h⟩

theorem follow_of_locate {t : FileTree} {workingDir : List String} {p : Path} {spot : Spot}
    (h : t.locate workingDir p = .ok spot) : t.follow (start workingDir p) p.parts = .ok spot := by
  unfold locate at h
  split at h
  · cases h
  · exact h

end Runbook.FileTree
