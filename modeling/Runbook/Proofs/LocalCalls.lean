import Mathlib.Tactic.SplitIfs
import Runbook.Proofs.FileTrees
import Runbook.Proofs.Paths
import Runbook.Proofs.Runs

set_option autoImplicit false

/-! # Calls of the local file system

What the calls of the local file system do at a path in a directory. A call that fails changes
nothing. One that makes a directory puts it where nothing was, and one that writes a file puts it
where nothing or a file was; both go through directories that are there, so everything that was in
the tree is still there. -/

namespace Runbook

namespace FileTree

open Path (IsComponent isLocalName isUsable)

/-- A path that leads to a directory of the tree. -/
structure LeadsTo (t : FileTree) (workingDir : List String) (p : Path) (place : List String) :
    Prop where
  follow : t.follow (start workingDir p) p.parts = .ok (.inside place)
  isDir : ∃ es, t.get? place = some (.dir es)

variable {t t' : FileTree} {workingDir place : List String} {p : Path} {name : String}

theorem LeadsTo.extends (h : t.LeadsTo workingDir p place) (hext : t.Extends t') :
    t'.LeadsTo workingDir p place := by
  obtain ⟨es, hes⟩ := h.isDir
  refine ⟨follow_of_extends hext h.follow, ?_⟩
  obtain ⟨u, hu, hkind⟩ := hext place _ hes
  cases u with
  | file content => cases hkind
  | dir es' => exact ⟨es', hu⟩

/-- The steps from a directory: to what is listed there, to nothing, or to a directory that is there
    already. -/
theorem step_cases {es : List (String × FileTree)} (hes : t.get? place = some (.dir es))
    {spot : Spot} (h : t.step place name = .ok spot) :
    (spot = .absent (place ++ [name]) ∧ t.get? (place ++ [name]) = none) ∨
      (spot = .inside (place ++ [name]) ∧ ∃ u, t.get? (place ++ [name]) = some u) ∨
      ∃ q es', spot = .inside q ∧ t.get? q = some (.dir es') := by
  unfold step at h
  simp only [hes] at h
  split at h
  · cases h
  · split at h
    · cases h
      exact Or.inr (Or.inr ⟨place, es, rfl, hes⟩)
    · split at h
      · cases h
        obtain ⟨es', hes'⟩ := get?_dropLast hes
        exact Or.inr (Or.inr ⟨_, es', rfl, hes'⟩)
      · split at h
        · next u hu =>
          cases h
          exact Or.inr (Or.inl ⟨rfl, u, by rw [get?_concat hes, hu]⟩)
        · next hnone =>
          cases h
          exact Or.inl ⟨rfl, by rw [get?_concat hes, hnone]⟩

/-- A name that is not too long leads somewhere from a directory. -/
theorem exists_step {es : List (String × FileTree)} (hes : t.get? place = some (.dir es))
    (hname : name.utf8ByteSize ≤ nameLimit) : ∃ spot, t.step place name = .ok spot := by
  simp only [step, hes, if_neg (Nat.not_lt.2 hname)]
  split_ifs
  · exact ⟨_, rfl⟩
  · exact ⟨_, rfl⟩
  · cases child? name es with
    | none => exact ⟨_, rfl⟩
    | some u => exact ⟨_, rfl⟩

/-- Only from a directory does a name lead anywhere. -/
theorem isDir_of_step {spot : Spot} (h : t.step place name = .ok spot) :
    ∃ es, t.get? place = some (.dir es) := by
  unfold step at h
  split at h
  · cases h
  · cases h
  · next es hes => exact ⟨es, hes⟩

/-- A name that led to nothing leads to what is put there. -/
theorem step_put_of_absent (h : t.step place name = .ok (.absent (place ++ [name])))
    (new : FileTree) : (t.put (place ++ [name]) new).step place name
      = .ok (.inside (place ++ [name])) := by
  obtain ⟨es, hes⟩ := get?_put_above t new (List.prefix_append place [name]) (by simp)
  have hchild : child? name es = some new := by
    rw [← get?_concat hes, get?_put_self]
  unfold step at h ⊢
  rw [hes]
  split at h
  · cases h
  · cases h
  · split_ifs at h ⊢
    · cases h
    · cases h
    · simp [hchild]

/-- A local name leads to nothing where nothing of that name is listed. -/
theorem step_of_free {es : List (String × FileTree)} (hes : t.get? place = some (.dir es))
    (hname : isLocalName name = true) (hfree : t.get? (place ++ [name]) = none) :
    t.step place name = .ok (.absent (place ++ [name])) := by
  simp only [isLocalName, Path.isPlainName, Bool.and_eq_true, decide_eq_true_eq] at hname
  obtain ⟨⟨⟨⟨⟨hne, hdot⟩, hup⟩, -⟩, -⟩, hlimit⟩ := hname
  rw [get?_concat hes] at hfree
  simp [step, hes, hne, hdot, hup, hfree, Nat.not_lt.2 hlimit]

theorem size_of_step {spot : Spot} (h : t.step place name = .ok spot) :
    name.utf8ByteSize ≤ nameLimit := by
  obtain ⟨es, hes⟩ := isDir_of_step h
  simp only [step, hes] at h
  split at h
  · cases h
  · next hlimit => exact Nat.not_lt.1 hlimit

/-- A component that leads to no directory is a local name, if it holds no null. -/
theorem isLocalName_of_step {spot : Spot} (hname : IsComponent name) (hnull : noNull name = true)
    (h : t.step place name = .ok spot)
    (hspot : ∀ q es, spot = .inside q → t.get? q ≠ some (.dir es)) : isLocalName name = true := by
  have hlimit := size_of_step h
  obtain ⟨es, hes⟩ := isDir_of_step h
  simp only [step, hes, if_neg (Nat.not_lt.2 hlimit)] at h
  -- a dot stays in the directory, and two lead to the one above it
  have hdot : ¬ (decide (name = "") || decide (name = ".")) = true := by
    intro hdot
    rw [if_pos hdot] at h
    exact hspot place es (Except.ok.inj h).symm hes
  have hup : name ≠ ".." := by
    intro hup
    rw [if_neg hdot, if_pos hup] at h
    obtain ⟨es', hes'⟩ := get?_dropLast hes
    exact hspot _ es' (Except.ok.inj h).symm hes'
  simp only [Bool.or_eq_true, decide_eq_true_eq, not_or] at hdot
  simp [isLocalName, Path.isPlainName, hdot, hup, hname.2, hnull, hlimit]

theorem LeadsTo.follow_extend (h : t.LeadsTo workingDir p place) (name : String) :
    t.follow (start workingDir (p.extend [name])) (p.extend [name]).parts
      = t.follow place [name] := by
  rw [Path.start_extend, Path.extend_parts, follow_append h.follow]

/-- Where one more name leads, if the path can be looked up at all. -/
theorem LeadsTo.step_of_locate (h : t.LeadsTo workingDir p place) {spot : Spot}
    (hl : t.locate workingDir (p.extend [name]) = .ok spot) : t.step place name = .ok spot := by
  unfold locate at hl
  split at hl
  · cases hl
  · rw [h.follow_extend, FileTree.follow] at hl
    split at hl
    · cases hl
    · next hs => rw [hs, ← hl]; rfl
    · next hs => rw [hs, ← hl]; rfl

theorem LeadsTo.locate_of_step (h : t.LeadsTo workingDir p place) {spot : Spot}
    (hs : t.step place name = .ok spot)
    (hsize : (p.extend [name]).toText.utf8ByteSize ≤ pathLimit) :
    t.locate workingDir (p.extend [name]) = .ok spot := by
  rw [locate, if_neg (Nat.not_lt.2 hsize), h.follow_extend, FileTree.follow, hs]
  cases spot <;> rfl

/-- Looking up a path that leads to a directory finds it, if the path can be looked up at all. -/
theorem LeadsTo.locate_self (h : t.LeadsTo workingDir p place) {spot : Spot}
    (hl : t.locate workingDir p = .ok spot) : spot = .inside place := by
  unfold locate at hl
  split at hl
  · cases hl
  · rw [h.follow] at hl
    exact (Except.ok.inj hl).symm

theorem size_of_locate {spot : Spot} (h : t.locate workingDir p = .ok spot) :
    p.toText.utf8ByteSize ≤ pathLimit := by
  unfold locate at h
  split at h
  · cases h
  · next hsize => exact Nat.not_lt.1 hsize

/-- A component that leads to no directory below a path goes on from it by a local name. -/
theorem LeadsTo.usable_of_locate (h : t.LeadsTo workingDir p place) (hname : IsComponent name)
    {spot : Spot} (hnull : noNull (p.below name).toText = true)
    (hl : t.locate workingDir (p.below name) = .ok spot)
    (hspot : ∀ q es, spot = .inside q → t.get? q ≠ some (.dir es)) :
    isLocalName name = true ∧ isUsable (p.extend [name]) = true := by
  rw [Path.below_of_component p hname] at hnull hl
  split at hl
  · obtain ⟨es, hes⟩ := h.isDir
    exact absurd hes (hspot place es (h.locate_self hl))
  · next hdot =>
    rw [if_neg hdot] at hnull
    have hsize := size_of_locate hl
    have hnoNull : noNull name = true := Path.noNull_toText.1 hnull name (by simp)
    refine ⟨isLocalName_of_step hname hnoNull (h.step_of_locate hl) hspot, ?_⟩
    simp [isUsable, hnull, hsize]

/-- A path to a name in a directory of the tree, whether anything of that name is there or not. -/
def Reaches (t : FileTree) (workingDir : List String) (p : Path) (spot : List String) : Prop :=
  ∃ dir place name, p = dir.extend [name] ∧ spot = place ++ [name] ∧ t.LeadsTo workingDir dir place

theorem LeadsTo.reaches (h : t.LeadsTo workingDir p place) (name : String) :
    t.Reaches workingDir (p.extend [name]) (place ++ [name]) := ⟨p, place, name, rfl, rfl, h⟩

/-- A component below a path to a directory is a name there, or the dot. -/
theorem LeadsTo.below (h : t.LeadsTo workingDir p place) (hname : IsComponent name) :
    t.LeadsTo workingDir (p.below name) place ∨
      t.Reaches workingDir (p.below name) (place ++ [name]) := by
  rw [Path.below_of_component p hname]
  split
  · exact Or.inl h
  · exact Or.inr (h.reaches name)

/-- A path that leads to nothing is a name in a directory. -/
theorem reaches_of_locate {spot : List String} (h : t.locate workingDir p = .ok (.absent spot)) :
    t.Reaches workingDir p spot := by
  unfold locate at h
  split at h
  · cases h
  · -- induction on the names, from whatever place they start: only the last may lead to nothing
    suffices key : ∀ names start, t.follow start names = .ok (.absent spot) →
        ∃ init place name, names = init ++ [name] ∧ spot = place ++ [name] ∧
          t.follow start init = .ok (.inside place) ∧ ∃ es, t.get? place = some (.dir es) by
      obtain ⟨init, place, name, hparts, hspot, hinit, hdir⟩ := key _ _ h
      refine ⟨{ p with parts := init }, place, name, ?_, hspot, hinit, hdir⟩
      rw [Path.extend, ← hparts]
    intro names
    induction names with
    | nil => intro start hf; cases hf
    | cons name names ih =>
        intro start hf
        rw [FileTree.follow] at hf
        split at hf
        · cases hf
        · next next hs =>
          obtain ⟨init, place, last, hnames, hspot, hinit, hdir⟩ := ih next hf
          refine ⟨name :: init, place, last, ?_, hspot, ?_, hdir⟩
          · rw [hnames, List.cons_append]
          · rw [follow_cons hs, hinit]
        · next next hs =>
          split at hf
          · next hnil =>
            cases hf
            subst hnil
            obtain ⟨es, hes⟩ := isDir_of_step hs
            refine ⟨[], start, name, rfl, ?_, rfl, es, hes⟩
            rcases step_cases hes hs with ⟨hspot, -⟩ | ⟨hspot, -⟩ | ⟨q', es', hspot, -⟩
            · exact Spot.absent.inj hspot
            · cases hspot
            · cases hspot
          · cases hf

/-- A path at which a directory is found leads there. -/
theorem leadsTo_of_at {es : List (String × FileTree)}
    (h : t.at? workingDir p = .ok (some (.dir es))) :
    ∃ q, t.locate workingDir p = .ok (.inside q) ∧ t.LeadsTo workingDir p q := by
  obtain ⟨q, hq, hes⟩ := locate_of_at h
  exact ⟨q, hq, follow_of_locate hq, es, hes⟩

/-- The names that a path stands for, if it can be followed. -/
def spot (t : FileTree) (workingDir : List String) (p : Path) : List String :=
  match t.locate workingDir p with
  | .ok (.inside names) => names
  | .ok (.absent names) => names
  | .error _ => []

theorem spot_of_absent {names : List String} (h : t.locate workingDir p = .ok (.absent names)) :
    t.spot workingDir p = names := by
  rw [spot, h]

/-- A path at which nothing is found leads to nothing, if what is above it is a directory. -/
theorem locate_of_free {es : List (String × FileTree)}
    (hparent : t.at? workingDir p.parent = .ok (some (.dir es)))
    (hfree : ∀ u, t.at? workingDir p ≠ .ok (some u)) (hname : p.name.utf8ByteSize ≤ nameLimit)
    (hsize : p.toText.utf8ByteSize ≤ pathLimit) :
    ∃ place, t.locate workingDir p = .ok (.absent place) := by
  obtain ⟨q, -, hq⟩ := leadsTo_of_at hparent
  by_cases hparts : p.parts = []
  -- without parts the path is its own parent, and so there is a directory at it
  · exact absurd (Path.parent_of_parts_nil hparts ▸ hparent) (hfree _)
  · obtain ⟨es', hes⟩ := hq.isDir
    obtain ⟨spot, hstep⟩ := exists_step hes hname
    rw [← Path.parent_extend hparts] at hsize hfree ⊢
    have hl := hq.locate_of_step hstep hsize
    rcases step_cases hes hstep with ⟨rfl, -⟩ | ⟨rfl, u, hu⟩ | ⟨q', es', rfl, hu⟩
    · exact ⟨_, hl⟩
    · exact absurd (by rw [at?, hl]; simp [Except.map, hu]) (hfree u)
    · exact absurd (by rw [at?, hl]; simp [Except.map, hu]) (hfree (.dir es'))

/-! ## Making a directory -/

variable {spot : List String}

/-- A directory is made only at a path that leads to nothing. -/
theorem absent_of_makeDir (hm : t.makeDir workingDir p = .ok t') :
    ∃ place, t.locate workingDir p = .ok (.absent place) := by
  unfold FileTree.makeDir at hm
  split at hm
  · cases hm
  · next q hq => exact ⟨q, hq⟩
  · cases hm

/-- There is no node where a path leads to nothing. -/
theorem get?_of_absent (h : t.locate workingDir p = .ok (.absent spot)) : t.get? spot = none := by
  obtain ⟨dir, place, name, rfl, rfl, hdir⟩ := reaches_of_locate h
  obtain ⟨es, hes⟩ := hdir.isDir
  rcases step_cases hes (hdir.step_of_locate h) with ⟨-, hnone⟩ | ⟨hspot, -⟩ | ⟨q', es', hspot, -⟩
  · exact hnone
  · cases hspot
  · cases hspot

theorem name_of_absent (h : t.locate workingDir p = .ok (.absent spot)) :
    p.name.utf8ByteSize ≤ nameLimit := by
  obtain ⟨dir, place, name, rfl, -, hdir⟩ := reaches_of_locate h
  simpa [Path.name] using size_of_step (hdir.step_of_locate h)

theorem makeDir_of_absent (h : t.locate workingDir p = .ok (.absent spot)) :
    t.makeDir workingDir p = .ok (t.put spot empty) := by
  rw [FileTree.makeDir, h]

theorem at?_of_absent (h : t.locate workingDir p = .ok (.absent spot)) :
    t.at? workingDir p = .ok none := by
  rw [at?, h]
  rfl

/-- What is put where a path led to nothing is found at the path. -/
theorem at?_put_of_absent (h : t.locate workingDir p = .ok (.absent spot)) (new : FileTree) :
    (t.put spot new).at? workingDir p = .ok (some new) := by
  have hnone := get?_of_absent h
  have hsize := size_of_locate h
  obtain ⟨dir, place, name, rfl, rfl, hdir⟩ := reaches_of_locate h
  obtain ⟨es, hes⟩ := hdir.isDir
  have hext : t.Extends (t.put (place ++ [name]) new) :=
    extends_put hes fun u hu => by rw [hnone] at hu; cases hu
  have hstep := step_put_of_absent (hdir.step_of_locate h) new
  rw [at?, (hdir.extends hext).locate_of_step hstep hsize]
  exact congrArg Except.ok (get?_put_self new (place ++ [name]) t)

/-- A directory is made where nothing was, and its path leads there afterwards. -/
theorem Reaches.makeDir (h : t.Reaches workingDir p spot)
    (hm : t.makeDir workingDir p = .ok t') :
    t.get? spot = none ∧ t' = t.put spot empty ∧ t.Extends t' ∧ t'.LeadsTo workingDir p spot := by
  obtain ⟨dir, place, name, rfl, rfl, hdir⟩ := h
  obtain ⟨es, hes⟩ := hdir.isDir
  unfold FileTree.makeDir at hm
  split at hm
  · cases hm
  · next q hq =>
    cases hm
    have hstep := hdir.step_of_locate hq
    rcases step_cases hes hstep with ⟨hspot, hnone⟩ | ⟨hspot, -⟩ | ⟨q', es', hspot, -⟩
    · cases hspot
      have hext : t.Extends (t.put (place ++ [name]) empty) :=
        extends_put hes fun u hu => by rw [hnone] at hu; cases hu
      refine ⟨hnone, rfl, hext, ?_, [], ?_⟩
      · rw [(hdir.extends hext).follow_extend, follow_cons (step_put_of_absent hstep empty)]
        rfl
      · rw [get?_put_self]
        rfl
    · cases hspot
    · cases hspot
  · cases hm

/-- No directory is made where there is one already. -/
theorem LeadsTo.makeDir (h : t.LeadsTo workingDir p place) :
    ¬ ∃ t', t.makeDir workingDir p = .ok t' := by
  rintro ⟨t', hm⟩
  unfold FileTree.makeDir at hm
  split at hm
  · cases hm
  · next q hq => cases h.locate_self hq
  · cases hm

theorem LeadsTo.usable_of_makeDir (h : t.LeadsTo workingDir p place) (hname : IsComponent name)
    (hnull : noNull (p.below name).toText = true)
    (hm : t.makeDir workingDir (p.below name) = .ok t') :
    isLocalName name = true ∧ isUsable (p.extend [name]) = true := by
  obtain ⟨q, hq⟩ := absent_of_makeDir hm
  exact h.usable_of_locate hname hnull hq fun _ _ hspot => by cases hspot

theorem LeadsTo.makeDir_of_free (h : t.LeadsTo workingDir p place)
    (hname : isLocalName name = true) (husable : isUsable (p.extend [name]) = true)
    (hfree : t.get? (place ++ [name]) = none) :
    t.makeDir workingDir (p.extend [name]) = .ok (t.put (place ++ [name]) empty) := by
  obtain ⟨es, hes⟩ := h.isDir
  simp only [isUsable, Bool.and_eq_true, decide_eq_true_eq] at husable
  exact makeDir_of_absent (h.locate_of_step (step_of_free hes hname hfree) husable.2)

/-! ## Writing a file -/

/-- A file is written where nothing or a file was. -/
theorem Reaches.write (h : t.Reaches workingDir p spot) {content : Bytes}
    (hw : t.write workingDir p content = .ok t') :
    t' = t.put spot (.file content) ∧ t.Extends t' := by
  obtain ⟨dir, place, name, rfl, rfl, hdir⟩ := h
  obtain ⟨es, hes⟩ := hdir.isDir
  unfold FileTree.write at hw
  split at hw
  · cases hw
  · next q hq =>
    cases hw
    rcases step_cases hes (hdir.step_of_locate hq) with
      ⟨hspot, hnone⟩ | ⟨hspot, -⟩ | ⟨q', es', hspot, -⟩
    · cases hspot
      exact ⟨rfl, extends_put hes fun u hu => by rw [hnone] at hu; cases hu⟩
    · cases hspot
    · cases hspot
  · next q hq =>
    split at hw
    · next old hold =>
      cases hw
      rcases step_cases hes (hdir.step_of_locate hq) with
        ⟨hspot, -⟩ | ⟨hspot, -⟩ | ⟨q', es', hspot, hup⟩
      · cases hspot
      · cases hspot
        refine ⟨rfl, extends_put hes fun u hu => ?_⟩
        rw [hold] at hu
        cases hu
        exact ⟨rfl, rfl⟩
      · cases hspot
        rw [hold] at hup
        cases hup
    · cases hw

/-- No file is written in the place of a directory. -/
theorem LeadsTo.write (h : t.LeadsTo workingDir p place) (content : Bytes) :
    ¬ ∃ t', t.write workingDir p content = .ok t' := by
  obtain ⟨es, hes⟩ := h.isDir
  rintro ⟨t', hw⟩
  unfold FileTree.write at hw
  split at hw
  · cases hw
  · next q hq => cases h.locate_self hq
  · next q hq =>
    cases h.locate_self hq
    rw [hes] at hw
    cases hw

theorem LeadsTo.usable_of_write (h : t.LeadsTo workingDir p place) (hname : IsComponent name)
    (hnull : noNull (p.below name).toText = true) {content : Bytes}
    (hw : t.write workingDir (p.below name) content = .ok t') :
    isLocalName name = true ∧ isUsable (p.extend [name]) = true := by
  unfold FileTree.write at hw
  split at hw
  · cases hw
  · next q hq => exact h.usable_of_locate hname hnull hq fun _ _ hspot => by cases hspot
  · next q hq =>
    refine h.usable_of_locate hname hnull hq ?_
    intro q' es hspot hes
    cases hspot
    rw [hes] at hw
    cases hw

theorem LeadsTo.write_of_free (h : t.LeadsTo workingDir p place) (content : Bytes)
    (hname : isLocalName name = true) (husable : isUsable (p.extend [name]) = true)
    (hfree : t.get? (place ++ [name]) = none) :
    t.write workingDir (p.extend [name]) content
      = .ok (t.put (place ++ [name]) (.file content)) := by
  obtain ⟨es, hes⟩ := h.isDir
  simp only [isUsable, Bool.and_eq_true, decide_eq_true_eq] at husable
  rw [FileTree.write, h.locate_of_step (step_of_free hes hname hfree) husable.2]

end FileTree

/-! ## The calls as actions -/

namespace Path

variable {α : Type} {p : Path} {context : LocalProblem}
  {f : FileTree → List String → Path → Except FileError α} {e : Setting} {w : World}

/-- A call at a path fails, or yields what the file system yields; it changes nothing. -/
theorem call_cases (p : Path) (context : LocalProblem)
    (f : FileTree → List String → Path → Except FileError α) (e : Setting) (w : World) :
    (∃ x, p.call context f e w = (.error x, w)) ∨
      ∃ a, noNull p.toText = true ∧ f w.files e.workingDir p = .ok a ∧
        p.call context f e w = (.ok a, w) := by
  unfold call
  split_ifs with hn
  · cases hf : f w.files e.workingDir p with
    | ok a => exact Or.inr ⟨a, hn, rfl, rfl⟩
    | error x => exact Or.inl ⟨_, rfl⟩
  · exact Or.inl ⟨_, rfl⟩

theorem call_of_ok {a : α} (hn : noNull p.toText = true) (hf : f w.files e.workingDir p = .ok a) :
    p.call context f e w = (.ok a, w) := by
  simp only [call, hn, if_true, hf]

/-- Setting the files to what a call yields: nothing is changed, or just the files. -/
theorem change_cases (p : Path) (context : LocalProblem)
    (f : FileTree → List String → Path → Except FileError FileTree) (e : Setting) (w : World) :
    (∃ x, (p.call context f >>= setFiles) e w = (.error x, w)) ∨
      ∃ t, noNull p.toText = true ∧ f w.files e.workingDir p = .ok t ∧
        (p.call context f >>= setFiles) e w = (.ok (), { w with files := t }) := by
  rcases p.call_cases context f e w with ⟨x, hx⟩ | ⟨t, hn, hf, ht⟩
  · exact Or.inl ⟨x, Effect.bind_of_error hx⟩
  · exact Or.inr ⟨t, hn, hf, Effect.bind_of_ok ht⟩

theorem makeDirectory_cases (p : Path) (e : Setting) (w : World) :
    (∃ x, p.makeDirectory e w = (.error x, w)) ∨
      ∃ t, noNull p.toText = true ∧ w.files.makeDir e.workingDir p = .ok t ∧
        p.makeDirectory e w = (.ok (), { w with files := t }) :=
  p.change_cases _ FileTree.makeDir e w

theorem writeFile_cases (p : Path) (content : Bytes) (e : Setting) (w : World) :
    (∃ x, p.writeFile content e w = (.error x, w)) ∨
      ∃ t, noNull p.toText = true ∧ w.files.write e.workingDir p content = .ok t ∧
        p.writeFile content e w = (.ok (), { w with files := t }) :=
  p.change_cases _ (fun t here p => t.write here p content) e w

/-- What is found at a path, if its text can be looked up. -/
theorem found?_cases (p : Path) (e : Setting) (w : World) :
    (∃ x, p.found? e w = (.error x, w)) ∨
      ∃ u, p.found? e w = (.ok u, w) ∧
        ∀ v, u = some v ↔ noNull p.toText = true ∧ w.files.at? e.workingDir p = .ok (some v) := by
  unfold found?
  split
  · next hn =>
    split
    · next u hu => exact Or.inr ⟨u, rfl, fun v => by simp [hn, hu]⟩
    · exact Or.inl ⟨_, rfl⟩
    · next x _ hx => exact Or.inr ⟨none, rfl, fun v => by simp [hx]⟩
  · next hn => exact Or.inr ⟨none, rfl, fun v => by simp [hn]⟩

theorem isFile_cases (p : Path) (e : Setting) (w : World) :
    (∃ x, p.isFile e w = (.error x, w)) ∨
      ∃ b, p.isFile e w = (.ok b, w) ∧ (b = true ↔ ∃ content, noNull p.toText = true ∧
        w.files.at? e.workingDir p = .ok (some (.file content))) := by
  rcases p.found?_cases e w with ⟨x, hx⟩ | ⟨u, hu, hiff⟩
  · exact Or.inl ⟨x, Effect.bind_of_error hx⟩
  · refine Or.inr ⟨_, Effect.bind_of_ok hu, ?_⟩
    have hkind : (u.map FileTree.isFile).getD false = true ↔
        ∃ content, u = some (.file content) := by
      rcases u with _ | (content | es) <;> simp [FileTree.isFile]
    rw [hkind]
    exact exists_congr fun content => hiff (.file content)

theorem isDirectory_cases (p : Path) (e : Setting) (w : World) :
    (∃ x, p.isDirectory e w = (.error x, w)) ∨
      ∃ b, p.isDirectory e w = (.ok b, w) ∧ (b = true ↔ ∃ es, noNull p.toText = true ∧
        w.files.at? e.workingDir p = .ok (some (.dir es))) := by
  rcases p.found?_cases e w with ⟨x, hx⟩ | ⟨u, hu, hiff⟩
  · exact Or.inl ⟨x, Effect.bind_of_error hx⟩
  · refine Or.inr ⟨_, Effect.bind_of_ok hu, ?_⟩
    have hkind : (u.map FileTree.isDir).getD false = true ↔ ∃ es, u = some (.dir es) := by
      rcases u with _ | (content | es) <;> simp [FileTree.isDir]
    rw [hkind]
    exact exists_congr fun es => hiff (.dir es)

/-- A path that can be looked up and is found to hold something, or nothing. -/
theorem found?_of_at {u : Option FileTree} (hn : noNull p.toText = true)
    (hu : w.files.at? e.workingDir p = .ok u) : p.found? e w = (.ok u, w) := by
  simp only [found?, hn, if_true, hu]

theorem isFile_of_at {u : Option FileTree} (hn : noNull p.toText = true)
    (hu : w.files.at? e.workingDir p = .ok u) :
    p.isFile e w = (.ok ((u.map FileTree.isFile).getD false), w) :=
  Effect.bind_of_ok (found?_of_at hn hu)

theorem isDirectory_of_at {u : Option FileTree} (hn : noNull p.toText = true)
    (hu : w.files.at? e.workingDir p = .ok u) :
    p.isDirectory e w = (.ok ((u.map FileTree.isDir).getD false), w) :=
  Effect.bind_of_ok (found?_of_at hn hu)

end Path
end Runbook
