import Mathlib.Data.List.Forall2
import Mathlib.Data.List.TakeWhile
import Runbook.Proofs.OneLine
import Runbook.Proofs.Sequences

set_option autoImplicit false

/-! # The tree of a task, as it is shown

A node of a tree of tasks has an address: from the root on, which child to go to at each step. Every
node is shown on one line, in the order of the addresses, with two spaces for each step of its address
in front and no blank behind them. So the spaces tell the shape of the tree. -/

namespace Runbook

/-! ## Lines -/

namespace Text

variable {line : String} {n : Nat} {cs rest : List Char}

/-- A line of so many spaces, with a character behind them that is no blank. -/
def IsIndented (n : Nat) (line : String) : Prop :=
  ∃ c rest, line.toList = List.replicate n ' ' ++ c :: rest ∧ isBlank c = false

/-- How many spaces a line begins with. -/
def margin (line : String) : Nat := (line.toList.takeWhile (· = ' ')).length

theorem IsIndented.margin_eq (h : IsIndented n line) : margin line = n := by
  obtain ⟨c, rest, hline, hblank⟩ := h
  have hspace : c ≠ ' ' := by
    rintro rfl
    revert hblank
    decide
  rw [margin, hline, List.takeWhile_append_of_pos (by simp)]
  simp [hspace]

/-- A line feed ends a line that has no other end in it. -/
theorem lineList_append_feed (h : ∀ c ∈ cs, isLineEnd c = false) (rest : List Char) :
    lineList (cs ++ '\n' :: rest) = cs :: lineList rest := by
  induction cs with
  | nil =>
    rw [List.nil_append, lineList, if_pos (by decide)]
    intro _ hreturn
    cases hreturn
  | cons c cs ih =>
    obtain ⟨hc, hcs⟩ := List.forall_mem_cons.1 h
    rw [List.cons_append, lineList_cons hc, ih hcs]

theorem lines_join {texts : List String} (h : ∀ s ∈ texts, IsOneLine s) :
    lines (String.join (texts.map (· ++ "\n"))) = texts := by
  induction texts with
  | nil => rfl
  | cons s texts ih =>
    obtain ⟨hs, htexts⟩ := List.forall_mem_cons.1 h
    have hlist : (String.join ((s :: texts).map (· ++ "\n"))).toList
        = s.toList ++ '\n' :: (String.join (texts.map (· ++ "\n"))).toList := by
      simp
    rw [lines, hlist, lineList_append_feed hs, List.map_cons, String.ofList_toList]
    exact congrArg _ (ih htexts)

end Text

/-! ## Shapes -/

/-- The shape of a tree. -/
inductive Shape where
  | node (below : List Shape)

namespace Shape

/-- Some trees, each with its margin. -/
abbrev Forest := List (Nat × Shape)

/-- Puts a node in front. What comes next and stands more to the right is below it. -/
def push (margin : Nat) (forest : Forest) : Forest :=
  (margin, node ((forest.takeWhile (margin < ·.1)).map Prod.snd))
    :: forest.dropWhile (margin < ·.1)

/-- The trees that some margins tell. -/
def ofMargins (margins : List Nat) : List Shape := (margins.foldr push []).map Prod.snd

/-- The trees that the margins of the lines of a text tell. -/
def ofText (text : String) : List Shape := ofMargins ((Text.lines text).map Text.margin)

end Shape

namespace Task

variable {t u : Task} {ts : List Task} {a : List Nat} {d : Int}

/-! ## Nodes -/

/-- What holds of a task if it holds of the tasks that it holds, holds of every task. -/
theorem children_induction {motive : Task → Prop}
    (h : ∀ t : Task, (∀ u ∈ t.children, motive u) → motive t) (t : Task) : motive t := by
  refine h t fun u hu => ?_
  have hsize : sizeOf u < sizeOf t := by
    cases t <;> simp only [children, List.not_mem_nil] at hu <;>
      have := List.sizeOf_lt_of_mem hu <;> simp <;> omega
  exact children_induction h u
termination_by sizeOf t

/-- The node of a tree at an address, which tells from the root on which child to go to. -/
def at? : Task → List Nat → Option Task
  | t, [] => some t
  | t, i :: a => (t.children[i]?).bind (·.at? a)

mutual

/-- The nodes of a tree with their addresses, each before those below it. -/
def nodes : Task → List (List Nat × Task)
  | t@(job _ tasks) => ([], t) :: nodesFrom 0 tasks
  | t@(onPlatform _ tasks) => ([], t) :: nodesFrom 0 tasks
  | t@(parallel tasks _) => ([], t) :: nodesFrom 0 tasks
  | t => [([], t)]

/-- The nodes of some trees, the first of which is the child of a given number. -/
def nodesFrom (i : Nat) : List Task → List (List Nat × Task)
  | [] => []
  | t :: ts => (nodes t).map (fun x => (i :: x.1, x.2)) ++ nodesFrom (i + 1) ts

end

mutual

/-- The shape of a tree of tasks. -/
def shape : Task → Shape
  | job _ tasks => .node (shapes tasks)
  | onPlatform _ tasks => .node (shapes tasks)
  | parallel tasks _ => .node (shapes tasks)
  | _ => .node []

/-- The shapes of some trees of tasks. -/
def shapes : List Task → List Shape
  | [] => []
  | t :: ts => shape t :: shapes ts

end

theorem nodes_eq (t : Task) : t.nodes = ([], t) :: nodesFrom 0 t.children := by
  cases t <;> rfl

theorem levels_eq (t : Task) (d : Int) :
    t.levels d = (d, t) :: levelsOf (d + 1) t.children := by
  cases t <;> rfl

theorem shape_eq (t : Task) : t.shape = .node (shapes t.children) := by
  cases t <;> rfl

theorem mem_nodesFrom {i : Nat} : (a, u) ∈ nodesFrom i ts ↔
    ∃ k b t, a = (i + k) :: b ∧ ts[k]? = some t ∧ (b, u) ∈ t.nodes := by
  induction ts generalizing i with
  | nil => simp [nodesFrom]
  | cons t ts ih =>
    rw [nodesFrom, List.mem_append, List.mem_map, ih]
    constructor
    · rintro (⟨⟨b, v⟩, hmem, heq⟩ | ⟨k, b, v, rfl, hk, hmem⟩)
      · cases heq
        exact ⟨0, b, t, rfl, rfl, hmem⟩
      · exact ⟨k + 1, b, v, by rw [Nat.add_assoc, Nat.add_comm 1 k], hk, hmem⟩
    · rintro ⟨k, b, v, rfl, hk, hmem⟩
      cases k with
      | zero =>
        cases hk
        exact .inl ⟨(b, u), hmem, rfl⟩
      | succ k => exact .inr ⟨k, b, v, by rw [Nat.add_assoc, Nat.add_comm 1 k], hk, hmem⟩

/-- The nodes are those at some address, each with its address. -/
theorem mem_nodes : (a, u) ∈ t.nodes ↔ t.at? a = some u := by
  induction a generalizing t with
  | nil =>
    rw [nodes_eq, List.mem_cons, mem_nodesFrom, at?]
    simp [eq_comm]
  | cons i a ih =>
    rw [nodes_eq, List.mem_cons, mem_nodesFrom, at?, Option.bind_eq_some_iff]
    simp only [Prod.mk.injEq, List.cons_ne_nil, false_and, false_or, Nat.zero_add,
      List.cons.injEq]
    constructor
    · rintro ⟨k, b, v, ⟨rfl, rfl⟩, hk, hmem⟩
      exact ⟨v, hk, ih.1 hmem⟩
    · rintro ⟨v, hk, hat⟩
      exact ⟨i, a, v, ⟨rfl, rfl⟩, hk, ih.2 hat⟩

theorem pairwise_nodesFrom (h : ∀ t ∈ ts, (t.nodes.map Prod.fst).Pairwise (· < ·)) (i : Nat) :
    ((nodesFrom i ts).map Prod.fst).Pairwise (· < ·) := by
  induction ts generalizing i with
  | nil => simp [nodesFrom]
  | cons t ts ih =>
    obtain ⟨ht, hts⟩ := List.forall_mem_cons.1 h
    rw [nodesFrom, List.map_append, List.pairwise_append]
    refine ⟨?_, ih hts (i + 1), ?_⟩
    · rw [List.pairwise_map, List.pairwise_map]
      rw [List.pairwise_map] at ht
      exact ht.imp fun hlt => List.cons_lt_cons_iff.2 (.inr ⟨rfl, hlt⟩)
    · -- the addresses of later children begin with a greater number
      intro a ha b hb
      simp only [List.map_map, List.mem_map, Function.comp_apply] at ha
      obtain ⟨x, -, rfl⟩ := ha
      obtain ⟨⟨b, v⟩, hmem, rfl⟩ := List.mem_map.1 hb
      obtain ⟨k, b, w, rfl, -, -⟩ := mem_nodesFrom.1 hmem
      exact List.cons_lt_cons_iff.2 (.inl (by omega))

/-- The nodes come in the order of their addresses, with none of them twice. -/
theorem pairwise_nodes (t : Task) : (t.nodes.map Prod.fst).Pairwise (· < ·) := by
  induction t using children_induction with
  | h t ih =>
    rw [nodes_eq, List.map_cons, List.pairwise_cons]
    refine ⟨?_, pairwise_nodesFrom ih 0⟩
    intro a ha
    obtain ⟨⟨a, u⟩, hmem, rfl⟩ := List.mem_map.1 ha
    obtain ⟨k, b, v, rfl, -, -⟩ := mem_nodesFrom.1 hmem
    exact List.nil_lt_cons _ _

theorem levelsOf_eq_map (h : ∀ t ∈ ts, ∀ d : Int,
      t.levels d = t.nodes.map fun x => (d + x.1.length, x.2)) (d : Int) (i : Nat) :
    levelsOf (d + 1) ts = (nodesFrom i ts).map fun x => (d + x.1.length, x.2) := by
  induction ts generalizing i with
  | nil => rfl
  | cons t ts ih =>
    obtain ⟨ht, hts⟩ := List.forall_mem_cons.1 h
    rw [levelsOf, nodesFrom, List.map_append, ht, ih hts (i + 1), List.map_map]
    congr 1
    refine List.map_congr_left fun x _ => ?_
    simp only [Function.comp_apply, List.length_cons, Prod.mk.injEq, and_true]
    omega

/-- A node is as many levels below the root as its address has steps. -/
theorem levels_eq_map (t : Task) (d : Int) :
    t.levels d = t.nodes.map fun x => (d + x.1.length, x.2) := by
  induction t using children_induction generalizing d with
  | h t ih =>
    rw [levels_eq, nodes_eq, List.map_cons, levelsOf_eq_map ih d 0]
    simp

/-! ## What the margins tell -/

/-- The margins of a tree tell its shape, if what comes behind does not stand more to the right. -/
theorem foldr_push_levelsOf
    (h : ∀ t ∈ ts, ∀ (d : Int) (forest : Shape.Forest), 0 ≤ d →
      (∀ x ∈ forest.head?, x.1 ≤ 2 * d.toNat) →
      (t.levels d).foldr (fun x => Shape.push (2 * x.1.toNat)) forest
        = (2 * d.toNat, t.shape) :: forest)
    (hd : 0 ≤ d) {forest : Shape.Forest} (hforest : ∀ x ∈ forest.head?, x.1 ≤ 2 * d.toNat) :
    (levelsOf d ts).foldr (fun x => Shape.push (2 * x.1.toNat)) forest
      = (shapes ts).map (fun s => (2 * d.toNat, s)) ++ forest := by
  induction ts with
  | nil => rfl
  | cons t ts ih =>
    obtain ⟨ht, hts⟩ := List.forall_mem_cons.1 h
    rw [levelsOf, List.foldr_append, ih hts, ht d _ hd]
    · rfl
    · intro x hx
      cases ts with
      | nil => exact hforest x hx
      | cons =>
        cases hx
        exact Nat.le_refl _

theorem foldr_push_levels (t : Task) (hd : 0 ≤ d) (forest : Shape.Forest)
    (hforest : ∀ x ∈ forest.head?, x.1 ≤ 2 * d.toNat) :
    (t.levels d).foldr (fun x => Shape.push (2 * x.1.toNat)) forest
      = (2 * d.toNat, t.shape) :: forest := by
  induction t using children_induction generalizing d forest with
  | h t ih =>
    have hbelow : (levelsOf (d + 1) t.children).foldr (fun x => Shape.push (2 * x.1.toNat)) forest
        = (shapes t.children).map (fun s => (2 * (d + 1).toNat, s)) ++ forest := by
      refine foldr_push_levelsOf (fun u hu d forest hd hforest => ih u hu hd forest hforest)
        (by omega) fun x hx => ?_
      have hle := hforest x hx
      omega
    have hlt : 2 * d.toNat < 2 * (d + 1).toNat := by omega
    -- what comes behind the tree stands no more to the right, so none of it is taken for a child
    have hstop : forest.takeWhile (2 * d.toNat < ·.1) = [] := by
      cases forest with
      | nil => rfl
      | cons x forest =>
        have hle := hforest x rfl
        rw [List.takeWhile_cons, if_neg (by simpa using hle)]
    have hkeep : forest.dropWhile (2 * d.toNat < ·.1) = forest := by
      have happend := List.takeWhile_append_dropWhile (p := fun x => 2 * d.toNat < x.1) (l := forest)
      rwa [hstop] at happend
    rw [levels_eq, List.foldr_cons, hbelow, shape_eq, Shape.push,
      List.takeWhile_append_of_pos (by simp [hlt]), List.dropWhile_append_of_pos (by simp [hlt]),
      hstop, hkeep]
    simp

/-! ## What is written -/

theorem isIndented_treeLine (t : Task) (d : Int) :
    Text.IsIndented (2 * d.toNat) (t.treeLine d) := by
  obtain ⟨c, rest, hdescribe, hblank⟩ := t.isFlush_describe.exists_cons
  refine ⟨c, rest, ?_, hblank⟩
  rw [treeLine, String.toList_append, indentation, String.toList_ofList, hdescribe]

theorem isOneLine_treeLine (h : t.isProbe = false) (d : Int) : Text.IsOneLine (t.treeLine d) :=
  (Cause.isOneLine_indentation _).append (isOneLine_describe h)

theorem ofText_tree (hprobe : ∀ x ∈ t.nodes, x.2.isProbe = false) (hd : 0 ≤ d) :
    Shape.ofText (String.join ((t.tree d).map (· ++ "\n"))) = [t.shape] := by
  have hlines : ∀ line ∈ t.tree d, Text.IsOneLine line := by
    intro line hline
    rw [tree, levels_eq_map, List.map_map] at hline
    obtain ⟨x, hx, rfl⟩ := List.mem_map.1 hline
    exact isOneLine_treeLine (hprobe x hx) _
  have hmargins : (t.tree d).map Text.margin = (t.levels d).map fun x => 2 * x.1.toNat := by
    rw [tree, List.map_map]
    exact List.map_congr_left fun x _ => (isIndented_treeLine x.2 x.1).margin_eq
  rw [Shape.ofText, Text.lines_join hlines, hmargins, Shape.ofMargins, List.foldr_map,
    foldr_push_levels t hd [] (by simp)]
  rfl

end Task

namespace Console

/-- The lines that show some tasks at their levels, up to the first that cannot be described. -/
def shownLines (levels : List (Int × Task)) : List String :=
  (levels.takeWhile (·.2.hasWritableDescription)).map fun x => x.2.treeLine x.1

theorem taskLines_apply (levels : List (Int × Task)) (e : Setting) (w : World) :
    taskLines levels e w
      = (if levels.all (·.2.hasWritableDescription) then .ok () else .error .unwritable,
        { w with out := w.out ++ String.join ((shownLines levels).map (· ++ "\n")) }) := by
  induction levels generalizing w with
  | nil => simp [taskLines, shownLines]
  | cons x levels ih =>
    obtain ⟨d, t⟩ := x
    rw [taskLines, shownLines, List.takeWhile_cons, List.all_cons]
    cases hwritable : t.hasWritableDescription with
    | false =>
      have hdescribe : (Effect.ofExcept t.describe? : Action String) e w
          = (.error .unwritable, w) := by
        simp [Effect.ofExcept, Task.describe?, hwritable]
      rw [Effect.bind_of_error hdescribe]
      simp
    | true =>
      have hdescribe : (Effect.ofExcept t.describe? : Action String) e w = (.ok t.describe, w) := by
        simp [Effect.ofExcept, Task.describe?, hwritable]
      have hline : Action.writeLine (t.treeLine d) e w
          = (.ok (), { w with out := w.out ++ (t.treeLine d ++ "\n") }) := rfl
      rw [Effect.bind_of_ok hdescribe, Effect.bind_of_ok hline, ih, Bool.true_and]
      simp [shownLines, String.append_assoc]

end Console

namespace Task

variable {t : Task} {d : Int}

/-- A tree of tasks without probes is shown with one line for each node, in the order of the addresses,
    as far as the nodes can be described: up to the first that cannot, where showing it fails. The line
    of a node begins with two spaces for each level it is at, and no blank follows them. If all nodes
    can be described, the text tells the shape of the tree. -/
theorem taskTree_lines (hprobe : ∀ a u, t.at? a = some u → u.isProbe = false) (d : Int) (e : Setting)
    (w : World) :
    (t.nodes.map Prod.fst).Pairwise (· < ·) ∧ (∀ a u, (a, u) ∈ t.nodes ↔ t.at? a = some u) ∧
    ∃ text, Console.taskTree t d e w
        = (if t.nodes.all (·.2.hasWritableDescription) then .ok () else .error .unwritable,
          { w with out := w.out ++ text }) ∧
      text = String.join ((Text.lines text).map (· ++ "\n")) ∧
      List.Forall₂ (fun x line => line = indentation (d + x.1.length).toNat ++ x.2.describe ∧
          Text.IsIndented (2 * (d + x.1.length).toNat) line)
        (t.nodes.takeWhile (·.2.hasWritableDescription)) (Text.lines text) ∧
      (t.nodes.all (·.2.hasWritableDescription) → 0 ≤ d → Shape.ofText text = [t.shape]) := by
  have hnodes : ∀ x ∈ t.nodes, x.2.isProbe = false := fun x hx => hprobe x.1 x.2 (mem_nodes.1 hx)
  have hshown : Console.shownLines (t.levels d)
      = (t.nodes.takeWhile (·.2.hasWritableDescription)).map fun x =>
        x.2.treeLine (d + x.1.length) := by
    rw [Console.shownLines, levels_eq_map, List.takeWhile_map, List.map_map]
    rfl
  have hall : (t.levels d).all (·.2.hasWritableDescription)
      = t.nodes.all (·.2.hasWritableDescription) := by
    rw [levels_eq_map, List.all_map]
    rfl
  have hlines : Text.lines (String.join ((Console.shownLines (t.levels d)).map (· ++ "\n")))
      = Console.shownLines (t.levels d) := by
    refine Text.lines_join fun line hline => ?_
    rw [hshown] at hline
    obtain ⟨x, hx, rfl⟩ := List.mem_map.1 hline
    exact isOneLine_treeLine (hnodes x (List.takeWhile_subset _ hx)) _
  refine ⟨pairwise_nodes t, fun a u => mem_nodes,
    String.join ((Console.shownLines (t.levels d)).map (· ++ "\n")), ?_, ?_, ?_,
    fun hwritable hd => ?_⟩
  · rw [Console.taskTree, Console.taskLines_apply, hall]
  · rw [hlines]
  · rw [hlines, hshown, List.forall₂_map_right_iff, List.forall₂_same]
    exact fun x _ => ⟨rfl, isIndented_treeLine x.2 _⟩
  · have htree : Console.shownLines (t.levels d) = t.tree d := by
      rw [Console.shownLines, List.takeWhile_eq_self_iff.2 (List.all_eq_true.1 (hall.trans hwritable))]
      rfl
    rw [htree]
    exact ofText_tree hnodes hd

/-- A job with line ends and blanks in its texts, and a password that its own description holds. -/
def treeSample : Task :=
  job "a\nb" [parallel [print "  \u2028", ssh ⟨"h\r", "u", "Ssh", 22⟩ [⟨"x\x0by", [0]⟩]] 2,
    onPlatform .linux [run ⟨.bash, ["x\x85"], none, some []⟩]]

theorem taskTree_treeSample : ∃ text,
    Console.taskTree treeSample 1 .calm (.initial .empty [])
      = (.ok (), { World.initial .empty [] with out := text }) ∧
    (Text.lines text).length = 6 ∧ Shape.ofText text = [treeSample.shape] := by
  have hprobe : ∀ a u, treeSample.at? a = some u → u.isProbe = false := by
    have hall : ∀ x ∈ treeSample.nodes, x.2.isProbe = false := by decide
    exact fun a u hat => hall (a, u) (mem_nodes.2 hat)
  obtain ⟨-, -, text, hrun, -, hlines, hshape⟩ :=
    taskTree_lines hprobe 1 .calm (.initial .empty [])
  have hwritable : treeSample.nodes.all (·.2.hasWritableDescription) = true := by decide +kernel
  rw [if_pos hwritable] at hrun
  rw [List.takeWhile_eq_self_iff.2 (List.all_eq_true.1 hwritable)] at hlines
  refine ⟨text, ?_, ?_, hshape hwritable (by decide)⟩
  · rw [hrun]
    simp [World.initial]
  · exact hlines.length_eq.symm.trans (by decide)

/-- A job with a group of more workers than a number is written with. -/
def unwritableTree : Task := job "a" [parallel [print "x"] (tenPow Numeral.digitLimit)]

/-- There are three nodes, and one line. -/
theorem taskTree_unwritableTree :
    unwritableTree.nodes.length = 3 ∧
    Console.taskTree unwritableTree 0 .calm (.initial .empty [])
      = (.error .unwritable, { World.initial .empty [] with out := "Job 'a'\n" }) := by
  have hgroup : (parallel [print "x"] (tenPow Numeral.digitLimit)).hasWritableDescription = false :=
    isWritable_eq_false (Nat.le_refl _)
  have hlevels : unwritableTree.levels 0 = [(0, unwritableTree),
      (1, parallel [print "x"] (tenPow Numeral.digitLimit)), (2, print "x")] := rfl
  have hjob : unwritableTree.hasWritableDescription = true := rfl
  refine ⟨rfl, ?_⟩
  rw [Console.taskTree, Console.taskLines_apply, Console.shownLines, hlevels]
  simp only [List.all_cons, List.takeWhile_cons, hjob, hgroup, Bool.true_and, Bool.false_and,
    Bool.false_eq_true, if_true, if_false, List.map_cons, List.map_nil]
  rfl

end Task
end Runbook
