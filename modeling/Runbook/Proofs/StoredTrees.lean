import Mathlib.Data.List.Basic
import Runbook.Proofs.PathTexts
import Runbook.Proofs.ValidTrees

set_option autoImplicit false

/-! # Trees on a peer

The peer keeps no tree, only paths; it finds the entries of a directory by their texts. Once the
items of a valid tree have been stored below a path where nothing was, each directory lists exactly
its entries, and what is seen at the path is the tree. -/

namespace Runbook

open Path (IsComponent isLocalName)

/-! ## The items of one directory -/

/-- The name by which some names go on from others, if they do so by exactly one. -/
def nextName : List String → List String → Option String
  | [], [name] => some name
  | m :: lead, n :: names => if m = n then nextName lead names else none
  | _, _ => none

theorem nextName_eq_some_iff {lead names : List String} {name : String} :
    nextName lead names = some name ↔ names = lead ++ [name] := by
  induction lead generalizing names with
  | nil =>
      match names with
      | [] => simp [nextName]
      | [n] => simp [nextName]
      | n :: m :: rest => simp [nextName]
  | cons m lead ih =>
      cases names with
      | nil => simp [nextName]
      | cons n names =>
          by_cases h : m = n
          · simp [nextName, h, ih]
          · simp [nextName, h, Ne.symm h]

namespace FileTree

/-- The names in a node and the contents of what they stand for. -/
def contents (t : FileTree) : List (String × Option Bytes) :=
  t.entries.map fun x => (x.1, x.2.content?)

/-- The items that are one name below some names. -/
def itemsIn (lead : List String) (items : List CopyItem) : List (String × Option Bytes) :=
  items.filterMap fun item => (nextName lead item.1).map fun name => (name, item.2)

theorem itemsIn_append (lead : List String) (items more : List CopyItem) :
    itemsIn lead (items ++ more) = itemsIn lead items ++ itemsIn lead more :=
  List.filterMap_append ..

theorem itemsIn_eq_nil {lead : List String} {items : List CopyItem}
    (h : ∀ item ∈ items, ∀ name, item.1 ≠ lead ++ [name]) : itemsIn lead items = [] := by
  refine List.filterMap_eq_nil_iff.2 ?_
  intro item hitem
  rw [Option.map_eq_none_iff, Option.eq_none_iff_forall_not_mem]
  intro name hname
  exact h item hitem name (nextName_eq_some_iff.1 hname)

/-- Beside a node its items lie in no directory. -/
theorem itemsIn_nodeItems_of_ne {t : FileTree} {lead rest : List String} {name other : String}
    (h : other ≠ name) : itemsIn (lead ++ other :: rest) (t.nodeItems (lead ++ [name])) = [] := by
  refine itemsIn_eq_nil ?_
  intro item hitem n heq
  obtain ⟨more, hmore⟩ := exists_of_mem_nodeItems hitem
  rw [hmore] at heq
  simp [Ne.symm h] at heq

/-- One name above a node there is just the node. -/
theorem itemsIn_nodeItems_self (t : FileTree) (lead : List String) (name : String) :
    itemsIn lead (t.nodeItems (lead ++ [name])) = [(name, t.content?)] := by
  have hown : nextName lead (lead ++ [name]) = some name := nextName_eq_some_iff.2 rfl
  have hrest : itemsIn lead (t.items (lead ++ [name])) = [] := by
    refine itemsIn_eq_nil ?_
    intro item hitem n heq
    obtain ⟨m, more, hmore⟩ := exists_of_mem_items t _ item hitem
    rw [hmore] at heq
    simp at heq
  rw [nodeItems, itemsIn, List.filterMap_cons_some (b := (name, t.content?)) (by simp [hown])]
  exact congrArg _ hrest

/-- A node is in no directory at or below itself. -/
theorem itemsIn_own (lead rest : List String) (content : Option Bytes) :
    itemsIn (lead ++ rest) [(lead, content)] = [] := by
  refine itemsIn_eq_nil ?_
  intro item hitem n heq
  obtain rfl := List.mem_singleton.1 hitem
  simp at heq

/-- What the directory at some names of a node holds. -/
def contentsAt (t : FileTree) (names : List String) : List (String × Option Bytes) :=
  ((t.get? names).map contents).getD []

theorem contentsAt_file (content : Bytes) (names : List String) :
    (file content).contentsAt names = [] := by
  cases names <;> rfl

theorem contentsAt_empty (names : List String) : (dir []).contentsAt names = [] := by
  cases names <;> rfl

theorem contentsAt_cons (es : List (String × FileTree)) (name : String) (names : List String) :
    (dir es).contentsAt (name :: names)
      = ((child? name es).map fun u => u.contentsAt names).getD [] := by
  rw [contentsAt, get?_cons]
  change ((((child? name es).bind _)).map contents).getD [] = _
  cases child? name es <;> rfl

mutual

/-- The items in a directory below a node are what the directory holds. -/
theorem itemsIn_nodeItems : ∀ (t : FileTree) (lead rest : List String), t.isValid = true →
    itemsIn (lead ++ rest) (t.nodeItems lead) = t.contentsAt rest
  | file content, lead, rest, _ => by
    rw [contentsAt_file]
    exact itemsIn_own lead rest (some content)
  | dir es, lead, rest, h => by
    unfold isValid at h
    have hsplit : (dir es).nodeItems lead = [(lead, none)] ++ entryItems lead es := rfl
    rw [hsplit, itemsIn_append, itemsIn_own, List.nil_append, itemsIn_entryItems es lead rest h]

theorem itemsIn_entryItems : ∀ (es : List (String × FileTree)) (lead rest : List String),
    areValid es = true → itemsIn (lead ++ rest) (entryItems lead es) = (dir es).contentsAt rest
  | [], lead, rest, _ => by
    rw [contentsAt_empty]
    rfl
  | (name, t) :: es, lead, rest, h => by
    obtain ⟨-, hless, ht, hes⟩ := areValid_cons h
    rw [entryItems_cons, itemsIn_append, itemsIn_entryItems es lead rest hes]
    cases rest with
    | nil =>
        rw [List.append_nil, itemsIn_nodeItems_self]
        rfl
    | cons m rest =>
        rw [contentsAt_cons, contentsAt_cons]
        by_cases hm : name = m
        · subst hm
          -- the rest of the entries hold none of that name
          have hnone : child? name es = none := child?_eq_none fun x hx heq => by
            have hlt := hless x hx
            rw [heq] at hlt
            exact String.lt_irrefl name hlt
          rw [List.append_cons, itemsIn_nodeItems t (lead ++ [name]) rest ht, hnone, child?,
            if_pos rfl]
          simp
        · rw [itemsIn_nodeItems_of_ne (Ne.symm hm), child?, if_neg hm, List.nil_append]

end

end FileTree

/-! ## What the peer holds after a tree is stored -/

namespace Peer

variable {peer : Peer} {remote : Path} {items : List CopyItem}

theorem put_of_get?_eq_none {path : String} (h : peer.get? path = none) (e : PeerEntry) :
    peer.put path e = peer ++ [(path, e)] := by
  induction peer with
  | nil => rfl
  | cons x rest ih =>
      obtain ⟨p, old⟩ := x
      by_cases hp : p = path
      · simp [get?, hp] at h
      · rw [get?, if_neg hp] at h
        rw [put, if_neg hp, ih h, List.cons_append]

theorem get?_store_of_ne {path : String}
    (h : ∀ item ∈ items, path ≠ (remote.extend item.1).toText) :
    (peer.store remote items).get? path = peer.get? path := by
  induction items generalizing peer with
  | nil => rfl
  | cons item items ih =>
      have hrest : ((peer.put (remote.extend item.1).toText (.ofContent item.2)).store remote
          items).get? path
          = (peer.put (remote.extend item.1).toText (.ofContent item.2)).get? path :=
        ih fun i hi => h i (List.mem_cons_of_mem _ hi)
      exact hrest.trans (get?_put_of_ne (h item (List.mem_cons_self ..)) peer _)

/-- The entry that an item becomes. -/
def entryOf (remote : Path) (item : CopyItem) : String × PeerEntry :=
  ((remote.extend item.1).toText, .ofContent item.2)

/-- Items with paths of their own are stored in order, after everything else. -/
theorem store_eq_append
    (hdistinct : items.Pairwise fun a b => (remote.extend a.1).toText ≠ (remote.extend b.1).toText)
    (hfree : ∀ item ∈ items, peer.get? (remote.extend item.1).toText = none) :
    peer.store remote items = peer ++ items.map (entryOf remote) := by
  induction items generalizing peer with
  | nil => simp [store]
  | cons item items ih =>
      obtain ⟨hitem, hitems⟩ := List.pairwise_cons.1 hdistinct
      have hstep : peer.store remote (item :: items)
          = (peer.put (remote.extend item.1).toText (.ofContent item.2)).store remote items := rfl
      rw [hstep, ih hitems fun i hi => by
        rw [get?_put_of_ne (Ne.symm (hitem i hi))]
        exact hfree i (List.mem_cons_of_mem _ hi)]
      rw [put_of_get?_eq_none (hfree item (List.mem_cons_self ..)), List.append_assoc]
      rfl

/-- Each of several items with paths of their own is found at its path. -/
theorem get?_store_of_mem
    (hdistinct : items.Pairwise fun a b => (remote.extend a.1).toText ≠ (remote.extend b.1).toText)
    {item : CopyItem} (hmem : item ∈ items) :
    (peer.store remote items).get? (remote.extend item.1).toText = some (.ofContent item.2) := by
  induction items generalizing peer with
  | nil => cases hmem
  | cons first items ih =>
      obtain ⟨hfirst, hitems⟩ := List.pairwise_cons.1 hdistinct
      have hstep : peer.store remote (first :: items)
          = (peer.put (remote.extend first.1).toText (.ofContent first.2)).store remote items := rfl
      rcases List.mem_cons.1 hmem with rfl | hmem
      · rw [hstep, get?_store_of_ne hfirst, get?_put_self]
      · exact ih hitems hmem

theorem list_append (peer more : Peer) (path : String) :
    list (peer ++ more) path = list peer path ++ list more path := List.filterMap_append ..

/-- Nothing stands at a path of the peer or below it. -/
def IsFree (peer : Peer) (remote : Path) : Prop :=
  ∀ x ∈ peer, x.1 ≠ remote.toText ∧ ¬ (remote.toText.toList ++ ['/']) <+: x.1.toList

theorem get?_eq_none {path : String} (h : ∀ x ∈ peer, x.1 ≠ path) : peer.get? path = none := by
  induction peer with
  | nil => rfl
  | cons x rest ih =>
      obtain ⟨p, old⟩ := x
      rw [get?, if_neg (h _ (List.mem_cons_self ..)),
        ih fun y hy => h y (List.mem_cons_of_mem _ hy)]

variable (hnamed : remote.IsNamed) (hfree : peer.IsFree remote)

include hnamed hfree

/-- Where nothing stands, no path that goes on from there is taken. -/
theorem IsFree.ne_extend {names : List String} (hnames : ∀ name ∈ names, IsComponent name) :
    ∀ x ∈ peer, x.1 ≠ (remote.extend names).toText := by
  intro x hx heq
  obtain ⟨hne, hbelow⟩ := hfree x hx
  cases names with
  | nil =>
      rw [Path.extend_nil] at heq
      exact hne heq
  | cons name names =>
      refine hbelow ⟨name.toList ++ Path.slashed names, ?_⟩
      rw [heq, hnamed.toList_toText_extend hnames]
      simp [Path.slashed]

/-- Where nothing stands, nothing is listed. -/
theorem IsFree.list_extend {names : List String} (hnames : ∀ name ∈ names, IsComponent name) :
    peer.list (remote.extend names).toText = [] := by
  refine List.filterMap_eq_nil_iff.2 ?_
  intro x hx
  rw [Option.map_eq_none_iff, Option.eq_none_iff_forall_not_mem]
  intro name hname
  obtain ⟨hcomponent, hpath⟩ := (nameIn?_extend hnamed hnames).1 hname
  have hmore : ∀ n ∈ names ++ [name], IsComponent n := by
    simpa [or_imp, forall_and, hcomponent] using hnames
  exact hfree.ne_extend hnamed hmore x hx hpath

omit hfree

/-- Among the items that are stored, a directory lists those in it. -/
theorem list_entryOf {names : List String} (hnames : ∀ name ∈ names, IsComponent name)
    (hitems : ∀ item ∈ items, ∀ name ∈ item.1, IsComponent name) :
    list (items.map (entryOf remote)) (remote.extend names).toText
      = (FileTree.itemsIn names items).map fun x => (x.1, PeerEntry.ofContent x.2) := by
  rw [list, List.filterMap_map, FileTree.itemsIn, List.map_filterMap]
  refine List.filterMap_congr ?_
  intro item hitem
  have hname : nameIn? (remote.extend names).toText (remote.extend item.1).toText
      = nextName names item.1 := by
    refine Option.ext ?_
    intro name
    rw [nameIn?_extend hnamed hnames, nextName_eq_some_iff]
    constructor
    · rintro ⟨hcomponent, htext⟩
      refine hnamed.toText_extend_inj (hitems item hitem) ?_ htext
      simpa [or_imp, forall_and, hcomponent] using hnames
    · intro heq
      exact ⟨hitems item hitem name (by simp [heq]), by rw [heq]⟩
  simp only [entryOf, Function.comp_apply, hname, Option.map_map]
  rfl

end Peer

/-! ## A tree that is stored -/

namespace FileTree

/-- Every node is one of the items. -/
theorem mem_nodeItems_of_get? {t u : FileTree} {names : List String} (lead : List String)
    (h : t.get? names = some u) : (lead ++ names, u.content?) ∈ t.nodeItems lead := by
  induction names generalizing t lead with
  | nil =>
      cases h
      rw [List.append_nil]
      exact List.mem_cons_self ..
  | cons name names ih =>
      rw [get?_cons] at h
      obtain ⟨v, hv, hu⟩ := Option.bind_eq_some_iff.1 h
      cases t with
      | file content => cases hv
      | dir es =>
          have hitem := ih (lead ++ [name]) hu
          rw [← List.append_cons] at hitem
          exact List.mem_cons_of_mem _ (mem_entryItems_iff.2 ⟨_, mem_of_child? hv, hitem⟩)

end FileTree

/-- A peer on which a tree stands below a path: each node has its content at its path, and each
    directory lists what it holds. -/
structure Peer.Stores (peer : Peer) (remote : Path) (tree : FileTree) : Prop where
  content : ∀ names u, tree.get? names = some u →
    peer.content? (remote.extend names).toText = u.content?
  listing : ∀ names u, tree.get? names = some u →
    peer.list (remote.extend names).toText
      = u.contents.map fun x => (x.1, PeerEntry.ofContent x.2)

namespace FileTree

theorem isComponent_of_mem_nodeItems {t : FileTree} (h : t.isValid = true) {item : CopyItem}
    (hitem : item ∈ t.nodeItems []) : ∀ name ∈ item.1, IsComponent name := by
  rcases List.mem_cons.1 hitem with rfl | hitem
  · simp
  · obtain ⟨rest, hrest, hlocal⟩ := isLocalName_of_mem_items t [] item h hitem
    rw [hrest, List.nil_append]
    exact fun name hname => Path.isComponent_of_isLocalName (hlocal name hname)

end FileTree

namespace Peer

variable {peer : Peer} {remote : Path} {tree : FileTree}

/-- The items of a valid tree have paths of their own. -/
theorem toText_ne_of_nodeItems (hnamed : remote.IsNamed) (hvalid : tree.isValid = true) :
    (tree.nodeItems []).Pairwise fun a b =>
      (remote.extend a.1).toText ≠ (remote.extend b.1).toText := by
  refine (FileTree.nodeItems_pairwise hvalid []).imp_of_mem fun {a b} ha hb hlt heq => ?_
  have hsame := hnamed.toText_extend_inj (FileTree.isComponent_of_mem_nodeItems hvalid ha)
    (FileTree.isComponent_of_mem_nodeItems hvalid hb) heq
  rw [hsame] at hlt
  exact List.lt_irrefl _ hlt

/-- A valid tree that is stored where nothing was stands there. -/
theorem stores_store (hnamed : remote.IsNamed) (hfree : peer.IsFree remote)
    (hvalid : tree.isValid = true) :
    (peer.store remote (tree.nodeItems [])).Stores remote tree where
  content names u hu := by
    have hitem := FileTree.mem_nodeItems_of_get? [] hu
    rw [List.nil_append] at hitem
    have hfound : (peer.store remote (tree.nodeItems [])).get? (remote.extend names).toText
        = some (.ofContent u.content?) :=
      get?_store_of_mem (toText_ne_of_nodeItems hnamed hvalid) hitem
    rw [content?, hfound]
    cases u <;> rfl
  listing names u hu := by
    have hitem := FileTree.mem_nodeItems_of_get? [] hu
    have hnames := FileTree.isComponent_of_mem_nodeItems hvalid hitem
    have hitems : ∀ item ∈ tree.nodeItems [], ∀ name ∈ item.1, IsComponent name :=
      fun _ => FileTree.isComponent_of_mem_nodeItems hvalid
    have hin := FileTree.itemsIn_nodeItems tree [] names hvalid
    rw [List.nil_append] at hnames hin
    rw [store_eq_append (toText_ne_of_nodeItems hnamed hvalid) fun item hitem =>
        get?_eq_none (hfree.ne_extend hnamed (hitems item hitem)),
      list_append, hfree.list_extend hnamed hnames, List.nil_append,
      list_entryOf hnamed hnames hitems, hin, FileTree.contentsAt, hu]
    rfl

end Peer

/-! ## What is seen of a tree -/

namespace FileTree

mutual

/-- What is seen of a tree that stands on a peer. -/
def seen : FileTree → RemoteView
  | file content => .mk (PeerEntry.file content).mode (some content) []
  | dir es => .mk (PeerEntry.directory Sftp.directoryPermissions).mode none (seenEntries es)

/-- What is seen of the entries of a directory. -/
def seenEntries : List (String × FileTree) → List (String × RemoteView)
  | [] => []
  | (name, t) :: rest => (name, t.seen) :: seenEntries rest

end

end FileTree

namespace Peer

variable {peer : Peer} {remote : Path} {tree : FileTree}

/-- A node of a tree that stands on the peer is seen with its content, and its entries one level
    less deep. -/
theorem viewTo_succ_of_stores (h : peer.Stores remote tree) {u : FileTree} {names : List String}
    (hu : tree.get? names = some u) (depth : Nat) (mode : Option Nat) :
    peer.viewTo (depth + 1) mode (remote.extend names) = .mk mode u.content?
      (u.entries.map fun x => (x.1, peer.viewTo depth (PeerEntry.ofContent x.2.content?).mode
        ((remote.extend names).below x.1))) := by
  rw [viewTo, h.content names u hu, h.listing names u hu, FileTree.contents, List.map_map,
    List.map_map]
  rfl

mutual

/-- A node of a tree that stands on the peer is seen as it is, if it is looked at deep enough. -/
theorem viewTo_of_stores (h : peer.Stores remote tree) (hvalid : tree.isValid = true) :
    ∀ (u : FileTree) (names : List String) (depth : Nat), tree.get? names = some u →
    (u.items names).length ≤ depth →
    peer.viewTo depth (PeerEntry.ofContent u.content?).mode (remote.extend names) = u.seen
  | .file content, names, depth, hu, _ => by
    unfold FileTree.seen
    cases depth with
    | zero =>
        rw [viewTo, h.content names _ hu]
        rfl
    | succ depth =>
        rw [viewTo_succ_of_stores h hu]
        rfl
  | .dir es, names, depth, hu, hdepth => by
    have hes : FileTree.areValid es = true := by
      have hnode := FileTree.isValid_of_get? hvalid hu
      unfold FileTree.isValid at hnode
      exact hnode
    unfold FileTree.items at hdepth
    unfold FileTree.seen
    cases depth with
    | zero =>
        -- only an empty directory has no items, and nothing is looked for in it
        cases es with
        | nil =>
            rw [viewTo, h.content names _ hu]
            rfl
        | cons x rest =>
            rw [FileTree.entryItems_cons] at hdepth
            simp [FileTree.nodeItems] at hdepth
    | succ depth =>
        rw [viewTo_succ_of_stores h hu]
        have hentries := viewEntries_of_stores h hvalid es names depth
          (fun x hx => ⟨by rw [FileTree.get?_concat hu, FileTree.child?_of_mem hes hx],
            (FileTree.isValid_of_mem hes hx).1⟩) hdepth
        rw [← hentries]
        rfl

theorem viewEntries_of_stores (h : peer.Stores remote tree) (hvalid : tree.isValid = true) :
    ∀ (es : List (String × FileTree)) (names : List String) (depth : Nat),
    (∀ x ∈ es, tree.get? (names ++ [x.1]) = some x.2 ∧ isLocalName x.1 = true) →
    (FileTree.entryItems names es).length ≤ depth + 1 →
    (es.map fun x => (x.1, peer.viewTo depth (PeerEntry.ofContent x.2.content?).mode
      ((remote.extend names).below x.1))) = FileTree.seenEntries es
  | [], names, depth, _, _ => rfl
  | (name, t) :: es, names, depth, hes, hdepth => by
    obtain ⟨hget, hname⟩ := hes _ (List.mem_cons_self ..)
    rw [FileTree.entryItems_cons, List.length_append, FileTree.nodeItems,
      List.length_cons] at hdepth
    have hnode := viewTo_of_stores h hvalid t (names ++ [name]) depth hget (by omega)
    have hrest := viewEntries_of_stores h hvalid es names depth
      (fun x hx => hes x (List.mem_cons_of_mem _ hx)) (by omega)
    unfold FileTree.seenEntries
    rw [List.map_cons, hrest, Path.below_of_isLocalName _ hname, Path.extend_extend, hnode]

end

/-- A valid tree that is stored where nothing was is what is seen there. -/
theorem view?_store (hnamed : remote.IsNamed) (hfree : peer.IsFree remote)
    (hvalid : tree.isValid = true) :
    (peer.store remote (tree.nodeItems [])).view? remote = some tree.seen := by
  have hdistinct := toText_ne_of_nodeItems hnamed hvalid
  have hroot : ([], tree.content?) ∈ tree.nodeItems [] := List.mem_cons_self ..
  have hfound : (peer.store remote (tree.nodeItems [])).get? (remote.extend []).toText
      = some (.ofContent tree.content?) := get?_store_of_mem hdistinct hroot
  -- each item takes a path of the peer, so the number of those is depth enough
  have hlength : (tree.items []).length ≤ (peer.store remote (tree.nodeItems [])).length + 1 := by
    rw [store_eq_append hdistinct fun item hitem => get?_eq_none
      (hfree.ne_extend hnamed (FileTree.isComponent_of_mem_nodeItems hvalid hitem))]
    simp only [List.length_append, List.length_map, FileTree.nodeItems, List.length_cons]
    omega
  have hseen := viewTo_of_stores (stores_store hnamed hfree hvalid) hvalid tree []
    ((peer.store remote (tree.nodeItems [])).length + 1) rfl hlength
  rw [Path.extend_nil] at hfound hseen
  rw [view?, hfound, Option.map_some, hseen]

end Peer
end Runbook
