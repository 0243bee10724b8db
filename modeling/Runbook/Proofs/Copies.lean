import Runbook.Proofs.FileTrees
import Runbook.Proofs.Paths
import Runbook.Proofs.Runs

set_option autoImplicit false

/-! # Copies item by item

A copy makes one thing after the other, each directory before what it holds: the items of a local
tree in the order of names, the items of a remote directory in the order of its listings. Wherever
it stops, the items it has made are the first ones, and nothing else has changed. -/

namespace Runbook

/-- One thing that a copy makes: the names that lead there from where the copy goes, and the content
    of a file. A directory has none. -/
abbrev CopyItem := List String × Option Bytes

namespace FileTree

/-- The content of a file. A directory has none. -/
def content? : FileTree → Option Bytes
  | file content => some content
  | dir _ => none

/-- The node that is made of an item: a file with its content, or an empty directory. -/
def ofContent : Option Bytes → FileTree
  | some content => file content
  | none => empty

/-- A node and everything below it, each directory before what it holds. -/
def nodeItems (lead : List String) (t : FileTree) : List CopyItem :=
  (lead, t.content?) :: t.items lead

/-- The tree after some items are put below a place, one after the other. -/
def plant (t : FileTree) (place : List String) (done : List CopyItem) : FileTree :=
  done.foldl (fun t item => t.put (place ++ item.1) (ofContent item.2)) t

theorem entryItems_cons (lead : List String) (name : String) (t : FileTree)
    (rest : List (String × FileTree)) :
    entryItems lead ((name, t) :: rest) = t.nodeItems (lead ++ [name]) ++ entryItems lead rest := by
  cases t <;> rfl

/-- What some entries are made of is what each of them is. -/
theorem mem_entryItems_iff {lead : List String} {es : List (String × FileTree)} {item : CopyItem} :
    item ∈ entryItems lead es ↔ ∃ x ∈ es, item ∈ x.2.nodeItems (lead ++ [x.1]) := by
  induction es with
  | nil => simp [entryItems]
  | cons x rest ih =>
      obtain ⟨name, t⟩ := x
      rw [entryItems_cons, List.mem_append, ih]
      simp

/-- What is planted below a spot is not seen beside it. -/
theorem get?_plant_beside {place spot names : List String} {done : List CopyItem}
    (hdone : ∀ item ∈ done, spot <+: place ++ item.1) (hbelow : ¬ spot <+: names)
    (habove : ¬ names <+: spot) (t : FileTree) :
    (t.plant place done).get? names = t.get? names := by
  induction done generalizing t with
  | nil => rfl
  | cons item done ih =>
      have hrest := ih (fun i hi => hdone i (List.mem_cons_of_mem _ hi))
        (t.put (place ++ item.1) (ofContent item.2))
      exact hrest.trans
        (get?_put_beside_of_below _ (hdone item (List.mem_cons_self ..)) hbelow habove t)

end FileTree

namespace RemoteView

mutual

/-- What is seen at a remote path and everything below it, each directory before what it lists.
    What is no directory and cannot be read is no item. -/
def items (lead : List String) : RemoteView → List (Option CopyItem)
  | mk mode content listing =>
    if isDir (mk mode none []) then some (lead, none) :: listingItems lead listing
    else [content.map fun bytes => (lead, some bytes)]

/-- Everything that is seen in a listing. -/
def listingItems (lead : List String) : List (String × RemoteView) → List (Option CopyItem)
  | [] => []
  | (name, v) :: rest => items (lead ++ [name]) v ++ listingItems lead rest

end

mutual

/-- The items of what is seen are all below the names that lead there. -/
theorem lead_of_mem_items : ∀ (v : RemoteView) (lead : List String) (item : CopyItem),
    some item ∈ v.items lead → lead <+: item.1
  | .mk mode content listing, lead, item, h => by
    unfold items at h
    split at h
    · rcases List.mem_cons.1 h with h | h
      · obtain rfl := Option.some.inj h
        exact List.prefix_refl _
      · exact lead_of_mem_listingItems listing lead item h
    · obtain ⟨bytes, -, rfl⟩ := Option.map_eq_some_iff.1 (List.mem_singleton.1 h).symm
      exact List.prefix_refl _

theorem lead_of_mem_listingItems : ∀ (listing : List (String × RemoteView)) (lead : List String)
    (item : CopyItem), some item ∈ listingItems lead listing → lead <+: item.1
  | [], lead, item, h => by
    unfold listingItems at h
    cases h
  | (name, v) :: rest, lead, item, h => by
    unfold listingItems at h
    rcases List.mem_append.1 h with h | h
    · exact (List.prefix_append _ _).trans (lead_of_mem_items v _ item h)
    · exact lead_of_mem_listingItems rest lead item h

end

end RemoteView

namespace PeerEntry

/-- The entry that is made of an item: a file with its content, or a directory. -/
def ofContent : Option Bytes → PeerEntry
  | some content => file content
  | none => directory Sftp.directoryPermissions

end PeerEntry

namespace Peer

/-- The remote files after some items are put below a path, one after the other. -/
def store (peer : Peer) (remote : Path) (done : List CopyItem) : Peer :=
  done.foldl (fun peer item => peer.put (remote.extend item.1).toText (.ofContent item.2)) peer

end Peer

/-! ## What a copy has done when it ends -/

/-- Where a copy goes: how it makes an item in a world, whatever calls have been made by then. -/
structure Destination where
  make : World → CopyItem → World
  make_after : ∀ w calls item, make (w.after calls) item = (make w item).after calls
  make_events : ∀ w item, (make w item).events = w.events

namespace Destination

/-- A place in the local tree. -/
def locally (place : List String) : Destination where
  make w item := { w with files := w.files.put (place ++ item.1) (.ofContent item.2) }
  make_after _ _ _ := rfl
  make_events _ _ := rfl

/-- A path of the peer. -/
def remotely (path : Path) : Destination where
  make w item := { w with peer := w.peer.put (path.extend item.1).toText (.ofContent item.2) }
  make_after _ _ _ := rfl
  make_events _ _ := rfl

/-- The world after some items are made, one after the other. -/
def makeAll (d : Destination) (w : World) (done : List CopyItem) : World := done.foldl d.make w

theorem makeAll_append (d : Destination) (w : World) (done more : List CopyItem) :
    d.makeAll w (done ++ more) = d.makeAll (d.makeAll w done) more := List.foldl_append ..

theorem makeAll_after (d : Destination) (w : World) (calls : List Event) (done : List CopyItem) :
    d.makeAll (w.after calls) done = (d.makeAll w done).after calls := by
  induction done generalizing w with
  | nil => rfl
  | cons item done ih =>
      simp only [makeAll, List.foldl_cons, d.make_after] at ih ⊢
      exact ih (d.make w item)

theorem makeAll_events (d : Destination) (w : World) (done : List CopyItem) :
    (d.makeAll w done).events = w.events := by
  induction done generalizing w with
  | nil => rfl
  | cons item done ih => exact (ih (d.make w item)).trans (d.make_events w item)

theorem makeAll_locally (place : List String) (w : World) (done : List CopyItem) :
    (locally place).makeAll w done = { w with files := w.files.plant place done } := by
  induction done generalizing w with
  | nil => rfl
  | cons item done ih => exact ih ((locally place).make w item)

theorem makeAll_remotely (path : Path) (w : World) (done : List CopyItem) :
    (remotely path).makeAll w done = { w with peer := w.peer.store path done } := by
  induction done generalizing w with
  | nil => rfl
  | cons item done ih => exact ih ((remotely path).make w item)

end Destination

/-- How a copy of some items ends: the items it has made are the first ones, nothing else has
    changed but the calls, and if it succeeds it has made them all. -/
structure Copied (d : Destination) (items : List (Option CopyItem)) (w : World)
    (out : Except Failure Unit × World) (done : List CopyItem) : Prop where
  first : done.map some <+: items
  world : ∃ calls, out.2 = (d.makeAll w done).after calls
  all : out.1 = .ok () → done.map some = items

namespace Copied

variable {d : Destination} {items more : List (Option CopyItem)} {e : Setting} {w : World}
  {first second : Action Unit} {done made : List CopyItem}

/-- A copy that fails before its first item has made nothing. -/
theorem nothing (x : Failure) (calls : List Event) :
    Copied d items w (.error x, w.after calls) [] where
  first := List.nil_prefix
  world := ⟨calls, rfl⟩
  all h := by cases h

/-- A copy of no items succeeds and leaves nothing but its calls. -/
theorem none (calls : List Event) : Copied d [] w (.ok (), w.after calls) [] where
  first := List.nil_prefix
  world := ⟨calls, rfl⟩
  all _ := rfl

/-- A copy of one item that succeeds has made it. -/
theorem one (item : CopyItem) (calls : List Event) :
    Copied d [some item] w (.ok (), (d.make w item).after calls) [item] where
  first := List.prefix_refl _
  world := ⟨calls, rfl⟩
  all _ := rfl

theorem events (h : Copied d items w (first e w) done) : w.events <+: (first e w).2.events := by
  obtain ⟨calls, hcalls⟩ := h.world
  rw [hcalls, World.after_events, d.makeAll_events]
  exact List.prefix_append _ _

/-- Where no fault strikes, none strikes the run of a copy. -/
theorem sparesRun {out : Except Failure Unit × World} (h : Copied d items w out done)
    (hquiet : ∀ past call, e.fault past call = Option.none) : e.SparesRun w out.2 := by
  obtain ⟨calls, hcalls⟩ := h.world
  refine ⟨calls, ?_, Setting.spares_of_no_fault hquiet _ _⟩
  rw [hcalls, World.after_events, d.makeAll_events]

/-- What has been made of items that all can be made. -/
theorem first_of_map {all : List CopyItem} {out : Except Failure Unit × World}
    (h : Copied d (all.map some) w out done) : done <+: all :=
  (List.prefix_map_iff_of_injective fun _ _ => Option.some.inj).1 h.first

theorem all_of_map {all : List CopyItem} {out : Except Failure Unit × World}
    (h : Copied d (all.map some) w out done) (hok : out.1 = .ok ()) : done = all :=
  (List.map_inj_right fun _ _ => Option.some.inj).1 (h.all hok)

/-- A copy that goes on after its first part. -/
theorem append (h : Copied d items w (first e w) done) (hok : (first e w).1 = .ok ())
    (h' : Copied d more (first e w).2 (second e (first e w).2) made) :
    Copied d (items ++ more) w ((first >>= fun _ => second) e w) (done ++ made) := by
  obtain ⟨calls, hcalls⟩ := h.world
  obtain ⟨calls', hcalls'⟩ := h'.world
  have hrun : (first >>= fun _ => second) e w = second e (first e w).2 :=
    Effect.bind_of_ok (Prod.ext hok rfl)
  rw [hrun]
  refine ⟨?_, ⟨calls ++ calls', ?_⟩, fun hr => ?_⟩
  · rw [List.map_append, h.all hok]
    exact (List.prefix_append_right_inj _).2 h'.first
  · rw [hcalls', hcalls, d.makeAll_after, World.after_after, d.makeAll_append]
  · rw [List.map_append, h.all hok, h'.all hr]

/-- A copy that stops in its first part. -/
theorem stop (h : Copied d items w (first e w) done) {x : Failure}
    (herr : (first e w).1 = .error x) :
    Copied d (items ++ more) w ((first >>= fun _ => second) e w) done := by
  have hrun : (first >>= fun _ => second) e w = (.error x, (first e w).2) :=
    Effect.bind_of_error (Prod.ext herr rfl)
  rw [hrun]
  exact ⟨h.first.trans (List.prefix_append _ _), h.world, fun hr => by cases hr⟩

/-- A copy that starts after some calls have been made. -/
theorem of_after {calls : List Event} {out : Except Failure Unit × World}
    (h : Copied d items (w.after calls) out done) : Copied d items w out done := by
  obtain ⟨more, hmore⟩ := h.world
  refine ⟨h.first, ⟨calls ++ more, ?_⟩, h.all⟩
  rw [hmore, d.makeAll_after, World.after_after]

/-- A copy that is made in a session of its own, which may not even be opened. -/
theorem session {target : Target} {body : Action Unit} {P : List CopyItem → Prop} (hnil : P [])
    (h : e.Spares w.events (Sftp.opening target e) →
      ∃ done, Copied d items (w.after (Sftp.opening target e))
        (body e (w.after (Sftp.opening target e))) done ∧ P done) :
    ∃ done, Copied d items w (Session.withConnection target (Sftp.withSftp body) e w) done ∧
      P done := by
  by_cases hopen : e.Spares w.events (Sftp.opening target e)
  · obtain ⟨hsnd, hok, -⟩ := Sftp.session_of_spared body hopen
    obtain ⟨done, hdone, hP⟩ := h hopen
    obtain ⟨calls, hcalls⟩ := hdone.of_after.world
    -- closing the session changes nothing but the calls, whether it fails or not
    refine ⟨done, ⟨hdone.first, ⟨calls ++ Sftp.closing, ?_⟩, fun hr => hdone.all (hok _ hr)⟩, hP⟩
    rw [hsnd, hcalls, World.after_after]
  · obtain ⟨x, calls, hx, -⟩ := Sftp.session_of_struck body hopen
    rw [hx]
    exact ⟨[], .nothing x calls, hnil⟩

end Copied
end Runbook
