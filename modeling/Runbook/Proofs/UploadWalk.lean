import Runbook.Proofs.LocalCalls
import Runbook.Proofs.ValidTrees

set_option autoImplicit false

/-! # The walk of an upload

An upload of a directory makes the items of a local node below a remote path, in the order of their
names. Whatever faults strike its calls, what it leaves is the first of these items and nothing
else; and if it leaves them all, it succeeds. -/

namespace Runbook.Sftp

open Action Session FileTree
open Path (isLocalName)

/-- How an upload of some items ends: the first of them have been made below a remote path, and if
    these are all, it has succeeded. -/
def UploadedTo (remote : Path) (items : List CopyItem) (w : World)
    (out : Except Failure Unit × World) : Prop :=
  ∃ done, Copied (.remotely remote) (items.map some) w out done ∧ (done = items → out.1 = .ok ())

variable {e : Setting} {remote source : Path} {lead : List String} {w : World}

namespace UploadedTo

variable {items more : List CopyItem}

/-- An upload that fails before its first item has made nothing. -/
theorem failed (hitems : items ≠ []) (x : Failure) (calls : List Event) :
    UploadedTo remote items w (.error x, w.after calls) :=
  ⟨[], .nothing x calls, fun h => absurd h.symm hitems⟩

theorem events {first : Action Unit} (h : UploadedTo remote items w (first e w)) :
    w.events <+: (first e w).2.events := h.elim fun _ h => h.1.events

/-- An upload goes on after its first part, or stops there. -/
theorem bind {first second : Action Unit} (h : UploadedTo remote items w (first e w))
    (h' : (first e w).1 = .ok () →
      UploadedTo remote more (first e w).2 (second e (first e w).2)) :
    UploadedTo remote (items ++ more) w ((first >>= fun _ => second) e w) := by
  obtain ⟨done, hdone, hcomplete⟩ := h
  rw [UploadedTo, List.map_append]
  cases hr : (first e w).1 with
  | error x =>
      -- if all items were made already, there is nothing more, and the first part has succeeded
      refine ⟨done, hdone.stop hr, fun hall => ?_⟩
      have hmore : items ++ more <+: items ++ [] := by
        rw [List.append_nil, ← hall]
        exact hdone.first_of_map
      have hnil : more = [] := List.prefix_nil.1 ((List.prefix_append_right_inj _).1 hmore)
      have hfirst : done = items := by rw [hall, hnil, List.append_nil]
      rw [hcomplete hfirst] at hr
      cases hr
  | ok u =>
      obtain ⟨made, hmade, hcomplete'⟩ := h' hr
      refine ⟨done ++ made, hdone.append hr hmade, fun hall => ?_⟩
      have hfirst : done = items := hdone.all_of_map hr
      rw [hfirst] at hall
      rw [Effect.bind_of_ok (Prod.ext hr rfl)]
      exact hcomplete' (List.append_cancel_left hall)

end UploadedTo

/-! ## The calls of an upload -/

/-- A call that makes an item is made, and the item with it if the call is spared. -/
theorem changing_cases (context : RemoteProblem) (call : Event) (f : Peer → Peer) (e : Setting)
    (w : World) :
    (∃ x, attempting context (perform call >>= fun _ => changePeer f) e w
          = (.error x, w.after [call]) ∧ ¬ e.Spares w.events [call]) ∨
      attempting context (perform call >>= fun _ => changePeer f) e w
        = (.ok (), { w.after [call] with peer := f w.peer }) := by
  unfold attempting
  cases hf : e.fault w.events call with
  | some x =>
      obtain ⟨y, hy⟩ := Effect.because_of_error (Effect.bind_of_error (perform_of_struck hf))
      exact Or.inl ⟨y, hy, by simp [Setting.Spares, hf]⟩
  | none =>
      exact Or.inr (Effect.because_of_ok (Effect.bind_of_ok (perform_of_spared hf)))

/-- An item is made at its remote path, or nothing is. -/
theorem changing_uploaded (context : RemoteProblem) (call : Event) (item : CopyItem) :
    UploadedTo remote [item] w (attempting context (perform call >>= fun _ =>
      changePeer (·.put (remote.extend item.1).toText (.ofContent item.2))) e w) := by
  rcases changing_cases context call (·.put (remote.extend item.1).toText (.ofContent item.2)) e w
    with ⟨x, hx, -⟩ | hok
  · rw [hx]
    exact .failed (List.cons_ne_nil _ _) x _
  · rw [hok]
    exact ⟨[item], .one item [call], fun _ => rfl⟩

theorem changing_ok (context : RemoteProblem) (call : Event) (f : Peer → Peer)
    (hspared : e.SparesRun w (attempting context (perform call >>= fun _ => changePeer f) e w).2) :
    (attempting context (perform call >>= fun _ => changePeer f) e w).1 = .ok () := by
  rcases changing_cases context call f e w with ⟨x, hx, hstruck⟩ | hok
  · rw [hx] at hspared
    exact absurd hspared.spares hstruck
  · rw [hok]

theorem checkLength_cases (p : Path) (e : Setting) (w : World) :
    (∃ x, p.checkLength e w = (.error x, w) ∧ pathLimit < p.toText.utf8ByteSize) ∨
      p.checkLength e w = (.ok (), w) ∧ p.toText.utf8ByteSize ≤ pathLimit := by
  unfold Path.checkLength
  by_cases h : pathLimit < p.toText.utf8ByteSize
  · rw [if_pos h]
    exact Or.inl ⟨_, rfl, h⟩
  · rw [if_neg h]
    exact Or.inr ⟨rfl, Nat.not_lt.1 h⟩

/-- What is done at a path whose text is not too long, and otherwise not at all. -/
theorem checked_uploaded {p : Path} {items : List CopyItem} {body : Action Unit}
    (hitems : items ≠ []) (h : UploadedTo remote items w (body e w)) :
    UploadedTo remote items w ((p.checkLength >>= fun _ => body) e w) := by
  rcases checkLength_cases p e w with ⟨x, hx, -⟩ | ⟨hok, -⟩
  · rw [Effect.bind_of_error hx]
    simpa using UploadedTo.failed (w := w) hitems x []
  · rwa [Effect.bind_of_ok hok]

theorem checkLength_ok {p : Path} (h : p.toText.utf8ByteSize ≤ pathLimit) :
    p.checkLength e w = (.ok (), w) := by
  rw [Path.checkLength, if_neg (Nat.not_lt.2 h)]
  rfl

/-! ## The walk -/

mutual

/-- A local node is copied to a remote path, up to some item. -/
theorem uploadTree_uploaded : ∀ (t : FileTree) (lead : List String) (w : World),
    t.isValid = true →
    UploadedTo remote (t.nodeItems lead) w
      (uploadTree (source.extend lead) (remote.extend lead) t e w)
  | .file content, lead, w, _ => by
    unfold uploadTree
    exact checked_uploaded (List.cons_ne_nil _ _) (changing_uploaded _ _ (lead, some content))
  | .dir es, lead, w, h => by
    unfold uploadTree
    unfold isValid at h
    refine checked_uploaded (List.cons_ne_nil _ _) ?_
    have hmade : UploadedTo remote [(lead, none)] w (makeDirectory (remote.extend lead) e w) :=
      changing_uploaded _ _ (lead, none)
    exact hmade.bind fun _ => uploadEntries_uploaded es lead _ h

/-- The entries of a local directory are copied into a remote directory, up to some item. -/
theorem uploadEntries_uploaded : ∀ (es : List (String × FileTree)) (lead : List String) (w : World),
    areValid es = true →
    UploadedTo remote (entryItems lead es) w
      (uploadEntries (source.extend lead) (remote.extend lead) es e w)
  | [], lead, w, _ => by
    unfold uploadEntries entryItems
    exact ⟨[], by simpa using Copied.none [], fun _ => rfl⟩
  | (name, t) :: rest, lead, w, h => by
    obtain ⟨hname, -, ht, hrest⟩ := areValid_cons h
    rw [entryItems_cons]
    unfold uploadEntries
    rw [Path.below_of_isLocalName _ hname, Path.below_of_isLocalName _ hname, Path.extend_extend,
      Path.extend_extend]
    exact (uploadTree_uploaded t _ w ht).bind fun _ => uploadEntries_uploaded rest lead _ hrest

end

/-! ## Walks that reach their end -/

mutual

/-- A local node is copied, unless a fault strikes, if the texts of its paths are not too long. -/
theorem uploadTree_ok : ∀ (t : FileTree) (lead : List String) (w : World), t.isValid = true →
    (∀ item ∈ t.nodeItems lead, (source.extend item.1).toText.utf8ByteSize ≤ pathLimit) →
    e.SparesRun w (uploadTree (source.extend lead) (remote.extend lead) t e w).2 →
    (uploadTree (source.extend lead) (remote.extend lead) t e w).1 = .ok ()
  | .file content, lead, w, _, hsize, hspared => by
    unfold uploadTree at hspared ⊢
    rw [Effect.bind_of_ok (checkLength_ok (hsize _ (List.mem_cons_self ..)))] at hspared ⊢
    exact changing_ok _ _ _ hspared
  | .dir es, lead, w, h, hsize, hspared => by
    unfold uploadTree at hspared ⊢
    unfold isValid at h
    rw [Effect.bind_of_ok (checkLength_ok (hsize _ (List.mem_cons_self ..)))] at hspared ⊢
    have hmade : UploadedTo remote [(lead, none)] w (makeDirectory (remote.extend lead) e w) :=
      changing_uploaded _ _ (lead, none)
    refine Effect.ok_of_sparesRun hspared hmade.events ?_ (fun _ => ?_) (fun _ => ?_)
    · exact changing_ok _ _ _
    · exact UploadedTo.events (uploadEntries_uploaded es lead _ h)
    · exact uploadEntries_ok es lead _ h fun item hitem => hsize item (List.mem_cons_of_mem _ hitem)

theorem uploadEntries_ok : ∀ (es : List (String × FileTree)) (lead : List String) (w : World),
    areValid es = true →
    (∀ item ∈ entryItems lead es, (source.extend item.1).toText.utf8ByteSize ≤ pathLimit) →
    e.SparesRun w (uploadEntries (source.extend lead) (remote.extend lead) es e w).2 →
    (uploadEntries (source.extend lead) (remote.extend lead) es e w).1 = .ok ()
  | [], lead, w, _, _, _ => by
    unfold uploadEntries
    rfl
  | (name, t) :: rest, lead, w, h, hsize, hspared => by
    obtain ⟨hname, -, ht, hrest⟩ := areValid_cons h
    rw [entryItems_cons] at hsize
    unfold uploadEntries at hspared ⊢
    rw [Path.below_of_isLocalName _ hname, Path.below_of_isLocalName _ hname, Path.extend_extend,
      Path.extend_extend] at hspared ⊢
    have hfirst : UploadedTo remote (t.nodeItems (lead ++ [name])) w
        (uploadTree (source.extend (lead ++ [name])) (remote.extend (lead ++ [name])) t e w) :=
      uploadTree_uploaded t _ w ht
    refine Effect.ok_of_sparesRun hspared hfirst.events ?_ (fun _ => ?_) (fun _ => ?_)
    · exact uploadTree_ok t _ w ht fun item hitem => hsize item (List.mem_append_left _ hitem)
    · exact UploadedTo.events (uploadEntries_uploaded rest lead _ hrest)
    · exact uploadEntries_ok rest lead _ hrest fun item hitem =>
        hsize item (List.mem_append_right _ hitem)

end

/-! ## What has reached its end -/

theorem size_of_checkLength {p : Path} {body : Action Unit}
    (hok : ((p.checkLength >>= fun _ => body) e w).1 = .ok ()) :
    p.toText.utf8ByteSize ≤ pathLimit ∧ (body e w).1 = .ok () := by
  rcases checkLength_cases p e w with ⟨x, hx, -⟩ | ⟨hx, hsize⟩
  · rw [Effect.bind_of_error hx] at hok
    cases hok
  · rw [Effect.bind_of_ok hx] at hok
    exact ⟨hsize, hok⟩

mutual

/-- If a local node has been copied, the texts of its paths are not too long. -/
theorem size_of_uploadTree : ∀ (t : FileTree) (lead : List String) (w : World), t.isValid = true →
    (uploadTree (source.extend lead) (remote.extend lead) t e w).1 = .ok () →
    ∀ item ∈ t.nodeItems lead, (source.extend item.1).toText.utf8ByteSize ≤ pathLimit
  | .file content, lead, w, _, hok, item, hitem => by
    unfold uploadTree at hok
    obtain rfl := List.mem_singleton.1 hitem
    exact (size_of_checkLength hok).1
  | .dir es, lead, w, h, hok, item, hitem => by
    unfold uploadTree at hok
    unfold isValid at h
    obtain ⟨hsize, hok⟩ := size_of_checkLength hok
    obtain ⟨u, w', -, hok⟩ := Effect.exists_of_bind_ok hok
    rcases List.mem_cons.1 hitem with rfl | hitem
    · exact hsize
    · exact size_of_uploadEntries es lead w' h hok item hitem

theorem size_of_uploadEntries : ∀ (es : List (String × FileTree)) (lead : List String) (w : World),
    areValid es = true →
    (uploadEntries (source.extend lead) (remote.extend lead) es e w).1 = .ok () →
    ∀ item ∈ entryItems lead es, (source.extend item.1).toText.utf8ByteSize ≤ pathLimit
  | [], lead, w, _, _, item, hitem => by
    unfold entryItems at hitem
    cases hitem
  | (name, t) :: rest, lead, w, h, hok, item, hitem => by
    obtain ⟨hname, -, ht, hrest⟩ := areValid_cons h
    rw [entryItems_cons] at hitem
    unfold uploadEntries at hok
    rw [Path.below_of_isLocalName _ hname, Path.below_of_isLocalName _ hname, Path.extend_extend,
      Path.extend_extend] at hok
    obtain ⟨u, w', hfirst, hok⟩ := Effect.exists_of_bind_ok hok
    rcases List.mem_append.1 hitem with hitem | hitem
    · exact size_of_uploadTree t _ w ht (by rw [hfirst]) item hitem
    · exact size_of_uploadEntries rest lead w' hrest hok item hitem

end

end Runbook.Sftp
