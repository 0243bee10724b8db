import Runbook.Document.Node

set_option autoImplicit false

/-! # What is known during the interpretation of tags

While the tags of a document are interpreted, three things are remembered: the value of each id,
what stands by now in each container that has been worked through, and what stands by now in those
that are being worked through. A container with a place is worked through once; wherever else it
occurs, what then stands in it is taken as it is. -/

namespace Runbook

/-- The values of the ids, in the order in which they were found. -/
abbrev Idents := List (String × Node)

namespace Idents

/-- The value of an id. -/
def get? (ids : Idents) (id : String) : Option Node := (ids.find? fun e => e.1 = id).map (·.2)

/-- Sets the value of an id. An id that is there already keeps its position. -/
def put : Idents → String → Node → Idents
  | [], id, n => [(id, n)]
  | (i, old) :: rest, id, n => if i = id then (i, n) :: rest else (i, old) :: put rest id n

end Idents

/-- What stands in some places by now. -/
abbrev Contents := List (Nat × Node)

namespace Contents

/-- What stands in a place. -/
def get? (c : Contents) (place : Nat) : Option Node := (c.find? fun e => e.1 = place).map (·.2)

/-- What stands in the place of a container, if it has one. -/
def at? (c : Contents) (place : Option Nat) : Option Node := place.bind c.get?

/-- The contents without a place. -/
def without (c : Contents) (place : Nat) : Contents := c.filter fun e => e.1 ≠ place

/-- Sets what stands in a place. -/
def set (c : Contents) (place : Nat) (n : Node) : Contents := (place, n) :: c.without place

theorem length_without_lt {c : Contents} {place : Nat} {n : Node} (h : c.get? place = some n) :
    (c.without place).length < c.length := by
  simp only [get?, Option.map_eq_some_iff] at h
  obtain ⟨e, he, _⟩ := h
  have hm := List.mem_of_find?_eq_some he
  have hp := List.find?_some he
  refine List.length_filter_lt_length_iff_exists.2 ⟨e, hm, by simpa using hp⟩

end Contents

namespace Node

mutual

/-- A document as it stands by now, with no container shared. No container holds itself, so a place
    that has been looked up is not met again below. -/
def asItStands (c : Contents) : Node → Node
  | scalar s => scalar s
  | list place items =>
    match place with
    | none => list none (itemsAsTheyStand c items)
    | some p =>
      match h : c.get? p with
      | some n =>
        have := Contents.length_without_lt h
        asItStands (c.without p) n
      | none => list none (itemsAsTheyStand c items)
  | map place entries =>
    match place with
    | none => map none (entriesAsTheyStand c entries)
    | some p =>
      match h : c.get? p with
      | some n =>
        have := Contents.length_without_lt h
        asItStands (c.without p) n
      | none => map none (entriesAsTheyStand c entries)
  | tagged name payload => tagged name (asItStands c payload)
  | pair key value => pair (asItStands c key) (asItStands c value)
  | set members => set members
termination_by n => (c.length, sizeOf n)

/-- Items as they stand by now. -/
def itemsAsTheyStand (c : Contents) : List Node → List Node
  | [] => []
  | item :: items => asItStands c item :: itemsAsTheyStand c items
termination_by items => (c.length, sizeOf items)

/-- Entries as they stand by now. -/
def entriesAsTheyStand (c : Contents) : List (Scalar × Node) → List (Scalar × Node)
  | [] => []
  | (key, value) :: entries => (key, asItStands c value) :: entriesAsTheyStand c entries
termination_by entries => (c.length, sizeOf entries)

end

end Node

/-- What is remembered while the tags of a document are interpreted. -/
structure TagMemory where
  ids : Idents
  settled : Contents
  pending : Contents

namespace TagMemory

/-- The memory with which a document is begun: only the ids are known. -/
def start (ids : Idents) : TagMemory := ⟨ids, [], []⟩

/-- What stands by now in all places that have been reached. -/
def contents (m : TagMemory) : Contents := m.pending ++ m.settled

/-- A node as it stands by now. -/
def view (m : TagMemory) (n : Node) : Node := n.asItStands m.contents

/-- The ids with their values as they stand by now. -/
def viewIds (m : TagMemory) : Idents := m.ids.map fun (id, n) => (id, m.view n)

end TagMemory
end Runbook
