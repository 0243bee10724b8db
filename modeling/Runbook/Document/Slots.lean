import Runbook.Document.Scalar

set_option autoImplicit false

/-! # The order of numbers in a set

A set keeps its members in slots and shows them slot by slot. A number goes to the slot of its
residue, which numbers of equal value share, whatever their kinds; if that slot is taken, it goes to
a slot near by, and from there to slots further off. Members that are no numbers stay in the order
in which they were given, as they have no residue. -/

namespace Runbook

/-- The modulus of residues, a prime one below a power of two. -/
def residueModulus : Nat := twoPow 61 - 1

/-- The residue of infinity. -/
def infiniteResidue : Nat := 314159

/-- A residue with its sign. Minus one is kept free. -/
def signedResidue (negative : Bool) (n : Nat) : Int :=
  if negative && n = 1 then -2 else Binary64.signed negative n

/-- The residue of a number with a fraction. Sixty-one halvings are one turn around the modulus. -/
def Binary64.residue? : Binary64 → Option Int
  | finite negative m e =>
    some (signedResidue negative (m * twoPow (Int.emod e 61).toNat % residueModulus))
  | infinite negative => some (signedResidue negative infiniteResidue)
  | nan => none

/-- The residue of a scalar that is a number. The truth values count as one and zero. -/
def Scalar.residue? : Scalar → Option Int
  | bool b => some (if b then 1 else 0)
  | int n => some (signedResidue (n < 0) (n.natAbs % residueModulus))
  | float x => x.residue?
  | _ => none

/-- Slots, each free or taken. -/
abbrev Slots := List (Option Scalar)

namespace Slots

/-- How many slots after a slot are tried before a slot further off. -/
def reach : Nat := 9

/-- The first free slot among some. -/
def firstFree? (slots : Slots) (tried : List Nat) : Option Nat :=
  tried.find? fun i => (slots[i]?.getD none).isNone

/-- The slot for a member, sought from a slot on. What is left of the residue says where the search
    goes on; a run of slots is tried only if all of it is there. -/
def seek (slots : Slots) : Nat → Nat → Nat → Nat
  | 0, here, _ => here
  | fuel + 1, here, left =>
    let tried := if here + reach < slots.length then List.range' here (reach + 1) else [here]
    match firstFree? slots tried with
    | some i => i
    | none => seek slots fuel ((5 * here + 1 + left / 32) % slots.length) (left / 32)

/-- Puts a member with a residue into its slot. Residues below zero are counted from the end of the
    64-bit words. The search goes through all slots once nothing of the residue is left. -/
def insert (slots : Slots) (s : Scalar) (residue : Int) : Slots :=
  let word := (Int.emod residue (twoPow 64)).toNat
  slots.set (seek slots (slots.length + 14) (word % slots.length) word) (some s)

/-- How many slots there are for some members: eight for up to four, and else the least power of two
    above twice their number. -/
def countFor (members : Nat) : Nat := if members ≤ 4 then 8 else twoPow (Nat.log2 (2 * members) + 1)

end Slots

namespace Scalar

/-- Some members with their residues, if all of them are numbers. -/
def withResidues? : List Scalar → Option (List (Scalar × Int))
  | [] => some []
  | s :: rest => s.residue?.bind fun r => (withResidues? rest).map ((s, r) :: ·)

/-- The members of a set in the order in which they are shown. -/
def inSetOrder (members : List Scalar) : List Scalar :=
  match withResidues? members with
  | none => members
  | some placed =>
    let free : Slots := List.replicate (Slots.countFor members.length) none
    (placed.foldl (fun slots (s, r) => slots.insert s r) free).filterMap id

/-- A member that is no number leaves the order as it was given. -/
theorem inSetOrder_of_residue?_eq_none {members : List Scalar} {s : Scalar} (h : s ∈ members)
    (hs : s.residue? = none) : inSetOrder members = members := by
  have hnone : withResidues? members = none := by
    induction members with
    | nil => simp at h
    | cons t rest ih =>
        rcases List.mem_cons.1 h with rfl | h
        · simp [withResidues?, hs]
        · cases ht : t.residue? <;> simp [withResidues?, ht, ih h]
  rw [inSetOrder, hnone]

end Scalar

end Runbook
