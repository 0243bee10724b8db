set_option autoImplicit false

/-! # Powers

The powers of the two bases in which numbers are written: binary numbers scale by powers of two,
their texts by powers of ten. -/

namespace Runbook

/-- A power of two. -/
def twoPow (n : Nat) : Nat := Nat.pow 2 n

/-- A power of ten. -/
def tenPow (n : Nat) : Nat := Nat.pow 10 n

end Runbook
