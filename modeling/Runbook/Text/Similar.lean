set_option autoImplicit false

/-! # Similar texts

How similar two texts are, for a hint at what may have been meant. The measure takes out the longest
piece that both have in common, the leftmost one of several, and goes on to the left and to the
right of it; what has been taken out is compared with the length of both. -/

namespace Runbook.Text

/-- How many characters two texts start with in common. -/
def commonLead : List Char → List Char → Nat
  | a :: as, b :: bs => if a = b then commonLead as bs + 1 else 0
  | _, _ => 0

/-- The longest piece at the start of a text that occurs in another one, the leftmost there: where
    it starts there, and its length. -/
def longestLead (as : List Char) : Nat → List Char → Nat × Nat
  | _, [] => (0, 0)
  | j, b :: bs =>
    let here := commonLead as (b :: bs)
    let later := longestLead as (j + 1) bs
    if later.2 ≤ here then (j, here) else later

/-- The longest piece that two texts have in common, leftmost in the first and then in the second:
    where it starts in each, and its length. -/
def longestCommon (bs : List Char) : Nat → List Char → Nat × Nat × Nat
  | _, [] => (0, 0, 0)
  | i, a :: as =>
    let (j, here) := longestLead (a :: as) 0 bs
    let later := longestCommon bs (i + 1) as
    if later.2.2 ≤ here then (i, j, here) else later

/-- How many characters are taken out of each of two texts. -/
def matching : Nat → List Char → List Char → Nat
  | 0, _, _ => 0
  | fuel + 1, as, bs =>
    let (i, j, n) := longestCommon bs 0 as
    if n = 0 then 0
    else
      matching fuel (as.take i) (bs.take j) + n
        + matching fuel (as.drop (i + n)) (bs.drop (j + n))

/-- Whether two texts are similar: three fifths of their characters are in common. -/
def isSimilar (a b : String) : Bool :=
  let as := a.toList
  let bs := b.toList
  3 * (as.length + bs.length) ≤ 10 * matching as.length as bs

end Runbook.Text
