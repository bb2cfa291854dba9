/-!
# Double precision

Natural numbers as numbers of double precision: 53 significant bits, and nothing from `2 ^ 1024`
on. A result that is not a number of double precision is rounded to the nearest one, and of two
that are equally near to the one whose last bit is zero.
-/

namespace TeamRoster

namespace Double

/-- The distance of the numbers with 53 significant bits that are about as large as this one. -/
def spacing (n : Nat) : Nat :=
  Nat.pow 2 (n.log2 - 52)

/-- Round to 53 significant bits, a half to the even neighbour. -/
def round (n : Nat) : Nat :=
  let unit := spacing n
  let kept := n / unit
  let lost := n % unit
  let roundedUp := unit < 2 * lost ∨ unit = 2 * lost ∧ kept % 2 = 1
  unit * if roundedUp then kept + 1 else kept

/-- The least power of two that is too large for double precision. -/
def limit : Nat :=
  Nat.pow 2 1024

/-- The product of two numbers, rounded after each step; `none` if it is too large. -/
def product? (m n : Nat) : Option Nat :=
  let p := round (round m * round n)
  if p < limit then some p else none

end Double

end TeamRoster
