import TeamRoster.Json.Double
import TeamRoster.Text.Decimal

/-!
# Numbers as they are written

A `Numeral` is a JSON number by its parts. `mantissa` and `exponent` give its exact value. What is
kept of it in double precision has a significand of 64 bits (`significand`): digits are taken into
it from the left as long as they fit, and those that do not fit count only by their place.
-/

namespace TeamRoster

/-- A number in digits: a sign, digits in front of the point and behind it, and a power of ten. -/
structure Numeral where
  negative : Bool
  whole : List Char
  fraction : List Char
  power : Int

namespace Numeral

open Text

/-- The largest significand: a word of 64 bits. -/
def wordMax : Nat :=
  18446744073709551615

/-- Take digits into a word as long as they fit, and give those that are left over. -/
def takeDigits (word : Nat) : List Char → Nat × List Char
  | [] => (word, [])
  | d :: ds =>
    let next := 10 * word + digitsValue [d]
    if next ≤ wordMax then takeDigits next ds else (word, d :: ds)

variable (n : Numeral)

/-- The digits as a whole number, with the sign. -/
def mantissa : Int :=
  let m : Int := digitsValue (n.whole ++ n.fraction)
  if n.negative then -m else m

/-- The power of ten that goes with the digits as a whole number. -/
def exponent : Int :=
  n.power - n.fraction.length

/-- The word made of the first digits, and the power of ten that goes with it. -/
def significand : Nat × Int :=
  let (word, dropped) := takeDigits 0 n.whole
  let (word, ignored) := takeDigits word n.fraction
  (word, n.power + dropped.length - (n.fraction.length - ignored.length))

/-- Whether a number has a magnitude in double precision. Only the powers of ten up to `10 ^ 308`
are numbers of double precision themselves; zero and fractions are always within the range. -/
def inDoubleRange : Bool :=
  let (word, power) := n.significand
  if word = 0 ∨ power < 0 then true
  else if 308 < power then false
  else (Double.product? word (Nat.pow 10 power.toNat)).isSome

end Numeral

end TeamRoster
