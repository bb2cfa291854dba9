import TeamRoster.Ident

/-!
# Random ids

An id made of random bits: version 4, variant 1, which fixes six of the 128 bits.
-/

namespace TeamRoster

namespace Ident

/-- The digit at a position, taken from a number and set to the version and the variant where these
stand. -/
def randomDigit (bits : Nat) (position : Fin 32) : Fin 16 :=
  let digit := Fin.ofNat 16 (bits >>> (4 * position.val))
  if position.val = 12 then 4
  else if position.val = 16 then Fin.ofNat 16 (8 + digit.val % 4)
  else digit

/-- The id made of random bits. -/
def ofRandom (bits : Nat) : Ident :=
  ⟨List.ofFn (randomDigit bits), by simp⟩

end Ident

end TeamRoster
