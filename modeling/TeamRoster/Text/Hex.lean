/-!
# Hexadecimal digits

The sixteen digits, written in lower case and read in either case. Main statement: a digit that was
written is read back.
-/

namespace TeamRoster

namespace Text

/-- The lower-case character of a hexadecimal digit. -/
def hexChar (d : Fin 16) : Char :=
  Nat.digitChar d.val

/-- The hexadecimal digit that a character stands for, in either case. -/
def hexDigit? (c : Char) : Option (Fin 16) :=
  let n := c.toNat
  if h : 0x30 ≤ n ∧ n ≤ 0x39 then some ⟨n - 0x30, by omega⟩
  else if h : 0x61 ≤ n ∧ n ≤ 0x66 then some ⟨n - 0x57, by omega⟩
  else if h : 0x41 ≤ n ∧ n ≤ 0x46 then some ⟨n - 0x37, by omega⟩
  else none

@[simp] theorem hexDigit?_hexChar (d : Fin 16) : hexDigit? (hexChar d) = some d := by
  revert d
  decide

end Text

end TeamRoster
