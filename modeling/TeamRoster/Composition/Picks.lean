import TeamRoster.Composition.TieBreak

/-!
# Answers to ties

Who breaks a tie answers by the number of ties broken before and the number of choices.
`Picks.scripted` repeats a list of answers. `Picks.seeded` draws them from a seed, so that the same
seed gives the same answers; it stands for any generator of random numbers, and nothing is stated that
depends on what it draws: whoever breaks ties may give any answers whatever.
-/

namespace TeamRoster

namespace Picks

/-- Answer with the entries of a list, over and over; with zero if the list is empty. Whether an
entry is one of the choices is not looked at. -/
def scripted (script : List Nat) (turn _count : Nat) : Nat :=
  script.getD (turn % script.length) 0

/-- Spread the bits of a word, so that words that lie close together give words that do not. -/
def scatter (word : UInt64) : UInt64 :=
  let word := (word ^^^ (word >>> 30)) * 0xBF58476D1CE4E5B9
  let word := (word ^^^ (word >>> 27)) * 0x94D049BB133111EB
  word ^^^ (word >>> 31)

/-- The word of a seed at a turn: steps of an odd constant from the seed, scattered. -/
def word (seed turn : Nat) : UInt64 :=
  scatter (UInt64.ofNat seed + UInt64.ofNat (turn + 1) * 0x9E3779B97F4A7C15)

/-- Draw one of the choices. The only choice is not drawn for. -/
def seeded (seed turn count : Nat) : Nat :=
  if count ≤ 1 then 0 else (word seed turn).toNat % count

end Picks

end TeamRoster
