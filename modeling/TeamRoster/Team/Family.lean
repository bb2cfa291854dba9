import TeamRoster.Team.Basic

/-!
# Families of teams

Several teams side by side, each known by its number. A step works on one team, or on two different
ones, and the team that splits off another joins the family at the end. A step that breaks a rule
gives no family; a step that names a team that is not there is no step of the family.
-/

namespace TeamRoster

/-- Teams by number, from zero. -/
structure Family where
  teams : List Team
deriving DecidableEq

namespace Family

/-- A family without teams. -/
def empty : Family :=
  ⟨[]⟩

/-- The team of this number. -/
def team? (f : Family) (n : Nat) : Option Team :=
  f.teams[n]?

/-- The number of teams. -/
def size (f : Family) : Nat :=
  f.teams.length

/-- Put a team in the place of the one of this number. -/
def put (f : Family) (n : Nat) (t : Team) : Family :=
  ⟨f.teams.set n t⟩

/-- Let a team join at the end; its number is the former size. -/
def push (f : Family) (t : Team) : Family :=
  ⟨f.teams ++ [t]⟩

/-- What can be done with the teams of a family. -/
inductive Step where
  | add (team : Nat) (member : Member)
  | remove (team : Nat) (member : Ident)
  /-- Split a team if it is too large; the new team gets the birth. -/
  | split (team : Nat) (birth : Birth)
  | absorb (destination source : Nat)
deriving DecidableEq

/-- What a step gave besides the teams. -/
inductive Effect where
  | joined
  | left (member : Member)
  | parted (new : Option Team)
  | moved (members : List Member)
deriving DecidableEq

/-- The family after a step that keeps the rules, or the rule that it breaks. -/
def step (f : Family) : Step → Option (Except RuleError (Effect × Family))
  | .add n m => do
    let t ← f.team? n
    return do
      let t ← t.add m
      return (.joined, f.put n t)
  | .remove n id => do
    let t ← f.team? n
    return do
      let (m, t) ← t.remove id
      return (.left m, f.put n t)
  | .split n birth => do
    let t ← f.team? n
    return do
      match ← t.split with
      | some (kept, draft) =>
        let new := draft.form birth
        return (.parted (some new), (f.put n kept).push new)
      | none => return (.parted none, f)
  | .absorb n k => do
    let destination ← f.team? n
    let source ← f.team? k
    if n = k then none
    else
      return do
        let after ← destination.absorb source
        return (.moved after.moved, (f.put n after.destination).put k after.source)

end Family

end TeamRoster
