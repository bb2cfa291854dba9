import TeamRoster.Team.Family

/-!
# Changing a family in place

The steps of a family carried out in place, one check and one write after the other. A change that is
refused on the way is not taken back: what was written before stays written. `Family.perform` carries
out a step so; nothing in it says that a refused step leaves the teams alone.
-/

namespace TeamRoster

/-- A change of a family in place, which may be refused on the way. -/
abbrev Mutation (α : Type) : Type :=
  ExceptT RuleError (StateM Family) α

namespace Mutation

variable {α : Type}

/-- Carry out a change: what it gives, and the family as it leaves it. -/
def on (change : Mutation α) (f : Family) : Except RuleError α × Family :=
  (ExceptT.run change).run f

/-- Go on with a value, or stop at the rule that is broken. -/
def check : Except RuleError α → Mutation α
  | .ok a => pure a
  | .error e => throw e

/-- Overwrite the team of this number. -/
def write (n : Nat) (t : Team) : Mutation Unit :=
  modify fun f => f.put n t

/-- Let a team join the family. -/
def join (t : Team) : Mutation Unit :=
  modify fun f => f.push t

/-- Add a member at the end of a team. -/
def add (n : Nat) (t : Team) (m : Member) : Mutation Family.Effect := do
  check (t.checkJoin m)
  write n { t with members := t.members ++ [m] }
  return .joined

/-- Take the first member with this id out of a team. -/
def remove (n : Nat) (t : Team) (id : Ident) : Mutation Family.Effect :=
  match t.members.find? (fun m => m.id == id) with
  | some m => do
    write n { t with members := t.members.eraseP (fun m => m.id == id) }
    return .left m
  | none => throw (.notListed id t.id)

/-- Split a team that has to: the new team is formed before members leave the old one. -/
def split (n : Nat) (t : Team) (birth : Birth) : Mutation Family.Effect :=
  if t.needsSplitting then do
    let half := t.size / 2
    let name ← check t.name.split
    let draft ← check (Team.Draft.ofMembers name (t.members.drop half))
    write n { t with members := t.members.take half }
    join (draft.form birth)
    return .parted (some (draft.form birth))
  else return .parted none

/-- Move every member of one team into another: the source is emptied first. -/
def absorb (n k : Nat) (destination source : Team) : Mutation Family.Effect := do
  source.members.forM fun m => check (destination.checkJoin m)
  write k { source with members := [] }
  write n { destination with members := destination.members ++ source.members }
  return .moved source.members

end Mutation

/-- Carry out a step in place: what it gives or the rule that it breaks, and the family as it leaves
it; nothing where the step names no team. -/
def Family.perform (f : Family) : Family.Step → Option (Except RuleError Family.Effect × Family)
  | .add n m => (f.team? n).map fun t => (Mutation.add n t m).on f
  | .remove n id => (f.team? n).map fun t => (Mutation.remove n t id).on f
  | .split n birth => (f.team? n).map fun t => (Mutation.split n t birth).on f
  | .absorb n k => do
    let destination ← f.team? n
    let source ← f.team? k
    if n = k then none else return (Mutation.absorb n k destination source).on f

end TeamRoster
