import TeamRoster.Composition.Basic
import TeamRoster.Composition.TieBreak

/-!
# Placement of members

The rules by which teams grow, shrink and are balanced again. A team that reaches five members
splits. The only member left in a team moves to the smallest other team with room. A member who
comes back goes to the smallest team with room or, when all are full, to the smallest team. Which of
several smallest teams is taken is a `TieBreak`.
-/

namespace TeamRoster

/-- A team after a member joined, before a team that splits off has its id. -/
inductive Intake where
  /-- The team has room. -/
  | fits (team : Team)
  /-- The team split: what stays, and the draft of the other half. -/
  | overflows (kept : Team) (draft : Team.Draft)

namespace Intake

/-- The composition, with the birth of the new team if there is one. -/
def compose (birth : Birth) : Intake → Composition
  | fits team => .unchanged team
  | overflows kept draft => .split kept (draft.form birth) draft.members

/-- Whether a team is going to be formed. -/
def needsBirth : Intake → Bool
  | fits _ => false
  | overflows _ _ => true

end Intake

/-- Add a member to a team, and split the team if it is too large then. -/
def Team.intake (t : Team) (m : Member) : Except RuleError Intake := do
  let grown ← t.add m
  match ← grown.split with
  | some (kept, draft) => return .overflows kept draft
  | none => return .fits grown

/-- The teams of the smallest size, in order. -/
def smallest (teams : List Team) : List Team :=
  match (teams.map Team.size).min? with
  | some least => teams.filter fun t => t.size == least
  | none => []

/-- One of the smallest teams, if there is a team. -/
def pickSmallest (teams : List Team) : TieBreak (Option Team) :=
  TieBreak.choose (smallest teams)

/-- The teams that a member may be assigned to: those with room or, if there are none, all that are
not empty. -/
def assignable (roster : List Team) : List Team :=
  let withRoom := roster.filter Team.acceptsMember
  if withRoom.isEmpty then roster.filter fun t => !t.isEmpty else withRoom

/-- Add a member to the smallest team of a roster that may be chosen. -/
def assign (m : Member) (roster : List Team) : TieBreak (Except RuleError Intake) :=
  (pickSmallest (assignable roster)).map fun
    | some team => team.intake m
    | none => .error .noOpenTeam

/-- The other teams of a roster that have room. -/
def otherHomes (team : Team) (roster : List Team) : List Team :=
  roster.filter fun t => t.id != team.id && t.acceptsMember

/-- Move the only member of a shrunken team to a destination; without a destination the member is
stranded. -/
def rehome (shrunken : Team) (removed last : Member) : Option Team →
    Except RuleError Redistribution
  | none => .ok (.mergeFailure shrunken removed last shrunken.needsMonitoring)
  | some destination => do
    let after ← destination.absorb shrunken
    let composition := Composition.merge after.destination after.source after.moved
    return if shrunken.needsMonitoring then .needsMonitoringAndMerge composition removed
      else .merged composition removed

/-- Remove a member from a team and find a home for the last one left behind. -/
def redistribute (team : Team) (member : Ident) (roster : List Team) :
    TieBreak (Except RuleError Redistribution) :=
  match team.remove member with
  | .error e => .settled (.error e)
  | .ok (removed, shrunken) =>
    match shrunken.members with
    | [] => .settled (.ok (.emptied shrunken removed))
    | [last] => (pickSmallest (otherHomes shrunken roster)).map (rehome shrunken removed last)
    | _ =>
      .settled (.ok (if shrunken.needsMonitoring then .needsMonitoring shrunken removed
        else .normal shrunken removed))

end TeamRoster
