import TeamRoster.Team.Basic

/-!
# Compositions

What became of the teams when a member was added or removed. A `Composition` says which teams there
are afterwards; a `Redistribution` adds who was removed and what that called for.
-/

namespace TeamRoster

/-- What became of the teams that an addition or a removal touched. -/
inductive Composition where
  /-- One team, with its members changed. -/
  | unchanged (team : Team)
  /-- A team that grew too large, in two. -/
  | split (kept new : Team) (moved : List Member)
  /-- A team that took in the members of another; the other is left empty and has to go. -/
  | merge (destination dissolved : Team) (moved : List Member)
deriving DecidableEq

namespace Composition

/-- The team to go on with: what stayed after a split, the destination of a merge. -/
def team : Composition → Team
  | unchanged team => team
  | split kept _ _ => kept
  | merge destination _ _ => destination

/-- The team that split off. -/
def new? : Composition → Option Team
  | split _ new _ => some new
  | _ => none

/-- The team that was merged into another. -/
def dissolved? : Composition → Option Team
  | merge _ dissolved _ => some dissolved
  | _ => none

/-- The members who changed teams. -/
def moved : Composition → List Member
  | unchanged _ => []
  | split _ _ moved => moved
  | merge _ _ moved => moved

/-- Whether a team split. -/
def isSplit : Composition → Bool
  | split _ _ _ => true
  | _ => false

end Composition

/-- What followed from a removal. -/
inductive Outcome where
  /-- The team kept its shape. -/
  | unchanged
  /-- The last member moved into another team. -/
  | merged
  /-- The last member had nowhere to go. -/
  | stranded (member : Member)
  /-- Nobody is left, and the team has to go. -/
  | emptied
deriving DecidableEq

/-- The result of removing a member from a team. -/
structure Redistribution where
  composition : Composition
  removed : Member
  /-- The shrunken team had two members or fewer. -/
  monitoring : Bool
  outcome : Outcome
deriving DecidableEq

namespace Redistribution

/-- The team is large enough still. -/
def normal (team : Team) (removed : Member) : Redistribution :=
  ⟨.unchanged team, removed, false, .unchanged⟩

/-- The team kept its shape but is small. -/
def needsMonitoring (team : Team) (removed : Member) : Redistribution :=
  { normal team removed with monitoring := true }

/-- The last member moved into another team. -/
def merged (composition : Composition) (removed : Member) : Redistribution :=
  ⟨composition, removed, false, .merged⟩

/-- The last member moved into another team, and the team was small. -/
def needsMonitoringAndMerge (composition : Composition) (removed : Member) : Redistribution :=
  { merged composition removed with monitoring := true }

/-- No team could take the last member. -/
def mergeFailure (team : Team) (removed stranded : Member) (monitoring : Bool) : Redistribution :=
  ⟨.unchanged team, removed, monitoring, .stranded stranded⟩

/-- The team lost its last member. -/
def emptied (team : Team) (removed : Member) : Redistribution :=
  { normal team removed with outcome := .emptied }

/-- The last member, when no team could take them. -/
def stranded? (r : Redistribution) : Option Member :=
  match r.outcome with
  | .stranded m => some m
  | _ => none

/-- Whether the last member moved into another team. -/
def isMerged (r : Redistribution) : Bool :=
  r.outcome == .merged

/-- Whether nobody is left. -/
def isEmptied (r : Redistribution) : Bool :=
  r.outcome == .emptied

end Redistribution

end TeamRoster
