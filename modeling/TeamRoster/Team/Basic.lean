import TeamRoster.Member.Basic
import TeamRoster.Team.Name

/-!
# Teams

A team is a named, ordered list of members; the order decides who moves when the team splits. A team
is formed from a `Draft`, a name with 2 to 4 active members who are all different; teams that were
stored may be of any size. Every operation gives the changed team or the broken rule, and leaves the
team it was given alone.
-/

namespace TeamRoster

/-- A named, ordered list of members. -/
structure Team where
  id : Ident
  name : TeamName
  members : List Member
  createdAt : Instant
deriving DecidableEq

namespace Team

/-- The number of members. -/
def size (t : Team) : Nat :=
  t.members.length

/-- The ids of the members, in order. -/
def memberIds (t : Team) : List Ident :=
  t.members.map Member.id

/-- Whether a member with this id is in the team. -/
def contains (t : Team) (id : Ident) : Bool :=
  t.members.any fun m => m.id == id

/-- A team without members, which waits to be deleted. -/
def isEmpty (t : Team) : Bool :=
  t.members.isEmpty

/-- A team of five or more has to split. -/
def needsSplitting (t : Team) : Bool :=
  decide (5 ≤ t.size)

/-- A mentor should keep an eye on a team of two or fewer. -/
def needsMonitoring (t : Team) : Bool :=
  decide (t.size ≤ 2)

/-- The only member of a team has to move elsewhere. -/
def needsRedistribution (t : Team) : Bool :=
  t.size == 1

/-- A team that is not empty and has fewer than four members can take one more. -/
def acceptsMember (t : Team) : Bool :=
  !t.isEmpty && decide (t.size < 4)

/-- A first member in a list who is not active or was met before, as the rule that this breaks. -/
def firstProblem? (seen : List Ident) : List Member → Option RuleError
  | [] => none
  | m :: ms =>
    if !m.canJoin then some (.notActive m.id)
    else if seen.contains m.id then some (.alreadyListed m.id)
    else firstProblem? (m.id :: seen) ms

/-- What a team is formed from: a name and 2 to 4 active members, all different. -/
structure Draft where
  name : TeamName
  members : List Member
  two_le : 2 ≤ members.length
  le_four : members.length ≤ 4
  joinable : firstProblem? [] members = none

/-- Take a name and members as a draft. The size is checked before the members. -/
def Draft.ofMembers (name : TeamName) (members : List Member) : Except RuleError Draft :=
  if hsize : 2 ≤ members.length ∧ members.length ≤ 4 then
    match h : firstProblem? [] members with
    | none => .ok ⟨name, members, hsize.1, hsize.2, h⟩
    | some problem => .error problem
  else .error (.sizeOutOfBounds members.length)

/-- The team formed from a draft. -/
def Draft.form (d : Draft) (birth : Birth) : Team :=
  ⟨birth.id, d.name, d.members, birth.time⟩

/-- Whether the rules let a member join: the member is active and not in the team yet. -/
def checkJoin (t : Team) (m : Member) : Except RuleError Unit :=
  if !m.canJoin then .error (.notActive m.id)
  else if t.contains m.id then .error (.alreadyListed m.id)
  else .ok ()

/-- Add a member at the end. -/
def add (t : Team) (m : Member) : Except RuleError Team := do
  t.checkJoin m
  return { t with members := t.members ++ [m] }

/-- Take out the first member with this id; the others keep their order. -/
def remove (t : Team) (id : Ident) : Except RuleError (Member × Team) :=
  match t.members.find? (fun m => m.id == id) with
  | some m => .ok (m, { t with members := t.members.eraseP (fun m => m.id == id) })
  | none => .error (.notListed id t.id)

/-- Split a team that has to: the first half stays, rounded down, and the others are the draft of a
new team. -/
def split (t : Team) : Except RuleError (Option (Team × Draft)) :=
  if t.needsSplitting then do
    let half := t.size / 2
    let name ← t.name.split
    let draft ← Draft.ofMembers name (t.members.drop half)
    return some ({ t with members := t.members.take half }, draft)
  else .ok none

/-- Two teams after the members of one moved into the other. -/
structure Absorbed where
  destination : Team
  source : Team
  moved : List Member
deriving DecidableEq

/-- Move every member of a team into another one, all or none. -/
def absorb (destination source : Team) : Except RuleError Absorbed := do
  source.members.forM destination.checkJoin
  return {
    destination := { destination with members := destination.members ++ source.members }
    source := { source with members := [] }
    moved := source.members }

end Team

end TeamRoster
