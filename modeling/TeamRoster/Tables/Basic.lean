import TeamRoster.Ident
import TeamRoster.Instant.Basic
import TeamRoster.Member.Status

/-!
# Tables

The three tables of the database: members, teams, and who is in which team at which position. The
texts in them are whatever was stored; whether they are names and addresses is checked by who reads
them. Positions are numbers of 32 bits, so that a team may run out of them.
-/

namespace TeamRoster

/-- A row of the members. -/
structure MemberRow where
  id : Ident
  name : String
  email : String
  status : Status
  createdAt : Instant
deriving DecidableEq

/-- A row of the teams. -/
structure TeamRow where
  id : Ident
  name : String
  createdAt : Instant
deriving DecidableEq

/-- A member of a team, at a position in it. -/
structure Membership where
  team : Ident
  member : Ident
  position : Int32
deriving DecidableEq

/-- The tables of the database. -/
structure Tables where
  members : List MemberRow
  teams : List TeamRow
  memberships : List Membership
deriving DecidableEq

namespace Tables

/-- Tables without rows. -/
def empty : Tables :=
  ⟨[], [], []⟩

/-- The row of a member. -/
def member? (t : Tables) (id : Ident) : Option MemberRow :=
  t.members.find? fun r => r.id == id

/-- The row of a team. -/
def team? (t : Tables) (id : Ident) : Option TeamRow :=
  t.teams.find? fun r => r.id == id

/-- The members by the time of their registration. -/
def orderedMembers (t : Tables) : List MemberRow :=
  t.members.mergeSort fun a b => a.createdAt.ble b.createdAt

/-- The teams by the time of their creation, and by id where it is the same. -/
def orderedTeams (t : Tables) : List TeamRow :=
  t.teams.mergeSort fun a b =>
    if a.createdAt = b.createdAt then a.id.ble b.id else a.createdAt.ble b.createdAt

/-- The memberships of a team by position. -/
def membershipsOf (t : Tables) (team : Ident) : List Membership :=
  (t.memberships.filter fun m => m.team == team).mergeSort fun a b =>
    decide (a.position ≤ b.position)

/-- All memberships by team, and by position within a team. -/
def orderedMemberships (t : Tables) : List Membership :=
  t.memberships.mergeSort fun a b =>
    if a.team = b.team then decide (a.position ≤ b.position) else a.team.ble b.team

/-- The row of this membership. -/
def membership? (t : Tables) (team member : Ident) : Option Membership :=
  t.memberships.find? fun m => m.team == team && m.member == member

/-- The position behind the last one of a team: zero in a team without members, and none behind the
greatest position there is. -/
def nextPosition? (t : Tables) (team : Ident) : Option Int32 :=
  match ((t.memberships.filter fun m => m.team == team).map Membership.position).max? with
  | some last => if last = Int32.maxValue then none else some (last + 1)
  | none => some 0

end Tables

end TeamRoster
