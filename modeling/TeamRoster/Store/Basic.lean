import TeamRoster.Directory
import TeamRoster.Roster.Request

/-!
# The store in memory

Members and team records by id. A team record holds the ids of its members; the members themselves
are looked up when a team is read. `place` gives the teams their order: each team that was not there
gets the next place.
-/

namespace TeamRoster

/-- A stored team. -/
structure TeamRecord where
  name : TeamName
  memberIds : List Ident
  createdAt : Instant
  /-- Position in the order of first insertion. -/
  place : Nat
deriving DecidableEq

/-- Stored members and teams. -/
structure Store where
  members : Directory Member
  teams : Directory TeamRecord
  /-- The place that the next new team gets. -/
  nextPlace : Nat
deriving DecidableEq

namespace Store

/-- A store without members and teams. -/
def empty : Store :=
  ⟨.empty, .empty, 0⟩

/-- The member with this id. -/
def member (s : Store) (id : Ident) : Except StorageError Member :=
  match s.members.find? id with
  | some m => .ok m
  | none => .error (.notFound .member id)

/-- All members by the time of their registration. -/
def allMembers (s : Store) : List Member :=
  s.members.values.mergeSort fun a b => a.createdAt.ble b.createdAt

/-- A team with the members that its record names. -/
def assemble (s : Store) (id : Ident) (r : TeamRecord) : Except StorageError Team := do
  let members ← r.memberIds.mapM fun memberId =>
    match s.members.find? memberId with
    | some m => .ok m
    | none => .error (.corrupted
        ("team " ++ id.toText ++ " references unknown member " ++ memberId.toText))
  return ⟨id, r.name, members, r.createdAt⟩

/-- The team with this id. -/
def team (s : Store) (id : Ident) : Except StorageError Team :=
  match s.teams.find? id with
  | some r => s.assemble id r
  | none => .error (.notFound .team id)

/-- The team records with their ids, in order. -/
def orderedTeams (s : Store) : List (Ident × TeamRecord) :=
  s.teams.entries.mergeSort fun a b => decide (a.2.place ≤ b.2.place)

/-- All teams, in order. -/
def allTeams (s : Store) : Except StorageError (List Team) :=
  s.orderedTeams.mapM fun e => s.assemble e.1 e.2

/-- A team that has this member. -/
def teamOf (s : Store) (member : Ident) : Except StorageError (Option Team) :=
  match s.teams.entries.find? fun e => e.2.memberIds.contains member with
  | some e => (s.assemble e.1 e.2).map some
  | none => .ok none

/-- Store a member, in place of the one with the same id. -/
def saveMember (s : Store) (m : Member) : Store :=
  { s with members := s.members.insert m.id m }

/-- Set the status of a member. -/
def setStatus (s : Store) (id : Ident) (status : Status) : Except StorageError Store :=
  match s.members.find? id with
  | some m => .ok { s with members := s.members.insert id { m with status } }
  | none => .error (.notFound .member id)

end Store

end TeamRoster
