import TeamRoster.Roster.Change

/-!
# Requests to a storage

Everything that a storage of members and teams can be asked, with the type of each reply. A
`Storage` answers requests and changes its state by doing so.
-/

namespace TeamRoster

/-- A request to a storage. -/
inductive StorageRequest where
  | member (id : Ident)
  /-- All members, by the time of their registration. -/
  | members
  | saveMember (member : Member)
  | setStatus (member : Ident) (status : Status)
  | team (id : Ident)
  /-- All teams, in the order in which they were first stored. -/
  | teams
  /-- The team that a member is in. -/
  | teamOf (member : Ident)
  | createTeam (team : Team)
  | deleteTeam (team : Ident)
  | addMember (team member : Ident)
  | removeMember (team member : Ident)
  | commit (changes : ChangeSet)

namespace StorageRequest

/-- The reply to a request. -/
abbrev Reply : StorageRequest → Type
  | member _ => Except StorageError Member
  | members => Except StorageError (List Member)
  | team _ => Except StorageError Team
  | teams => Except StorageError (List Team)
  | teamOf _ => Except StorageError (Option Team)
  | _ => Except StorageError Unit

end StorageRequest

/-- A storage with states in `σ`: how it replies to a request, and its state after that. -/
abbrev Storage (σ : Type) : Type :=
  (q : StorageRequest) → σ → q.Reply × σ

end TeamRoster
