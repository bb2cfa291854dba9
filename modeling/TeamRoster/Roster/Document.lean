import TeamRoster.Member.Document
import TeamRoster.Roster.Change

/-!
# Change sets as documents

The JSON form of change sets. Teams are shown by the ids of their members.
-/

namespace TeamRoster

/-- A team by the ids of its members. -/
def Json.ofOutline (id : Ident) (name : String) (members : List Ident) : Json :=
  .object [
    ("id", id.toJson),
    ("name", .string name),
    ("members", .array (members.map Ident.toJson))]

namespace Edit

/-- The word for a kind of write. -/
def word : Edit → String
  | createTeam _ => "create_team"
  | deleteTeam _ => "delete_team"
  | addMember _ _ => "add_member"
  | removeMember _ _ => "remove_member"
  | setStatus _ _ _ => "set_status"

/-- What a write is about. -/
def fields : Edit → List (String × Json)
  | createTeam t => [("team", Json.ofOutline t.id t.name.text t.memberIds)]
  | deleteTeam team => [("team_id", team.toJson)]
  | addMember team member => [("team_id", team.toJson), ("member_id", member.toJson)]
  | removeMember team member => [("team_id", team.toJson), ("member_id", member.toJson)]
  | setStatus member before after => [
      ("member_id", member.toJson),
      ("from", before.toJson),
      ("to", after.toJson)]

/-- The JSON form of a write. -/
def toJson (e : Edit) : Json :=
  .object (("type", .string e.word) :: e.fields)

end Edit

/-- The JSON form of a change set. -/
def ChangeSet.toJson (c : ChangeSet) : Json :=
  .object [
    ("expect", .array (c.expectations.map fun e => .object [
      ("id", e.1.toJson),
      ("members", .array (e.2.map Ident.toJson))])),
    ("changes", .array (c.edits.map Edit.toJson))]

end TeamRoster
