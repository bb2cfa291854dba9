import TeamRoster.Member.Document
import TeamRoster.Tables.Statement

/-!
# Statements as documents

The JSON form of the statements that a connection was sent: the name, then the parameters. Times are
left out.
-/

namespace TeamRoster

namespace Statement

/-- The parameters of a statement, but for times. -/
def parameters : Statement → List Json
  | begin | commit | memberList | teamList | membershipList => []
  | memberGet id | teamGet id | teamDelete id | teamLock id => [id.toJson]
  | memberSave row => [row.id.toJson, .string row.name, .string row.email, row.status.toJson]
  | memberUpdateStatus id status => [id.toJson, status.toJson]
  | teamMembers team | teamClear team | memberIds team => [team.toJson]
  | teamOfMember member => [member.toJson]
  | teamInsert row => [row.id.toJson, .string row.name]
  | membershipInsert row => [row.team.toJson, row.member.toJson, .ofInt row.position.toInt]
  | membershipAppend team member | membershipDelete team member => [team.toJson, member.toJson]
  | setStatus member before after => [member.toJson, before.toJson, after.toJson]

/-- The JSON form of a statement. -/
def toJson (s : Statement) : Json :=
  .array (.string s.label :: s.parameters)

end Statement

end TeamRoster
