import TeamRoster.Member.Document
import TeamRoster.Notice.Transport

/-!
# Notifications as documents

The JSON form of notifications and of the log records that tell of them.
-/

namespace TeamRoster

/-- The JSON form of a notification. -/
def Notification.toJson (n : Notification) : Json :=
  .object [
    ("kind", .string n.kind.toText),
    ("team_id", n.team.toJson),
    ("member_id", n.member.toJson),
    ("subject", .string n.subject),
    ("body", .string n.body)]

/-- The JSON form of a log record. -/
def LogRecord.toJson (r : LogRecord) : Json :=
  .object [
    ("level", .string r.level),
    ("kind", .string r.kind),
    ("team_id", r.team.toJson),
    ("member_id", r.member.toJson),
    ("subject", .string r.subject),
    ("message", .string r.message)]

end TeamRoster
