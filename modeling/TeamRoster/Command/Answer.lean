import TeamRoster.Failure
import TeamRoster.Member.Document
import TeamRoster.Workflow.Plan

/-!
# Answers

The answer to a command as one line of JSON: the member or team that came of it, a change of status,
or a failure. The field `result` tells which; it is put in front of the fields of what is shown, so that
nothing but an object can be shown. For an answer without a JSON form there is a line of its own.
-/

namespace TeamRoster

/-- A member as answers show it. -/
structure MemberView where
  id : Ident
  name : String
  email : String
  status : Status
deriving DecidableEq

/-- A team as answers show it. -/
structure TeamView where
  id : Ident
  name : String
  members : List MemberView
deriving DecidableEq

/-- The answer to a command. -/
inductive Answer where
  | member (view : MemberView)
  | team (view : TeamView)
  | statusChanged (member : Ident) (before after : Status) (team : Option TeamView)
  /-- A failure; `notificationFailure` tells that the changes were saved all the same. -/
  | failure (message : String) (notificationFailure : Bool)
deriving DecidableEq

namespace MemberView

/-- What answers show of a member. -/
def ofMember (m : Member) : MemberView :=
  ⟨m.id, m.name.text, m.email.text, m.status⟩

/-- The fields of a member in JSON. -/
def fields (v : MemberView) : List (String × Json) := [
  ("id", v.id.toJson),
  ("name", .string v.name),
  ("email", .string v.email),
  ("status", v.status.toJson)]

/-- A member in JSON. -/
def toJson (v : MemberView) : Json :=
  .object v.fields

end MemberView

namespace TeamView

/-- What answers show of a team. -/
def ofTeam (t : Team) : TeamView :=
  ⟨t.id, t.name.text, t.members.map MemberView.ofMember⟩

/-- The fields of a team in JSON. -/
def fields (v : TeamView) : List (String × Json) := [
  ("id", v.id.toJson),
  ("name", .string v.name),
  ("members", .array (v.members.map MemberView.toJson))]

/-- A team in JSON. -/
def toJson (v : TeamView) : Json :=
  .object v.fields

end TeamView

/-- Why an answer has no JSON form. -/
inductive EncodeError where
  /-- What is shown is no object, so that it cannot be told what it is. -/
  | untagged (result : String)
deriving DecidableEq

namespace Answer

/-- The answer that tells of a member. -/
def ofMember (m : Member) : Answer :=
  .member (.ofMember m)

/-- The answer that tells of a team. -/
def ofTeam (t : Team) : Answer :=
  .team (.ofTeam t)

/-- The answer that tells of a change of status. -/
def ofStatusChange (c : Plan.StatusChange) : Answer :=
  .statusChanged c.member c.before c.after (c.team.map TeamView.ofTeam)

/-- The answer that tells of a failed use case. -/
def ofFailure (e : WorkflowError) : Answer :=
  .failure e.message e.isDelivery

/-- The JSON form of what is shown, told apart by the field `result`. -/
def tagged (result : String) : Json → Except EncodeError Json
  | .object fields => .ok (.object (("result", .string result) :: fields))
  | _ => .error (.untagged result)

/-- The JSON form of an answer. -/
def encode : Answer → Except EncodeError Json
  | member view => tagged "member" view.toJson
  | team view => tagged "team" view.toJson
  | statusChanged id before after view =>
    tagged "status_changed" (.object [
      ("member_id", id.toJson),
      ("previous", before.toJson),
      ("current", after.toJson),
      ("team", match view with
        | some shown => shown.toJson
        | none => .null)])
  | failure message notificationFailure =>
    tagged "error" (.object [
      ("message", .string message),
      ("notification_failure", .bool notificationFailure)])

/-- How the line begins that is kept for an answer without a JSON form. -/
def apology : String :=
  "\x7b\"result\":\"error\",\"message\":\"Failed to encode response: "

/-- The line that is kept for an answer without a JSON form, with the reason as it is. -/
def unencodable (reason : String) : String :=
  apology ++ reason ++ "\",\"notification_failure\":false\x7d"

/-- The line of an answer, in the words given for a failure to encode it. -/
def toText (explain : EncodeError → String) (a : Answer) : String :=
  match a.encode with
  | .ok j => j.toText
  | .error e => unencodable (explain e)

end Answer

end TeamRoster
