import TeamRoster.Json.Decode

/-!
# Commands

A request to the roster as one line of JSON. The field `command` names the request; it may stand
anywhere among the fields, or first in an array. It is looked at as it is met, all other fields are
kept until the line was read and are decoded after that.
-/

namespace TeamRoster

/-- A request to the roster. Names and addresses are plain texts at this stage. -/
inductive Command where
  | registerMember (name email : String) (status : Status)
  | createTeam (name : String) (members : List Ident)
  | addMember (team member : Ident)
  | removeMember (team member : Ident)
  | changeStatus (member : Ident) (status : Status)
  | reassignMember (member : Ident)
deriving DecidableEq

namespace Command

/-- The names of the requests. -/
inductive Kind where
  | registerMember
  | createTeam
  | addMember
  | removeMember
  | changeStatus
  | reassignMember
deriving DecidableEq

namespace Kind

/-- The requests by their written names. -/
def names : List (String × Kind) := [
  ("register_member", registerMember),
  ("create_team", createTeam),
  ("add_member", addMember),
  ("remove_member", removeMember),
  ("change_status", changeStatus),
  ("reassign_member", reassignMember)]

/-- The request that a value names. -/
def ofReading (r : Reading) : Decoded Kind := do
  Reading.named names (← r.asText)

/-- The check of a list of ids. -/
def idents (r : Reading) : Decoded (List Ident) :=
  r.asList Reading.asIdent

/-- How the fields of a request for a team and a member are decoded. -/
def membership (make : Ident → Ident → Command) : RecordDecoder Command where
  checks := [
    ("team_id", RecordDecoder.check Reading.asIdent),
    ("member_id", RecordDecoder.check Reading.asIdent)]
  build fields := do
    let team ← RecordDecoder.required "team_id" Reading.asIdent fields
    let member ← RecordDecoder.required "member_id" Reading.asIdent fields
    return make team member

/-- How the fields of each request are decoded. A new member is active unless the request says
otherwise. -/
def decoder : Kind → RecordDecoder Command
  | registerMember => {
      checks := [
        ("name", RecordDecoder.check Reading.asText),
        ("email", RecordDecoder.check Reading.asText),
        ("status", RecordDecoder.check Status.ofHeld)]
      build := fun fields => do
        let name ← RecordDecoder.required "name" Reading.asText fields
        let email ← RecordDecoder.required "email" Reading.asText fields
        let status ← RecordDecoder.optional "status" Status.ofHeld .active fields
        return .registerMember name email status }
  | createTeam => {
      checks := [
        ("name", RecordDecoder.check Reading.asText),
        ("member_ids", RecordDecoder.check idents)]
      build := fun fields => do
        let name ← RecordDecoder.required "name" Reading.asText fields
        let members ← RecordDecoder.required "member_ids" idents fields
        return .createTeam name members }
  | addMember => membership .addMember
  | removeMember => membership .removeMember
  | changeStatus => {
      checks := [
        ("member_id", RecordDecoder.check Reading.asIdent),
        ("status", RecordDecoder.check Status.ofHeld)]
      build := fun fields => do
        let member ← RecordDecoder.required "member_id" Reading.asIdent fields
        let status ← RecordDecoder.required "status" Status.ofHeld fields
        return .changeStatus member status }
  | reassignMember => {
      checks := [("member_id", RecordDecoder.check Reading.asIdent)]
      build := fun fields => do
        let member ← RecordDecoder.required "member_id" Reading.asIdent fields
        return .reassignMember member }

end Kind

/-- How deep the values inside a command may be nested; the command itself is one more level. -/
def valueDepth : Nat :=
  126

/-- Go through the fields of a line: find the name of the request and keep the others. -/
def sift (kind : Option Kind) (kept : List (Option String × Reading)) :
    List (Option String × Reading) → Decoded (Option Kind × List (Option String × Reading))
  | [] => .ok (kind, kept.reverse)
  | (none, _) :: _ => .error .malformed
  | (some key, r) :: more =>
    if key = "command" then
      if kind.isSome then .error (.duplicateField "command")
      else
        match Kind.ofReading r with
        | .ok kind => sift (some kind) kept more
        | .error failure => .error failure
    else if r.isHeld valueDepth then sift kind ((some key, r) :: kept) more
    else .error .malformed

/-- The command of a reading. -/
def ofReading : Reading → Decoded Command
  | .object fields closed => do
    let (kind, kept) ← sift none [] fields
    if !closed then throw .malformed
    match kind with
    | none => throw (.missingField "command")
    | some kind => kind.decoder.ofFields kept true
  | .array [] true => .error (.missingField "command")
  | .array (first :: rest) closed => do
    let kind ← Kind.ofReading first
    if Reading.itemsHeld valueDepth rest && closed then kind.decoder.ofItems rest true
    else throw .malformed
  | _ => .error .malformed

/-- Decode a line. -/
def ofText (s : String) : Decoded Command :=
  Reading.decodeText ofReading s

end Command

end TeamRoster
