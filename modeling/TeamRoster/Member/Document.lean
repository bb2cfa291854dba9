import TeamRoster.Instant.Stamp
import TeamRoster.Json.Decode
import TeamRoster.Member.Basic
import TeamRoster.Team.Name

/-!
# Members as documents

The JSON form of members and of the texts that make them up. A decoded text goes through the same
checks as one that is given directly.
-/

namespace TeamRoster

namespace MemberName

/-- A member name in JSON. -/
def ofReading (r : Reading) : Decoded MemberName := do
  Decoded.ofRule (ofText (← r.asText))

/-- The JSON form of a member name. -/
def toJson (n : MemberName) : Json :=
  .string n.text

end MemberName

namespace Email

/-- An e-mail address in JSON. -/
def ofReading (r : Reading) : Decoded Email := do
  Decoded.ofRule (ofText (← r.asText))

/-- The JSON form of an e-mail address. -/
def toJson (e : Email) : Json :=
  .string e.text

end Email

namespace TeamName

/-- A team name in JSON. -/
def ofReading (r : Reading) : Decoded TeamName := do
  Decoded.ofRule (ofText (← r.asText))

/-- The JSON form of a team name. -/
def toJson (n : TeamName) : Json :=
  .string n.text

end TeamName

/-- The JSON form of a status. -/
def Status.toJson (s : Status) : Json :=
  .string s.toText

/-- The JSON form of an id. -/
def Ident.toJson (i : Ident) : Json :=
  .string i.toText

namespace Instant

/-- An instant in JSON: a time stamp. -/
def ofReading (r : Reading) : Decoded Instant := do
  match Stamp.read? (← r.asText) with
  | some i => return i
  | none => throw .malformed

/-- The JSON form of an instant. -/
def toJson (i : Instant) : Json :=
  .string (Stamp.write i)

end Instant

namespace Member

/-- How the fields of a member are decoded. -/
def decoder : RecordDecoder Member where
  checks := [
    ("id", RecordDecoder.check Reading.asIdent),
    ("name", RecordDecoder.check MemberName.ofReading),
    ("email", RecordDecoder.check Email.ofReading),
    ("status", RecordDecoder.check Status.ofReading),
    ("created_at", RecordDecoder.check Instant.ofReading)]
  build fields := do
    let id ← RecordDecoder.required "id" Reading.asIdent fields
    let name ← RecordDecoder.required "name" MemberName.ofReading fields
    let email ← RecordDecoder.required "email" Email.ofReading fields
    let status ← RecordDecoder.required "status" Status.ofReading fields
    let createdAt ← RecordDecoder.required "created_at" Instant.ofReading fields
    return ⟨id, name, email, status, createdAt⟩

/-- A member in JSON. -/
def ofReading (r : Reading) : Decoded Member :=
  decoder.ofReading r

/-- The JSON form of a member. -/
def toJson (m : Member) : Json :=
  .object [
    ("id", m.id.toJson),
    ("name", m.name.toJson),
    ("email", m.email.toJson),
    ("status", m.status.toJson),
    ("created_at", m.createdAt.toJson)]

/-- Decode the text of a member. -/
def ofDocument (s : String) : Decoded Member :=
  Reading.decodeText ofReading s

/-- The text of a member. -/
def toDocument (m : Member) : String :=
  m.toJson.toText

end Member

end TeamRoster
