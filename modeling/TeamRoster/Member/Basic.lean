import TeamRoster.Instant.Basic
import TeamRoster.Member.Email
import TeamRoster.Member.Name

/-!
# Members

A member of the cohort. Members are told apart by their ids alone: `Member.same` ignores the rest.
A member gets its id and its time of registration from a `Birth`, which is drawn for every new
thing.
-/

namespace TeamRoster

/-- Take a text as the status of this name. -/
def Status.ofText (s : String) : Except RuleError Status :=
  match ofText? s with
  | some status => .ok status
  | none => .error (.unknownStatus s)

/-- What a new member or team is given: an id and the time of its creation. -/
structure Birth where
  id : Ident
  time : Instant
deriving DecidableEq

/-- A member of the cohort. -/
structure Member where
  id : Ident
  name : MemberName
  email : Email
  status : Status
  createdAt : Instant
deriving DecidableEq

namespace Member

/-- A new member. -/
def register (birth : Birth) (name : MemberName) (email : Email) (status : Status) : Member :=
  ⟨birth.id, name, email, status, birth.time⟩

/-- Whether two members are the same person: they have the same id. -/
def same (a b : Member) : Bool :=
  a.id == b.id

/-- Whether the member may join a team or stay in one. -/
def canJoin (m : Member) : Bool :=
  m.status == .active

/-- Change the status, if the change is allowed. -/
def transition (m : Member) (target : Status) : Except RuleError Member :=
  if m.status.canBecome target then .ok { m with status := target }
  else .error (.transitionRefused m.status target)

end Member

end TeamRoster
