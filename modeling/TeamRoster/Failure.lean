import TeamRoster.Ident
import TeamRoster.Member.Status

/-!
# Failures

What can go wrong, as causes: a broken rule (`RuleError`), a storage that refuses or fails
(`StorageError`), a notification that is not delivered (`DeliveryError`), and any of the three as
the failure of a use case (`WorkflowError`). The wording of each cause is its `message`.
-/

namespace TeamRoster

/-- A rule about members, teams or their texts that a request breaks. -/
inductive RuleError where
  /-- A member name is empty or too long. -/
  | badMemberName (reason : String)
  /-- A text is not an e-mail address. -/
  | badEmail (text : String)
  /-- A team name is empty, too long or has characters other than letters. -/
  | badTeamName (reason : String)
  /-- A text names no status. -/
  | unknownStatus (text : String)
  /-- The status of a member cannot change like this. -/
  | transitionRefused (before after : Status)
  /-- Only active members may join. -/
  | notActive (member : Ident)
  /-- The member is in the team already. -/
  | alreadyListed (member : Ident)
  /-- The member is in some other team. -/
  | assignedElsewhere (member team : Ident)
  /-- The member is not in this team. -/
  | notListed (member team : Ident)
  /-- A team cannot be formed with this many members. -/
  | sizeOutOfBounds (size : Nat)
  /-- There is no team that can take a member. -/
  | noOpenTeam
deriving DecidableEq

namespace RuleError

/-- The wording of a broken rule. -/
def message : RuleError → String
  | badMemberName reason => "Invalid member name: " ++ reason
  | badEmail text => "Invalid email: " ++ text
  | badTeamName reason => "Invalid team name: " ++ reason
  | unknownStatus text => "Invalid enrollment status: " ++ text
  | transitionRefused before after =>
    "Invalid state transition from " ++ before.toText ++ " to " ++ after.toText
  | notActive member => "Member " ++ member.toText ++ " is not active and cannot join a team"
  | alreadyListed member => "Member " ++ member.toText ++ " is already in the team"
  | assignedElsewhere member team =>
    "Member " ++ member.toText ++ " already belongs to team " ++ team.toText
  | notListed member team => "Member " ++ member.toText ++ " is not in team " ++ team.toText
  | sizeOutOfBounds size =>
    "Invalid team size: " ++ toString size ++ " (must be 2-4 members)"
  | noOpenTeam => "No eligible team available"

/-- Whether a text was rejected, rather than a rule about stored members and teams. -/
def isValidation : RuleError → Bool
  | badMemberName _ | badEmail _ | badTeamName _ | unknownStatus _ => true
  | _ => false

end RuleError

/-- The kinds of things that a storage keeps. -/
inductive Entity where
  | team
  | member
  | membership
deriving DecidableEq

/-- The written name of a kind of thing. -/
def Entity.toText : Entity → String
  | team => "Team"
  | member => "Member"
  | membership => "Membership"

/-- Why a storage did not carry out a request. -/
inductive StorageError where
  /-- The thing is not stored. -/
  | notFound (entity : Entity) (id : Ident)
  /-- Another team has this name. -/
  | nameTaken (name : String)
  /-- What is stored is not what the request was planned against. -/
  | conflict (entity : Entity) (id : Ident)
  /-- What is stored breaks a rule. -/
  | corrupted (reason : String)
  /-- The database failed. -/
  | database (reason : String)
deriving DecidableEq

namespace StorageError

/-- The wording of a storage failure. -/
def message : StorageError → String
  | notFound entity id => entity.toText ++ " not found: " ++ id.toText
  | nameTaken name => "Team name already taken: " ++ name
  | conflict entity id => entity.toText ++ " " ++ id.toText ++ " was changed concurrently"
  | corrupted reason => "Stored data is invalid: " ++ reason
  | database reason => "Database error: " ++ reason

/-- A stored text that breaks a rule makes what is stored invalid. -/
def ofRule (e : RuleError) : StorageError :=
  corrupted e.message

end StorageError

/-- A notification that was not delivered, and why. -/
structure DeliveryError where
  reason : String
deriving DecidableEq

/-- The wording of a failed delivery. -/
def DeliveryError.message (e : DeliveryError) : String :=
  "Notification delivery failed: " ++ e.reason

/-- The failure of a use case. After `delivery` the changes are saved, after the others nothing
was. -/
inductive WorkflowError where
  | rule (cause : RuleError)
  | storage (cause : StorageError)
  | delivery (cause : DeliveryError)
deriving DecidableEq

namespace WorkflowError

/-- The wording of a failed use case. -/
def message : WorkflowError → String
  | rule cause => cause.message
  | storage cause => cause.message
  | delivery cause => "Changes saved but notification failed: " ++ cause.message

/-- Whether only the notification was lost. -/
def isDelivery : WorkflowError → Bool
  | delivery _ => true
  | _ => false

end WorkflowError

end TeamRoster
