import TeamRoster.Composition.TieBreak
import TeamRoster.Dialogue
import TeamRoster.Notice.Event
import TeamRoster.Roster.Request

/-!
# What a use case asks for

A use case reads and writes a storage, draws births for new members and teams, has ties broken and
notifications delivered. It is a dialogue of such questions that ends in a value or a failure.
-/

namespace TeamRoster

/-- A question of a use case. -/
inductive Ask where
  | storage (request : StorageRequest)
  /-- The id and the time for something new. -/
  | birth
  /-- A choice among so many. -/
  | pick (count : Nat)
  /-- Tell mentors of an event. -/
  | deliver (event : Event)

/-- The answer to a question. -/
abbrev Ask.Answer : Ask → Type
  | storage request => request.Reply
  | birth => Birth
  | pick _ => Nat
  | deliver _ => Except DeliveryError Unit

/-- The dialogue that asks just this question. -/
def Ask.pose (q : Ask) : Dialogue Ask Ask.Answer q.Answer :=
  Dialogue.request q

/-- A dialogue that ends in a value or in the failure of a use case. -/
abbrev UseCase (α : Type) : Type :=
  ExceptT WorkflowError (Dialogue Ask Ask.Answer) α

namespace UseCase

variable {α : Type}

/-- Ask one question, and fail as its answer does. -/
def ofReply {ε : Type} (wrap : ε → WorkflowError)
    (d : Dialogue Ask Ask.Answer (Except ε α)) : UseCase α :=
  ExceptT.mk (d.bind fun reply => .done (reply.mapError wrap))

/-- Go on with the value, or fail with the broken rule. -/
def ofRule : Except RuleError α → UseCase α
  | .ok a => pure a
  | .error e => throw (.rule e)

/-- The member with this id. -/
def member (id : Ident) : UseCase Member :=
  ofReply .storage (Ask.pose (.storage (.member id)))

/-- Store a member. -/
def saveMember (m : Member) : UseCase Unit :=
  ofReply .storage (Ask.pose (.storage (.saveMember m)))

/-- The team with this id. -/
def team (id : Ident) : UseCase Team :=
  ofReply .storage (Ask.pose (.storage (.team id)))

/-- All teams. -/
def teams : UseCase (List Team) :=
  ofReply .storage (Ask.pose (.storage .teams))

/-- The team that a member is in. -/
def teamOf (member : Ident) : UseCase (Option Team) :=
  ofReply .storage (Ask.pose (.storage (.teamOf member)))

/-- Store a new team. -/
def createTeam (t : Team) : UseCase Unit :=
  ofReply .storage (Ask.pose (.storage (.createTeam t)))

/-- Make all writes of a change set, or none. -/
def commit (c : ChangeSet) : UseCase Unit :=
  ofReply .storage (Ask.pose (.storage (.commit c)))

/-- Draw a birth. -/
def birth : UseCase Birth :=
  ExceptT.lift (Ask.pose .birth)

/-- Have the tie broken, if there is one. -/
def settle : TieBreak α → UseCase α
  | .settled a => pure a
  | .among count next => ExceptT.lift (.ask (.pick count) fun answer => .done (next answer))

/-- Tell mentors of an event. -/
def deliver (e : Event) : UseCase Unit :=
  ofReply .delivery (Ask.pose (.deliver e))

/-- Tell of events, in order, until a delivery fails. -/
def announce : List Event → UseCase Unit
  | [] => pure ()
  | e :: es => do
    deliver e
    announce es

end UseCase

end TeamRoster
