import TeamRoster.Roster.Request
import TeamRoster.Tables.Connection

/-!
# The storage in tables

Requests to a storage as dialogues with the database. What is read from the tables goes through the
checks of names and addresses again; a text that fails them makes the stored data invalid, and the row
of a member or a team is read as the member or the team (`MemberRow.toMember_ofMember`,
`TeamRow.toTeam_ofTeam`). A request that fails inside a transaction leaves the tables as they were.
-/

namespace TeamRoster

/-- A dialogue with the database that ends in a value or in a failure of the storage. -/
abbrev Query (α : Type) : Type :=
  ExceptT StorageError (Dialogue Call Call.Answer) α

namespace Query

variable {α : Type}

/-- The failure of a storage that a failure of the database is, with what was being done. -/
def failure (context : String) (e : DatabaseFailure) : StorageError :=
  .database (context ++ ": " ++ e.message)

/-- Make a call; its failure is explained by a function. -/
def callWith (explain : DatabaseFailure → StorageError)
    (d : Dialogue Call Call.Answer (Except DatabaseFailure α)) : Query α :=
  ExceptT.mk (d.bind fun reply => .done (reply.mapError explain))

/-- The dialogue that sends just this statement. -/
def send (s : Statement) : Dialogue Call Call.Answer (Except DatabaseFailure s.Result) :=
  Dialogue.request (Call.run s)

/-- Send a statement; the context says what for. -/
def statement (context : String) (s : Statement) : Query s.Result :=
  callWith (failure context) (send s)

/-- Make sure that there is a connection. -/
def acquire : Query Unit :=
  callWith (failure "Failed to acquire connection") (Dialogue.request Call.acquire)

/-- Go on with a value, or fail. -/
def ofExcept : Except StorageError α → Query α
  | .ok a => pure a
  | .error e => throw e

end Query

namespace MemberRow

/-- The member of a row. The name is checked before the address. -/
def toMember (r : MemberRow) : Except StorageError Member := do
  let name ← (MemberName.ofText r.name).mapError .ofRule
  let email ← (Email.ofText r.email).mapError .ofRule
  return ⟨r.id, name, email, r.status, r.createdAt⟩

/-- The row of a member. -/
def ofMember (m : Member) : MemberRow :=
  ⟨m.id, m.name.text, m.email.text, m.status, m.createdAt⟩

/-- A row with the texts of a name and of an address is read with just these. -/
theorem toMember_eq {r : MemberRow} {name : MemberName} {email : Email} (hname : r.name = name.text)
    (hemail : r.email = email.text) :
    r.toMember = .ok ⟨r.id, name, email, r.status, r.createdAt⟩ := by
  rw [toMember, hname, hemail, MemberName.ofText_text, Email.ofText_text]
  rfl

/-- The row of a member is read as the member. -/
@[simp] theorem toMember_ofMember (m : Member) : (ofMember m).toMember = .ok m :=
  toMember_eq rfl rfl

end MemberRow

namespace TeamRow

/-- The team of a row, with its members. -/
def toTeam (r : TeamRow) (members : List Member) : Except StorageError Team := do
  let name ← (TeamName.ofText r.name).mapError .ofRule
  return ⟨r.id, name, members, r.createdAt⟩

/-- The row of a team. -/
def ofTeam (t : Team) : TeamRow :=
  ⟨t.id, t.name.text, t.createdAt⟩

/-- A row with the text of a team name is read with just this one. -/
theorem toTeam_eq {r : TeamRow} {name : TeamName} (hname : r.name = name.text)
    (members : List Member) : r.toTeam members = .ok ⟨r.id, name, members, r.createdAt⟩ := by
  rw [toTeam, hname, TeamName.ofText_text]
  rfl

/-- The row of a team is read as the team. -/
@[simp] theorem toTeam_ofTeam (t : Team) : (ofTeam t).toTeam t.members = .ok t :=
  toTeam_eq rfl t.members

end TeamRow

namespace Query

/-- The member with this id. -/
def member (id : Ident) : Query Member := do
  match ← statement "Failed to find member by id" (.memberGet id) with
  | some row => ofExcept row.toMember
  | none => throw (.notFound .member id)

/-- All members. -/
def members : Query (List Member) := do
  let rows ← statement "Failed to list members" .memberList
  ofExcept (rows.mapM MemberRow.toMember)

/-- Store a member. -/
def saveMember (m : Member) : Query Unit :=
  statement "Failed to save member" (.memberSave (.ofMember m))

/-- Set the status of a member. -/
def setStatus (id : Ident) (status : Status) : Query Unit := do
  let changed ← statement "Failed to update member status" (.memberUpdateStatus id status)
  if changed = 0 then throw (.notFound .member id)

/-- The team with this id. -/
def team (id : Ident) : Query Team := do
  match ← statement "Failed to find team by id" (.teamGet id) with
  | some row =>
    let rows ← statement "Failed to load team members" (.teamMembers id)
    let members ← ofExcept (rows.mapM MemberRow.toMember)
    ofExcept (row.toTeam members)
  | none => throw (.notFound .team id)

/-- All teams. The members of all teams are checked before the names of the teams. -/
def teams : Query (List Team) := do
  let rows ← statement "Failed to list teams" .teamList
  let memberships ← statement "Failed to list team members" .membershipList
  let members ← ofExcept (memberships.mapM fun e => e.2.toMember.map fun m => (e.1, m))
  ofExcept (rows.mapM fun row =>
    row.toTeam ((members.filter fun e => e.1 == row.id).map Prod.snd))

/-- The team that a member is in. -/
def teamOf (id : Ident) : Query (Option Team) := do
  match ← statement "Failed to find team by member" (.teamOfMember id) with
  | some found => return some (← team found)
  | none => return none

/-- What a failed insertion of a team means. -/
def explainCreate (t : Team) (e : DatabaseFailure) : StorageError :=
  match e with
  | .server cause =>
    if cause.code = ServerError.uniqueCode ∧ cause.constraint = some ServerError.teamNameKey then
      .nameTaken t.name.text
    else failure "Failed to create team" e
  | .closed => failure "Failed to create team" e

/-- Insert the members of a team at the positions from this one on. A number that is too large for a
position loses its upper bits. -/
def insertMembers (t : Team) : Nat → List Member → Query Unit
  | _, [] => pure ()
  | position, m :: ms => do
    callWith (explainCreate t) (send (.membershipInsert ⟨t.id, m.id, .ofNat position⟩))
    insertMembers t (position + 1) ms

/-- Insert a team and its members. -/
def insertTeam (t : Team) : Query Unit := do
  callWith (explainCreate t) (send (.teamInsert (.ofTeam t)))
  statement "Failed to reset team members" (.teamClear t.id)
  insertMembers t 0 t.members

/-- Delete a team. -/
def deleteTeam (id : Ident) : Query Unit := do
  let deleted ← statement "Failed to delete team" (.teamDelete id)
  if deleted = 0 then throw (.notFound .team id)

/-- What a failed addition of a member to a team means. -/
def explainAppend (team member : Ident) (e : DatabaseFailure) : StorageError :=
  match e with
  | .server cause =>
    if cause.code = ServerError.foreignKeyCode then
      if cause.constraint = some ServerError.memberReference then .notFound .member member
      else .notFound .team team
    else failure "Failed to add team member" e
  | .closed => failure "Failed to add team member" e

/-- Add a member to a team. -/
def appendMember (team member : Ident) : Query Unit :=
  callWith (explainAppend team member) (send (.membershipAppend team member))

/-- Remove a member from a team. -/
def removeMember (team member : Ident) : Query Unit := do
  let deleted ← statement "Failed to remove team member" (.membershipDelete team member)
  if deleted = 0 then throw (.notFound .membership member)

/-- Lock a team and check that it has the members expected of it. -/
def checkExpectation (e : Ident × List Ident) : Query Unit := do
  match ← statement "Failed to lock team" (.teamLock e.1) with
  | some _ =>
    let ids ← statement "Failed to read team members" (.memberIds e.1)
    if ids ≠ e.2 then throw (.conflict .team e.1)
  | none => throw (.conflict .team e.1)

/-- Check expectations in order. -/
def checkExpectations : List (Ident × List Ident) → Query Unit
  | [] => pure ()
  | e :: es => do
    checkExpectation e
    checkExpectations es

/-- Make one write. -/
def edit : Edit → Query Unit
  | .createTeam t => insertTeam t
  | .deleteTeam team => deleteTeam team
  | .addMember team member => appendMember team member
  | .removeMember team member => removeMember team member
  | .setStatus member before after => do
    let changed ← statement "Failed to update member status" (.setStatus member before after)
    if changed = 0 then throw (.conflict .member member)

/-- Make writes in order. -/
def edits : List Edit → Query Unit
  | [] => pure ()
  | e :: es => do
    edit e
    edits es

/-- Do something in a transaction. -/
def transaction (commitContext : String) (body : Query Unit) : Query Unit := do
  statement "Failed to begin transaction" .begin
  body
  statement commitContext .commit

/-- Store a team. -/
def createTeam (t : Team) : Query Unit :=
  transaction "Failed to commit team" (insertTeam t)

/-- The expectations in the order in which teams are locked, so that commits that touch the same
teams do not wait for each other. -/
def lockOrder (expectations : List (Ident × List Ident)) : List (Ident × List Ident) :=
  expectations.mergeSort fun a b => a.1.ble b.1

/-- Make all writes of a change set, or none. -/
def commit (c : ChangeSet) : Query Unit :=
  transaction "Failed to commit roster changes" do
    checkExpectations (lockOrder c.expectations)
    edits c.edits

/-- The dialogue for each request. -/
def ofRequest : (q : StorageRequest) → Dialogue Call Call.Answer q.Reply
  | .member id => (member id).run
  | .members => members.run
  | .saveMember m => (saveMember m).run
  | .setStatus id status => (setStatus id status).run
  | .team id => (team id).run
  | .teams => teams.run
  | .teamOf member => (teamOf member).run
  | .createTeam t => (createTeam t).run
  | .deleteTeam id => (do acquire; deleteTeam id : Query Unit).run
  | .addMember team member => (do acquire; appendMember team member : Query Unit).run
  | .removeMember team member => (do acquire; removeMember team member : Query Unit).run
  | .commit c => (commit c).run

end Query

/-- The tables behind a connection as a storage. A transaction that a request leaves open is given
up. -/
def Connection.storage : Storage Connection := fun q c =>
  let (reply, after) := (Query.ofRequest q).run Connection.answer c
  (reply, after.rollback)

end TeamRoster
