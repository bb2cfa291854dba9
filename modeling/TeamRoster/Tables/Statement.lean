import TeamRoster.Tables.Basic

/-!
# Statements

The statements that the database is sent, each with the type of its result, and what each does to
the tables. A statement that would break a constraint fails and does nothing, and so does one with a
value that has no place in its column. Only the lengths of names are not looked at: what is saved is the
row of a member or of a team, whose names are short enough.
-/

namespace TeamRoster

/-- An error of the database server. -/
structure ServerError where
  code : String
  constraint : Option String
  message : String
deriving DecidableEq

namespace ServerError

/-- The code of a value that has to be unique and is not. -/
def uniqueCode : String := "23505"

/-- The code of a reference to a row that is not there. -/
def foreignKeyCode : String := "23503"

/-- The constraint that team names are unique. -/
def teamNameKey : String := "teams_name_key"

/-- The constraint that a member is in a team at most once. -/
def membershipKey : String := "team_members_pkey"

/-- The constraint that the team of a membership is there. -/
def teamReference : String := "team_members_team_id_fkey"

/-- The constraint that the member of a membership is there. -/
def memberReference : String := "team_members_member_id_fkey"

/-- A text with a character zero in it. -/
def zeroCharacter : ServerError :=
  ⟨"22021", none, "invalid byte sequence for encoding \"UTF8\": 0x00"⟩

/-- A time that is too early or too late to be stored. -/
def timeOutOfRange : ServerError :=
  ⟨"22008", none, "timestamp out of range"⟩

/-- A whole number that does not fit into 32 bits. -/
def integerOutOfRange : ServerError :=
  ⟨"22003", none, "integer out of range"⟩

/-- What is wrong with the texts and the time of a row, if anything is. Texts are looked at first. -/
def ofValues? (texts : List String) (time : Instant) : Option ServerError :=
  if texts.any fun s => s.toList.contains '\x00' then some zeroCharacter
  else if time.isStorable then none
  else some timeOutOfRange

/-- A value that has to be unique is there already. -/
def duplicate (constraint : String) : ServerError :=
  ⟨uniqueCode, some constraint,
    "duplicate key value violates unique constraint \"" ++ constraint ++ "\""⟩

/-- The row that a membership refers to is not there. -/
def dangling (constraint : String) : ServerError :=
  ⟨foreignKeyCode, some constraint,
    "insert or update on table \"team_members\" violates foreign key constraint \"" ++
      constraint ++ "\""⟩

end ServerError

/-- Why the row of a member cannot be stored, if it cannot. -/
def MemberRow.refusal? (r : MemberRow) : Option ServerError :=
  ServerError.ofValues? [r.name, r.email] r.createdAt

/-- Why the row of a team cannot be stored, if it cannot. -/
def TeamRow.refusal? (r : TeamRow) : Option ServerError :=
  ServerError.ofValues? [r.name] r.createdAt

/-- A statement. -/
inductive Statement where
  | begin
  | commit
  | memberGet (id : Ident)
  | memberList
  /-- Insert a member, or change all but the time of the one that is there. -/
  | memberSave (row : MemberRow)
  | memberUpdateStatus (id : Ident) (status : Status)
  | teamGet (id : Ident)
  | teamList
  | teamMembers (team : Ident)
  | membershipList
  | teamOfMember (member : Ident)
  /-- Insert a team, or change the name of the one that is there. -/
  | teamInsert (row : TeamRow)
  | teamClear (team : Ident)
  | membershipInsert (row : Membership)
  | teamDelete (id : Ident)
  /-- Insert a membership behind the last one of the team, unless it is there. -/
  | membershipAppend (team member : Ident)
  | membershipDelete (team member : Ident)
  | teamLock (id : Ident)
  | memberIds (team : Ident)
  | setStatus (member : Ident) (before after : Status)
deriving DecidableEq

namespace Statement

/-- The result of a statement; for statements that change rows and are asked how many, that
number. -/
abbrev Result : Statement → Type
  | memberGet _ => Option MemberRow
  | memberList => List MemberRow
  | memberUpdateStatus _ _ => Nat
  | teamGet _ => Option TeamRow
  | teamList => List TeamRow
  | teamMembers _ => List MemberRow
  | membershipList => List (Ident × MemberRow)
  | teamOfMember _ => Option Ident
  | teamDelete _ => Nat
  | membershipDelete _ _ => Nat
  | teamLock _ => Option Ident
  | memberIds _ => List Ident
  | setStatus _ _ _ => Nat
  | _ => Unit

/-- The name of a statement. -/
def label : Statement → String
  | begin => "begin"
  | commit => "commit"
  | memberGet _ => "member_get"
  | memberList => "member_list"
  | memberSave _ => "member_save"
  | memberUpdateStatus _ _ => "member_update_status"
  | teamGet _ => "team_get"
  | teamList => "team_list"
  | teamMembers _ => "team_members"
  | membershipList => "membership_list"
  | teamOfMember _ => "team_of_member"
  | teamInsert _ => "team_insert"
  | teamClear _ => "team_clear"
  | membershipInsert _ => "membership_insert"
  | teamDelete _ => "team_delete"
  | membershipAppend _ _ => "membership_append"
  | membershipDelete _ _ => "membership_delete"
  | teamLock _ => "team_lock"
  | memberIds _ => "member_ids"
  | setStatus _ _ _ => "set_status"

end Statement

namespace Tables

/-- Save a member row: the time of one that is there stays. -/
def saveMember (t : Tables) (row : MemberRow) : Tables :=
  match t.member? row.id with
  | some _ =>
    { t with members := t.members.map fun r =>
        if r.id = row.id then { row with createdAt := r.createdAt } else r }
  | none => { t with members := t.members ++ [{ row with createdAt := row.createdAt.toMicros }] }

/-- Save a team row: the time of one that is there stays. -/
def saveTeam (t : Tables) (row : TeamRow) : Tables :=
  match t.team? row.id with
  | some _ =>
    { t with teams := t.teams.map fun r =>
        if r.id = row.id then { r with name := row.name } else r }
  | none => { t with teams := t.teams ++ [{ row with createdAt := row.createdAt.toMicros }] }

/-- Insert a membership, if its team and its member are there. -/
def insertMembership (t : Tables) (row : Membership) : Except ServerError Tables :=
  if (t.team? row.team).isNone then .error (.dangling ServerError.teamReference)
  else if (t.member? row.member).isNone then .error (.dangling ServerError.memberReference)
  else .ok { t with memberships := t.memberships ++ [row] }

/-- Change the statuses of members, and count them. -/
def updateStatus (t : Tables) (which : MemberRow → Bool) (status : Status) : Nat × Tables :=
  (t.members.countP which,
    { t with members := t.members.map fun r => if which r then { r with status } else r })

/-- Carry out a statement. The two that frame a transaction do nothing to the tables. -/
def execute (t : Tables) : (s : Statement) → Except ServerError (s.Result × Tables)
  | .begin => .ok ((), t)
  | .commit => .ok ((), t)
  | .memberGet id => .ok (t.member? id, t)
  | .memberList => .ok (t.orderedMembers, t)
  | .memberSave row =>
    match row.refusal? with
    | some e => .error e
    | none => .ok ((), t.saveMember row)
  | .memberUpdateStatus id status => .ok (t.updateStatus (fun r => r.id == id) status)
  | .teamGet id => .ok (t.team? id, t)
  | .teamList => .ok (t.orderedTeams, t)
  | .teamMembers team => .ok ((t.membershipsOf team).filterMap fun m => t.member? m.member, t)
  | .membershipList =>
    .ok (t.orderedMemberships.filterMap fun m => (t.member? m.member).map fun r => (m.team, r), t)
  | .teamOfMember member =>
    .ok ((t.memberships.find? fun m => m.member == member).map Membership.team, t)
  | .teamInsert row =>
    match row.refusal? with
    | some e => .error e
    | none =>
      if t.teams.any fun r => r.id != row.id && r.name == row.name then
        .error (.duplicate ServerError.teamNameKey)
      else .ok ((), t.saveTeam row)
  | .teamClear team =>
    .ok ((), { t with memberships := t.memberships.filter fun m => m.team != team })
  | .membershipInsert row =>
    if (t.membership? row.team row.member).isSome then
      .error (.duplicate ServerError.membershipKey)
    else (t.insertMembership row).map fun t => ((), t)
  | .teamDelete id =>
    .ok (t.teams.countP fun r => r.id == id,
      { t with
        teams := t.teams.filter fun r => r.id != id
        memberships := t.memberships.filter fun m => m.team != id })
  | .membershipAppend team member =>
    -- The position is worked out before it is known whether the membership is there.
    match t.nextPosition? team with
    | none => .error .integerOutOfRange
    | some position =>
      if (t.membership? team member).isSome then .ok ((), t)
      else (t.insertMembership ⟨team, member, position⟩).map fun t => ((), t)
  | .membershipDelete team member =>
    .ok (t.memberships.countP fun m => m.team == team && m.member == member,
      { t with
        memberships := t.memberships.filter fun m => !(m.team == team && m.member == member) })
  | .teamLock id => .ok ((t.team? id).map TeamRow.id, t)
  | .memberIds team => .ok ((t.membershipsOf team).map Membership.member, t)
  | .setStatus member before after =>
    .ok (t.updateStatus (fun r => r.id == member && r.status == before) after)

end Tables

end TeamRoster
