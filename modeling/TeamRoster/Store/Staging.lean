import TeamRoster.Store.Basic

/-!
# Commits to the store in memory

Writes are staged beside the store and published only when all of them went through. A `Staging`
holds the team records that were written (`none` for a team that was deleted) and the statuses that
were set; reading while staging looks there first. A single write is a staging of its own. Places are
given out while staging, and one that was given out is not given again.
-/

namespace TeamRoster

/-- Writes that are not published yet. -/
structure Staging where
  /-- The record that each team is going to have; `none` if the team is going to be deleted. -/
  teams : Directory (Option TeamRecord)
  nextPlace : Nat
  /-- Statuses that are going to be set, the latest first. -/
  statuses : List (Ident × Status)

namespace Store

/-- A staging without writes. -/
def stage (s : Store) : Staging :=
  ⟨.empty, s.nextPlace, []⟩

/-- The record of a team as the staged writes leave it. -/
def staged? (s : Store) (g : Staging) (id : Ident) : Option TeamRecord :=
  match g.teams.find? id with
  | some written => written
  | none => s.teams.find? id

/-- The status of a member as the staged writes leave it. -/
def stagedStatus? (s : Store) (g : Staging) (id : Ident) : Option Status :=
  match g.statuses.find? fun e => e.1 == id with
  | some e => some e.2
  | none => (s.members.find? id).map Member.status

/-- Whether a team other than this one has the name. -/
def nameTaken (s : Store) (g : Staging) (id : Ident) (name : TeamName) : Bool :=
  (s.teams.keys ++ g.teams.keys).any fun other =>
    other != id && (s.staged? g other).any fun r => r.name == name

/-- Fails unless the member is stored. -/
def requireMember (s : Store) (id : Ident) : Except StorageError Unit :=
  if s.members.contains id then .ok () else .error (.notFound .member id)

/-- The staged record of a team, which has to be there. -/
def requireTeam (s : Store) (g : Staging) (id : Ident) : Except StorageError TeamRecord :=
  match s.staged? g id with
  | some r => .ok r
  | none => .error (.notFound .team id)

/-- Stage a team. A team that is there already keeps its place. -/
def stageCreate (s : Store) (g : Staging) (t : Team) : Except StorageError Staging := do
  if s.nameTaken g t.id t.name then
    throw (.nameTaken t.name.text)
  t.memberIds.forM s.requireMember
  match s.staged? g t.id with
  | some r =>
    return { g with
      teams := g.teams.insert t.id (some ⟨t.name, t.memberIds, t.createdAt, r.place⟩) }
  | none =>
    return { g with
      teams := g.teams.insert t.id (some ⟨t.name, t.memberIds, t.createdAt, g.nextPlace⟩)
      nextPlace := g.nextPlace + 1 }

/-- Stage the deletion of a team. -/
def stageDelete (s : Store) (g : Staging) (team : Ident) : Except StorageError Staging := do
  let _ ← s.requireTeam g team
  return { g with teams := g.teams.insert team none }

/-- Stage an addition to a team. A member who is there already is not added again. -/
def stageAdd (s : Store) (g : Staging) (team member : Ident) : Except StorageError Staging := do
  s.requireMember member
  let r ← s.requireTeam g team
  let ids := if r.memberIds.contains member then r.memberIds else r.memberIds ++ [member]
  return { g with teams := g.teams.insert team (some { r with memberIds := ids }) }

/-- Stage the removal of a member from a team. -/
def stageRemove (s : Store) (g : Staging) (team member : Ident) : Except StorageError Staging := do
  let r ← s.requireTeam g team
  if r.memberIds.contains member then
    return { g with
      teams := g.teams.insert team (some { r with memberIds := r.memberIds.erase member }) }
  else
    throw (.notFound .membership member)

/-- Stage a change of status. -/
def stageStatus (s : Store) (g : Staging) (member : Ident) (before after : Status) :
    Except StorageError Staging :=
  match s.stagedStatus? g member with
  | none => .error (.notFound .member member)
  | some current =>
    if current = before then .ok { g with statuses := (member, after) :: g.statuses }
    else .error (.conflict .member member)

/-- Stage one write. -/
def stageEdit (s : Store) (g : Staging) : Edit → Except StorageError Staging
  | .createTeam t => s.stageCreate g t
  | .deleteTeam team => s.stageDelete g team
  | .addMember team member => s.stageAdd g team member
  | .removeMember team member => s.stageRemove g team member
  | .setStatus member before after => s.stageStatus g member before after

/-- Write one staged record, or delete the team. -/
def publishTeam (teams : Directory TeamRecord) (e : Ident × Option TeamRecord) :
    Directory TeamRecord :=
  match e.2 with
  | some r => teams.insert e.1 r
  | none => teams.erase e.1

/-- Make the staged teams those of the store. -/
def publish (s : Store) (g : Staging) : Store :=
  { s with teams := g.teams.entries.foldl publishTeam s.teams, nextPlace := g.nextPlace }

/-- Set statuses in order, until there is one that cannot be set. -/
def writeStatuses (s : Store) : List (Ident × Status) → Except StorageError Unit × Store
  | [] => (.ok (), s)
  | e :: es =>
    match s.setStatus e.1 e.2 with
    | .ok after => after.writeStatuses es
    | .error failure => (.error failure, s)

/-- Make a single write to the teams. -/
def single (s : Store) (write : Staging → Except StorageError Staging) :
    Except StorageError Store := do
  let g ← write s.stage
  return s.publish g

/-- Fails unless every expected team has exactly the members expected of it. -/
def checkExpectations (s : Store) (expectations : List (Ident × List Ident)) :
    Except StorageError Unit :=
  expectations.forM fun e =>
    if (s.teams.find? e.1).map TeamRecord.memberIds = some e.2 then .ok ()
    else .error (.conflict .team e.1)

/-- Stage edits in order, until there is one that fails. -/
def stageAll (s : Store) (g : Staging) : List Edit → Except StorageError Unit × Staging
  | [] => (.ok (), g)
  | e :: es =>
    match s.stageEdit g e with
    | .ok staged => s.stageAll staged es
    | .error failure => (.error failure, g)

/-- Commit a change set: check what was expected, stage the writes, publish the teams and then write
the statuses. -/
def commit (s : Store) (c : ChangeSet) : Except StorageError Unit × Store :=
  match s.checkExpectations c.expectations with
  | .error failure => (.error failure, s)
  | .ok () =>
    match s.stageAll s.stage c.edits with
    | (.error failure, g) => (.error failure, { s with nextPlace := g.nextPlace })
    | (.ok (), g) => (s.publish g).writeStatuses g.statuses.reverse

/-- The reply and the state after a single write: a failed one leaves the store alone. -/
def written (s : Store) : Except StorageError Store → Except StorageError Unit × Store
  | .ok after => (.ok (), after)
  | .error e => (.error e, s)

/-- The store in memory as a storage. -/
def storage : Storage Store
  | .member id, s => (s.member id, s)
  | .members, s => (.ok s.allMembers, s)
  | .saveMember m, s => (.ok (), s.saveMember m)
  | .setStatus id status, s => s.written (s.setStatus id status)
  | .team id, s => (s.team id, s)
  | .teams, s => (s.allTeams, s)
  | .teamOf id, s => (s.teamOf id, s)
  | .createTeam t, s => s.written (s.single fun g => s.stageCreate g t)
  | .deleteTeam id, s => s.written (s.single fun g => s.stageDelete g id)
  | .addMember team member, s => s.written (s.single fun g => s.stageAdd g team member)
  | .removeMember team member, s => s.written (s.single fun g => s.stageRemove g team member)
  | .commit c, s => s.commit c

end Store

end TeamRoster
