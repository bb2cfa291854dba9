import TeamRoster.Composition.Placement
import TeamRoster.Workflow.Ask

/-!
# Plans

A use case that changes teams first reads what it needs and plans: which writes are to be committed,
which events mentors hear about afterwards, and what the result is. Planning writes nothing. The
writes are derived from the composition that the rules of placement give, and every team that they
touch is expected to have the members that were read.
-/

namespace TeamRoster

/-- What a use case is going to write, tell and return. -/
structure Plan (α : Type) where
  changes : ChangeSet
  events : List Event
  result : α

namespace Composition

/-- The writes for a member who joined, where the team was read with the members `persisted`. -/
def edits (c : Composition) (persisted : List Ident) (member : Ident) : List Edit :=
  match c with
  | split kept new _ =>
    .createTeam new ::
      (persisted.filter fun id => !kept.contains id).map (Edit.removeMember kept.id) ++
      (if kept.contains member then [.addMember kept.id member] else [])
  | c => [.addMember c.team.id member]

/-- The events for a member who joined. -/
def events (c : Composition) (member : Member) : List Event :=
  match c with
  | split kept new _ => [.teamSplit kept new member]
  | _ => []

end Composition

namespace Redistribution

/-- The writes for a removal from a team. -/
def edits (r : Redistribution) (team member : Ident) : List Edit :=
  .removeMember team member ::
    match r.composition with
    | .merge destination dissolved moved =>
      moved.map (fun m => Edit.addMember destination.id m.id) ++ [.deleteTeam dissolved.id]
    | _ => if r.isEmptied then [.deleteTeam team] else []

/-- The events for a removal: who moved, or else that the team is small, and who is stranded. -/
def events (r : Redistribution) : List Event :=
  let team := r.composition.team
  if r.isEmptied then []
  else
    (match r.composition.dissolved? with
      | some _ => r.composition.moved.map (Event.teamMerge team)
      | none => if r.monitoring then [.teamMonitoring team r.removed] else []) ++
    (match r.stranded? with
      | some m => [.mergeFailure team m]
      | none => [])

end Redistribution

namespace Plan

open UseCase

/-- The team of a roster that has this id. -/
def stored? (roster : List Team) (id : Ident) : Option Team :=
  roster.find? fun t => t.id == id

/-- Fails if the member is in a team other than the one allowed. -/
def requireFree (member : Ident) (allowed : Option Ident) : UseCase Unit := do
  match ← teamOf member with
  | some t =>
    if some t.id = allowed then pure ()
    else throw (.rule (.assignedElsewhere member t.id))
  | none => pure ()

/-- The composition of an intake; the team that splits off gets a birth. -/
def compose : Intake → UseCase Composition
  | .fits team => pure (.unchanged team)
  | .overflows kept draft => do
    let born ← birth
    return Intake.compose born (.overflows kept draft)

/-- Plan the addition of a member to a team. -/
def addition (teamId memberId : Ident) : UseCase (Plan Team) := do
  let team ← team teamId
  let member ← member memberId
  requireFree memberId (some teamId)
  let composition ← compose (← ofRule (team.intake member))
  return {
    changes := (ChangeSet.empty.expect team).pushAll (composition.edits team.memberIds memberId)
    events := composition.events member
    result := composition.team }

/-- Plan the assignment of a member to the team that the rules choose. -/
def assignment (member : Member) : UseCase (Plan Team) := do
  requireFree member.id none
  let roster ← teams
  let composition ← compose (← ofRule (← settle (assign member roster)))
  let expected : ChangeSet × List Ident :=
    match stored? roster composition.team.id with
    | some t => (ChangeSet.empty.expect t, t.memberIds)
    | none => (ChangeSet.empty, [])
  return {
    changes := expected.1.pushAll (composition.edits expected.2 member.id)
    events := composition.events member
    result := composition.team }

/-- Plan the removal of a member from a team. -/
def removal (teamId memberId : Ident) : UseCase (Plan Team) := do
  let team ← team teamId
  let roster ← teams
  let r ← ofRule (← settle (redistribute team memberId roster))
  let expected := ChangeSet.empty.expect team
  let expected := match r.composition with
    | .merge destination _ _ =>
      match stored? roster destination.id with
      | some t => expected.expect t
      | none => expected
    | _ => expected
  return {
    changes := expected.pushAll (r.edits teamId memberId)
    events := r.events
    result := r.composition.team }

/-- What a change of status did. -/
structure StatusChange where
  member : Ident
  before : Status
  after : Status
  /-- The team that the member left or joined, as it is afterwards. -/
  team : Option Team

/-- What a change of status does to the teams: a member who stops being active leaves, and one who
becomes active is assigned. -/
def followStatus (before : Status) (member : Member) : UseCase (Plan (Option Team)) := do
  if before = .active then
    match ← teamOf member.id with
    | some team =>
      let plan ← removal team.id member.id
      return { plan with result := some plan.result }
    | none => return ⟨.empty, [], none⟩
  else if member.status = .active then
    let plan ← assignment member
    return { plan with result := some plan.result }
  else
    return ⟨.empty, [], none⟩

/-- Plan a change of status. -/
def statusChange (memberId : Ident) (target : Status) : UseCase (Plan StatusChange) := do
  let member ← member memberId
  let changed ← ofRule (member.transition target)
  let plan ← followStatus member.status changed
  return {
    changes := plan.changes.push (.setStatus memberId member.status target)
    events := plan.events
    result := ⟨memberId, member.status, target, plan.result⟩ }

/-- Commit the writes, then tell of the events. -/
def carryOut {α : Type} (p : Plan α) : UseCase α := do
  commit p.changes
  announce p.events
  return p.result

end Plan

end TeamRoster
