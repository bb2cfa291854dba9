import TeamRoster.Workflow.Plan

/-!
# Use cases

What can be done with the members and teams of a cohort. Registering a member and forming a team are
single writes. The others plan, commit the plan and tell of it; once the commit went through, a
notification that is not delivered no longer takes anything back.
-/

namespace TeamRoster

namespace UseCase

/-- Register a new member. -/
def register (name : MemberName) (email : Email) (status : Status) : UseCase Member := do
  let member := Member.register (← birth) name email status
  saveMember member
  return member

/-- The members with these ids, none of whom may be in a team. -/
def freeMembers : List Ident → UseCase (List Member)
  | [] => pure []
  | id :: ids => do
    Plan.requireFree id none
    let m ← member id
    let ms ← freeMembers ids
    return m :: ms

/-- Form a team of members who are in no team. -/
def formTeam (name : TeamName) (memberIds : List Ident) : UseCase Team := do
  let members ← freeMembers memberIds
  let draft ← ofRule (Team.Draft.ofMembers name members)
  let team := draft.form (← birth)
  createTeam team
  return team

/-- Add a member to a team. -/
def addMember (team member : Ident) : UseCase Team := do
  (← Plan.addition team member).carryOut

/-- Remove a member from a team. -/
def removeMember (team member : Ident) : UseCase Team := do
  (← Plan.removal team member).carryOut

/-- Assign a member to the team that the rules choose. -/
def reassign (memberId : Ident) : UseCase Team := do
  let member ← member memberId
  (← Plan.assignment member).carryOut

/-- Change the status of a member. -/
def changeStatus (member : Ident) (target : Status) : UseCase Plan.StatusChange := do
  (← Plan.statusChange member target).carryOut

end UseCase

end TeamRoster
