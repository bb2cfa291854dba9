import TeamRoster.Command.Line
import TeamRoster.Proofs.Workflow.Preparation

/-!
# Prepare, write once, announce

Every command has the same shape: a preparation that writes nothing, one write to the storage, and
then the announcements of the events. An `Undertaking` is what a preparation comes up with.
-/

namespace TeamRoster

/-- The write of a command. -/
inductive Write where
  | save (member : Member)
  | form (team : Team)
  | commit (changes : ChangeSet)

/-- Make a write. -/
def Write.make : Write → UseCase Unit
  | save m => UseCase.saveMember m
  | form t => UseCase.createTeam t
  | commit c => UseCase.commit c

/-- What is going to be written, told and returned. -/
structure Undertaking (α : Type) where
  write : Write
  events : List Event
  result : α

/-- A plan as an undertaking, with its result as others are to see it. -/
def Plan.undertaking {α β : Type} (view : α → β) (p : Plan α) : Undertaking β :=
  ⟨.commit p.changes, p.events, view p.result⟩

/-- Make the write and tell of the events. -/
def Undertaking.carryOut {α : Type} (u : Undertaking α) : UseCase α := do
  u.write.make
  UseCase.announce u.events
  return u.result

/-- Whether an answer tells of a failure. -/
def Answer.isFailure : Answer → Bool
  | failure _ _ => true
  | member _ | team _ | statusChanged _ _ _ _ => false

/-- The answer to a command, by what became of it. -/
def Answer.ofResult : Except WorkflowError Answer → Answer
  | .ok answer => answer
  | .error x => ofFailure x

namespace Command

/-- The preparation of a command. -/
def prepare : Command → UseCase (Undertaking Answer)
  | registerMember name email status => do
    let name ← UseCase.ofRule (MemberName.ofText name)
    let email ← UseCase.ofRule (Email.ofText email)
    let member := Member.register (← UseCase.birth) name email status
    return ⟨.save member, [], .ofMember member⟩
  | createTeam name members => do
    let name ← UseCase.ofRule (TeamName.ofText name)
    let members ← UseCase.freeMembers members
    let draft ← UseCase.ofRule (Team.Draft.ofMembers name members)
    let team := draft.form (← UseCase.birth)
    return ⟨.form team, [], .ofTeam team⟩
  | addMember team member => do
    return (← Plan.addition team member).undertaking .ofTeam
  | removeMember team member => do
    return (← Plan.removal team member).undertaking .ofTeam
  | changeStatus member status => do
    return (← Plan.statusChange member status).undertaking .ofStatusChange
  | reassignMember member => do
    let member ← UseCase.member member
    return (← Plan.assignment member).undertaking .ofTeam

/-- Carrying out a plan is carrying out its undertaking. -/
theorem carryOut_undertaking {α : Type} (view : α → Answer) (p : Plan α) :
    (p.undertaking view).carryOut = (do return view (← p.carryOut)) := by
  simp [Plan.undertaking, Undertaking.carryOut, Plan.carryOut, Write.make]

/-- A command is carried out by preparing it, writing once and announcing. -/
theorem perform_eq (c : Command) : c.perform = c.prepare >>= Undertaking.carryOut := by
  cases c with
  | registerMember name email status =>
      simp [perform, prepare, UseCase.register, Undertaking.carryOut, Write.make,
        UseCase.announce]
  | createTeam name members =>
      simp [perform, prepare, UseCase.formTeam, Undertaking.carryOut, Write.make, UseCase.announce]
  | addMember team member => simp [perform, prepare, UseCase.addMember, carryOut_undertaking]
  | removeMember team member =>
      simp [perform, prepare, UseCase.removeMember, carryOut_undertaking]
  | changeStatus member status =>
      simp [perform, prepare, UseCase.changeStatus, carryOut_undertaking]
  | reassignMember member => simp [perform, prepare, UseCase.reassign, carryOut_undertaking]

section Preparing

open UseCase

theorem preparesIn_undertaking {α : Type} {view : α → Answer}
    (hview : ∀ a, (view a).isFailure = false) {plan : UseCase (Plan α)} (hplan : Prepares plan) :
    PreparesIn (fun u => u.result.isFailure = false)
      (do return (← plan).undertaking view : UseCase (Undertaking Answer)) :=
  hplan.bindIn fun p => preparesIn_pure (hview p.result)

/-- What a command prepares is answered by something other than a failure, if all goes well. -/
theorem preparesIn_prepare (c : Command) :
    PreparesIn (fun u => u.result.isFailure = false) c.prepare := by
  cases c with
  | registerMember name email status =>
      exact (prepares_ofRule _).bindIn fun _ => (prepares_ofRule _).bindIn fun _ =>
        prepares_birth.bindIn fun _ => preparesIn_pure rfl
  | createTeam name members =>
      exact (prepares_ofRule _).bindIn fun _ => (prepares_freeMembers members).bindIn fun _ =>
        (prepares_ofRule _).bindIn fun _ => prepares_birth.bindIn fun _ => preparesIn_pure rfl
  | addMember team member =>
      exact preparesIn_undertaking (fun _ => rfl) (prepares_addition team member)
  | removeMember team member =>
      exact preparesIn_undertaking (fun _ => rfl) (prepares_removal team member)
  | changeStatus member status =>
      exact preparesIn_undertaking (fun _ => rfl) (prepares_statusChange member status)
  | reassignMember member =>
      exact (prepares_member member).bindIn fun m =>
        preparesIn_undertaking (fun _ => rfl) (prepares_assignment m)

end Preparing

end Command

end TeamRoster
