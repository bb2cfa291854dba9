import TeamRoster.Proofs.Dialogue
import TeamRoster.Proofs.Failing
import TeamRoster.Workflow.UseCases

/-!
# Planning writes nothing

Everything that use cases do before they write is a preparation: it reads, draws births and has ties
broken, and if it fails, no notification is to blame.
-/

namespace TeamRoster

/-- Whether a request only reads. -/
def StorageRequest.isRead : StorageRequest → Bool
  | member _ | members | team _ | teams | teamOf _ => true
  | saveMember _ | setStatus _ _ | createTeam _ | deleteTeam _ | addMember _ _ | removeMember _ _
  | commit _ => false

/-- Whether a question writes nothing and tells nobody. -/
def Ask.isPreparation : Ask → Bool
  | storage request => request.isRead
  | birth | pick _ => true
  | deliver _ => false

namespace UseCase

variable {α β : Type}

/-- A use case that only prepares: it writes nothing and tells nobody, its values are in `stop`, and
its failures are not those of a delivery. -/
def PreparesIn (stop : α → Prop) (u : UseCase α) : Prop :=
  u.run.Keeps (fun q => q.isPreparation = true) fun
    | .ok a => stop a
    | .error x => x.isDelivery = false

/-- A use case that only prepares. -/
def Prepares (u : UseCase α) : Prop :=
  PreparesIn (fun _ => True) u

theorem preparesIn_pure {stop : α → Prop} {a : α} (ha : stop a) : PreparesIn stop (pure a) :=
  ha

theorem prepares_pure (a : α) : Prepares (pure a) :=
  preparesIn_pure trivial

theorem prepares_throw {x : WorkflowError} (hx : x.isDelivery = false) :
    Prepares (throw x : UseCase α) :=
  hx

theorem Prepares.bindIn {u : UseCase α} {f : α → UseCase β} {stop : β → Prop} (hu : Prepares u)
    (hf : ∀ a, PreparesIn stop (f a)) : PreparesIn stop (u >>= f) := by
  apply Dialogue.Keeps.bind hu
  intro r hr
  cases r with
  | ok a => exact hf a
  | error x => exact hr

theorem Prepares.bind {u : UseCase α} {f : α → UseCase β} (hu : Prepares u)
    (hf : ∀ a, Prepares (f a)) : Prepares (u >>= f) :=
  hu.bindIn hf

theorem prepares_ofRule (r : Except RuleError α) : Prepares (ofRule r) := by
  cases r with
  | ok a => exact prepares_pure a
  | error e => exact prepares_throw rfl

/-- A read that gets an error from the storage fails, but not as a delivery does. -/
theorem prepares_read (request : StorageRequest) (hread : request.isRead = true)
    (f : request.Reply → Except StorageError α) :
    Prepares (ofReply .storage (.ask (.storage request) fun reply => .done (f reply))) := by
  refine ⟨hread, fun reply => ?_⟩
  cases h : f reply with
  | ok a => simp [Dialogue.Keeps, h]
  | error e => simp [Dialogue.Keeps, h, WorkflowError.isDelivery]

theorem prepares_member (id : Ident) : Prepares (member id) :=
  prepares_read (.member id) rfl fun reply => reply

theorem prepares_team (id : Ident) : Prepares (team id) :=
  prepares_read (.team id) rfl fun reply => reply

theorem prepares_teams : Prepares teams :=
  prepares_read .teams rfl fun reply => reply

theorem prepares_teamOf (id : Ident) : Prepares (teamOf id) :=
  prepares_read (.teamOf id) rfl fun reply => reply

theorem prepares_birth : Prepares birth :=
  ⟨rfl, fun _ => trivial⟩

theorem prepares_settle (t : TieBreak α) : Prepares (settle t) := by
  cases t with
  | settled a => exact prepares_pure a
  | among count next => exact ⟨rfl, fun _ => trivial⟩

theorem prepares_requireFree (id : Ident) (allowed : Option Ident) :
    Prepares (Plan.requireFree id allowed) := by
  refine (prepares_teamOf id).bind fun found => ?_
  cases found with
  | none => exact prepares_pure ()
  | some t =>
      by_cases h : some t.id = allowed
      · simpa [h] using prepares_pure ()
      · simpa [h] using prepares_throw rfl

theorem prepares_compose (i : Intake) : Prepares (Plan.compose i) := by
  cases i with
  | fits team => exact prepares_pure _
  | overflows kept draft => exact prepares_birth.bind fun born => prepares_pure _

theorem prepares_addition (team member : Ident) : Prepares (Plan.addition team member) :=
  (prepares_team team).bind fun t => (prepares_member member).bind fun m =>
    (prepares_requireFree member (some team)).bind fun _ =>
      (prepares_ofRule (t.intake m)).bind fun i => (prepares_compose i).bind fun _ =>
        prepares_pure _

theorem prepares_assignment (m : Member) : Prepares (Plan.assignment m) :=
  (prepares_requireFree m.id none).bind fun _ => prepares_teams.bind fun roster =>
    (prepares_settle (assign m roster)).bind fun r => (prepares_ofRule r).bind fun i =>
      (prepares_compose i).bind fun _ => prepares_pure _

theorem prepares_removal (team member : Ident) : Prepares (Plan.removal team member) :=
  (prepares_team team).bind fun t => prepares_teams.bind fun roster =>
    (prepares_settle (redistribute t member roster)).bind fun r => (prepares_ofRule r).bind fun _ =>
      prepares_pure _

theorem prepares_followStatus (before : Status) (m : Member) :
    Prepares (Plan.followStatus before m) := by
  unfold Plan.followStatus
  split
  · refine (prepares_teamOf m.id).bind fun found => ?_
    cases found with
    | none => exact prepares_pure _
    | some t => exact (prepares_removal t.id m.id).bind fun _ => prepares_pure _
  · split
    · exact (prepares_assignment m).bind fun _ => prepares_pure _
    · exact prepares_pure _

theorem prepares_statusChange (member : Ident) (target : Status) :
    Prepares (Plan.statusChange member target) :=
  (prepares_member member).bind fun m => (prepares_ofRule (m.transition target)).bind fun changed =>
    (prepares_followStatus m.status changed).bind fun _ => prepares_pure _

theorem prepares_freeMembers (ids : List Ident) : Prepares (freeMembers ids) := by
  induction ids with
  | nil => exact prepares_pure []
  | cons id ids ih =>
      exact (prepares_requireFree id none).bind fun _ => (prepares_member id).bind fun _ =>
        ih.bind fun _ => prepares_pure _

/-- Announcing asks for deliveries only. -/
theorem keeps_announce (events : List Event) :
    (announce events).run.Keeps (fun q => ∃ e, q = .deliver e) fun _ => True := by
  induction events with
  | nil => trivial
  | cons e es ih =>
      refine ⟨⟨e, rfl⟩, fun reply => ?_⟩
      cases reply with
      | ok done => exact ih
      | error x => trivial

end UseCase

end TeamRoster
