import TeamRoster.Proofs.Store.Restating
import TeamRoster.Proofs.Workflow.Memory

/-!
# Use cases that look at teams only

To assign a member, one asks about teams, births and ties, and never about members. Main statement:
`LooksAtTeams.exec_restate`. Such a use case does the same whatever the status of a member is who is in
no team, since all that it asks is answered alike.
-/

namespace TeamRoster

variable {τ α β : Type}

/-- A world with the status of one member set. -/
def World.restate (w : World Store τ) (id : Ident) (m : Member) (target : Status) : World Store τ :=
  { w with storage := w.storage.restate id m target }

/-- Whether a question is about teams, births and ties, and not about members. -/
def Ask.isAboutTeams : Ask → Bool
  | storage .teams | storage (.teamOf _) | birth | pick _ => true
  | storage _ | deliver _ => false

/-- A use case that looks at teams only and writes nothing. -/
def UseCase.LooksAtTeams (u : UseCase α) : Prop :=
  u.run.Keeps (fun q => q.isAboutTeams = true) fun _ => True

namespace UseCase

theorem LooksAtTeams.bind {u : UseCase α} {f : α → UseCase β} (hu : u.LooksAtTeams)
    (hf : ∀ a, (f a).LooksAtTeams) : (u >>= f).LooksAtTeams := by
  apply Dialogue.Keeps.bind hu
  intro r _
  cases r with
  | ok a => exact hf a
  | error x => trivial

theorem looksAtTeams_pure (a : α) : (pure a : UseCase α).LooksAtTeams := by
  trivial

theorem looksAtTeams_throw (x : WorkflowError) : (throw x : UseCase α).LooksAtTeams := by
  trivial

theorem looksAtTeams_ofRule (r : Except RuleError α) : (ofRule r).LooksAtTeams := by
  cases r with
  | ok a => exact looksAtTeams_pure a
  | error e => exact looksAtTeams_throw (.rule e)

theorem looksAtTeams_teams : teams.LooksAtTeams :=
  ⟨rfl, fun _ => trivial⟩

theorem looksAtTeams_teamOf (member : Ident) : (teamOf member).LooksAtTeams :=
  ⟨rfl, fun _ => trivial⟩

theorem looksAtTeams_birth : birth.LooksAtTeams :=
  ⟨rfl, fun _ => trivial⟩

theorem looksAtTeams_settle (tie : TieBreak α) : (settle tie).LooksAtTeams := by
  cases tie with
  | settled a => exact looksAtTeams_pure a
  | among count next => exact ⟨rfl, fun _ => trivial⟩

theorem looksAtTeams_requireFree (member : Ident) (allowed : Option Ident) :
    (Plan.requireFree member allowed).LooksAtTeams := by
  apply (looksAtTeams_teamOf member).bind
  intro found
  cases found with
  | none => exact looksAtTeams_pure ()
  | some t =>
      by_cases hallowed : some t.id = allowed
      · simpa [hallowed] using looksAtTeams_pure ()
      · simpa [hallowed] using looksAtTeams_throw _

theorem looksAtTeams_compose (i : Intake) : (Plan.compose i).LooksAtTeams := by
  cases i with
  | fits team => exact looksAtTeams_pure _
  | overflows kept draft => exact looksAtTeams_birth.bind fun _ => looksAtTeams_pure _

/-- To assign a member, one looks at the teams only. -/
theorem looksAtTeams_assignment (m : Member) : (Plan.assignment m).LooksAtTeams := by
  apply (looksAtTeams_requireFree m.id none).bind
  intro _
  apply looksAtTeams_teams.bind
  intro roster
  apply (looksAtTeams_settle (assign m roster)).bind
  intro r
  apply (looksAtTeams_ofRule r).bind
  intro i
  apply (looksAtTeams_compose i).bind
  intro c
  exact looksAtTeams_pure _

/-- Whoever looks at teams only does the same whatever the status of a member is who is in none. -/
theorem LooksAtTeams.exec_restate {u : UseCase α} (hu : u.LooksAtTeams) (v : Surroundings τ)
    {w : World Store τ} {id : Ident} (m : Member) (target : Status) (habsent : id ∉ w.storage.roll) :
    v.setting.exec u (w.restate id m target) =
      ((v.setting.exec u w).1, (v.setting.exec u w).2.restate id m target) := by
  let alike (x y : World Store τ) : Prop := x.storage = w.storage ∧ y = x.restate id m target
  have hstart : alike w (w.restate id m target) := ⟨rfl, rfl⟩
  have hrun : (v.setting.exec u w).1 = (v.setting.exec u (w.restate id m target)).1 ∧
      alike (v.setting.exec u w).2 (v.setting.exec u (w.restate id m target)).2 := by
    refine Dialogue.Keeps.run_related hu ?_ hstart
    rintro q x y hq ⟨hstorage, rfl⟩
    have hroll : id ∉ x.storage.roll := by
      rw [hstorage]
      exact habsent
    cases q with
    | birth => exact ⟨rfl, hstorage, rfl⟩
    | pick count => exact ⟨rfl, hstorage, rfl⟩
    | deliver event => cases hq
    | storage request =>
        cases request with
        | teams => exact ⟨(Store.allTeams_restate hroll).symm, hstorage, rfl⟩
        | teamOf member => exact ⟨(Store.teamOf_restate hroll member).symm, hstorage, rfl⟩
        | _ => cases hq
  exact Prod.ext hrun.1.symm hrun.2.2

end UseCase

end TeamRoster
