import TeamRoster.Proofs.Workflow.Leaving

/-!
# No command ends in a fault

A fault is a failure that is not the fault of whoever asked: a conflict, stored data that break a rule,
a storage that cannot be reached. Main statement: `perform_faultless`. On a sound store no command ends
in one. Reads of a sound store fail only over what is not stored, and what is committed was planned on
the store as it is, which `Store.Current` says of a change set.
-/

namespace TeamRoster

variable {τ α β : Type}

/-- Failures for which whoever asks is not to blame. A lost delivery is none: the changes are saved
then. -/
def WorkflowError.isFault : WorkflowError → Bool
  | storage cause => cause.isFault
  | rule _ | delivery _ => false

namespace Surroundings

variable {v : Surroundings τ} {w : World Store τ}

/-- The use case does not end in a fault. -/
def Faultless (v : Surroundings τ) (u : UseCase α) (w : World Store τ) : Prop :=
  ∀ x, v.Fails u w x → x.isFault = false

/-- A sequence of parts that do not end in a fault does not end in one. -/
theorem Faultless.bind {u : UseCase α} {f : α → UseCase β} (hu : v.Faultless u w)
    (hf : ∀ a mid, v.Yields u w a mid → v.Faultless (f a) mid) : v.Faultless (u >>= f) w := by
  intro x hfails
  rcases fails_bind.1 hfails with hfirst | ⟨a, mid, ha, hrest⟩
  · exact hu x hfirst
  · exact hf a mid ha x hrest

theorem faultless_pure (a : α) : v.Faultless (pure a) w := by
  intro x hfails
  exact absurd hfails not_fails_pure

theorem faultless_ofRule (r : Except RuleError α) : v.Faultless (UseCase.ofRule r) w := by
  intro x hfails
  obtain ⟨e, -, rfl⟩ := fails_ofRule.1 hfails
  rfl

theorem faultless_settle (tie : TieBreak α) : v.Faultless (UseCase.settle tie) w := by
  intro x hfails
  exact absurd hfails not_fails_settle

theorem faultless_birth : v.Faultless UseCase.birth w := by
  rintro x ⟨⟩

section Reads

theorem faultless_member (id : Ident) : v.Faultless (UseCase.member id) w := by
  intro x hfails
  obtain ⟨-, rfl⟩ := fails_member.1 hfails
  rfl

theorem faultless_team (h : w.storage.Sound) (id : Ident) : v.Faultless (UseCase.team id) w := by
  intro x hfails
  obtain ⟨e, he, rfl⟩ := fails_team.1 hfails
  obtain ⟨-, rfl⟩ := h.team_eq_error.1 he
  rfl

theorem faultless_teams (h : w.storage.Sound) : v.Faultless UseCase.teams w := by
  intro x hfails
  obtain ⟨e, he, -⟩ := fails_teams.1 hfails
  obtain ⟨roster, hroster⟩ := h.allTeams
  rw [hroster] at he
  cases he

theorem faultless_teamOf (h : w.storage.Sound) (member : Ident) :
    v.Faultless (UseCase.teamOf member) w := by
  intro x hfails
  obtain ⟨e, he, -⟩ := fails_teamOf.1 hfails
  obtain ⟨found, hfound⟩ := h.teamOf member
  rw [hfound] at he
  cases he

end Reads

section Plans

theorem faultless_requireFree (h : w.storage.Sound) (member : Ident) (allowed : Option Ident) :
    v.Faultless (Plan.requireFree member allowed) w := by
  refine (faultless_teamOf h member).bind fun found mid _ => ?_
  cases found with
  | none => exact faultless_pure ()
  | some t =>
      by_cases hallowed : some t.id = allowed
      · simpa [hallowed] using faultless_pure ()
      · simpa [hallowed, UseCase.ofRule] using
          faultless_ofRule (.error (.assignedElsewhere member t.id) : Except RuleError Unit)

theorem faultless_compose (i : Intake) : v.Faultless (Plan.compose i) w := by
  cases i with
  | fits team => exact faultless_pure _
  | overflows kept draft => exact faultless_birth.bind fun _ _ _ => faultless_pure _

theorem faultless_addition (h : w.storage.Sound) (team member : Ident) :
    v.Faultless (Plan.addition team member) w := by
  refine (faultless_team h team).bind fun t mid ht => ?_
  obtain ⟨-, rfl⟩ := yields_team.1 ht
  refine (faultless_member member).bind fun m mid' hm => ?_
  obtain ⟨-, rfl⟩ := yields_member.1 hm
  refine (faultless_requireFree h member _).bind fun _ _ _ => ?_
  exact (faultless_ofRule _).bind fun _ _ _ => (faultless_compose _).bind fun _ _ _ =>
    faultless_pure _

theorem faultless_assignment (h : w.storage.Sound) (m : Member) :
    v.Faultless (Plan.assignment m) w := by
  refine (faultless_requireFree h m.id none).bind fun _ mid hfree => ?_
  obtain ⟨-, rfl⟩ := yields_requireFree.1 hfree
  refine (faultless_teams h).bind fun _ _ _ => ?_
  exact (faultless_settle _).bind fun _ _ _ => (faultless_ofRule _).bind fun _ _ _ =>
    (faultless_compose _).bind fun _ _ _ => faultless_pure _

theorem faultless_removal (h : w.storage.Sound) (team member : Ident) :
    v.Faultless (Plan.removal team member) w := by
  refine (faultless_team h team).bind fun t mid ht => ?_
  obtain ⟨-, rfl⟩ := yields_team.1 ht
  refine (faultless_teams h).bind fun _ _ _ => ?_
  exact (faultless_settle _).bind fun _ _ _ => (faultless_ofRule _).bind fun _ _ _ =>
    faultless_pure _

theorem faultless_followStatus (h : w.storage.Sound) (before : Status) (m : Member) :
    v.Faultless (Plan.followStatus before m) w := by
  unfold Plan.followStatus
  split
  · refine (faultless_teamOf h m.id).bind fun found mid hfound => ?_
    obtain ⟨-, rfl⟩ := yields_teamOf.1 hfound
    cases found with
    | none => exact faultless_pure _
    | some t => exact (faultless_removal h t.id m.id).bind fun _ _ _ => faultless_pure _
  · split
    · exact (faultless_assignment h m).bind fun _ _ _ => faultless_pure _
    · exact faultless_pure _

theorem faultless_statusChange (h : w.storage.Sound) (member : Ident) (target : Status) :
    v.Faultless (Plan.statusChange member target) w := by
  refine (faultless_member member).bind fun m mid hm => ?_
  obtain ⟨-, rfl⟩ := yields_member.1 hm
  refine (faultless_ofRule _).bind fun changed mid hchanged => ?_
  obtain ⟨-, rfl⟩ := yields_ofRule.1 hchanged
  exact (faultless_followStatus h _ _).bind fun _ _ _ => faultless_pure _

theorem faultless_freeMembers (h : w.storage.Sound) (ids : List Ident) :
    v.Faultless (UseCase.freeMembers ids) w := by
  induction ids with
  | nil => exact faultless_pure []
  | cons id ids ih =>
      refine (faultless_requireFree h id none).bind fun _ mid hfree => ?_
      obtain ⟨-, rfl⟩ := yields_requireFree.1 hfree
      refine (faultless_member id).bind fun m mid' hm => ?_
      obtain ⟨-, rfl⟩ := yields_member.1 hm
      exact ih.bind fun _ _ _ => faultless_pure _

/-- On a sound store, preparing a command does not end in a fault. -/
theorem faultless_prepare (h : w.storage.Sound) (c : Command) : v.Faultless c.prepare w := by
  cases c with
  | registerMember name email status =>
      exact (faultless_ofRule _).bind fun _ _ _ => (faultless_ofRule _).bind fun _ _ _ =>
        faultless_birth.bind fun _ _ _ => faultless_pure _
  | createTeam name members =>
      refine (faultless_ofRule _).bind fun _ mid hname => ?_
      obtain ⟨-, rfl⟩ := yields_ofRule.1 hname
      exact (faultless_freeMembers h members).bind fun _ _ _ => (faultless_ofRule _).bind
        fun _ _ _ => faultless_birth.bind fun _ _ _ => faultless_pure _
  | addMember team member =>
      exact (faultless_addition h team member).bind fun _ _ _ => faultless_pure _
  | removeMember team member =>
      exact (faultless_removal h team member).bind fun _ _ _ => faultless_pure _
  | changeStatus member target =>
      exact (faultless_statusChange h member target).bind fun _ _ _ => faultless_pure _
  | reassignMember member =>
      refine (faultless_member member).bind fun m mid hm => ?_
      obtain ⟨-, rfl⟩ := yields_member.1 hm
      exact (faultless_assignment h m).bind fun _ _ _ => faultless_pure _

end Plans

end Surroundings

/-- All writes for a member who joined are edits to teams. -/
theorem Composition.isTeamEdit_of_mem {c : Composition} {persisted : List Ident} {member : Ident}
    {e : Edit} (he : e ∈ c.edits persisted member) : e.isTeamEdit = true := by
  cases c with
  | unchanged team =>
      rw [List.mem_singleton.1 he]
      rfl
  | merge destination dissolved moved =>
      rw [List.mem_singleton.1 he]
      rfl
  | split kept new moved =>
      rcases List.mem_append.1 he with he | he
      · rcases List.mem_cons.1 he with rfl | he
        · rfl
        · obtain ⟨id, -, rfl⟩ := List.mem_map.1 he
          rfl
      · split at he
        · rw [List.mem_singleton.1 he]
          rfl
        · cases he

/-- All writes for a removal are edits to teams. -/
theorem Redistribution.isTeamEdit_of_mem {r : Redistribution} {team member : Ident} {e : Edit}
    (he : e ∈ r.edits team member) : e.isTeamEdit = true := by
  rcases List.mem_cons.1 he with rfl | he
  · rfl
  · split at he
    · rcases List.mem_append.1 he with he | he
      · obtain ⟨m, -, rfl⟩ := List.mem_map.1 he
        rfl
      · rw [List.mem_singleton.1 he]
        rfl
    · split at he
      · rw [List.mem_singleton.1 he]
        rfl
      · cases he

/-- A change set that was planned on the store as it is: what it expects is met, and it edits teams. -/
structure Store.Current (s : Store) (c : ChangeSet) : Prop where
  meets (e : Ident × List Ident) : e ∈ c.expectations → s.Meets e
  teams (e : Edit) : e ∈ c.edits → e.isTeamEdit = true

namespace Surroundings

variable {v : Surroundings τ} {w after : World Store τ} {x : WorkflowError}

theorem current_empty (s : Store) : s.Current .empty := by
  constructor
  · rintro e ⟨⟩
  · rintro e ⟨⟩

/-- The plan for a member who joins a team that is stored as it was read. -/
theorem current_joiningPlan {t : Team} (ht : w.storage.Holds t) (m : Member) (i : Intake) :
    w.storage.Current (v.joiningPlan w t m i).changes := by
  constructor
  · intro e he
    rcases Store.mem_expectations_expect he with hnone | rfl
    · cases hnone
    · exact ht.meets
  · intro e he
    rw [joiningPlan, edits_growth, edits_expect] at he
    exact Composition.isTeamEdit_of_mem he

/-- An addition is planned for a team that is held, to which the rules admit the member. -/
theorem joiningPlan_of_addition (hs : w.storage.Keyed) {team member : Ident} {p : Plan Team} :
    v.Yields (Plan.addition team member) w p after ↔
      ∃ t m i, t.id = team ∧ w.storage.Holds t ∧ m.id = member ∧
        w.storage.members.find? m.id = some m ∧ m.id ∉ w.storage.roll ∧ t.intake m = .ok i ∧
        p = v.joiningPlan w t m i ∧ after = w.drew i.needsBirth.toNat 0 := by
  rw [yields_addition]
  constructor
  · rintro ⟨t, m, i, ht, hm, hfree, hi, rfl, rfl⟩
    obtain ⟨rfl, hheld⟩ := (Store.team_eq_ok hs).1 ht
    have heq := hs member m hm
    subst heq
    have habsent := not_mem_roll_of_freeFor hs hheld hfree (Team.intake_eq_ok hi).2.1
    exact ⟨t, m, i, rfl, hheld, rfl, hm, habsent, hi, rfl, rfl⟩
  · rintro ⟨t, m, i, rfl, hheld, rfl, hm, habsent, hi, rfl, rfl⟩
    have hnone : w.storage.teamOf m.id = .ok none := by
      rw [Store.teamOf_eq_none]
      intro team r hr hmem
      exact habsent (Store.mem_roll.2 ⟨team, r, hr, hmem⟩)
    exact ⟨t, m, i, hheld.team hs, hm, ⟨none, hnone, by simp⟩, hi, rfl, rfl⟩

/-- An assignment is planned for the team of the roster that is picked, to which the rules admit the
member. -/
theorem joiningPlan_of_assignment (hs : w.storage.Keyed) {m : Member} {p : Plan Team}
    (hp : v.Yields (Plan.assignment m) w p after) :
    ∃ t i picks, w.storage.Holds t ∧ m.id ∉ w.storage.roll ∧ t.intake m = .ok i ∧
      p = v.joiningPlan w t m i ∧ after = w.drew i.needsBirth.toNat picks := by
  obtain ⟨roster, i, hfree, hroster, hi, rfl, rfl⟩ := yields_assignment.1 hp
  obtain ⟨t, ht, hintake⟩ := assign_eq_ok hi
  refine ⟨t, i, _, (Store.mem_allTeams hs hroster t).1 ht, not_mem_roll hfree, hintake, ?_, rfl⟩
  rw [joiningPlan, team_compose (Team.intake_eq_ok hintake).2.2,
    expectation_of_mem hs hroster ht]

theorem current_of_addition (hs : w.storage.Keyed) {team member : Ident} {p : Plan Team}
    (hp : v.Yields (Plan.addition team member) w p after) : w.storage.Current p.changes := by
  obtain ⟨t, m, i, -, hheld, -, -, -, -, rfl, -⟩ := (joiningPlan_of_addition hs).1 hp
  exact current_joiningPlan hheld m i

theorem current_of_assignment (hs : w.storage.Keyed) {m : Member} {p : Plan Team}
    (hp : v.Yields (Plan.assignment m) w p after) : w.storage.Current p.changes := by
  obtain ⟨t, i, -, hheld, -, -, rfl, -⟩ := joiningPlan_of_assignment hs hp
  exact current_joiningPlan hheld m i

theorem current_of_removal (hs : w.storage.Keyed) {team member : Ident} {p : Plan Team}
    (hp : v.Yields (Plan.removal team member) w p after) : w.storage.Current p.changes := by
  obtain ⟨t, roster, r, ht, hroster, -, rfl, -⟩ := yields_removal.1 hp
  obtain ⟨-, hheld⟩ := (Store.team_eq_ok hs).1 ht
  have hall : ∀ home ∈ roster, w.storage.Holds home := by
    intro home hhome
    exact (Store.mem_allTeams hs hroster home).1 hhome
  constructor
  · exact meets_expectations hheld hall r.composition
  · intro e he
    rw [edits_shrinkage, edits_expectations] at he
    exact Redistribution.isTeamEdit_of_mem he

theorem current_of_followStatus (hs : w.storage.Keyed) {before : Status} {m : Member}
    {p : Plan (Option Team)} (hp : v.Yields (Plan.followStatus before m) w p after) :
    w.storage.Current p.changes := by
  rcases yields_followStatus.1 hp with
    ⟨-, -, rfl, -⟩ | ⟨-, t, q, -, hq, rfl⟩ | ⟨-, -, q, hq, rfl⟩ | ⟨-, -, rfl, -⟩
  · exact current_empty w.storage
  · exact current_of_removal hs hq
  · exact current_of_assignment hs hq
  · exact current_empty w.storage

/-- The write of a command that was prepared on a sound store is not refused for a fault. -/
theorem write_not_fault (h : v.Sound w) {c : Command} {u : Undertaking Answer}
    (hu : v.Yields c.prepare w u after) {e : StorageError}
    (hrefused : (Storage.write Store.storage u.write w.storage).1 = .error e) :
    e.isFault = false := by
  have hplain {p : Plan Team} (hp : w.storage.Current p.changes)
      (hrefused : (w.storage.commit p.changes).1 = .error e) : e.isFault = false :=
    Store.commit_not_fault hp.meets hp.teams hrefused
  cases c with
  | registerMember name email status =>
      obtain ⟨m, hsave⟩ := Setting.write_of_registerMember hu
      rw [hsave] at hrefused
      cases hrefused
  | createTeam name members =>
      obtain ⟨t, hform⟩ := Setting.write_of_createTeam hu
      rw [hform] at hrefused
      exact Store.apply_not_fault rfl (Store.apply_of_not_written hrefused)
  | addMember team member =>
      obtain ⟨p, hp, rfl⟩ := Command.yields_undertaking.1 hu
      exact hplain (current_of_addition h.store.keyed hp) hrefused
  | removeMember team member =>
      obtain ⟨p, hp, rfl⟩ := Command.yields_undertaking.1 hu
      exact hplain (current_of_removal h.store.keyed hp) hrefused
  | reassignMember member =>
      obtain ⟨m, mid, hm, hrest⟩ := yields_bind.1 hu
      obtain ⟨-, rfl⟩ := yields_member.1 hm
      obtain ⟨p, hp, rfl⟩ := Command.yields_undertaking.1 hrest
      exact hplain (current_of_assignment h.store.keyed hp) hrefused
  | changeStatus member target =>
      obtain ⟨p, hp, rfl⟩ := Command.yields_undertaking.1 hu
      obtain ⟨m, q, hm, -, hq, rfl⟩ := yields_statusChange.1 hp
      have hcurrent := current_of_followStatus h.store.keyed hq
      exact Store.commit_status_not_fault hcurrent.meets hcurrent.teams hm hrefused

/-- On a sound store no command ends in a fault. -/
theorem perform_faultless (h : v.Sound w) (c : Command) : v.Faultless c.perform w := by
  intro x hfails
  rcases Command.fails_perform hfails with
    ⟨lost, rfl⟩ | hprepare | ⟨u, ready, e, hprepared, hrefused, rfl⟩
  · rfl
  · exact faultless_prepare h.store c x hprepare
  · exact write_not_fault h hprepared hrefused

end Surroundings

end TeamRoster
