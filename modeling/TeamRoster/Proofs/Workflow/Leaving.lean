import TeamRoster.Proofs.Workflow.Deeds
import TeamRoster.Proofs.Workflow.Refusals

/-!
# Leaving is never refused

Whoever is in a team can be removed from it, and whoever may stop being active can. Main statement:
`leaving_never_refused`. That the last member left behind can move, that the teams are still as they
were read and that every write goes through, all of this follows from the stores being sound:
`removal_accepts` and `fails_removal` say so of one plan.
-/

namespace TeamRoster

variable {τ : Type}

namespace Departure

variable {s : Store} {team : Team} {roster : List Team} {removed : Member} {left : List Member}
  {r : Redistribution} {member : Ident}

/-- The writes of a removal go through, if the teams are stored and so are those who are left. -/
theorem applies (h : Departure team roster removed left r) (ht : s.Holds team)
    (hmember : member ∈ team.memberIds) (hroster : ∀ home ∈ roster, s.Holds home)
    (hleft : ∀ x ∈ left, s.members.contains x.id = true) :
    ∃ d, s.applyAll (r.edits team.id member) = .ok d := by
  obtain ⟨place, hplace⟩ := ht.record
  have hremove : s.apply (.removeMember team.id member) =
      .ok (s.rewrite team.id (some ((team.record place).leave member))) :=
    Store.apply_removeMember_eq_ok.2 ⟨_, hplace, hmember, rfl⟩
  have hstays : ∃ d, s.applyAll [.removeMember team.id member] = .ok d :=
    ⟨_, Failing.bind_eq_ok.2 ⟨_, hremove, rfl⟩⟩
  cases h with
  | stranded last alone => exact hstays
  | small two => exact hstays
  | normal more => exact hstays
  | emptied =>
      have hthere : ((s.rewrite team.id (some ((team.record place).leave member))).teams.find?
          team.id).isSome = true := by
        rw [Store.find?_rewrite, if_pos rfl]
        rfl
      exact ⟨_, Failing.bind_eq_ok.2 ⟨_, hremove, Failing.bind_eq_ok.2
        ⟨_, Store.apply_deleteTeam_eq_ok.2 ⟨hthere, rfl⟩, rfl⟩⟩⟩
  | moved last home homes active absent =>
      obtain ⟨hmem, hother, -⟩ := mem_otherHomes.1 homes
      obtain ⟨other, hfound⟩ := (hroster home hmem).record
      -- The home is another team, which the removal has left alone.
      have hhome : (s.rewrite team.id (some ((team.record place).leave member))).teams.find?
          home.id = some (home.record other) := by
        rw [Store.find?_rewrite, if_neg hother, hfound]
      have hthere : (((s.rewrite team.id (some ((team.record place).leave member))).rewrite home.id
          (some ((home.record other).join last.id))).teams.find? team.id).isSome = true := by
        rw [Store.find?_rewrite, if_neg (Ne.symm hother), Store.find?_rewrite, if_pos rfl]
        rfl
      have hlast := hleft last List.mem_cons_self
      exact ⟨_, Failing.bind_eq_ok.2 ⟨_, hremove, Failing.bind_eq_ok.2
        ⟨_, Store.apply_addMember_eq_ok.2 ⟨hlast, _, hhome, rfl⟩, Failing.bind_eq_ok.2
          ⟨_, Store.apply_deleteTeam_eq_ok.2 ⟨hthere, rfl⟩, rfl⟩⟩⟩⟩

end Departure

/-- In a sound store, the members of a team may join every other team. -/
theorem Store.Sound.checkJoin {s : Store} (h : s.Sound) {t home : Team} (ht : s.Holds t)
    (hhome : s.Holds home) (hother : home.id ≠ t.id) {m : Member} (hm : m ∈ t.members) :
    home.checkJoin m = .ok () := by
  obtain ⟨place, hplace⟩ := ht.record
  obtain ⟨other, hfound⟩ := hhome.record
  refine Team.checkJoin_eq_ok.2 ⟨h.active_of_mem ht hm, ?_⟩
  intro hmem
  exact hother (roll_nodup_team h.once hfound hplace hmem (Team.mem_memberIds_of_mem hm))

/-- In a sound store, a removal from a stored team is refused only if the team does not list the
member: whoever is left alone may join the home that was found. -/
theorem Store.Sound.redistribute_eq_error {s : Store} (h : s.Sound) {t : Team} (ht : s.Holds t)
    {roster : List Team} (hroster : s.allTeams = .ok roster) {member : Ident} {pick : Nat → Nat}
    {e : RuleError} (hrefused : (redistribute t member roster).resolve pick = .error e) :
    member ∉ t.memberIds ∧ e = .notListed member t.id := by
  rcases TeamRoster.redistribute_eq_error hrefused with
    hremove | ⟨removed, shrunken, last, home, hremove, hlast, hhome, hcheck⟩
  · exact Team.remove_eq_error.1 hremove
  · obtain ⟨hmem, hother, -⟩ := mem_otherHomes.1 hhome
    obtain ⟨-, -, -, -, hsub⟩ := Team.remove_spec hremove
    have hheld := (mem_allTeams h.keyed hroster home).1 hmem
    rw [h.checkJoin ht hheld hother (hsub last hlast)] at hcheck
    cases hcheck

namespace Surroundings

variable {v : Surroundings τ} {w after : World Store τ} {team member : Ident} {x : WorkflowError}

/-- The teams of a removal are stored as they are expected to be. -/
theorem meets_expectations {s : Store} {t : Team} {roster : List Team} (ht : s.Holds t)
    (hroster : ∀ home ∈ roster, s.Holds home) (c : Composition) :
    ∀ e ∈ (expectations t roster c).expectations, s.Meets e := by
  have hone : ∀ e ∈ (ChangeSet.empty.expect t).expectations, s.Meets e := by
    intro e he
    rcases Store.mem_expectations_expect he with hnone | rfl
    · cases hnone
    · exact ht.meets
  cases c with
  | unchanged team => exact hone
  | split kept new moved => exact hone
  | merge destination dissolved moved =>
      simp only [expectations]
      cases hstored : Plan.stored? roster destination.id with
      | none => exact hone
      | some home =>
          intro e he
          rcases Store.mem_expectations_expect he with hbefore | rfl
          · exact hone e hbefore
          · exact (hroster home (List.mem_of_find?_eq_some hstored)).meets

/-- The plan of a removal is accepted. -/
theorem removal_accepts (h : v.Sound w) {p : Plan Team}
    (hp : v.Yields (Plan.removal team member) w p after) : w.storage.Accepts p.changes := by
  obtain ⟨t, m, roster, left, r, rfl, rfl, hparting, -, rfl⟩ := parting_of_removal h.store.keyed hp
  obtain ⟨-, -, -, -, hsub⟩ := Team.remove_spec hparting.removed
  have hroster : ∀ home ∈ roster, w.storage.Holds home := by
    intro home hhome
    exact (Store.mem_allTeams h.store.keyed hparting.read home).1 hhome
  have hleft : ∀ x ∈ left, w.storage.members.contains x.id = true := by
    intro x hx
    obtain ⟨hstored, -⟩ := hparting.held.listed (hsub x hx)
    exact Directory.contains_iff.2 ⟨x, hstored⟩
  have hedits : (partingPlan t m roster r).changes.edits = r.edits t.id m.id := by
    rw [partingPlan, edits_shrinkage, edits_expectations, List.nil_append]
  obtain ⟨d, happly⟩ := hparting.departure.applies hparting.held
    (Team.mem_memberIds_of_mem hparting.listed) hroster hleft
  obtain ⟨-, hmembers, -⟩ :=
    hparting.departure.effects hparting.removed hparting.held hroster d happly
  exact ⟨meets_expectations hparting.held hroster r.composition, d, hedits ▸ happly, hmembers⟩

/-- A removal is refused only if the team is not stored, or does not list the member. -/
theorem fails_removal (h : v.Sound w) (hfails : v.Fails (Plan.removal team member) w x) :
    (w.storage.teams.find? team = none ∧ x = .storage (.notFound .team team)) ∨
      ∃ r, w.storage.teams.find? team = some r ∧ member ∉ r.memberIds ∧
        x = .rule (.notListed member team) := by
  unfold Plan.removal at hfails
  simp only [fails_bind, yields_team, yields_teams, yields_settle, fails_ofRule] at hfails
  rcases hfails with hteam | ⟨t, _, ⟨ht, rfl⟩, hfails⟩
  · obtain ⟨e, he, rfl⟩ := fails_team.1 hteam
    obtain ⟨hnone, rfl⟩ := h.store.team_eq_error.1 he
    exact .inl ⟨hnone, rfl⟩
  · obtain ⟨rfl, hheld⟩ := (Store.team_eq_ok h.store.keyed).1 ht
    obtain ⟨place, hplace⟩ := hheld.record
    rcases hfails with hteams | ⟨roster, _, ⟨hroster, rfl⟩, hfails⟩
    · obtain ⟨e, he, -⟩ := fails_teams.1 hteams
      obtain ⟨roster, hroster⟩ := h.store.allTeams
      rw [hroster] at he
      cases he
    · rcases hfails with hsettle | ⟨_, _, ⟨rfl, rfl⟩, hfails⟩
      · exact absurd hsettle not_fails_settle
      · rcases hfails with ⟨e, hrefused, rfl⟩ | ⟨r, _, -, hpure⟩
        · obtain ⟨habsent, rfl⟩ := h.store.redistribute_eq_error hheld hroster hrefused
          exact .inr ⟨_, hplace, habsent, rfl⟩
        · exact absurd hpure not_fails_pure

/-- The removal of a member who is listed is not refused. -/
theorem not_fails_removal (h : v.Sound w) {r : TeamRecord}
    (hr : w.storage.teams.find? team = some r) (hlisted : member ∈ r.memberIds) :
    ¬ v.Fails (Plan.removal team member) w x := by
  intro hfails
  rcases fails_removal h hfails with ⟨hnone, -⟩ | ⟨q, hq, habsent, -⟩
  · rw [hr] at hnone
    cases hnone
  · rw [hr] at hq
    cases hq
    exact habsent hlisted

/-- What a change of status does to the teams is never refused where nobody becomes active, for a
member who is stored. -/
theorem not_fails_followStatus (h : v.Sound w) {before : Status} {m : Member}
    (haway : m.status ≠ .active) : ¬ v.Fails (Plan.followStatus before m) w x := by
  unfold Plan.followStatus
  by_cases hbefore : before = .active
  · simp only [if_pos hbefore, fails_bind, yields_teamOf]
    rintro (hread | ⟨found, _, ⟨hfound, rfl⟩, hfails⟩)
    · obtain ⟨e, he, -⟩ := fails_teamOf.1 hread
      obtain ⟨found, hfound⟩ := h.store.teamOf m.id
      rw [hfound] at he
      cases he
    · cases found with
      | none => exact not_fails_pure hfails
      | some t =>
          obtain ⟨hheld, hmem⟩ := Store.holds_of_teamOf_eq_some h.store.keyed hfound
          obtain ⟨place, hplace⟩ := hheld.record
          rcases fails_bind.1 hfails with hremoval | ⟨p, _, -, hpure⟩
          · exact not_fails_removal h hplace hmem hremoval
          · exact not_fails_pure hpure
  · rw [if_neg hbefore, if_neg haway]
    exact not_fails_pure

/-- A change of status by which nobody becomes active is refused only if the member is not stored, or
if the status may not change like this. -/
theorem fails_statusChange (h : v.Sound w) {target : Status} (haway : target ≠ .active)
    (hfails : v.Fails (Plan.statusChange member target) w x) :
    (w.storage.members.find? member = none ∧ x = .storage (.notFound .member member)) ∨
      ∃ m, w.storage.members.find? member = some m ∧ m.status.canBecome target = false ∧
        x = .rule (.transitionRefused m.status target) := by
  unfold Plan.statusChange at hfails
  simp only [fails_bind, fails_member, yields_member, fails_ofRule, yields_ofRule,
    Member.transition_eq_ok, Member.transition_eq_error] at hfails
  rcases hfails with ⟨hnone, rfl⟩ | ⟨m, _, ⟨hm, rfl⟩, hfails⟩
  · exact .inl ⟨hnone, rfl⟩
  · rcases hfails with ⟨e, ⟨hrefused, rfl⟩, rfl⟩ | ⟨changed, _, ⟨⟨-, rfl⟩, rfl⟩, hfails⟩
    · exact .inr ⟨m, hm, hrefused, rfl⟩
    · rcases hfails with hfollow | ⟨p, _, -, hpure⟩
      · exact absurd hfollow (not_fails_followStatus h haway)
      · exact absurd hpure not_fails_pure

/-- The plan of a change of status by which nobody becomes active is committed. -/
theorem statusChange_commits (h : v.Sound w) {target : Status} (haway : target ≠ .active)
    {p : Plan Plan.StatusChange} (hp : v.Yields (Plan.statusChange member target) w p after) :
    ∃ s, w.storage.commit p.changes = (.ok (), s) := by
  obtain ⟨m, q, hm, -, hq, rfl⟩ := yields_statusChange.1 hp
  have haccepts : w.storage.Accepts q.changes := by
    rcases yields_followStatus.1 hq with
      ⟨-, -, rfl, -⟩ | ⟨-, t, q', -, hq', rfl⟩ | ⟨-, htarget, -⟩ | ⟨-, -, rfl, -⟩
    · exact w.storage.accepts_empty
    · exact removal_accepts h hq'
    · exact absurd htarget haway
    · exact w.storage.accepts_empty
  exact haccepts.commits_status hm

end Surroundings

/-- How the removal of a member from a team can fail. -/
inductive RemovalFailure (s : Store) (team member : Ident) : WorkflowError → Prop
  /-- The member was removed, but not everybody was told. -/
  | undelivered (lost : DeliveryError) : RemovalFailure s team member (.delivery lost)
  | unknown (absent : s.teams.find? team = none) :
      RemovalFailure s team member (.storage (.notFound .team team))
  | unlisted {r : TeamRecord} (stored : s.teams.find? team = some r)
      (absent : member ∉ r.memberIds) : RemovalFailure s team member (.rule (.notListed member team))

/-- How a change of the status of a member who does not become active can fail. -/
inductive PauseFailure (s : Store) (member : Ident) (target : Status) : WorkflowError → Prop
  /-- The status was changed, but not everybody was told. -/
  | undelivered (lost : DeliveryError) : PauseFailure s member target (.delivery lost)
  | unknown (absent : s.members.find? member = none) :
      PauseFailure s member target (.storage (.notFound .member member))
  | refused {m : Member} (stored : s.members.find? member = some m)
      (barred : m.status.canBecome target = false) :
      PauseFailure s member target (.rule (.transitionRefused m.status target))

/-- Failures by which a request is turned down although it is about somebody who only leaves. -/
def WorkflowError.detains : WorkflowError → Bool
  | rule (.notActive _) | rule (.alreadyListed _) | storage (.nameTaken _)
  | storage (.conflict _ _) | storage (.corrupted _) | storage (.database _) => true
  | _ => false

namespace Surroundings

variable {v : Surroundings τ} {w : World Store τ} {team member : Ident} {target : Status}
  {x : WorkflowError}

/-- Every removal that is prepared is committed. -/
theorem writes_removal (h : v.Sound w) (u : Undertaking Answer) (ready : World Store τ)
    (hu : v.Yields (Command.removeMember team member).prepare w u ready) :
    ∃ s, Storage.write Store.storage u.write w.storage = (.ok (), s) := by
  obtain ⟨p, hp, rfl⟩ := Command.yields_undertaking.1 hu
  exact (removal_accepts h hp).commits

/-- Every change of status that is prepared is committed, where nobody becomes active. -/
theorem writes_statusChange (h : v.Sound w) (haway : target ≠ .active) (u : Undertaking Answer)
    (ready : World Store τ) (hu : v.Yields (Command.changeStatus member target).prepare w u ready) :
    ∃ s, Storage.write Store.storage u.write w.storage = (.ok (), s) := by
  obtain ⟨p, hp, rfl⟩ := Command.yields_undertaking.1 hu
  exact statusChange_commits h haway hp

/-- A removal goes through exactly if the team is stored and lists the member. -/
theorem saves_removal (h : v.Sound w) :
    v.Saves (.removeMember team member) w ↔
      ∃ r, w.storage.teams.find? team = some r ∧ member ∈ r.memberIds := by
  rw [Command.saves_iff_prepares (writes_removal h)]
  constructor
  · rintro ⟨u, ready, hu⟩
    obtain ⟨p, hp, rfl⟩ := Command.yields_undertaking.1 hu
    obtain ⟨t, m, roster, left, r, rfl, rfl, hparting, -, -⟩ := parting_of_removal h.store.keyed hp
    obtain ⟨place, hplace⟩ := hparting.held.record
    exact ⟨_, hplace, Team.mem_memberIds_of_mem hparting.listed⟩
  · rintro ⟨r, hr, hlisted⟩
    rcases v.yields_or_fails (Command.removeMember team member).prepare w with hyields | ⟨x, hfails⟩
    · exact hyields
    · exact absurd (fails_undertaking.1 hfails) (not_fails_removal h hr hlisted)

/-- A change of status by which nobody becomes active goes through exactly if the member is stored and
the status may change like this. -/
theorem saves_statusChange (h : v.Sound w) (haway : target ≠ .active) :
    v.Saves (.changeStatus member target) w ↔
      ∃ m, w.storage.members.find? member = some m ∧ m.status.canBecome target = true := by
  rw [Command.saves_iff_prepares (writes_statusChange h haway)]
  constructor
  · rintro ⟨u, ready, hu⟩
    obtain ⟨p, hp, rfl⟩ := Command.yields_undertaking.1 hu
    obtain ⟨m, q, hm, hallowed, -, -⟩ := yields_statusChange.1 hp
    exact ⟨m, hm, hallowed⟩
  · rintro ⟨m, hm, hallowed⟩
    rcases v.yields_or_fails (Command.changeStatus member target).prepare w with
      hyields | ⟨x, hfails⟩
    · exact hyields
    · rcases fails_statusChange h haway (fails_undertaking.1 hfails) with
        ⟨hnone, -⟩ | ⟨y, hy, hbarred, -⟩
      · rw [hm] at hnone
        cases hnone
      · rw [hm] at hy
        cases hy
        rw [hallowed] at hbarred
        cases hbarred

/-- A removal fails only in the ways that are listed. -/
theorem removalFailure (h : v.Sound w)
    (hfails : v.Fails (Command.removeMember team member).perform w x) :
    RemovalFailure w.storage team member x := by
  rcases Command.fails_prepare (writes_removal h) hfails with ⟨lost, rfl⟩ | hprepare
  · exact .undelivered lost
  · rcases fails_removal h (fails_undertaking.1 hprepare) with ⟨hnone, rfl⟩ | ⟨r, hr, habsent, rfl⟩
    · exact .unknown hnone
    · exact .unlisted hr habsent

/-- A change of status by which nobody becomes active fails only in the ways that are listed. -/
theorem pauseFailure (h : v.Sound w) (haway : target ≠ .active)
    (hfails : v.Fails (Command.changeStatus member target).perform w x) :
    PauseFailure w.storage member target x := by
  rcases Command.fails_prepare (writes_statusChange h haway) hfails with ⟨lost, rfl⟩ | hprepare
  · exact .undelivered lost
  · rcases fails_statusChange h haway (fails_undertaking.1 hprepare) with
      ⟨hnone, rfl⟩ | ⟨m, hm, hbarred, rfl⟩
    · exact .unknown hnone
    · exact .refused hm hbarred

/-- Leaving is never refused. On a reachable world, a removal goes through exactly if the team is stored
and lists the member, and a change of status by which nobody becomes active exactly if the member is
stored and the status may change like this. Neither can fail in a way that is not listed: never because
somebody may not join a team or is in it already, because a name is taken, of a conflict or of what is
stored. -/
theorem leaving_never_refused (hw : v.Reachable w) (hbirths : v.DistinctBirths w.born) :
    (∀ team member,
      (v.Saves (.removeMember team member) w ↔
          ∃ r, w.storage.teams.find? team = some r ∧ member ∈ r.memberIds) ∧
        ∀ x, v.Fails (Command.removeMember team member).perform w x →
          RemovalFailure w.storage team member x ∧ x.detains = false) ∧
      ∀ member target, target ≠ .active →
        (v.Saves (.changeStatus member target) w ↔
            ∃ m, w.storage.members.find? member = some m ∧ m.status.canBecome target = true) ∧
          ∀ x, v.Fails (Command.changeStatus member target).perform w x →
            PauseFailure w.storage member target x ∧ x.detains = false := by
  have hsound := hw.sound hbirths
  constructor
  · intro team member
    refine ⟨saves_removal hsound, ?_⟩
    intro x hfails
    have hfailure := removalFailure hsound hfails
    exact ⟨hfailure, by cases hfailure <;> rfl⟩
  · intro member target haway
    refine ⟨saves_statusChange hsound haway, ?_⟩
    intro x hfails
    have hfailure := pauseFailure hsound haway hfails
    exact ⟨hfailure, by cases hfailure <;> rfl⟩

/-- A member of the full team can be removed from it and can go on leave. -/
theorem leaving_never_refused_full :
    counting.Saves (.removeMember (.ofRandom 5) (.ofRandom 3)) full ∧
      counting.Saves (.changeStatus (.ofRandom 3) .onLeave) full := by
  have hteam : (full.storage.teams.find? (.ofRandom 5)).any
      (fun r => decide (.ofRandom 3 ∈ r.memberIds)) = true := by
    decide +kernel
  have hmember : (full.storage.members.find? (.ofRandom 3)).any
      (fun m => m.status.canBecome .onLeave) = true := by
    decide +kernel
  obtain ⟨r, hr, hlisted⟩ := (Option.any_eq_true _ _).1 hteam
  obtain ⟨m, hm, hallowed⟩ := (Option.any_eq_true _ _).1 hmember
  obtain ⟨hremoval, hpause⟩ := leaving_never_refused reachable_full (by decide +kernel)
  obtain ⟨hremoves, -⟩ := hremoval (.ofRandom 5) (.ofRandom 3)
  obtain ⟨hpauses, -⟩ := hpause (.ofRandom 3) .onLeave (by decide)
  exact ⟨hremoves.2 ⟨r, hr, of_decide_eq_true hlisted⟩, hpauses.2 ⟨m, hm, hallowed⟩⟩

end Surroundings

end TeamRoster
