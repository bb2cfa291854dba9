import TeamRoster.Proofs.Workflow.Carrying
import TeamRoster.Proofs.Workflow.Faults

/-!
# A change of status and what it does to the teams

A member who goes away leaves a team as by a removal, and one who comes back joins a team as by an
assignment. Main statement: `status_path_agrees`. A change of status plans what the other use case
plans, and carries it out with the one write of the status added (`exec_carryOut_status`).
-/

namespace TeamRoster

variable {τ : Type}

namespace Surroundings

variable {v : Surroundings τ} {w : World Store τ} {m : Member} {target : Status}

/-- A run of a use case that returns a team, as it comes out as a part of a change of status: the team
is shown with the change, and the status is set unless the run was refused. -/
def withStatus (m : Member) (target : Status) :
    Except WorkflowError Team × World Store τ →
      Except WorkflowError Plan.StatusChange × World Store τ
  | (.ok t, after) => (.ok ⟨m.id, m.status, target, some t⟩, after.restate m.id m target)
  | (.error (.delivery lost), after) => (.error (.delivery lost), after.restate m.id m target)
  | (.error e, after) => (.error e, after)

theorem withStatus_result (run : Except WorkflowError Team × World Store τ) :
    (withStatus m target run).1 = run.1.map fun t => ⟨m.id, m.status, target, some t⟩ := by
  rcases run with ⟨_ | t, after⟩
  · rename_i e
    cases e <;> rfl
  · rfl

theorem withStatus_teams (run : Except WorkflowError Team × World Store τ) :
    (withStatus m target run).2.storage.teams = run.2.storage.teams := by
  rcases run with ⟨_ | t, after⟩
  · rename_i e
    cases e <;> rfl
  · rfl

/-- Where the run was not refused, the status is set. -/
theorem withStatus_of_done {run : Except WorkflowError Team × World Store τ}
    (hdone : ∀ x, run.1 = .error x → x.isDelivery = true) :
    (withStatus m target run).2 = run.2.restate m.id m target := by
  rcases run with ⟨_ | t, after⟩
  · rename_i e
    cases e with
    | delivery lost => rfl
    | rule e => exact absurd (hdone _ rfl) Bool.false_ne_true
    | storage e => exact absurd (hdone _ rfl) Bool.false_ne_true
  · rfl

/-- Where the run was refused, the status is left alone. -/
theorem withStatus_of_refused {run : Except WorkflowError Team × World Store τ} {e : WorkflowError}
    (hrefused : run.1 = .error e) (hkind : e.isDelivery = false) :
    (withStatus m target run).2 = run.2 := by
  obtain ⟨reply, after⟩ := run
  cases hrefused
  cases e with
  | delivery lost => cases hkind
  | rule e => rfl
  | storage e => rfl

/-- The plan of a change of status is carried out as the plan that it was made of, with the status set
as well. -/
theorem exec_carryOut_status {q : Plan Team} (hall : ∀ e ∈ q.changes.edits, e.isTeamEdit = true)
    (hm : w.storage.members.find? m.id = some m) :
    v.setting.exec (statusPlan m m.id target (aside q)).carryOut w =
      withStatus m target (v.setting.exec q.carryOut w) := by
  have hpush : w.storage.commit (statusPlan m m.id target (aside q)).changes = _ :=
    Store.commit_push_status hall hm target
  cases hcommit : w.storage.commit q.changes with
  | mk reply s =>
      rw [hcommit] at hpush
      cases reply with
      | error e =>
          rw [exec_carryOut_of_refused hcommit, exec_carryOut_of_refused hpush]
          rfl
      | ok done =>
          rw [exec_carryOut_of_committed hcommit, exec_carryOut_of_committed hpush]
          change (((v.setting.tell q.events w.transport).1.mapError _).map _, _) = _
          cases (v.setting.tell q.events w.transport).1 <;> rfl

/-- Nobody else is told because the status is set as well. -/
theorem attemptsOf_carryOut_status {q : Plan Team}
    (hall : ∀ e ∈ q.changes.edits, e.isTeamEdit = true)
    (hm : w.storage.members.find? m.id = some m) :
    attemptsOf (v.setting.log (statusPlan m m.id target (aside q)).carryOut w) =
      attemptsOf (v.setting.log q.carryOut w) := by
  apply attemptsOf_carryOut_congr
  · rfl
  · rfl
  · have hpush : w.storage.commit (statusPlan m m.id target (aside q)).changes = _ :=
      Store.commit_push_status hall hm target
    rw [hpush]
    rcases w.storage.commit q.changes with ⟨_ | done, s⟩ <;> rfl

/-- A change of status came out as another use case did that moves the member in or out of a team: with
the same team or the same failure, the same stored teams, and the same events to be told. -/
structure Alike (v : Surroundings τ) (m : Member) (target : Status) (w : World Store τ)
    (move : UseCase Team) (w' : World Store τ) : Prop where
  result : (v.setting.exec (UseCase.changeStatus m.id target) w).1 =
    (v.setting.exec move w').1.map fun t => ⟨m.id, m.status, target, some t⟩
  teams : (v.setting.exec (UseCase.changeStatus m.id target) w).2.storage.teams =
    (v.setting.exec move w').2.storage.teams
  attempts : attemptsOf (v.setting.log (UseCase.changeStatus m.id target) w) =
    attemptsOf (v.setting.log move w')

section Leaving

variable {team : Ident} {r : TeamRecord}

/-- In a sound store, the team found for a member is the one that lists the member. -/
theorem teamOf_of_listed (h : v.Sound w) (hr : w.storage.teams.find? team = some r)
    (hlisted : m.id ∈ r.memberIds) : ∃ t, t.id = team ∧ w.storage.teamOf m.id = .ok (some t) := by
  obtain ⟨found, hfound⟩ := h.store.teamOf m.id
  cases found with
  | none => exact absurd hlisted (Store.teamOf_eq_none.1 hfound team r hr)
  | some t =>
      obtain ⟨hheld, hmem⟩ := Store.holds_of_teamOf_eq_some h.store.keyed hfound
      obtain ⟨place, hplace⟩ := hheld.record
      exact ⟨t, Store.roll_nodup_team h.store.once hplace hr hmem hlisted, hfound⟩

/-- For a member who is listed, a removal and a change of status are planned alike. -/
theorem exists_pausing (h : v.Sound w) (hr : w.storage.teams.find? team = some r)
    (hlisted : m.id ∈ r.memberIds) (hm : w.storage.members.find? m.id = some m)
    (haway : target ≠ .active) :
    ∃ q ready, v.Yields (Plan.removal team m.id) w q ready ∧
      v.Yields (Plan.statusChange m.id target) w (statusPlan m m.id target (aside q)) ready := by
  obtain ⟨x, hx, hactive⟩ := h.store.active m.id (Store.mem_roll.2 ⟨team, r, hr, hlisted⟩)
  rw [hm] at hx
  cases hx
  have hallowed : m.status.canBecome target = true := by
    rw [hactive]
    exact Status.active_canBecome haway
  obtain ⟨t, rfl, hfound⟩ := teamOf_of_listed h hr hlisted
  rcases yields_or_fails v (Plan.removal t.id m.id) w with ⟨q, ready, hq⟩ | ⟨e, hfails⟩
  · refine ⟨q, ready, hq, yields_statusChange.2 ⟨m, aside q, hm, hallowed, ?_, rfl⟩⟩
    exact yields_followStatus.2 (.inr (.inl ⟨hactive, t, q, hfound, hq, rfl⟩))
  · exact absurd hfails (not_fails_removal h hr hlisted)

/-- A plan that is accepted is carried out with the status set, whatever becomes of the deliveries. -/
theorem members_carryOut_status {q : Plan Team} (hall : ∀ e ∈ q.changes.edits, e.isTeamEdit = true)
    (haccepts : w.storage.Accepts q.changes) (hm : w.storage.members.find? m.id = some m) :
    (v.setting.exec (statusPlan m m.id target (aside q)).carryOut w).2.storage.members =
      w.storage.members.insert m.id { m with status := target } := by
  obtain ⟨s, hcommit⟩ := haccepts.commits
  have hkept : (w.storage.commit q.changes).2.members = w.storage.members :=
    Store.commit_members hall
  have hpush : w.storage.commit (statusPlan m m.id target (aside q)).changes = _ :=
    Store.commit_push_status hall hm target
  rw [hcommit] at hkept hpush
  calc
    (v.setting.exec (statusPlan m m.id target (aside q)).carryOut w).2.storage.members =
        s.members.insert m.id { m with status := target } := by
      rw [storage_carryOut, hpush]
      rfl
    _ = w.storage.members.insert m.id { m with status := target } := by rw [hkept]

/-- To go away is to be removed from the team, with the status set as well. -/
theorem pausing_agrees (h : v.Sound w) (hr : w.storage.teams.find? team = some r)
    (hlisted : m.id ∈ r.memberIds) (hm : w.storage.members.find? m.id = some m)
    (haway : target ≠ .active) :
    v.Alike m target w (UseCase.removeMember team m.id) w ∧
      (v.setting.exec (UseCase.removeMember team m.id) w).2.storage.members = w.storage.members ∧
      (v.setting.exec (UseCase.changeStatus m.id target) w).2.storage.members =
        w.storage.members.insert m.id { m with status := target } := by
  obtain ⟨q, ready, hq, hp⟩ := exists_pausing h hr hlisted hm haway
  have hall := (current_of_removal h.store.keyed hq).teams
  have haccepts := removal_accepts h hq
  have hstorage := storage_of_prepares (UseCase.prepares_removal team m.id) hq
  rw [← hstorage] at hm haccepts
  have hremoved : v.setting.exec (UseCase.removeMember team m.id) w =
      v.setting.exec q.carryOut ready := exec_of_plan hq
  have hpaused : v.setting.exec (UseCase.changeStatus m.id target) w =
      v.setting.exec (statusPlan m m.id target (aside q)).carryOut ready := exec_of_plan hp
  have hstatus : v.setting.exec (statusPlan m m.id target (aside q)).carryOut ready =
      withStatus m target (v.setting.exec q.carryOut ready) := exec_carryOut_status hall hm
  refine ⟨⟨?_, ?_, ?_⟩, ?_, ?_⟩
  · rw [hpaused, hremoved, hstatus, withStatus_result]
  · rw [hpaused, hremoved, hstatus, withStatus_teams]
  · calc
      attemptsOf (v.setting.log (UseCase.changeStatus m.id target) w) =
          attemptsOf (v.setting.log (statusPlan m m.id target (aside q)).carryOut ready) :=
        attemptsOf_of_yields (UseCase.prepares_statusChange m.id target) hp
      _ = attemptsOf (v.setting.log q.carryOut ready) := attemptsOf_carryOut_status hall hm
      _ = attemptsOf (v.setting.log (UseCase.removeMember team m.id) w) :=
        (attemptsOf_of_yields (UseCase.prepares_removal team m.id) hq).symm
  · rw [hremoved, members_carryOut hall, hstorage]
  · rw [hpaused, members_carryOut_status hall haccepts hm, hstorage]

end Leaving

section Returning

/-- An assignment is planned with edits to teams, or refused, and nothing is stored meanwhile. -/
theorem exec_assignment (h : v.Sound w) (m : Member) :
    (∃ q ready, v.setting.exec (Plan.assignment m) w = (.ok q, ready) ∧
        ready.storage = w.storage ∧ ∀ e ∈ q.changes.edits, e.isTeamEdit = true) ∨
      ∃ x ready, v.setting.exec (Plan.assignment m) w = (.error x, ready) ∧
        ready.storage = w.storage ∧ x.isDelivery = false := by
  have hprepares := UseCase.prepares_assignment m
  have hkept := (v.exec_preparesIn hprepares w).1
  rcases v.exec_preparesIn_value hprepares w with ⟨q, ready, hplan, -⟩ | ⟨x, ready, hplan, hx⟩
  · rw [hplan] at hkept
    exact .inl ⟨q, ready, hplan, hkept, (current_of_assignment h.store.keyed hplan).teams⟩
  · rw [hplan] at hkept
    exact .inr ⟨x, ready, hplan, hkept, hx⟩

/-- For a member who is away, a change of status plans the assignment of the member who comes back. -/
theorem exec_statusChange_return (hm : w.storage.members.find? m.id = some m)
    (haway : m.status ≠ .active) :
    v.setting.exec (Plan.statusChange m.id .active) w =
      ((v.setting.exec (Plan.assignment { m with status := .active }) w).1.map fun q =>
          statusPlan m m.id .active (aside q),
        (v.setting.exec (Plan.assignment { m with status := .active }) w).2) := by
  have hmember : v.setting.exec (UseCase.member m.id) w = (.ok m, w) := yields_member.2 ⟨hm, rfl⟩
  have htransition : v.setting.exec (UseCase.ofRule (m.transition .active)) w =
      (.ok { m with status := .active }, w) :=
    yields_ofRule.2 ⟨Member.transition_eq_ok.2 ⟨Status.canBecome_active haway, rfl⟩, rfl⟩
  rw [Plan.statusChange, Setting.exec_bind, hmember]
  simp only [Setting.exec_bind, htransition, Plan.followStatus, if_neg haway, if_true]
  cases v.setting.exec (Plan.assignment { m with status := .active }) w with
  | mk r ready => cases r <;> rfl

/-- To come back is to be assigned, with the status set as well. -/
theorem exec_return (h : v.Sound w) (hm : w.storage.members.find? m.id = some m)
    (haway : m.status ≠ .active) :
    v.setting.exec (UseCase.changeStatus m.id .active) w = withStatus m .active
      (v.setting.exec (Plan.assignment { m with status := .active } >>= Plan.carryOut) w) := by
  rw [UseCase.changeStatus, Setting.exec_bind, exec_statusChange_return hm haway, Setting.exec_bind]
  rcases exec_assignment h { m with status := .active } with
    ⟨q, ready, hplan, hkept, hall⟩ | ⟨x, ready, hplan, -, hx⟩
  · rw [hplan]
    exact exec_carryOut_status hall (hkept ▸ hm)
  · rw [hplan]
    cases x with
    | delivery lost => cases hx
    | rule e => rfl
    | storage e => rfl

/-- A member whose status was set is read with that status. -/
theorem exec_member_restate :
    v.setting.exec (UseCase.member m.id) (w.restate m.id m target) =
      (.ok { m with status := target }, w.restate m.id m target) := by
  refine yields_member.2 ⟨?_, rfl⟩
  simp [World.restate, Store.restate]

/-- An assignment of a member whose status was set goes as the one of the member who comes back. -/
theorem exec_reassign_restate (h : v.Sound w) (hm : w.storage.members.find? m.id = some m)
    (habsent : m.id ∉ w.storage.roll) :
    v.setting.exec (UseCase.reassign m.id) (w.restate m.id m .active) =
      ((v.setting.exec (Plan.assignment { m with status := .active } >>= Plan.carryOut) w).1,
        (v.setting.exec (Plan.assignment { m with status := .active } >>= Plan.carryOut) w).2.restate
          m.id m .active) := by
  have hlooks := UseCase.looksAtTeams_assignment { m with status := .active }
  rw [UseCase.reassign, Setting.exec_bind, exec_member_restate]
  change v.setting.exec (Plan.assignment { m with status := .active } >>= Plan.carryOut) _ = _
  rw [Setting.exec_bind, Setting.exec_bind, hlooks.exec_restate v m .active habsent]
  rcases exec_assignment h { m with status := .active } with
    ⟨q, ready, hplan, hkept, hall⟩ | ⟨x, ready, hplan, -, -⟩
  · rw [hplan]
    exact exec_carryOut_restate hall (hkept ▸ hm)
  · rw [hplan]

/-- Whoever comes back is announced as whoever is assigned. -/
theorem attemptsOf_return (h : v.Sound w) (hm : w.storage.members.find? m.id = some m)
    (haway : m.status ≠ .active) :
    attemptsOf (v.setting.log (UseCase.changeStatus m.id .active) w) =
      attemptsOf (v.setting.log (UseCase.reassign m.id) (w.restate m.id m .active)) := by
  have habsent := h.store.not_mem_roll_of_away hm haway
  have hprepares := UseCase.prepares_assignment { m with status := .active }
  have hlooks := UseCase.looksAtTeams_assignment { m with status := .active }
  have hreassign : attemptsOf (v.setting.log (UseCase.reassign m.id) (w.restate m.id m .active)) =
      attemptsOf (v.setting.log (Plan.assignment { m with status := .active } >>= Plan.carryOut)
        (w.restate m.id m .active)) := by
    rw [UseCase.reassign, Setting.log_bind, attemptsOf_append,
      v.attemptsOf_log_preparesIn (UseCase.prepares_member m.id), exec_member_restate]
    rfl
  rw [hreassign, attemptsOf_of_plan hprepares, hlooks.exec_restate v m .active habsent]
  change attemptsOf (v.setting.log (Plan.statusChange m.id .active >>= Plan.carryOut) w) = _
  rw [attemptsOf_of_plan (UseCase.prepares_statusChange m.id .active),
    exec_statusChange_return hm haway]
  rcases exec_assignment h { m with status := .active } with
    ⟨q, ready, hplan, hkept, hall⟩ | ⟨x, ready, hplan, -, -⟩
  · rw [hplan]
    rw [← hkept] at hm
    have hreply := congrArg Prod.fst (Store.commit_restate hall hm .active)
    calc
      attemptsOf (v.setting.log (statusPlan m m.id .active (aside q)).carryOut ready) =
          attemptsOf (v.setting.log q.carryOut ready) := attemptsOf_carryOut_status hall hm
      _ = attemptsOf (v.setting.log q.carryOut (ready.restate m.id m .active)) :=
        attemptsOf_carryOut_congr rfl rfl hreply.symm
  · rw [hplan]
    rfl

/-- The members stay as they are while a member is assigned. -/
theorem members_assignment (h : v.Sound w) :
    (v.setting.exec (Plan.assignment m >>= Plan.carryOut) w).2.storage.members =
      w.storage.members := by
  rw [Setting.exec_bind]
  rcases exec_assignment h m with ⟨q, ready, hplan, hkept, hall⟩ | ⟨x, ready, hplan, hkept, -⟩
  · rw [hplan, ← hkept]
    exact members_carryOut hall
  · rw [hplan, ← hkept]

/-- To come back agrees with being assigned where the status was set before. If this is refused, the
status stays as it was. -/
theorem return_agrees (h : v.Sound w) (hm : w.storage.members.find? m.id = some m)
    (haway : m.status ≠ .active) :
    v.Alike m .active w (UseCase.reassign m.id) (w.restate m.id m .active) ∧
      ((∀ x, v.Fails (UseCase.changeStatus m.id .active) w x → x.isDelivery = true) →
        (v.setting.exec (UseCase.changeStatus m.id .active) w).2.storage.members =
          (v.setting.exec (UseCase.reassign m.id) (w.restate m.id m .active)).2.storage.members) ∧
      ∀ x, v.Fails (UseCase.changeStatus m.id .active) w x → x.isDelivery = false →
        (v.setting.exec (UseCase.changeStatus m.id .active) w).2.storage.members =
          w.storage.members := by
  have hreturn := exec_return h hm haway
  have hreassign := exec_reassign_restate h hm (h.store.not_mem_roll_of_away hm haway)
  have hmembers := members_assignment (m := { m with status := .active }) h
  have hattempts := attemptsOf_return h hm haway
  -- Both runs are read off the one run of the assignment that they have in common.
  generalize hrun : v.setting.exec
    (Plan.assignment { m with status := .active } >>= Plan.carryOut) w = run at *
  have hfails (x : WorkflowError) :
      v.Fails (UseCase.changeStatus m.id .active) w x ↔ run.1 = .error x := by
    rw [Fails, hreturn, withStatus_result]
    cases run.1 with
    | error e =>
        constructor
        · rintro ⟨⟩
          rfl
        · rintro ⟨⟩
          rfl
    | ok t => exact iff_of_false (by rintro ⟨⟩) (by rintro ⟨⟩)
  refine ⟨⟨?_, ?_, hattempts⟩, ?_, ?_⟩
  · rw [hreturn, hreassign, withStatus_result]
  · rw [hreturn, hreassign, withStatus_teams]
    rfl
  · intro hdone
    have hset : (withStatus m .active run).2 = run.2.restate m.id m .active := by
      apply withStatus_of_done
      intro x hx
      exact hdone x ((hfails x).2 hx)
    rw [hreturn, hreassign, hset]
  · intro x hx hkind
    rw [hreturn, withStatus_of_refused ((hfails x).1 hx) hkind, hmembers]

end Returning

/-- A change of status agrees with what moves the member. On a reachable world, whoever is listed by a
team and goes away leaves it just as by a removal, and whoever comes back joins a team just as by an
assignment where the status was active before: with the same team or the same failure, the same stored
teams, and the same events. The members differ only by the status that is set, and a status is not
set where coming back is refused. -/
theorem status_path_agrees (hw : v.Reachable w) (hbirths : v.DistinctBirths w.born) :
    (∀ team r m target, w.storage.teams.find? team = some r → m.id ∈ r.memberIds →
      w.storage.members.find? m.id = some m → target ≠ .active →
      v.Alike m target w (UseCase.removeMember team m.id) w ∧
        (v.setting.exec (UseCase.removeMember team m.id) w).2.storage.members =
          w.storage.members ∧
        (v.setting.exec (UseCase.changeStatus m.id target) w).2.storage.members =
          w.storage.members.insert m.id { m with status := target }) ∧
    ∀ m, w.storage.members.find? m.id = some m → m.status ≠ .active →
      v.Alike m .active w (UseCase.reassign m.id) (w.restate m.id m .active) ∧
        ((∀ x, v.Fails (UseCase.changeStatus m.id .active) w x → x.isDelivery = true) →
          (v.setting.exec (UseCase.changeStatus m.id .active) w).2.storage.members =
            (v.setting.exec (UseCase.reassign m.id) (w.restate m.id m .active)).2.storage.members) ∧
        ∀ x, v.Fails (UseCase.changeStatus m.id .active) w x → x.isDelivery = false →
          (v.setting.exec (UseCase.changeStatus m.id .active) w).2.storage.members =
            w.storage.members := by
  have hsound := hw.sound hbirths
  constructor
  · intro team r m target hr hlisted hm haway
    exact pausing_agrees hsound hr hlisted hm haway
  · intro m hm haway
    exact return_agrees hsound hm haway

/-- The world after a member of the full team went on leave. -/
def onePaused : World Store Unit :=
  counting.follow [.changeStatus (.ofRandom 3) .onLeave] full

/-- The member on leave comes back as by an assignment, and another one goes as by a removal. -/
theorem status_path_agrees_onePaused :
    (∃ m, m.id = .ofRandom 0 ∧ counting.Alike m .withdrawn onePaused
      (UseCase.removeMember (.ofRandom 5) m.id) onePaused) ∧
    ∃ m, m.id = .ofRandom 3 ∧ counting.Alike m .active onePaused
      (UseCase.reassign m.id) (onePaused.restate m.id m .active) := by
  have hreachable : counting.Reachable onePaused := reachable_full.follow _
  have hteam : (onePaused.storage.teams.find? (.ofRandom 5)).any
      (fun r => decide (.ofRandom 0 ∈ r.memberIds)) = true := by
    decide +kernel
  have hlisted : (onePaused.storage.members.find? (.ofRandom 0)).any
      (fun m => decide (m.id = .ofRandom 0)) = true := by
    decide +kernel
  have hpaused : (onePaused.storage.members.find? (.ofRandom 3)).any
      (fun m => decide (m.id = .ofRandom 3 ∧ m.status ≠ .active)) = true := by
    decide +kernel
  obtain ⟨hleaving, hreturning⟩ := status_path_agrees hreachable (by decide +kernel)
  constructor
  · obtain ⟨r, hr, hmem⟩ := (Option.any_eq_true _ _).1 hteam
    obtain ⟨m, hm, hid⟩ := (Option.any_eq_true _ _).1 hlisted
    have hid : m.id = .ofRandom 0 := of_decide_eq_true hid
    rw [← hid] at hmem hm
    exact ⟨m, hid, (hleaving _ r m .withdrawn hr (of_decide_eq_true hmem) hm (by decide)).1⟩
  · obtain ⟨m, hm, hkind⟩ := (Option.any_eq_true _ _).1 hpaused
    obtain ⟨hid, haway⟩ := of_decide_eq_true hkind
    rw [← hid] at hm
    exact ⟨m, hid, (hreturning m hm haway).1⟩

end Surroundings

end TeamRoster
