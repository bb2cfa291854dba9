import TeamRoster.Proofs.Workflow.Recorded
import TeamRoster.Proofs.Workflow.Runs

/-!
# What a command does

`Command.Deed` lists all that a command can have done to a sound store when it goes through, with the
events that it tells of: a member was registered, a team was formed, a member joined a team, a member
left a team, or no team was concerned. Main statements: `Saved.deed` and `Sound.turn`. What is true of
all runs of commands is proved by these cases, and no plan has to be looked into again.
-/

namespace TeamRoster

open scoped List

variable {τ : Type}

namespace Command

/-- The commands by which a member joins the team `t`, with the member as the command leaves it. -/
inductive Admits (s : Store) (t : Team) : Command → Member → Prop
  | added {m : Member} (stored : s.members.find? m.id = some m) :
      Admits s t (.addMember t.id m.id) m
  | reassigned {m : Member} (stored : s.members.find? m.id = some m) :
      Admits s t (.reassignMember m.id) m
  | returned {m : Member} (stored : s.members.find? m.id = some m) (away : m.status ≠ .active) :
      Admits s t (.changeStatus m.id .active) { m with status := .active }

/-- The commands by which the member `m` leaves the team `t`. -/
inductive Releases (t : Team) (m : Member) : Command → Prop
  | removed : Releases t m (.removeMember t.id m.id)
  | paused {target : Status} (away : target ≠ .active) : Releases t m (.changeStatus m.id target)

/-- What a command did to a store that it left as `s`, and the events that it tells of. -/
inductive Deed (v : Surroundings τ) (w : World Store τ) (c : Command) (s : Store) :
    List Event → Prop
  | registered (name email : String) (m : Member)
      (command : c = .registerMember name email m.status)
      (fresh : w.storage.members.find? m.id = none) (stored : s = w.storage.saveMember m) :
      Deed v w c s []
  | formed (name : String) (t : Team) (command : c = .createTeam name t.memberIds)
      (two : 2 ≤ t.size) (four : t.size ≤ 4) (fresh : w.storage.teams.find? t.id = none)
      (different : t.memberIds.Nodup) (free : ∀ id ∈ t.memberIds, id ∉ w.storage.roll)
      (applied : w.storage.apply (.createTeam t) = .ok s) : Deed v w c s []
  | joined (t : Team) (m : Member) (i : Intake) (admits : Admits w.storage t c m)
      (joining : v.Joining w t m i)
      (carried : c.CarriedOut (.joined m.id (i.compose (v.births w.born))) w.storage s) :
      Deed v w c s ((i.compose (v.births w.born)).events m)
  | left (t : Team) (m : Member) (roster : List Team) (rest : List Member) (r : Redistribution)
      (releases : Releases t m c) (parting : Surroundings.Parting w t m roster rest r)
      (carried : c.CarriedOut (.left r) w.storage s) : Deed v w c s r.events
  | untouched (m : Member) (target : Status) (command : c = .changeStatus m.id target)
      (stored : w.storage.members.find? m.id = some m) (away : target ≠ .active)
      (absent : m.id ∉ w.storage.roll) (carried : c.CarriedOut .untouched w.storage s) :
      Deed v w c s []

variable {v : Surroundings τ} {w ready : World Store τ} {c : Command} {u : Undertaking Answer}
  {s : Store} {d : Decision}

/-- What was decided for a change of status and carried out, as a deed. -/
theorem deed_of_statusChange (h : v.Sound w) (hbirths : v.DistinctBirths ready.born)
    {member : Ident} {target : Status} {p : Plan Plan.StatusChange}
    (hp : v.Yields (Plan.statusChange member target) w p ready)
    (hdecided : (changeStatus member target).decision v w = some d)
    (hcarried : (changeStatus member target).CarriedOut d w.storage s) :
    Deed v w (changeStatus member target) s p.events := by
  obtain ⟨m, q, hm, hallowed, hq, rfl⟩ := Surroundings.yields_statusChange.1 hp
  have heq := h.store.keyed member m hm
  subst heq
  have haway (hactive : m.status = .active) : target ≠ .active := by
    rintro rfl
    rw [hactive] at hallowed
    cases hallowed
  rcases Surroundings.yields_followStatus.1 hq with
    ⟨hactive, hfree, rfl, -⟩ | ⟨hactive, t, q', hfound, hq', rfl⟩ |
      ⟨hinactive, htarget, q', hq', rfl⟩ | ⟨hinactive, htarget, rfl, -⟩
  · have hd : d = .untouched := by
      have hnone : w.storage.teamOf m.id = .ok none := hfree
      simpa [decision, hm, hactive, hnone, Except.toOption] using hdecided.symm
    subst hd
    exact .untouched m target rfl hm (haway hactive) (Surroundings.not_mem_roll hfree) hcarried
  · obtain ⟨t', x, roster, rest, r, hid, hx, hparting, hremoval, rfl⟩ :=
      Surroundings.parting_of_removal h.store.keyed hq'
    have hd : d = .left r := by
      have hsome : w.storage.teamOf m.id = .ok (some t) := hfound
      have hremoval' : v.decideRemoval w t.id m.id = some (.left r) := hremoval
      simpa [decision, hm, hactive, hsome, Except.toOption, hremoval'] using hdecided.symm
    subst hd
    have hx' : x.id = m.id := hx
    rw [← hx'] at hcarried ⊢
    exact .left t' x roster rest r (.paused (haway hactive)) hparting hcarried
  · obtain ⟨t, i, picks, hjoining, hassignment, rfl, -⟩ :=
      Surroundings.joining_of_assignment h hbirths hq'
    have htarget' : target = .active := htarget
    subst htarget'
    have hd : d = .joined m.id (i.compose (v.births w.born)) := by
      simpa [decision, hm, hinactive, hassignment] using hdecided.symm
    subst hd
    exact .joined t _ i (.returned hm hinactive) hjoining hcarried
  · have htarget' : target ≠ .active := htarget
    have hd : d = .untouched := by
      simpa [decision, hm, hinactive, htarget'] using hdecided.symm
    subst hd
    refine .untouched m target rfl hm htarget' ?_ hcarried
    intro hlisted
    obtain ⟨x, hx, hstatus⟩ := h.store.active m.id hlisted
    rw [hm] at hx
    cases hx
    exact hinactive hstatus

/-- What was decided for a command and carried out, as a deed. -/
theorem deed_of_decision (h : v.Sound w) (hbirths : v.DistinctBirths ready.born)
    (hu : v.Yields c.prepare w u ready) (hdecided : c.decision v w = some d)
    (hcarried : c.CarriedOut d w.storage s) : Deed v w c s u.events := by
  cases c with
  | registerMember name email status => cases hdecided
  | createTeam name members => cases hdecided
  | addMember team member =>
      obtain ⟨p, hp, rfl⟩ := yields_undertaking.1 hu
      obtain ⟨t, m, i, rfl, rfl, hm, hjoining, haddition, rfl, -⟩ :=
        Surroundings.joining_of_addition h hbirths hp
      have heq := Option.some.inj (hdecided.symm.trans haddition)
      subst heq
      exact .joined t m i (.added hm) hjoining hcarried
  | removeMember team member =>
      obtain ⟨p, hp, rfl⟩ := yields_undertaking.1 hu
      obtain ⟨t, m, roster, rest, r, rfl, rfl, hparting, hremoval, rfl⟩ :=
        Surroundings.parting_of_removal h.store.keyed hp
      have heq := Option.some.inj (hdecided.symm.trans hremoval)
      subst heq
      exact .left t m roster rest r .removed hparting hcarried
  | changeStatus member target =>
      obtain ⟨p, hp, rfl⟩ := yields_undertaking.1 hu
      exact deed_of_statusChange h hbirths hp hdecided hcarried
  | reassignMember member =>
      obtain ⟨m, mid, hm, hrest⟩ := Surroundings.yields_bind.1 hu
      obtain ⟨hm, rfl⟩ := Surroundings.yields_member.1 hm
      obtain ⟨p, hp, rfl⟩ := yields_undertaking.1 hrest
      have heq := h.store.keyed member m hm
      subst heq
      obtain ⟨t, i, picks, hjoining, hassignment, rfl, -⟩ :=
        Surroundings.joining_of_assignment h hbirths hp
      have heq : d = .joined m.id (i.compose (v.births mid.born)) := by
        simpa [decision, hm, hassignment] using hdecided.symm
      subst heq
      exact .joined t m i (.reassigned hm) hjoining hcarried

/-- A command that goes through has done a deed. -/
theorem Saved.deed (hsaved : Saved v c w u ready s) (h : v.Sound w)
    (hbirths : v.DistinctBirths ready.born) : Deed v w c s u.events := by
  have hwritten := hsaved.written
  rcases write_cases h.store.keyed hsaved.prepared with
    ⟨name, email, m, rfl, hwrite, hevents, hid, hnext⟩ |
      ⟨name, t, rfl, hwrite, hevents, hid, hnext, htwo, hfour, hnodup, hmembers⟩ |
      ⟨changes, hwrite⟩
  · rw [hnext] at hbirths
    rw [hwrite] at hwritten
    rw [hevents]
    exact .registered name email m rfl (hid ▸ h.fresh_member hbirths)
      (congrArg Prod.snd hwritten).symm
  · rw [hnext] at hbirths
    rw [hwrite] at hwritten
    rw [hevents]
    refine .formed name t rfl htwo hfour (hid ▸ h.fresh_team hbirths) hnodup ?_
      (Store.apply_of_written hwritten)
    intro id hlisted
    obtain ⟨m, hm, rfl⟩ := Team.mem_memberIds.1 hlisted
    exact (hmembers m hm).1
  · rw [hwrite] at hwritten
    obtain ⟨d, hprepared⟩ := prepared_of_commit h hbirths hsaved.prepared hwrite
    obtain ⟨newcomer, edits, hplanned, hproduces⟩ := hprepared.planned
    exact deed_of_decision h hbirths hsaved.prepared hprepared.decided
      (hplanned.carriedOut (hproduces s hwritten))

end Command

/-- A command on a sound world is refused, or goes through and has done a deed. -/
theorem Surroundings.Sound.turn {v : Surroundings τ} {w : World Store τ} (h : v.Sound w)
    (c : Command) (hbirths : v.DistinctBirths (v.setting.run c.answer w).2.born) :
    c.Refused v w ∨ ∃ u ready, c.Saved v w u ready (v.setting.run c.answer w).2.storage ∧
      c.Deed v w (v.setting.run c.answer w).2.storage u.events := by
  rcases c.recorded v w with ⟨u, ready, s, hsaved⟩ | hrefused
  · rw [hsaved.run] at hbirths ⊢
    exact .inr ⟨u, ready, hsaved, hsaved.deed h hbirths⟩
  · exact .inl hrefused

end TeamRoster
