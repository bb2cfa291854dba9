import TeamRoster.Proofs.Workflow.Decision

/-!
# Sound stores

In a sound store nobody is listed twice, and everybody who is listed is stored and active. On a sound
store, with births that have different ids, each plan carries out what the rules decide:
`joins_of_addition` and `joins_of_assignment` say this of plans for a member who joins a team, and
`leaves_of_removal` of those for one who leaves.
-/

namespace TeamRoster

open scoped List

variable {τ : Type}

/-- Members are stored under their ids, nobody is listed twice, and everybody who is listed is stored
and active. -/
structure Store.Sound (s : Store) : Prop where
  keyed : s.Keyed
  once : s.roll.Nodup
  active (id : Ident) : id ∈ s.roll → ∃ m, s.members.find? id = some m ∧ m.status = .active

namespace Store

variable {s after : Store}

/-- In a sound store, those who are away are in no team. -/
theorem Sound.not_mem_roll_of_away (h : s.Sound) {id : Ident} {m : Member}
    (hm : s.members.find? id = some m) (haway : m.status ≠ .active) : id ∉ s.roll := by
  intro hlisted
  obtain ⟨x, hx, hactive⟩ := h.active id hlisted
  rw [hm] at hx
  cases hx
  exact haway hactive

/-- In a sound store, everybody in a team is active. -/
theorem Sound.active_of_mem (h : s.Sound) {t : Team} (ht : s.Holds t) {m : Member}
    (hm : m ∈ t.members) : m.status = .active := by
  obtain ⟨hstored, hlisted⟩ := ht.listed hm
  obtain ⟨x, hx, hactive⟩ := h.active m.id hlisted
  have heq : x = m := Option.some.inj (hx.symm.trans hstored)
  rwa [heq] at hactive

/-- A sound store stays sound where the same teams and members are found. -/
theorem Sound.congr (h : s.Sound) (hteams : after.teams = s.teams)
    (hmembers : after.members = s.members) : after.Sound := by
  have hroll : after.roll = s.roll := by
    rw [roll, roll, hteams]
  constructor
  · intro id m hm
    exact h.keyed id m (hmembers ▸ hm)
  · exact hroll ▸ h.once
  · intro id hid
    rw [hmembers]
    exact h.active id (hroll ▸ hid)

/-- A member with a new id is in no team. -/
theorem Sound.saveMember (h : s.Sound) {m : Member} (hnew : s.members.find? m.id = none) :
    (s.saveMember m).Sound := by
  constructor
  · intro id x hx
    change (s.members.insert m.id m).find? id = some x at hx
    rw [Directory.find?_insert] at hx
    by_cases hid : id = m.id
    · rw [if_pos hid] at hx
      rw [← Option.some.inj hx, hid]
    · rw [if_neg hid] at hx
      exact h.keyed id x hx
  · exact h.once
  · intro id hid
    obtain ⟨x, hx, hactive⟩ := h.active id hid
    have hne : id ≠ m.id := by
      rintro rfl
      rw [hnew] at hx
      cases hx
    refine ⟨x, ?_, hactive⟩
    change (s.members.insert m.id m).find? id = some x
    rw [Directory.find?_insert, if_neg hne, hx]

/-- The roll gains the members of a new team. -/
theorem roll_created {t : Team} (hnew : s.teams.find? t.id = none)
    (happly : s.apply (.createTeam t) = .ok after) : after.roll ~ s.roll ++ t.memberIds := by
  obtain ⟨-, hfound⟩ := find?_created hnew happly
  have hlist : after.listOf t.id = t.memberIds :=
    listOf_of_find? ((hfound t.id).trans (if_pos rfl))
  have hexchange := roll_exchange (s := s) (d := after) (List.nodup_singleton t.id) (by
    intro id hid
    exact listOf_congr ((hfound id).trans (if_neg (by simpa using hid))))
  simpa [listOf_of_find?_none hnew, hlist] using hexchange

/-- A new team of different active members who were in no team leaves a sound store sound. -/
theorem Sound.createTeam (h : s.Sound) {t : Team} (hnew : s.teams.find? t.id = none)
    (hnodup : t.memberIds.Nodup)
    (hmembers : ∀ m ∈ t.members, m.id ∉ s.roll ∧ s.members.find? m.id = some m ∧ m.status = .active)
    (happly : s.apply (.createTeam t) = .ok after) : after.Sound := by
  obtain ⟨hsame, hfound⟩ := find?_created hnew happly
  have hroll := roll_created hnew happly
  constructor
  · intro id m hm
    exact h.keyed id m (hsame ▸ hm)
  · refine hroll.nodup_iff.2 (List.nodup_append.2 ⟨h.once, hnodup, ?_⟩)
    intro x hx y hy hxy
    obtain ⟨m, hm, rfl⟩ := Team.mem_memberIds.1 hy
    exact (hmembers m hm).1 (hxy ▸ hx)
  · intro id hid
    rw [hsame]
    rcases List.mem_append.1 (hroll.mem_iff.1 hid) with hid | hid
    · exact h.active id hid
    · obtain ⟨m, hm, rfl⟩ := Team.mem_memberIds.1 hid
      obtain ⟨-, hstored, hactive⟩ := hmembers m hm
      exact ⟨m, hstored, hactive⟩

end Store

/-- The first so many births have different ids. -/
def Surroundings.DistinctBirths (v : Surroundings τ) (count : Nat) : Prop :=
  ∀ later < count, ∀ earlier < later, (v.births earlier).id ≠ (v.births later).id

instance (v : Surroundings τ) (count : Nat) : Decidable (v.DistinctBirths count) :=
  inferInstanceAs (Decidable (∀ later < count, ∀ earlier < later, _ ≠ _))

theorem Surroundings.DistinctBirths.mono {v : Surroundings τ} {count less : Nat}
    (h : v.DistinctBirths count) (hless : less ≤ count) : v.DistinctBirths less := by
  intro later hlater
  have hcounted : later < count := by omega
  exact h later hcounted

/-- The store is sound, and what is stored got its id at a birth. -/
structure Surroundings.Sound (v : Surroundings τ) (w : World Store τ) : Prop where
  store : w.storage.Sound
  members (id : Ident) (m : Member) : w.storage.members.find? id = some m →
    ∃ n < w.born, (v.births n).id = id
  teams (id : Ident) (r : TeamRecord) : w.storage.teams.find? id = some r →
    ∃ n < w.born, (v.births n).id = id

namespace Surroundings

variable {v : Surroundings τ} {w after : World Store τ}

/-- The id of the next birth is not that of a team. -/
theorem Sound.fresh_team (h : v.Sound w) (hbirths : v.DistinctBirths (w.born + 1)) :
    w.storage.teams.find? (v.births w.born).id = none := by
  cases hr : w.storage.teams.find? (v.births w.born).id with
  | none => rfl
  | some r =>
      obtain ⟨n, hn, hid⟩ := h.teams _ r hr
      exact absurd hid (hbirths w.born (Nat.lt_succ_self _) n hn)

/-- The id of the next birth is not that of a member. -/
theorem Sound.fresh_member (h : v.Sound w) (hbirths : v.DistinctBirths (w.born + 1)) :
    w.storage.members.find? (v.births w.born).id = none := by
  cases hm : w.storage.members.find? (v.births w.born).id with
  | none => rfl
  | some m =>
      obtain ⟨n, hn, hid⟩ := h.members _ m hm
      exact absurd hid (hbirths w.born (Nat.lt_succ_self _) n hn)

/-- A member for whom no team is found is not on the roll. -/
theorem not_mem_roll {s : Store} {member : Ident} (h : s.teamOf member = .ok none) :
    member ∉ s.roll := by
  intro hmem
  obtain ⟨team, r, hr, hlisted⟩ := Store.mem_roll.1 hmem
  exact Store.teamOf_eq_none.1 h team r hr hlisted

/-- A member who may be in one team only, and is not in that, is not on the roll. -/
theorem not_mem_roll_of_freeFor {s : Store} (hs : s.Keyed) {t : Team} (ht : s.Holds t)
    {member : Ident} (hfree : s.FreeFor member (some t.id)) (habsent : member ∉ t.memberIds) :
    member ∉ s.roll := by
  obtain ⟨found, hfound, hallowed⟩ := hfree
  cases found with
  | none => exact not_mem_roll hfound
  | some u =>
      obtain ⟨hu, hmem⟩ := Store.holds_of_teamOf_eq_some hs hfound
      have hid : u.id = t.id := Option.some.inj (hallowed u rfl)
      exact absurd (hu.ext hs ht hid ▸ hmem) habsent

section Decisions

theorem edits_growth {expected : ChangeSet × List Ident} {c : Composition} {m : Member}
    {id : Ident} :
    (growth expected c m id).changes.edits = expected.1.edits ++ c.edits expected.2 id := rfl

theorem edits_shrinkage {expected : ChangeSet} {r : Redistribution} {team member : Ident} :
    (shrinkage expected r team member).changes.edits = expected.edits ++ r.edits team member := rfl

theorem edits_expect (c : ChangeSet) (t : Team) : (c.expect t).edits = c.edits := by
  unfold ChangeSet.expect
  split <;> rfl

theorem edits_expectations (t : Team) (roster : List Team) (c : Composition) :
    (expectations t roster c).edits = [] := by
  cases c with
  | unchanged team => rfl
  | split kept new moved => rfl
  | merge destination dissolved moved =>
      simp only [expectations]
      split
      · rw [edits_expect]
        rfl
      · rfl

/-- A team of the roster is the one found there under its id. -/
theorem stored?_of_mem {s : Store} (hs : s.Keyed) {roster : List Team}
    (hroster : s.allTeams = .ok roster) {t : Team} (ht : t ∈ roster) :
    Plan.stored? roster t.id = some t := by
  cases hu : Plan.stored? roster t.id with
  | none =>
      have hnone := List.find?_eq_none.1 hu t ht
      simp at hnone
  | some u =>
      have hid : u.id = t.id := by simpa using List.find?_some hu
      have hheld := (Store.mem_allTeams hs hroster u).1 (List.mem_of_find?_eq_some hu)
      rw [hheld.ext hs ((Store.mem_allTeams hs hroster t).1 ht) hid]

/-- A team of the roster is expected to be as it is there. -/
theorem expectation_of_mem {s : Store} (hs : s.Keyed) {roster : List Team}
    (hroster : s.allTeams = .ok roster) {t : Team} (ht : t ∈ roster) :
    expectation roster t.id = (ChangeSet.empty.expect t, t.memberIds) := by
  rw [expectation, stored?_of_mem hs hroster ht]

theorem team_compose {t : Team} {m : Member} {i : Intake} (h : Arrival t m i) (birth : Birth) :
    (i.compose birth).team.id = t.id := by
  cases h <;> rfl

/-- A plan for a member who joins: what was decided, and that the plan carries it out, after so many
births. -/
structure Joins (v : Surroundings τ) (w : World Store τ) (born : Nat) (m : Member) (d : Decision)
    (p : Plan Team) : Prop where
  joined : ∃ c, d = .joined m.id c
  active : m.status = .active
  absent : m.id ∉ w.storage.roll
  effects : d.Effects w.storage p.changes.edits
  rests : d.Rests w.storage (some m)
  founded (u : Team) : u ∈ d.rewrite.founded → ∃ n < born, (v.births n).id = u.id
  returned : d.team? = some p.result

/-- A plan for a member who leaves: what was decided, and that the plan carries it out. -/
structure Leaves (v : Surroundings τ) (w : World Store τ) (member : Ident) (d : Decision)
    (p : Plan Team) : Prop where
  left : ∃ r : Redistribution, d = .left r ∧ r.removed.id = member
  effects : d.Effects w.storage p.changes.edits
  rests : d.Rests w.storage none
  founded : d.rewrite.founded = []
  returned : d.team? = some p.result

/-- A member who is in no team joins a stored team. -/
structure Joining (v : Surroundings τ) (w : World Store τ) (t : Team) (m : Member) (i : Intake) :
    Prop where
  held : w.storage.Holds t
  absent : m.id ∉ w.storage.roll
  active : m.status = .active
  arrival : Arrival t m i
  fresh : i.needsBirth = true → w.storage.teams.find? (v.births w.born).id = none

/-- A member leaves a stored team that lists the member. -/
structure Parting (w : World Store τ) (t : Team) (m : Member) (roster : List Team)
    (left : List Member) (r : Redistribution) : Prop where
  held : w.storage.Holds t
  read : w.storage.allTeams = .ok roster
  listed : m ∈ t.members
  removed : t.remove m.id = .ok (m, t.relist left)
  departure : Departure t roster m left r

/-- The plan for a member who joins a team that is stored as it was read. -/
def joiningPlan (v : Surroundings τ) (w : World Store τ) (t : Team) (m : Member) (i : Intake) :
    Plan Team :=
  growth (ChangeSet.empty.expect t, t.memberIds) (i.compose (v.births w.born)) m m.id

/-- The plan for a member who leaves a team, with the teams that were read. -/
def partingPlan (t : Team) (m : Member) (roster : List Team) (r : Redistribution) : Plan Team :=
  shrinkage (expectations t roster r.composition) r t.id m.id

section Joining

variable {t : Team} {m : Member} {i : Intake}

theorem joining_of_intake (h : v.Sound w) (ht : w.storage.Holds t) (hi : t.intake m = .ok i)
    (hbirths : v.DistinctBirths (w.born + i.needsBirth.toNat)) (habsent : m.id ∉ w.storage.roll) :
    v.Joining w t m i := by
  obtain ⟨hactive, -, harrival⟩ := Team.intake_eq_ok hi
  refine ⟨ht, habsent, hactive, harrival, ?_⟩
  intro hneeds
  rw [hneeds] at hbirths
  exact h.fresh_team hbirths

theorem Joining.not_mem (h : v.Joining w t m i) : m.id ∉ t.memberIds := by
  obtain ⟨place, hplace⟩ := h.held.record
  intro hmem
  exact h.absent (Store.mem_roll.2 ⟨t.id, _, hplace, hmem⟩)

/-- A member who joins, as a decision that the plan carries out. -/
theorem Joining.joins (h : v.Sound w) (hj : v.Joining w t m i) :
    v.Joins w (w.born + i.needsBirth.toNat) m (.joined m.id (i.compose (v.births w.born)))
      (v.joiningPlan w t m i) := by
  refine ⟨⟨_, rfl⟩, hj.active, hj.absent, ?_, hj.arrival.rests hj.held, ?_, rfl⟩
  · rw [joiningPlan, edits_growth, edits_expect]
    exact hj.arrival.effects h.store.once hj.held hj.not_mem hj.fresh
  · intro u hu
    cases hj.arrival with
    | fits room => cases hu
    | overflows draft full members name =>
        have heq := List.mem_singleton.1 hu
        subst heq
        exact ⟨w.born, Nat.lt_succ_self _, rfl⟩

end Joining

theorem joining_of_addition (h : v.Sound w) (hbirths : v.DistinctBirths after.born)
    {team member : Ident} {p : Plan Team}
    (hp : v.Yields (Plan.addition team member) w p after) :
    ∃ t m i, t.id = team ∧ m.id = member ∧ w.storage.members.find? m.id = some m ∧
      v.Joining w t m i ∧
      v.decideAddition w team member = some (.joined m.id (i.compose (v.births w.born))) ∧
      p = v.joiningPlan w t m i ∧ after = w.drew i.needsBirth.toNat 0 := by
  obtain ⟨t, m, i, ht, hm, hfree, hi, rfl, rfl⟩ := yields_addition.1 hp
  obtain ⟨rfl, hheld⟩ := (Store.team_eq_ok h.store.keyed).1 ht
  have heq := h.store.keyed member m hm
  subst heq
  have habsent := not_mem_roll_of_freeFor h.store.keyed hheld hfree (Team.intake_eq_ok hi).2.1
  refine ⟨t, m, i, rfl, rfl, hm, joining_of_intake h hheld hi hbirths habsent, ?_, rfl, rfl⟩
  simp [decideAddition, ht, hm, hi, Except.toOption]

theorem joining_of_assignment (h : v.Sound w) (hbirths : v.DistinctBirths after.born) {m : Member}
    {p : Plan Team} (hp : v.Yields (Plan.assignment m) w p after) :
    ∃ t i picks, v.Joining w t m i ∧
      v.decideAssignment w m = some (.joined m.id (i.compose (v.births w.born))) ∧
      p = v.joiningPlan w t m i ∧ after = w.drew i.needsBirth.toNat picks := by
  obtain ⟨roster, i, hfree, hroster, hi, rfl, rfl⟩ := yields_assignment.1 hp
  obtain ⟨t, ht, hintake⟩ := assign_eq_ok hi
  have hheld := (Store.mem_allTeams h.store.keyed hroster t).1 ht
  refine ⟨t, i, _, joining_of_intake h hheld hintake hbirths (not_mem_roll hfree), ?_, ?_, rfl⟩
  · simp [decideAssignment, hroster, hi, Except.toOption]
  · rw [joiningPlan, team_compose (Team.intake_eq_ok hintake).2.2,
      expectation_of_mem h.store.keyed hroster ht]

theorem parting_of_removal (hs : w.storage.Keyed) {team member : Ident} {p : Plan Team}
    (hp : v.Yields (Plan.removal team member) w p after) :
    ∃ t m roster left r, t.id = team ∧ m.id = member ∧ Parting w t m roster left r ∧
      v.decideRemoval w team member = some (.left r) ∧ p = partingPlan t m roster r := by
  obtain ⟨t, roster, r, ht, hroster, hr, rfl, rfl⟩ := yields_removal.1 hp
  obtain ⟨rfl, hheld⟩ := (Store.team_eq_ok hs).1 ht
  obtain ⟨m, shrunken, hremove, hdeparture⟩ := redistribute_eq_ok hr
  obtain ⟨rfl, hlisted, hshrunken, -⟩ := Team.remove_spec hremove
  rw [hshrunken] at hremove
  refine ⟨t, m, roster, shrunken.members, r, rfl, rfl,
    ⟨hheld, hroster, hlisted, hremove, hdeparture⟩, ?_, rfl⟩
  simp [decideRemoval, ht, hroster, hr, Except.toOption]

theorem joins_of_addition (h : v.Sound w) (hbirths : v.DistinctBirths after.born)
    {team member : Ident} {p : Plan Team}
    (hp : v.Yields (Plan.addition team member) w p after) :
    ∃ m d, w.storage.members.find? member = some m ∧ m.id = member ∧
      v.decideAddition w team member = some d ∧ v.Joins w after.born m d p := by
  obtain ⟨t, m, i, rfl, rfl, hm, hjoining, hdecided, rfl, rfl⟩ := joining_of_addition h hbirths hp
  exact ⟨m, _, hm, rfl, hdecided, hjoining.joins h⟩

theorem joins_of_assignment (h : v.Sound w) (hbirths : v.DistinctBirths after.born) {m : Member}
    {p : Plan Team} (hp : v.Yields (Plan.assignment m) w p after) :
    ∃ d, v.decideAssignment w m = some d ∧ v.Joins w after.born m d p := by
  obtain ⟨t, i, picks, hjoining, hdecided, rfl, rfl⟩ := joining_of_assignment h hbirths hp
  exact ⟨_, hdecided, hjoining.joins h⟩

theorem leaves_of_removal (h : v.Sound w) {team member : Ident} {p : Plan Team}
    (hp : v.Yields (Plan.removal team member) w p after) :
    ∃ d, v.decideRemoval w team member = some d ∧ v.Leaves w member d p := by
  obtain ⟨t, m, roster, left, r, rfl, rfl, hparting, hdecided, rfl⟩ :=
    parting_of_removal h.store.keyed hp
  have hall : ∀ u ∈ roster, w.storage.Holds u := by
    intro u hu
    exact (Store.mem_allTeams h.store.keyed hparting.read u).1 hu
  have hdeparture := hparting.departure
  refine ⟨.left r, hdecided, ⟨⟨r, rfl, ?_⟩, ?_, hdeparture.rests hparting.removed hparting.held hall,
    hdeparture.founded_eq_nil, rfl⟩⟩
  · rw [hdeparture.removed_eq]
  · rw [partingPlan, edits_shrinkage, edits_expectations]
    exact hdeparture.effects hparting.removed hparting.held hall

end Decisions

end Surroundings

end TeamRoster
