import TeamRoster.Proofs.Composition.Admission
import TeamRoster.Proofs.Workflow.Faults
import TeamRoster.Proofs.Workflow.Sizes

/-!
# When a member can join

Forming a team, adding a member, assigning one and bringing one back are refused for stated reasons
and for no others. Main statement: `joining_refused_for_cause`. Whether a team takes a member in is
decided in two places, by the rules and by the names that are stored when the writes are made;
`takesIn_iff` puts these together, and `placeable_iff` adds which team is picked.
-/

namespace TeamRoster

variable {τ α : Type}

namespace Store

variable {s : Store}

/-- The member is stored and active, and no team lists the member. -/
structure Available (s : Store) (id : Ident) : Prop where
  active : ∃ m, s.members.find? id = some m ∧ m.status = .active
  free (team : Ident) (r : TeamRecord) : s.teams.find? team = some r → id ∉ r.memberIds

/-- No stored team has this name. -/
def NameFree (s : Store) (name : String) : Prop :=
  ∀ team r, s.teams.find? team = some r → r.name.text ≠ name

/-- A team of this name can split: the name leaves room for the name of the team that splits off, and
no stored team has that one. -/
def MayDivide (s : Store) (name : TeamName) : Prop :=
  name.text.length ≤ 15 ∧ s.NameFree (name.text ++ "Split")

/-- For a team that is not stored, a name is taken exactly if a stored team has it. -/
theorem nameTaken_eq_false {id : Ident} {name : TeamName} (hnew : s.teams.find? id = none) :
    s.nameTaken s.stage id name = false ↔ s.NameFree name.text := by
  rw [← Bool.not_eq_true, nameTaken_iff]
  constructor
  · intro h team r hr hname
    apply h
    refine ⟨team, r, ?_, hr, TeamName.ext hname⟩
    rintro rfl
    rw [hnew] at hr
    cases hr
  · rintro h ⟨other, r, -, hr, rfl⟩
    exact h other r hr rfl

/-- A member for whom no team is found is one whom no record lists. -/
theorem teamOf_eq_none_iff {member : Ident} : s.teamOf member = .ok none ↔ member ∉ s.roll := by
  rw [teamOf_eq_none, mem_roll]
  simp only [not_exists, not_and]

theorem available_iff {id : Ident} :
    s.Available id ↔
      (∃ m, s.members.find? id = some m ∧ m.status = .active) ∧ s.teamOf id = .ok none := by
  rw [teamOf_eq_none]
  constructor
  · rintro ⟨hactive, hfree⟩
    exact ⟨hactive, hfree⟩
  · rintro ⟨hactive, hfree⟩
    exact ⟨hactive, hfree⟩

/-- In a sound store, every record is that of a team that is held. -/
theorem Sound.holds_of_find? (h : s.Sound) {id : Ident} {r : TeamRecord}
    (hr : s.teams.find? id = some r) : ∃ t place, t.id = id ∧ s.Holds t ∧ r = t.record place := by
  obtain ⟨t, ht⟩ := h.assemble hr
  obtain ⟨hid, hrecord, hmembers⟩ := (assemble_eq_ok h.keyed).1 ht
  refine ⟨t, r.place, hid, ⟨⟨r.place, ?_⟩, hmembers⟩, hrecord⟩
  rw [hid, hr, ← hrecord]

/-- Different members who are listed can be taken out one after the other. -/
theorem exists_applyAll_removeMember {team : Ident} {ids : List Ident} {r : TeamRecord}
    (hr : s.teams.find? team = some r) (hids : ids.Nodup) (hlisted : ∀ id ∈ ids, id ∈ r.memberIds) :
    ∃ d, s.applyAll (ids.map (Edit.removeMember team)) = .ok d := by
  induction ids generalizing s r with
  | nil => exact ⟨s, rfl⟩
  | cons id ids ih =>
      rw [List.nodup_cons] at hids
      rw [List.forall_mem_cons] at hlisted
      have hremove : s.apply (.removeMember team id) = .ok (s.rewrite team (some (r.leave id))) :=
        apply_removeMember_eq_ok.2 ⟨r, hr, hlisted.1, rfl⟩
      have hstill : ∀ other ∈ ids, other ∈ (r.leave id).memberIds := by
        intro other hother
        refine (List.mem_erase_of_ne ?_).2 (hlisted.2 other hother)
        rintro rfl
        exact hids.1 hother
      obtain ⟨d, hd⟩ := ih (s := s.rewrite team (some (r.leave id))) (by simp) hids.2 hstill
      exact ⟨d, Failing.bind_eq_ok.2 ⟨_, hremove, hd⟩⟩

/-- A new team of stored members can be created exactly if its name is free. -/
theorem exists_apply_createTeam_iff {t : Team} (hnew : s.teams.find? t.id = none)
    (hstored : ∀ id ∈ t.memberIds, s.members.contains id = true) :
    (∃ d, s.apply (.createTeam t) = .ok d) ↔ s.NameFree t.name.text := by
  rw [← nameTaken_eq_false hnew]
  constructor
  · rintro ⟨d, hd⟩
    exact (apply_createTeam_eq_ok.1 hd).1
  · intro hname
    exact ⟨_, apply_createTeam_eq_ok.2 ⟨hname, hstored, rfl⟩⟩

end Store

namespace Arrival

variable {s : Store} {t : Team} {m : Member} {i : Intake} {birth : Birth}

/-- The writes for a member who joins a stored team go through exactly if the name is free of the team
that splits off, where one does. -/
theorem exists_applyAll_iff (h : Arrival t m i) (hs : s.Sound) (ht : s.Holds t)
    (hstored : s.members.contains m.id = true) (habsent : m.id ∉ t.memberIds)
    (hfresh : i.needsBirth = true → s.teams.find? birth.id = none) :
    (∃ d, s.applyAll ((i.compose birth).edits t.memberIds m.id) = .ok d) ↔
      (i.needsBirth = true → s.NameFree (t.name.text ++ "Split")) := by
  obtain ⟨place, hplace⟩ := ht.record
  cases h with
  | fits room =>
      refine iff_of_true ?_ (by rintro ⟨⟩)
      exact ⟨_, Failing.bind_eq_ok.2
        ⟨_, Store.apply_addMember_eq_ok.2 ⟨hstored, _, hplace, rfl⟩, rfl⟩⟩
  | overflows draft full members name =>
      have hnew : s.teams.find? (draft.form birth).id = none := hfresh rfl
      have hdifferent : t.id ≠ (draft.form birth).id := by
        intro heq
        rw [heq, hnew] at hplace
        cases hplace
      have hnewStored : ∀ id ∈ (draft.form birth).memberIds, s.members.contains id = true := by
        rw [Team.Draft.form_memberIds, members]
        intro id hid
        obtain ⟨x, hx, rfl⟩ := List.mem_map.1 hid
        rcases List.mem_append.1 hx with hx | hx
        · exact Directory.contains_iff.2 ⟨x, (ht.listed (List.mem_of_mem_drop hx)).1⟩
        · rw [List.mem_singleton.1 hx]
          exact hstored
      have htext : (draft.form birth).name.text = t.name.text ++ "Split" :=
        TeamName.ofText_eq_ok.1 name
      have hcreate := Store.exists_apply_createTeam_iff hnew hnewStored
      rw [htext] at hcreate
      have hmoves : m.id ∉ (t.relist (t.members.take ((t.size + 1) / 2))).memberIds := by
        rw [Team.relist_memberIds, List.map_take]
        intro hmem
        exact habsent (List.mem_of_mem_take hmem)
      simp only [Intake.compose, Intake.needsBirth, forall_true_left, ← hcreate,
        Composition.edits_split hmoves]
      constructor
      · rintro ⟨d, hd⟩
        obtain ⟨mid, hmid, -⟩ := Failing.bind_eq_ok.1 hd
        exact ⟨mid, hmid⟩
      · rintro ⟨mid, hmid⟩
        obtain ⟨-, hfound⟩ := Store.find?_created hnew hmid
        have hkept : mid.teams.find? t.id = some (t.record place) := by
          rw [hfound, if_neg hdifferent, hplace]
        obtain ⟨d, hd⟩ := Store.exists_applyAll_removeMember hkept
          ((ht.nodup hs.once).filter _) fun id hid => (List.mem_filter.1 hid).1
        exact ⟨d, Failing.bind_eq_ok.2 ⟨mid, hmid, hd⟩⟩

end Arrival

/-- The team that is picked takes whoever is assigned in. -/
theorem assign_eq_ok_iff {m : Member} {roster : List Team} {pick : Nat → Nat} {i : Intake} :
    (assign m roster).resolve pick = .ok i ↔
      ∃ t, (pickSmallest (assignable roster)).resolve pick = some t ∧ t.intake m = .ok i := by
  rw [assign, TieBreak.resolve_map]
  cases (pickSmallest (assignable roster)).resolve pick <;> simp

namespace Surroundings

variable {v : Surroundings τ} {w after : World Store τ} {t : Team} {m : Member}

/-- There is a place for somebody who is to be assigned. There are teams, and either one of them has
three or fewer members, or the one that is picked of them all can split. -/
def Placeable (v : Surroundings τ) (w : World Store τ) : Prop :=
  ∃ roster, w.storage.allTeams = .ok roster ∧ roster ≠ [] ∧
    ((∃ t ∈ roster, t.size ≤ 3) ∨
      ∃ t, nth? roster (v.picks w.picked roster.length) = some t ∧ w.storage.MayDivide t.name)

/-- The rules let the member join the team, and the writes for this go through. -/
def TakesIn (v : Surroundings τ) (w : World Store τ) (t : Team) (m : Member) : Prop :=
  ∃ i d, t.intake m = .ok i ∧
    w.storage.applyAll ((i.compose (v.births w.born)).edits t.memberIds m.id) = .ok d

/-- A stored team takes in just those who are active, if it has room or can split. -/
theorem takesIn_iff (h : v.Sound w) (hbounded : w.storage.Bounded)
    (hbirths : v.DistinctBirths (w.born + 1)) (ht : w.storage.Holds t)
    (hstored : w.storage.members.contains m.id = true) (habsent : m.id ∉ w.storage.roll) :
    v.TakesIn w t m ↔ m.status = .active ∧ (t.size ≤ 3 ∨ w.storage.MayDivide t.name) := by
  obtain ⟨place, hplace⟩ := ht.record
  have habsent' : m.id ∉ t.memberIds := by
    intro hmem
    exact habsent (Store.mem_roll.2 ⟨t.id, _, hplace, hmem⟩)
  have hfree {i : Intake} (harrival : Arrival t m i) :=
    harrival.exists_applyAll_iff h.store ht hstored habsent' fun _ => h.fresh_team hbirths
  constructor
  · rintro ⟨i, d, hi, happly⟩
    obtain ⟨hactive, -, harrival⟩ := Team.intake_eq_ok hi
    have hname := (hfree harrival).1 ⟨d, happly⟩
    refine ⟨hactive, ?_⟩
    cases harrival with
    | fits room => exact .inl (by omega)
    | overflows draft full members name =>
        exact .inr ⟨TeamName.exists_split_iff.1 ⟨_, name⟩, hname rfl⟩
  · rintro ⟨hactive, hspace⟩
    have hall : ∀ x ∈ t.members, x.status = .active := by
      intro x hx
      exact h.store.active_of_mem ht hx
    obtain ⟨i, hi⟩ := (Team.exists_intake_iff (hbounded.size ht).2 hall
      (ht.nodup h.store.once)).2 ⟨hactive, habsent', hspace.imp_right And.left⟩
    obtain ⟨-, -, harrival⟩ := Team.intake_eq_ok hi
    have hname : i.needsBirth = true → w.storage.NameFree (t.name.text ++ "Split") := by
      intro hneeds
      cases harrival with
      | fits room => cases hneeds
      | overflows draft full members name =>
          rcases hspace with hroom | hdivides
          · omega
          · exact hdivides.2
    obtain ⟨d, hd⟩ := (hfree harrival).2 hname
    exact ⟨i, d, hi, hd⟩

/-- There is a place exactly if the team that is picked has room or can split. -/
theorem placeable_iff (h : v.Sound w) (hbounded : w.storage.Bounded) :
    v.Placeable w ↔ ∃ roster t, w.storage.allTeams = .ok roster ∧
      (pickSmallest (assignable roster)).resolve (v.picks w.picked) = some t ∧
      (t.size ≤ 3 ∨ w.storage.MayDivide t.name) := by
  obtain ⟨roster, hroster⟩ := h.store.allTeams
  have hsize : ∀ t ∈ roster, 1 ≤ t.size ∧ t.size ≤ 4 := by
    intro t ht
    exact hbounded.size ((Store.mem_allTeams h.store.keyed hroster t).1 ht)
  simp only [Placeable, hroster, Except.ok.injEq, exists_eq_left', exists_and_left]
  by_cases hroom : roster.any Team.acceptsMember = true
  · -- One of those with room is picked.
    rw [assignable_of_room hroom]
    obtain ⟨t, ht, haccepts⟩ := List.any_eq_true.1 hroom
    refine iff_of_true ⟨List.ne_nil_of_mem ht, .inl ⟨t, ht, ?_⟩⟩ ?_
    · exact (Team.acceptsMember_iff.1 haccepts).2
    · cases hpick : (pickSmallest (roster.filter Team.acceptsMember)).resolve (v.picks w.picked) with
      | none =>
          have hnone := pickSmallest_eq_none.1 hpick
          have hmem : t ∈ roster.filter Team.acceptsMember := List.mem_filter.2 ⟨ht, haccepts⟩
          rw [hnone] at hmem
          cases hmem
      | some u =>
          have haccepts := (List.mem_filter.1 (mem_of_pickSmallest hpick)).2
          exact ⟨u, rfl, .inl (Team.acceptsMember_iff.1 haccepts).2⟩
  · -- All teams are full, and one of them all is picked.
    have hfull : ∀ t ∈ roster, t.size = 4 := by
      intro t ht
      obtain ⟨hone, hfour⟩ := hsize t ht
      by_contra hless
      apply hroom
      exact List.any_eq_true.2 ⟨t, ht, Team.acceptsMember_iff.2 (by omega)⟩
    rw [pickSmallest_of_full hfull]
    constructor
    · rintro ⟨-, ⟨t, ht, hthree⟩ | ⟨t, ht, hdivides⟩⟩
      · have hfour := hfull t ht
        omega
      · exact ⟨t, ht, .inr hdivides⟩
    · rintro ⟨t, ht, hspace⟩
      have hmem : t ∈ roster := List.mem_of_getElem? ht
      refine ⟨List.ne_nil_of_mem hmem, .inr ⟨t, ht, hspace.resolve_left ?_⟩⟩
      have hfour := hfull t hmem
      omega

section Plans

theorem edits_joiningPlan (v : Surroundings τ) (w : World Store τ) (t : Team) (m : Member)
    (i : Intake) : (v.joiningPlan w t m i).changes.edits =
      (i.compose (v.births w.born)).edits t.memberIds m.id := by
  rw [joiningPlan, edits_growth, edits_expect]
  rfl

/-- A command that carries out a plan goes through exactly if there is such a plan and it is
committed. -/
theorem saves_plan {c : Command} {plan : UseCase (Plan α)} {view : α → Answer}
    (hprepare : c.prepare = do return (← plan).undertaking view) :
    v.Saves c w ↔
      ∃ p ready, v.Yields plan w p ready ∧ ∃ s, w.storage.commit p.changes = (.ok (), s) := by
  rw [saves_iff]
  constructor
  · rintro ⟨u, ready, s, hprepared, hwritten⟩
    rw [hprepare] at hprepared
    obtain ⟨p, hp, rfl⟩ := Command.yields_undertaking.1 hprepared
    exact ⟨p, ready, hp, s, hwritten⟩
  · rintro ⟨p, ready, hp, s, hcommit⟩
    refine ⟨p.undertaking view, ready, s, ?_, hcommit⟩
    rw [hprepare]
    exact Command.yields_undertaking.2 ⟨p, hp, rfl⟩

/-- An assignment can be planned and its writes go through exactly if the member is in no team and
active, and there is a place. -/
theorem exists_assignment_iff (h : v.Sound w) (hbounded : w.storage.Bounded)
    (hbirths : v.DistinctBirths (w.born + 1)) (hstored : w.storage.members.contains m.id = true) :
    (∃ p ready, v.Yields (Plan.assignment m) w p ready ∧
        ∃ d, w.storage.applyAll p.changes.edits = .ok d) ↔
      w.storage.teamOf m.id = .ok none ∧ m.status = .active ∧ v.Placeable w := by
  rw [placeable_iff h hbounded]
  constructor
  · rintro ⟨p, ready, hp, d, hd⟩
    obtain ⟨roster, i, hfree, hroster, hi, rfl, rfl⟩ := yields_assignment.1 hp
    obtain ⟨t, hpick, hintake⟩ := assign_eq_ok_iff.1 hi
    have hmem := assignable_subset roster t (mem_of_pickSmallest hpick)
    have hheld := (Store.mem_allTeams h.store.keyed hroster t).1 hmem
    rw [edits_growth, team_compose (Team.intake_eq_ok hintake).2.2,
      expectation_of_mem h.store.keyed hroster hmem, edits_expect] at hd
    obtain ⟨hactive, hspace⟩ :=
      (takesIn_iff h hbounded hbirths hheld hstored (not_mem_roll hfree)).1 ⟨i, d, hintake, hd⟩
    exact ⟨hfree, hactive, roster, t, hroster, hpick, hspace⟩
  · rintro ⟨hfree, hactive, roster, t, hroster, hpick, hspace⟩
    have hmem := assignable_subset roster t (mem_of_pickSmallest hpick)
    have hheld := (Store.mem_allTeams h.store.keyed hroster t).1 hmem
    obtain ⟨i, d, hintake, hd⟩ :=
      (takesIn_iff h hbounded hbirths hheld hstored (not_mem_roll hfree)).2 ⟨hactive, hspace⟩
    have hi := assign_eq_ok_iff.2 ⟨t, hpick, hintake⟩
    refine ⟨_, _, yields_assignment.2 ⟨roster, i, hfree, hroster, hi, rfl, rfl⟩, d, ?_⟩
    rw [edits_growth, team_compose (Team.intake_eq_ok hintake).2.2,
      expectation_of_mem h.store.keyed hroster hmem, edits_expect]
    exact hd

end Plans

section Commands

variable {member team : Ident}

/-- There are free and active members under a list of ids exactly if all of them are available. -/
theorem exists_available_iff {s : Store} {ids : List Ident} :
    (∃ ms, List.Forall₂ (fun id m => s.teamOf id = .ok none ∧ s.members.find? id = some m) ids ms ∧
      ∀ m ∈ ms, m.status = .active) ↔ ∀ id ∈ ids, s.Available id := by
  induction ids with
  | nil => simp
  | cons id ids ih =>
      rw [List.forall_mem_cons, ← ih, Store.available_iff]
      constructor
      · rintro ⟨ms, hms, hactive⟩
        obtain ⟨m, rest, ⟨hfree, hm⟩, hrest, rfl⟩ := List.forall₂_cons_left_iff.1 hms
        rw [List.forall_mem_cons] at hactive
        exact ⟨⟨⟨m, hm, hactive.1⟩, hfree⟩, rest, hrest, hactive.2⟩
      · rintro ⟨⟨⟨m, hm, hstatus⟩, hfree⟩, rest, hrest, hactive⟩
        exact ⟨m :: rest, .cons ⟨hfree, hm⟩ hrest, List.forall_mem_cons.2 ⟨hstatus, hactive⟩⟩

/-- A team is formed exactly of two to four different members who are available, under a name that is
free. -/
theorem saves_createTeam (h : v.Sound w) (hbirths : v.DistinctBirths (w.born + 1)) {name : TeamName}
    {ids : List Ident} :
    v.Saves (.createTeam name.text ids) w ↔
      2 ≤ ids.length ∧ ids.length ≤ 4 ∧ ids.Nodup ∧ (∀ id ∈ ids, w.storage.Available id) ∧
        w.storage.NameFree name.text := by
  -- The writes of a draft that was made of members who are stored under the ids.
  have hwrites {ms : List Member} {draft : Team.Draft} (hdraft : draft.members = ms)
      (hname : draft.name = name) (hms : ∀ m ∈ ms, w.storage.members.find? m.id = some m) :
      (∃ d, w.storage.apply (.createTeam (draft.form (v.births w.born))) = .ok d) ↔
        w.storage.NameFree name.text := by
    rw [← hname]
    refine Store.exists_apply_createTeam_iff (h.fresh_team hbirths) ?_
    intro id hid
    obtain ⟨m, hm, rfl⟩ := Team.mem_memberIds.1 hid
    exact Directory.contains_iff.2 ⟨m, hms m (hdraft ▸ hm)⟩
  rw [saves_iff, ← exists_available_iff]
  constructor
  · rintro ⟨u, ready, s, hprepared, hwritten⟩
    obtain ⟨n, ms, draft, hn, hms, hdraft, rfl, -⟩ := yields_createTeam.1 hprepared
    rw [TeamName.ofText_text] at hn
    cases hn
    obtain ⟨htwo, hfour, hactive, hnodup⟩ := Team.Draft.ofMembers_eq_ok.1 ⟨draft, hdraft⟩
    obtain ⟨hids, hfound⟩ := (Store.forall₂_find?_iff h.store.keyed).1 (hms.imp fun _ _ hm => hm.2)
    obtain ⟨hname, hmembers⟩ := Team.Draft.of_ofMembers hdraft
    rw [← hms.length_eq] at htwo hfour
    rw [← hids] at hnodup
    exact ⟨htwo, hfour, hnodup, ⟨ms, hms, hactive⟩,
      (hwrites hmembers hname hfound).1 ⟨s, Store.apply_of_written hwritten⟩⟩
  · rintro ⟨htwo, hfour, hnodup, ⟨ms, hms, hactive⟩, hfree⟩
    obtain ⟨hids, hfound⟩ := (Store.forall₂_find?_iff h.store.keyed).1 (hms.imp fun _ _ hm => hm.2)
    rw [hms.length_eq] at htwo hfour
    rw [hids] at hnodup
    obtain ⟨draft, hdraft⟩ := Team.Draft.ofMembers_eq_ok.2 ⟨htwo, hfour, hactive, hnodup⟩
    obtain ⟨hname, hmembers⟩ := Team.Draft.of_ofMembers hdraft
    obtain ⟨d, hd⟩ := (hwrites hmembers hname hfound).2 hfree
    refine ⟨_, _, d, yields_createTeam.2
      ⟨name, ms, draft, TeamName.ofText_text name, hms, hdraft, rfl, rfl⟩, ?_⟩
    exact congrArg w.storage.written hd

/-- A member is added exactly if the team is stored, the member is available, and the team has room or
can split. -/
theorem saves_addMember (h : v.Sound w) (hbounded : w.storage.Bounded)
    (hbirths : v.DistinctBirths (w.born + 1)) :
    v.Saves (.addMember team member) w ↔
      ∃ r, w.storage.teams.find? team = some r ∧ w.storage.Available member ∧
        (r.memberIds.length ≤ 3 ∨ w.storage.MayDivide r.name) := by
  rw [saves_plan rfl, Store.available_iff, Store.teamOf_eq_none_iff]
  have hcommits {p : Plan Team} (hcurrent : w.storage.Current p.changes) :=
    Store.exists_commit_iff hcurrent.meets
  have hstored {m : Member} (hm : w.storage.members.find? m.id = some m) :=
    Directory.contains_iff.2 ⟨m, hm⟩
  constructor
  · rintro ⟨p, ready, hp, hcommit⟩
    obtain ⟨t, m, i, rfl, ht, rfl, hm, habsent, hi, rfl, -⟩ := (joiningPlan_of_addition h.store.keyed).1 hp
    obtain ⟨d, hd⟩ := (hcommits (current_joiningPlan ht m i)).1 hcommit
    rw [edits_joiningPlan] at hd
    obtain ⟨hactive, hspace⟩ :=
      (takesIn_iff h hbounded hbirths ht (hstored hm) habsent).1 ⟨i, d, hi, hd⟩
    obtain ⟨place, hplace⟩ := ht.record
    refine ⟨_, hplace, ⟨⟨m, hm, hactive⟩, habsent⟩, ?_⟩
    rwa [Team.record, Team.memberIds, List.length_map]
  · rintro ⟨r, hr, ⟨⟨m, hm, hactive⟩, habsent⟩, hspace⟩
    obtain ⟨t, place, rfl, ht, rfl⟩ := h.store.holds_of_find? hr
    rw [Team.record, Team.memberIds, List.length_map] at hspace
    have heq := h.store.keyed member m hm
    subst heq
    obtain ⟨i, d, hi, hd⟩ :=
      (takesIn_iff h hbounded hbirths ht (hstored hm) habsent).2 ⟨hactive, hspace⟩
    refine ⟨_, _, (joiningPlan_of_addition h.store.keyed).2
      ⟨t, m, i, rfl, ht, rfl, hm, habsent, hi, rfl, rfl⟩, ?_⟩
    apply (hcommits (current_joiningPlan ht m i)).2
    exact ⟨d, (congrArg _ (edits_joiningPlan v w t m i)).trans hd⟩

/-- A member is assigned exactly if available while there is a place. -/
theorem saves_reassign (h : v.Sound w) (hbounded : w.storage.Bounded)
    (hbirths : v.DistinctBirths (w.born + 1)) :
    v.Saves (.reassignMember member) w ↔ w.storage.Available member ∧ v.Placeable w := by
  have hprepare : (Command.reassignMember member).prepare =
      do return (← UseCase.member member >>= Plan.assignment).undertaking .ofTeam := by
    simp [Command.prepare]
  rw [saves_plan hprepare, Store.available_iff]
  constructor
  · rintro ⟨p, ready, hp, hcommit⟩
    obtain ⟨m, mid, hm, hplan⟩ := yields_bind.1 hp
    obtain ⟨hm, rfl⟩ := yields_member.1 hm
    have heq := h.store.keyed member m hm
    subst heq
    have happly := (Store.exists_commit_iff (current_of_assignment h.store.keyed hplan).meets).1 hcommit
    obtain ⟨hfree, hactive, hplace⟩ := (exists_assignment_iff h hbounded hbirths
      (Directory.contains_iff.2 ⟨m, hm⟩)).1 ⟨p, ready, hplan, happly⟩
    exact ⟨⟨⟨m, hm, hactive⟩, hfree⟩, hplace⟩
  · rintro ⟨⟨⟨m, hm, hactive⟩, hfree⟩, hplace⟩
    have heq := h.store.keyed member m hm
    subst heq
    obtain ⟨p, ready, hplan, happly⟩ := (exists_assignment_iff h hbounded hbirths
      (Directory.contains_iff.2 ⟨m, hm⟩)).2 ⟨hfree, hactive, hplace⟩
    refine ⟨p, ready, yields_bind.2 ⟨m, w, yields_member.2 ⟨hm, rfl⟩, hplan⟩, ?_⟩
    exact (Store.exists_commit_iff (current_of_assignment h.store.keyed hplan).meets).2 happly

/-- For a member who comes back, an assignment is planned. -/
theorem yields_followStatus_return {before : Status} {p : Plan (Option Team)}
    (haway : before ≠ .active) :
    v.Yields (Plan.followStatus before { m with status := .active }) w p after ↔
      ∃ q, v.Yields (Plan.assignment { m with status := .active }) w q after ∧ p = aside q := by
  rw [yields_followStatus]
  simp [haway]

/-- A member is brought back exactly if registered and away while there is a place. -/
theorem saves_return (h : v.Sound w) (hbounded : w.storage.Bounded)
    (hbirths : v.DistinctBirths (w.born + 1)) :
    v.Saves (.changeStatus member .active) w ↔
      (∃ m, w.storage.members.find? member = some m ∧ m.status ≠ .active) ∧ v.Placeable w := by
  rw [saves_plan rfl]
  constructor
  · rintro ⟨p, ready, hp, hcommit⟩
    obtain ⟨m, q, hm, hallowed, hq, rfl⟩ := yields_statusChange.1 hp
    have haway : m.status ≠ .active := by
      rintro hactive
      rw [hactive] at hallowed
      cases hallowed
    have heq := h.store.keyed member m hm
    subst heq
    have hcurrent := current_of_followStatus h.store.keyed hq
    have happly := (Store.exists_commit_status_iff hcurrent.meets hcurrent.teams hm).1 hcommit
    obtain ⟨a, hassigned, rfl⟩ := (yields_followStatus_return haway).1 hq
    obtain ⟨-, -, hplace⟩ := (exists_assignment_iff (m := { m with status := .active }) h hbounded
      hbirths (Directory.contains_iff.2 ⟨m, hm⟩)).1 ⟨a, ready, hassigned, happly⟩
    exact ⟨⟨m, hm, haway⟩, hplace⟩
  · rintro ⟨⟨m, hm, haway⟩, hplace⟩
    have heq := h.store.keyed member m hm
    subst heq
    have hfree := Store.teamOf_eq_none_iff.2 (h.store.not_mem_roll_of_away hm haway)
    obtain ⟨a, ready, hassigned, happly⟩ := (exists_assignment_iff (m := { m with status := .active })
      h hbounded hbirths (Directory.contains_iff.2 ⟨m, hm⟩)).2 ⟨hfree, rfl, hplace⟩
    have hq := (yields_followStatus_return haway).2 ⟨a, hassigned, rfl⟩
    refine ⟨_, ready, yields_statusChange.2 ⟨m, _, hm, ?_, hq, rfl⟩, ?_⟩
    · exact Status.canBecome_active haway
    · have hcurrent := current_of_followStatus h.store.keyed hq
      exact (Store.exists_commit_status_iff hcurrent.meets hcurrent.teams hm).2 happly

end Commands

/-- Joining is refused for stated reasons only. On a reachable world, a team is formed exactly of two to
four different members who are available, under a name that no team has; a member is added exactly if
available, to a stored team that has room or can split; a member is assigned exactly if available, and
brought back exactly if registered and away, while there is a place. None of these ends in a conflict,
over stored data that break a rule, or over a storage that cannot be reached. -/
theorem joining_refused_for_cause (hw : v.Reachable w)
    (hbirths : v.DistinctBirths (w.born + 1)) :
    (∀ (name : TeamName) ids,
      (v.Saves (.createTeam name.text ids) w ↔
          2 ≤ ids.length ∧ ids.length ≤ 4 ∧ ids.Nodup ∧ (∀ id ∈ ids, w.storage.Available id) ∧
            w.storage.NameFree name.text) ∧
        ∀ x, v.Fails (Command.createTeam name.text ids).perform w x → x.isFault = false) ∧
    (∀ team member,
      (v.Saves (.addMember team member) w ↔
          ∃ r, w.storage.teams.find? team = some r ∧ w.storage.Available member ∧
            (r.memberIds.length ≤ 3 ∨ w.storage.MayDivide r.name)) ∧
        ∀ x, v.Fails (Command.addMember team member).perform w x → x.isFault = false) ∧
    (∀ member,
      (v.Saves (.reassignMember member) w ↔ w.storage.Available member ∧ v.Placeable w) ∧
        ∀ x, v.Fails (Command.reassignMember member).perform w x → x.isFault = false) ∧
    ∀ member,
      (v.Saves (.changeStatus member .active) w ↔
          (∃ m, w.storage.members.find? member = some m ∧ m.status ≠ .active) ∧ v.Placeable w) ∧
        ∀ x, v.Fails (Command.changeStatus member .active).perform w x → x.isFault = false := by
  have hearlier : v.DistinctBirths w.born := hbirths.mono (Nat.le_succ w.born)
  have hsound := hw.sound hearlier
  have hbounded := hw.bounded hearlier
  refine ⟨?_, ?_, ?_, ?_⟩
  · intro name ids
    exact ⟨saves_createTeam hsound hbirths, perform_faultless hsound _⟩
  · intro team member
    exact ⟨saves_addMember hsound hbounded hbirths, perform_faultless hsound _⟩
  · intro member
    exact ⟨saves_reassign hsound hbounded hbirths, perform_faultless hsound _⟩
  · intro member
    exact ⟨saves_return hsound hbounded hbirths, perform_faultless hsound _⟩

/-- The fifth member can be added to the full team, which splits; nobody can be brought back who is
active. -/
theorem joining_refused_for_cause_full :
    counting.Saves (.addMember (.ofRandom 5) (.ofRandom 4)) full ∧
      ¬ counting.Saves (.changeStatus (.ofRandom 4) .active) full := by
  have hmember : (full.storage.members.find? (.ofRandom 4)).any
      (fun m => decide (m.status = .active)) = true := by
    decide +kernel
  have hlisted : Ident.ofRandom 4 ∉ full.storage.roll := by
    decide +kernel
  have hteam : (full.storage.teams.find? (.ofRandom 5)).any
      (fun r => decide (r.name.text = "Owls")) = true := by
    decide +kernel
  have hnames : full.storage.teams.entries.all (fun e => decide (e.2.name.text = "Owls")) = true := by
    decide +kernel
  obtain ⟨m, hm, hactive⟩ := (Option.any_eq_true _ _).1 hmember
  obtain ⟨r, hr, hname⟩ := (Option.any_eq_true _ _).1 hteam
  obtain ⟨-, hadds, -, hreturns⟩ := joining_refused_for_cause reachable_full (by decide +kernel)
  obtain ⟨hadds, -⟩ := hadds (.ofRandom 5) (.ofRandom 4)
  obtain ⟨hreturns, -⟩ := hreturns (.ofRandom 4)
  constructor
  · have havailable : full.storage.Available (.ofRandom 4) :=
      Store.available_iff.2 ⟨⟨m, hm, of_decide_eq_true hactive⟩, Store.teamOf_eq_none_iff.2 hlisted⟩
    refine hadds.2 ⟨r, hr, havailable, .inr ?_⟩
    rw [Store.MayDivide, of_decide_eq_true hname]
    refine ⟨by decide, ?_⟩
    intro team q hq
    have howls := List.all_eq_true.1 hnames _ (Directory.find?_eq_some.1 hq)
    rw [of_decide_eq_true howls]
    decide
  · intro hsaves
    obtain ⟨⟨x, hx, haway⟩, -⟩ := hreturns.1 hsaves
    rw [hm] at hx
    cases hx
    exact haway (of_decide_eq_true hactive)

end Surroundings

end TeamRoster
