import TeamRoster.Proofs.Store.Serial

/-!
# What each edit leaves behind

An edit that goes through writes one record, drops one team or sets one status. The equivalences
below say when it goes through and what store it leaves; `Store.Rewritten` says the same of several
edits together, by the teams that have another list of members afterwards, that are new and that are
gone.
-/

namespace TeamRoster

/-- The record of a team, at a place in the order of teams. -/
def Team.record (t : Team) (place : Nat) : TeamRecord :=
  ⟨t.name, t.memberIds, t.createdAt, place⟩

/-- A record with another list of members. -/
def TeamRecord.relist (r : TeamRecord) (ids : List Ident) : TeamRecord :=
  { r with memberIds := ids }

@[simp] theorem TeamRecord.relist_memberIds (r : TeamRecord) (ids : List Ident) :
    (r.relist ids).memberIds = ids := rfl

theorem TeamRecord.join_of_not_mem {r : TeamRecord} {member : Ident} (h : member ∉ r.memberIds) :
    r.join member = r.relist (r.memberIds ++ [member]) := by
  simp [join, relist, h]

namespace Store

/-- A store with one record written, or one team dropped. -/
def rewrite (s : Store) (team : Ident) (record : Option TeamRecord) : Store :=
  { s with teams := publishTeam s.teams (team, record) }

/-- A store with the status of one member set. -/
def restate (s : Store) (member : Ident) (m : Member) (status : Status) : Store :=
  { s with members := s.members.insert member { m with status } }

@[simp] theorem find?_rewrite (s : Store) (team : Ident) (record : Option TeamRecord) (id : Ident) :
    (s.rewrite team record).teams.find? id = if id = team then record else s.teams.find? id :=
  find?_publishTeam s.teams (team, record) id

theorem publish_write (s : Store) (team : Ident) (record : Option TeamRecord) :
    s.publish (s.stage.write team record) = s.rewrite team record := rfl

section Edits

variable {s d : Store} {team member : Ident}

theorem apply_createTeam_eq_ok {t : Team} :
    s.apply (.createTeam t) = .ok d ↔
      s.nameTaken s.stage t.id t.name = false ∧ (∀ id ∈ t.memberIds, s.members.contains id = true) ∧
        d = s.publish (s.enter s.stage t) := by
  simp only [apply, single, stageCreate_eq]
  cases hname : s.nameTaken s.stage t.id t.name with
  | true => simp
  | false =>
      cases hmissing : t.memberIds.find? fun id => !s.members.contains id with
      | some id =>
          have hid := List.find?_some hmissing
          have hmem := List.mem_of_find?_eq_some hmissing
          simp only [Bool.false_eq_true, if_false, Failing.error_bind, reduceCtorEq, false_iff,
            true_and, not_and]
          intro hall
          simp [hall id hmem] at hid
      | none =>
          have hall : ∀ id ∈ t.memberIds, s.members.contains id = true := by
            simpa using hmissing
          simp only [Bool.false_eq_true, if_false, Failing.ok_bind, Failing.pure_eq_ok,
            Except.ok.injEq, true_and, and_iff_right hall]
          exact eq_comm

theorem apply_deleteTeam_eq_ok :
    s.apply (.deleteTeam team) = .ok d ↔
      (s.teams.find? team).isSome = true ∧ d = s.rewrite team none := by
  simp only [apply, single, stageDelete_eq, staged?_stage]
  cases s.teams.find? team with
  | none => simp
  | some r => simp [publish_write, eq_comm]

theorem apply_addMember_eq_ok :
    s.apply (.addMember team member) = .ok d ↔
      s.members.contains member = true ∧
        ∃ r, s.teams.find? team = some r ∧ d = s.rewrite team (some (r.join member)) := by
  simp only [apply, single, stageAdd_eq, staged?_stage]
  cases s.members.contains member with
  | false => simp
  | true =>
      cases s.teams.find? team with
      | none => simp
      | some r => simp [publish_write, eq_comm]

theorem apply_removeMember_eq_ok :
    s.apply (.removeMember team member) = .ok d ↔
      ∃ r, s.teams.find? team = some r ∧ member ∈ r.memberIds ∧
        d = s.rewrite team (some (r.leave member)) := by
  simp only [apply, single, stageRemove_eq, staged?_stage]
  cases s.teams.find? team with
  | none => simp
  | some r =>
      by_cases hmem : member ∈ r.memberIds
      · simp [hmem, publish_write, eq_comm]
      · simp [hmem]

theorem apply_setStatus_eq_ok {before after : Status} :
    s.apply (.setStatus member before after) = .ok d ↔
      ∃ m, s.members.find? member = some m ∧ m.status = before ∧ d = s.restate member m after := by
  simp only [apply, exchangeStatus, setStatus]
  cases s.members.find? member with
  | none => simp
  | some m =>
      by_cases hstatus : m.status = before
      · simp [hstatus, restate, eq_comm]
      · simp [hstatus]

/-- A new team is found, and all others as before; no member has changed. -/
theorem find?_created {t : Team} (hnew : s.teams.find? t.id = none)
    (happly : s.apply (.createTeam t) = .ok d) :
    d.members = s.members ∧ ∀ id, d.teams.find? id =
      if id = t.id then some (t.record s.nextPlace) else s.teams.find? id := by
  obtain ⟨-, -, rfl⟩ := apply_createTeam_eq_ok.1 happly
  constructor
  · cases s.staged? s.stage t.id <;> rfl
  · intro id
    rw [find?_publish, staged?_enter, staged?_stage, hnew]
    rfl

/-- Members taken out one after the other are missing from the list, and nothing else changes. -/
theorem applyAll_removeMember {ids : List Ident} {r : TeamRecord}
    (h : s.applyAll (ids.map (Edit.removeMember team)) = .ok d)
    (hr : s.teams.find? team = some r) :
    d.members = s.members ∧ d.teams.find? team = some (r.relist (r.memberIds.diff ids)) ∧
      ∀ id, id ≠ team → d.teams.find? id = s.teams.find? id := by
  induction ids generalizing s r with
  | nil =>
      cases h
      exact ⟨rfl, hr, fun id _ => rfl⟩
  | cons member ids ih =>
      rw [List.map_cons, applyAll_cons, Failing.bind_eq_ok] at h
      obtain ⟨mid, hmid, hrest⟩ := h
      obtain ⟨r', hr', hmem, rfl⟩ := apply_removeMember_eq_ok.1 hmid
      have heq : r = r' := Option.some.inj (hr.symm.trans hr')
      subst heq
      obtain ⟨hmembers, hteam, hothers⟩ := ih hrest (r := r.leave member) (by simp)
      refine ⟨hmembers, ?_, fun id hid => ?_⟩
      · rw [hteam, List.diff_cons]
        rfl
      · rw [hothers id hid, find?_rewrite, if_neg hid]

end Edits

end Store

/-- What becomes of the stored teams: those with another list of members, those that are new, and
the ids of those that are gone. -/
structure Rewrite where
  relisted : List Team
  founded : List Team
  dropped : List Ident

/-- The ids of all teams that are concerned. -/
def Rewrite.touched (x : Rewrite) : List Ident :=
  x.relisted.map Team.id ++ x.founded.map Team.id ++ x.dropped

/-- The teams of a store were rewritten like this, and no others. -/
structure Store.Rewritten (s d : Store) (x : Rewrite) : Prop where
  relisted (t : Team) : t ∈ x.relisted →
    ∃ r, s.teams.find? t.id = some r ∧ d.teams.find? t.id = some (r.relist t.memberIds)
  founded (t : Team) : t ∈ x.founded → ∃ place, d.teams.find? t.id = some (t.record place)
  dropped (id : Ident) : id ∈ x.dropped → d.teams.find? id = none
  kept (id : Ident) : id ∉ x.touched → d.teams.find? id = s.teams.find? id

namespace Store

variable {s : Store}

/-- It is all the same which of two stores it was where the same teams are found. -/
theorem Rewritten.congr {mid after : Store} {x : Rewrite} (h : s.Rewritten mid x)
    (hteams : ∀ id, after.teams.find? id = mid.teams.find? id) : s.Rewritten after x where
  relisted t ht := by
    rw [hteams]
    exact h.relisted t ht
  founded t ht := by
    rw [hteams]
    exact h.founded t ht
  dropped id hid := (hteams id).trans (h.dropped id hid)
  kept id hid := (hteams id).trans (h.kept id hid)

/-- Nothing is rewritten where the same teams are found. -/
theorem rewritten_nothing {after : Store} (h : ∀ id, after.teams.find? id = s.teams.find? id) :
    s.Rewritten after ⟨[], [], []⟩ where
  relisted t ht := by cases ht
  founded t ht := by cases ht
  dropped id hid := by cases hid
  kept id _ := h id

/-- A team that was created is new, and nothing else is rewritten. -/
theorem rewritten_created {after : Store} {t : Team} (hnew : s.teams.find? t.id = none)
    (happly : s.apply (.createTeam t) = .ok after) : s.Rewritten after ⟨[], [t], []⟩ := by
  obtain ⟨-, hfound⟩ := find?_created hnew happly
  constructor
  · intro u hu
    cases hu
  · intro u hu
    have heq := List.mem_singleton.1 hu
    subst heq
    exact ⟨s.nextPlace, (hfound u.id).trans (if_pos rfl)⟩
  · intro id hid
    cases hid
  · intro id hid
    have hne : id ≠ t.id := by
      simpa [Rewrite.touched] using hid
    exact (hfound id).trans (if_neg hne)

/-- A team that is found after a rewriting was there just so, or has another list of members, or is
new. -/
theorem Rewritten.find?_cases {x : Rewrite} {after : Store} (h : s.Rewritten after x) {id : Ident}
    {r : TeamRecord} (hr : after.teams.find? id = some r) :
    s.teams.find? id = some r ∨
      (∃ t ∈ x.relisted, t.id = id ∧ r.memberIds = t.memberIds ∧ ∃ q, s.teams.find? id = some q) ∨
      ∃ t ∈ x.founded, t.id = id ∧ r.memberIds = t.memberIds := by
  by_cases hid : id ∈ x.touched
  · rw [Rewrite.touched, List.mem_append, List.mem_append] at hid
    rcases hid with (hid | hid) | hid
    · obtain ⟨t, ht, rfl⟩ := List.mem_map.1 hid
      obtain ⟨q, hq, hlist⟩ := h.relisted t ht
      have heq : r = q.relist t.memberIds := Option.some.inj (hr.symm.trans hlist)
      exact .inr (.inl ⟨t, ht, rfl, congrArg TeamRecord.memberIds heq, q, hq⟩)
    · obtain ⟨t, ht, rfl⟩ := List.mem_map.1 hid
      obtain ⟨place, hplace⟩ := h.founded t ht
      have heq : r = t.record place := Option.some.inj (hr.symm.trans hplace)
      exact .inr (.inr ⟨t, ht, rfl, congrArg TeamRecord.memberIds heq⟩)
    · rw [h.dropped id hid] at hr
      cases hr
  · exact .inl ((h.kept id hid).symm.trans hr)

/-- A team that is found after a rewriting was there before or is new. -/
theorem Rewritten.find?_some {x : Rewrite} {after : Store} (h : s.Rewritten after x) {id : Ident}
    {r : TeamRecord} (hr : after.teams.find? id = some r) :
    (∃ q, s.teams.find? id = some q) ∨ ∃ t ∈ x.founded, t.id = id := by
  rcases h.find?_cases hr with hkept | ⟨t, -, -, -, hbefore⟩ | ⟨t, ht, hid, -⟩
  · exact .inl ⟨r, hkept⟩
  · exact .inl hbefore
  · exact .inr ⟨t, ht, hid⟩

end Store

end TeamRoster
