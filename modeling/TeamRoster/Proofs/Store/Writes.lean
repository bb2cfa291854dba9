import TeamRoster.Proofs.Failing
import TeamRoster.Store.Staging

/-!
# What staging a write does

Each kind of write to the teams first checks something and then puts one record into the staging.
The equations below say which check fails first and which record is put there. What a staging does
to later ones is its view of the teams alone, `Store.staged?`, and publishing makes that view the
stored teams.
-/

namespace TeamRoster

/-- The record after a member joined; a member who is there already is not added again. -/
def TeamRecord.join (r : TeamRecord) (member : Ident) : TeamRecord :=
  { r with memberIds :=
      if r.memberIds.contains member then r.memberIds else r.memberIds ++ [member] }

/-- The record after a member left. -/
def TeamRecord.leave (r : TeamRecord) (member : Ident) : TeamRecord :=
  { r with memberIds := r.memberIds.erase member }

/-- A staging with one more record written, or one more team deleted. -/
def Staging.write (g : Staging) (team : Ident) (record : Option TeamRecord) : Staging :=
  { g with teams := g.teams.insert team record }

namespace Store

variable (s : Store) (g : Staging)

/-- A staging with a team entered, in its old place if it has one. -/
def enter (t : Team) : Staging :=
  match s.staged? g t.id with
  | some r => g.write t.id (some ⟨t.name, t.memberIds, t.createdAt, r.place⟩)
  | none =>
    { g.write t.id (some ⟨t.name, t.memberIds, t.createdAt, g.nextPlace⟩) with
      nextPlace := g.nextPlace + 1 }

@[simp] theorem staged?_stage (id : Ident) : s.staged? s.stage id = s.teams.find? id := rfl

/-- A written record shadows whatever was there under its id and nothing else. -/
@[simp] theorem staged?_write (team : Ident) (record : Option TeamRecord) (id : Ident) :
    s.staged? (g.write team record) id = if id = team then record else s.staged? g id := by
  by_cases h : id = team
  · simp [staged?, Staging.write, h]
  · simp [staged?, Staging.write, h]

/-- An entered team shadows whatever was there under its id and nothing else. -/
theorem staged?_enter (t : Team) (id : Ident) :
    s.staged? (s.enter g t) id =
      if id = t.id then
        some ⟨t.name, t.memberIds, t.createdAt,
          ((s.staged? g t.id).map TeamRecord.place).getD g.nextPlace⟩
      else s.staged? g id := by
  cases h : s.staged? g t.id with
  | none =>
      simp only [enter, h, Option.map_none, Option.getD_none]
      exact s.staged?_write g t.id _ id
  | some r => simp [enter, h]

@[simp] theorem enter_statuses (t : Team) : (s.enter g t).statuses = g.statuses := by
  cases h : s.staged? g t.id <;> simp [enter, h, Staging.write]

/-- A place is given out only to a team that was not there. -/
theorem enter_nextPlace (t : Team) :
    (s.enter g t).nextPlace =
      if (s.staged? g t.id).isSome then g.nextPlace else g.nextPlace + 1 := by
  cases h : s.staged? g t.id <;> simp [enter, h, Staging.write]

/-- The first member who is not stored is the one that is reported. -/
theorem forM_requireMember (ids : List Ident) :
    ids.forM s.requireMember =
      match ids.find? fun id => !s.members.contains id with
      | some id => .error (.notFound .member id)
      | none => .ok () := by
  induction ids with
  | nil => rfl
  | cons id ids ih =>
      rw [show (id :: ids).forM s.requireMember =
        (s.requireMember id >>= fun _ => ids.forM s.requireMember) from rfl]
      by_cases hid : s.members.contains id
      · simpa [requireMember, hid] using ih
      · simp [requireMember, hid]

theorem stageCreate_eq (t : Team) :
    s.stageCreate g t =
      if s.nameTaken g t.id t.name then .error (.nameTaken t.name.text)
      else
        match t.memberIds.find? fun id => !s.members.contains id with
        | some id => .error (.notFound .member id)
        | none => .ok (s.enter g t) := by
  unfold stageCreate
  by_cases hname : s.nameTaken g t.id t.name
  · simp [hname]
  · rw [forM_requireMember]
    cases t.memberIds.find? fun id => !s.members.contains id with
    | some id => simp [hname]
    | none => cases hr : s.staged? g t.id <;> simp [hname, enter, hr, Staging.write]

theorem stageDelete_eq (team : Ident) :
    s.stageDelete g team =
      match s.staged? g team with
      | some _ => .ok (g.write team none)
      | none => .error (.notFound .team team) := by
  cases h : s.staged? g team <;> simp [stageDelete, requireTeam, h, Staging.write]

theorem stageAdd_eq (team member : Ident) :
    s.stageAdd g team member =
      if s.members.contains member then
        match s.staged? g team with
        | some r => .ok (g.write team (some (r.join member)))
        | none => .error (.notFound .team team)
      else .error (.notFound .member member) := by
  by_cases hm : s.members.contains member
  · cases h : s.staged? g team <;>
      simp [stageAdd, requireMember, requireTeam, hm, h, Staging.write, TeamRecord.join]
  · simp [stageAdd, requireMember, hm]

theorem stageRemove_eq (team member : Ident) :
    s.stageRemove g team member =
      match s.staged? g team with
      | some r =>
        if r.memberIds.contains member then .ok (g.write team (some (r.leave member)))
        else .error (.notFound .membership member)
      | none => .error (.notFound .team team) := by
  cases h : s.staged? g team with
  | none => simp [stageRemove, requireTeam, h]
  | some r =>
      by_cases hm : member ∈ r.memberIds <;>
        simp [stageRemove, requireTeam, h, hm, Staging.write, TeamRecord.leave]

/-- A name is taken exactly if another team reads as having it. -/
theorem nameTaken_iff (id : Ident) (name : TeamName) :
    s.nameTaken g id name = true ↔
      ∃ other r, other ≠ id ∧ s.staged? g other = some r ∧ r.name = name := by
  simp only [nameTaken, List.any_eq_true, Bool.and_eq_true, bne_iff_ne, beq_iff_eq,
    Option.any_eq_true]
  constructor
  · rintro ⟨other, -, hne, r, hr, hname⟩
    exact ⟨other, r, hne, hr, hname⟩
  · rintro ⟨other, r, hne, hr, hname⟩
    refine ⟨other, ?_, hne, r, hr, hname⟩
    -- A team that can be read is listed in the store or among the staged ones.
    by_contra hmem
    rw [List.mem_append, not_or] at hmem
    have hstored : s.teams.find? other = none := Directory.find?_eq_none.2 hmem.1
    have hstaged : g.teams.find? other = none := Directory.find?_eq_none.2 hmem.2
    simp [staged?, hstored, hstaged] at hr

end Store

end TeamRoster
