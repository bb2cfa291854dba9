import TeamRoster.Proofs.Store.Commit
import TeamRoster.Proofs.Store.Edits

/-!
# Edits to teams

All edits but one are about teams: they leave the members alone, and they fail only over a name that
is taken or something that is not stored. Main statements: `commit_not_fault` and
`commit_status_not_fault`. Where the teams are as they were expected to be, a change set that edits
teams is never refused for a conflict or for what is stored, with or without a change of the status
of a stored member at its end.
-/

namespace TeamRoster

/-- Whether an edit is about a team, and not about a status. -/
def Edit.isTeamEdit : Edit → Bool
  | setStatus _ _ _ => false
  | createTeam _ | deleteTeam _ | addMember _ _ | removeMember _ _ => true

/-- Failures for which whoever asks is not to blame: that what is stored changed, breaks a rule or
cannot be reached. -/
def StorageError.isFault : StorageError → Bool
  | conflict _ _ | corrupted _ | database _ => true
  | notFound _ _ | nameTaken _ => false

namespace Store

variable {s d : Store} {e : Edit} {es : List Edit} {c : ChangeSet} {x : StorageError}

/-- An edit to a team is one write of the storage. -/
theorem apply_teamEdit (he : e.isTeamEdit = true) :
    s.apply e = s.single fun g => s.stageEdit g e := by
  cases e with
  | setStatus member before after => cases he
  | createTeam t => rfl
  | deleteTeam team => rfl
  | addMember team member => rfl
  | removeMember team member => rfl

theorem apply_members (he : e.isTeamEdit = true) (h : s.apply e = .ok d) :
    d.members = s.members := by
  rw [apply_teamEdit he] at h
  obtain ⟨g, -, hd⟩ := Failing.bind_eq_ok.1 h
  cases hd
  rfl

/-- Edits to teams leave the members alone. -/
theorem applyAll_members (hteams : ∀ e ∈ es, e.isTeamEdit = true) (h : s.applyAll es = .ok d) :
    d.members = s.members := by
  induction es generalizing s with
  | nil =>
      cases h
      rfl
  | cons e es ih =>
      obtain ⟨mid, hmid, hrest⟩ := Failing.bind_eq_ok.1 h
      rw [ih (fun f hf => hteams f (List.mem_cons_of_mem e hf)) hrest]
      exact apply_members (hteams e List.mem_cons_self) hmid

/-- An edit to a team is not staged because a name is taken or something is not stored. -/
theorem stageEdit_not_fault {g : Staging} (he : e.isTeamEdit = true)
    (h : s.stageEdit g e = .error x) : x.isFault = false := by
  cases e with
  | setStatus member before after => cases he
  | createTeam t =>
      rw [stageEdit, stageCreate_eq] at h
      split at h
      · cases h
        rfl
      · split at h <;> cases h
        rfl
  | deleteTeam team =>
      rw [stageEdit, stageDelete_eq] at h
      split at h <;> cases h
      rfl
  | addMember team member =>
      rw [stageEdit, stageAdd_eq] at h
      split at h
      · split at h <;> cases h
        rfl
      · cases h
        rfl
  | removeMember team member =>
      rw [stageEdit, stageRemove_eq] at h
      split at h
      · split at h <;> cases h
        rfl
      · cases h
        rfl

theorem apply_not_fault (he : e.isTeamEdit = true) (h : s.apply e = .error x) :
    x.isFault = false := by
  rw [apply_teamEdit he, single] at h
  cases hstage : s.stageEdit s.stage e with
  | ok g =>
      rw [hstage] at h
      cases h
  | error y =>
      rw [hstage] at h
      cases h
      exact stageEdit_not_fault he hstage

theorem applyAll_not_fault (hteams : ∀ e ∈ es, e.isTeamEdit = true)
    (h : s.applyAll es = .error x) : x.isFault = false := by
  obtain ⟨before, e, rest, d, rfl, -, hfails⟩ := applyAll_eq_error.1 h
  exact apply_not_fault (hteams e (by simp)) hfails

section Commits

variable {id : Ident} {m : Member} {target : Status}

/-- Where the expectations are met, a commit goes through exactly if its edits do. -/
theorem exists_commit_iff (hmeets : ∀ e ∈ c.expectations, s.Meets e) :
    (∃ after, s.commit c = (.ok (), after)) ↔ ∃ d, s.applyAll c.edits = .ok d := by
  constructor
  · rintro ⟨after, hcommit⟩
    obtain ⟨d, hserial⟩ := commit_eq_ok_iff.1 (congrArg Prod.fst hcommit)
    exact ⟨d, (serial_eq_ok.1 hserial).2⟩
  · rintro ⟨d, happly⟩
    have hreply := commit_eq_ok_iff.2 ⟨d, serial_eq_ok.2 ⟨hmeets, happly⟩⟩
    exact ⟨_, congrArg (·, (s.commit c).2) hreply⟩

/-- After edits to teams, the status of a stored member is still the one that was read, and it can be
changed. -/
theorem applyAll_status (hteams : ∀ e ∈ es, e.isTeamEdit = true) (hm : s.members.find? id = some m) :
    s.applyAll (es ++ [.setStatus id m.status target]) =
      s.applyAll es >>= fun d => .ok (d.restate id m target) := by
  rw [applyAll_append]
  cases hedits : s.applyAll es with
  | error y => rfl
  | ok d =>
      rw [← applyAll_members hteams hedits] at hm
      have hset : d.apply (.setStatus id m.status target) = .ok (d.restate id m target) :=
        apply_setStatus_eq_ok.2 ⟨m, hm, rfl, rfl⟩
      simp [hset]

/-- A change of the status of a stored member at the end of edits to teams makes no difference to
whether they go through. -/
theorem exists_commit_status_iff (hmeets : ∀ e ∈ c.expectations, s.Meets e)
    (hteams : ∀ e ∈ c.edits, e.isTeamEdit = true) (hm : s.members.find? id = some m) :
    (∃ after, s.commit (c.push (.setStatus id m.status target)) = (.ok (), after)) ↔
      ∃ d, s.applyAll c.edits = .ok d := by
  have hpush : (∃ after, s.commit (c.push (.setStatus id m.status target)) = (.ok (), after)) ↔
      ∃ d, s.applyAll (c.edits ++ [.setStatus id m.status target]) = .ok d :=
    exists_commit_iff (c := c.push (.setStatus id m.status target)) hmeets
  rw [hpush, applyAll_status hteams hm]
  cases s.applyAll c.edits <;> simp

/-- Where the expectations are met, a commit fails as its edits do. -/
theorem applyAll_of_commit_eq_error (hmeets : ∀ e ∈ c.expectations, s.Meets e)
    (h : (s.commit c).1 = .error x) : s.applyAll c.edits = .error x := by
  rcases serial_eq_error.1 (commit_eq_error_iff.1 h) with
    ⟨met, e, rest, heq, -, hunmet, -⟩ | ⟨-, happly⟩
  · exact absurd (hmeets e (by simp [heq])) hunmet
  · exact happly

/-- Where the expectations are met, edits to teams are not refused for a fault. -/
theorem commit_not_fault (hmeets : ∀ e ∈ c.expectations, s.Meets e)
    (hteams : ∀ e ∈ c.edits, e.isTeamEdit = true) (h : (s.commit c).1 = .error x) :
    x.isFault = false :=
  applyAll_not_fault hteams (applyAll_of_commit_eq_error hmeets h)

/-- Nor are they with a change of the status of a stored member at the end. -/
theorem commit_status_not_fault (hmeets : ∀ e ∈ c.expectations, s.Meets e)
    (hteams : ∀ e ∈ c.edits, e.isTeamEdit = true) (hm : s.members.find? id = some m)
    (h : (s.commit (c.push (.setStatus id m.status target))).1 = .error x) : x.isFault = false := by
  have happly : s.applyAll (c.edits ++ [.setStatus id m.status target]) = .error x :=
    applyAll_of_commit_eq_error (c := c.push (.setStatus id m.status target)) hmeets h
  rw [applyAll_status hteams hm] at happly
  cases hedits : s.applyAll c.edits with
  | error y =>
      rw [hedits] at happly
      cases happly
      exact applyAll_not_fault hteams hedits
  | ok d =>
      rw [hedits] at happly
      cases happly

end Commits

end Store

end TeamRoster
