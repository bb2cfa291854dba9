import TeamRoster.Proofs.Store.Roll
import TeamRoster.Proofs.Store.TeamEdits

/-!
# Edits to teams beside a change of status

Edits to teams do not look at statuses, so that it makes no difference to them whether a status was
changed before, and a status can be changed after them. Main statements: `commit_restate`, where a
status was changed before a commit, and `commit_push_status`, where it is changed by the commit itself.
-/

namespace TeamRoster

namespace Store

variable {s d : Store} {g : Staging} {e : Edit} {es : List Edit} {c : ChangeSet} {id : Ident}
  {m : Member}

@[simp] theorem restate_teams (s : Store) (id : Ident) (m : Member) (target : Status) :
    (s.restate id m target).teams = s.teams := rfl

/-- Where a status is set, nobody is stored who was not. -/
theorem contains_restate (hm : s.members.find? id = some m) (target : Status) :
    (s.restate id m target).members.contains = s.members.contains := by
  funext other
  by_cases hother : other = id
  · subst hother
    simp [restate, Directory.contains, hm]
  · simp [restate, Directory.contains, hother]

section Reads

variable {target : Status}

/-- A record that does not list the member is read as before. -/
theorem assemble_restate {team : Ident} {r : TeamRecord} (habsent : id ∉ r.memberIds) :
    (s.restate id m target).assemble team r = s.assemble team r := by
  unfold assemble
  congr 1
  apply Failing.mapM_congr
  intro other hother
  have hne : other ≠ id := by
    rintro rfl
    exact habsent hother
  simp only [restate, Directory.find?_insert, if_neg hne]

/-- The teams are read as before if none of them lists the member. -/
theorem allTeams_restate (habsent : id ∉ s.roll) :
    (s.restate id m target).allTeams = s.allTeams := by
  apply Failing.mapM_congr
  intro e he
  apply assemble_restate
  intro hmem
  have hentry : (e.1, e.2) ∈ s.teams.entries := List.mem_mergeSort.1 he
  exact habsent (mem_roll.2 ⟨e.1, e.2, Directory.find?_eq_some.2 hentry, hmem⟩)

theorem teamOf_restate (habsent : id ∉ s.roll) (member : Ident) :
    (s.restate id m target).teamOf member = s.teamOf member := by
  unfold teamOf
  rw [restate_teams]
  cases he : s.teams.entries.find? fun e => e.2.memberIds.contains member with
  | none => rfl
  | some e =>
      have hentry : (e.1, e.2) ∈ s.teams.entries := List.mem_of_find?_eq_some he
      have hunlisted : id ∉ e.2.memberIds := by
        intro hmem
        exact habsent (mem_roll.2 ⟨e.1, e.2, Directory.find?_eq_some.2 hentry, hmem⟩)
      simp only [assemble_restate hunlisted]

end Reads

section Staging

/-- Edits to teams are staged alike on stores with the same teams where the same members are stored. -/
theorem stageEdit_congr (he : e.isTeamEdit = true) (hteams : d.teams = s.teams)
    (hmembers : d.members.contains = s.members.contains) : d.stageEdit g e = s.stageEdit g e := by
  have hstaged : d.staged? g = s.staged? g := by
    funext id
    simp only [staged?, hteams]
  cases e with
  | setStatus member before after => cases he
  | createTeam t =>
      have hname : d.nameTaken g t.id t.name = s.nameTaken g t.id t.name := by
        simp only [nameTaken, hteams, hstaged]
      have henter : d.enter g t = s.enter g t := by
        simp only [enter, hstaged]
      simp only [stageEdit, stageCreate_eq, hname, henter, hmembers]
  | deleteTeam team => simp only [stageEdit, stageDelete_eq, hstaged]
  | addMember team member => simp only [stageEdit, stageAdd_eq, hstaged, hmembers]
  | removeMember team member => simp only [stageEdit, stageRemove_eq, hstaged]

/-- Staging edits to teams sets no status. -/
theorem stageEdit_statuses {staged : Staging} (he : e.isTeamEdit = true)
    (h : s.stageEdit g e = .ok staged) : staged.statuses = g.statuses := by
  cases e with
  | setStatus member before after => cases he
  | createTeam t =>
      rw [stageEdit, stageCreate_eq] at h
      split at h
      · cases h
      · split at h
        · cases h
        · cases h
          exact s.enter_statuses g t
  | deleteTeam team =>
      rw [stageEdit, stageDelete_eq] at h
      split at h
      · cases h
        rfl
      · cases h
  | addMember team member =>
      rw [stageEdit, stageAdd_eq] at h
      split at h
      · split at h
        · cases h
          rfl
        · cases h
      · cases h
  | removeMember team member =>
      rw [stageEdit, stageRemove_eq] at h
      split at h
      · split at h
        · cases h
          rfl
        · cases h
      · cases h

theorem stageAll_congr (hall : ∀ e ∈ es, e.isTeamEdit = true) (hteams : d.teams = s.teams)
    (hmembers : d.members.contains = s.members.contains) : d.stageAll g es = s.stageAll g es := by
  induction es generalizing g with
  | nil => rfl
  | cons e es ih =>
      rw [List.forall_mem_cons] at hall
      rw [stageAll, stageAll, stageEdit_congr hall.1 hteams hmembers]
      cases s.stageEdit g e with
      | error x => rfl
      | ok staged => exact ih hall.2

theorem stageAll_statuses {staged : Staging} {reply : Except StorageError Unit}
    (hall : ∀ e ∈ es, e.isTeamEdit = true) (h : s.stageAll g es = (reply, staged)) :
    staged.statuses = g.statuses := by
  induction es generalizing g with
  | nil =>
      cases h
      rfl
  | cons e es ih =>
      rw [List.forall_mem_cons] at hall
      rw [stageAll] at h
      cases hstage : s.stageEdit g e with
      | error x =>
          rw [hstage] at h
          cases h
          rfl
      | ok next =>
          rw [hstage] at h
          calc
            staged.statuses = next.statuses := ih hall.2 h
            _ = g.statuses := stageEdit_statuses hall.1 hstage

/-- Edits are staged one part after the other. -/
theorem stageAll_append (fs : List Edit) :
    s.stageAll g (es ++ fs) =
      match s.stageAll g es with
      | (.ok (), staged) => s.stageAll staged fs
      | (.error x, staged) => (.error x, staged) := by
  induction es generalizing g with
  | nil => rfl
  | cons e es ih =>
      rw [List.cons_append, stageAll, stageAll]
      cases s.stageEdit g e with
      | error x => rfl
      | ok staged => exact ih

end Staging

/-- A commit of edits to teams leaves the members alone, whether it goes through or not. -/
theorem commit_members (hall : ∀ e ∈ c.edits, e.isTeamEdit = true) :
    (s.commit c).2.members = s.members := by
  unfold commit
  cases s.checkExpectations c.expectations with
  | error x => rfl
  | ok met =>
      cases hstaged : s.stageAll s.stage c.edits with
      | mk reply g =>
          cases reply with
          | error x => rfl
          | ok done =>
              have hnone : g.statuses = [] := stageAll_statuses hall hstaged
              simp only [hnone]
              rfl

/-- What a status was before makes no difference to a commit of edits to teams. -/
theorem commit_restate (hall : ∀ e ∈ c.edits, e.isTeamEdit = true)
    (hm : s.members.find? id = some m) (target : Status) :
    (s.restate id m target).commit c = ((s.commit c).1, (s.commit c).2.restate id m target) := by
  have hexpect : (s.restate id m target).checkExpectations c.expectations =
      s.checkExpectations c.expectations := rfl
  have hstage : (s.restate id m target).stageAll (s.restate id m target).stage c.edits =
      s.stageAll s.stage c.edits :=
    stageAll_congr hall rfl (contains_restate hm target)
  unfold commit
  rw [hexpect, hstage]
  cases s.checkExpectations c.expectations with
  | error x => rfl
  | ok met =>
      cases hstaged : s.stageAll s.stage c.edits with
      | mk reply g =>
          cases reply with
          | error x => rfl
          | ok done =>
              have hnone : g.statuses = [] := stageAll_statuses hall hstaged
              simp only [hnone]
              rfl

/-- A change of status that is committed after edits to teams is made where these go through. -/
theorem commit_push_status (hall : ∀ e ∈ c.edits, e.isTeamEdit = true)
    (hm : s.members.find? id = some m) (target : Status) :
    s.commit (c.push (.setStatus id m.status target)) =
      match s.commit c with
      | (.ok (), after) => (.ok (), after.restate id m target)
      | (.error x, after) => (.error x, after) := by
  have hedits : (c.push (.setStatus id m.status target)).edits =
      c.edits ++ [.setStatus id m.status target] := rfl
  have hexpectations : (c.push (.setStatus id m.status target)).expectations = c.expectations := rfl
  unfold commit
  rw [hedits, hexpectations, stageAll_append]
  cases s.checkExpectations c.expectations with
  | error x => rfl
  | ok met =>
      cases hstaged : s.stageAll s.stage c.edits with
      | mk reply g =>
          cases reply with
          | error x => rfl
          | ok done =>
              -- Nothing was staged for the member, so that the status is still the one that was read.
              have hnone : g.statuses = [] := stageAll_statuses hall hstaged
              have hcurrent : s.stagedStatus? g id = some m.status := by
                simp [stagedStatus?, hnone, hm]
              have hset : (s.publish g).setStatus id target =
                  .ok ((s.publish g).restate id m target) := by
                have hstill : (s.publish g).members.find? id = some m := hm
                simp [setStatus, hstill, restate]
              have hlast : s.stageAll g [.setStatus id m.status target] =
                  (.ok (), { g with statuses := [(id, target)] }) := by
                simp [stageAll, stageEdit, stageStatus, hcurrent, hnone]
              simp only [hlast, hnone]
              change (s.publish g).writeStatuses [(id, target)] =
                (.ok (), (s.publish g).restate id m target)
              rw [writeStatuses, hset]
              rfl

end Store

end TeamRoster
