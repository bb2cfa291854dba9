import TeamRoster.Proofs.Tables.Lookup
import TeamRoster.Proofs.Tables.Queries

/-!
# The constraints of the tables

What the tables are declared with: keys and team names are all different, and a membership is one of a
team and of a member that are there. Every statement that goes through keeps the constraints
(`Constrained.execute`), and so does every query, whatever it is and however it ends.
-/

namespace TeamRoster

namespace Tables

variable {t d : Tables}

/-- The constraints of the tables. -/
structure Constrained (t : Tables) : Prop where
  memberKeys : (t.members.map MemberRow.id).Nodup
  teamKeys : (t.teams.map TeamRow.id).Nodup
  teamNames : (t.teams.map TeamRow.name).Nodup
  membershipKeys : (t.memberships.map fun m => (m.team, m.member)).Nodup
  teamReference (m : Membership) : m ∈ t.memberships → m.team ∈ t.teams.map TeamRow.id
  memberReference (m : Membership) : m ∈ t.memberships → m.member ∈ t.members.map MemberRow.id

theorem constrained_empty : empty.Constrained where
  memberKeys := .nil
  teamKeys := .nil
  teamNames := .nil
  membershipKeys := .nil
  teamReference m hm := by cases hm
  memberReference m hm := by cases hm

/-- A team is referred to by its id exactly if it is found. -/
theorem mem_teamKeys {id : Ident} : id ∈ t.teams.map TeamRow.id ↔ t.team? id ≠ none := by
  simp [team?, List.find?_eq_none]

/-- A member is referred to by its id exactly if it is found. -/
theorem mem_memberKeys {id : Ident} : id ∈ t.members.map MemberRow.id ↔ t.member? id ≠ none := by
  simp [member?, List.find?_eq_none]

/-- What has different values under one map has different values under another that confuses no more. -/
theorem nodup_map_of_inj {α β γ : Type} {xs : List α} {f : α → β} {g : α → γ} (h : (xs.map f).Nodup)
    (hinj : ∀ x ∈ xs, ∀ y ∈ xs, g x = g y → f x = f y) : (xs.map g).Nodup := by
  refine (h.of_map f).map_on ?_
  intro x hx y hy heq
  exact List.inj_on_of_nodup_map h hx hy (hinj x hx y hy heq)

namespace Constrained

/-- Members may come in and may change, as long as their keys are all different and none is lost. -/
theorem keepMembers (h : t.Constrained) (hkeys : (d.members.map MemberRow.id).Nodup)
    (hkept : ∀ id ∈ t.members.map MemberRow.id, id ∈ d.members.map MemberRow.id)
    (hteams : d.teams = t.teams) (hmemberships : d.memberships = t.memberships) :
    d.Constrained where
  memberKeys := hkeys
  teamKeys := hteams ▸ h.teamKeys
  teamNames := hteams ▸ h.teamNames
  membershipKeys := hmemberships ▸ h.membershipKeys
  teamReference m hm := by
    rw [hteams]
    exact h.teamReference m (hmemberships ▸ hm)
  memberReference m hm := hkept _ (h.memberReference m (hmemberships ▸ hm))

/-- Memberships may be dropped, and teams that have none. -/
theorem drop (h : t.Constrained) (p : TeamRow → Bool) (q : Membership → Bool)
    (hmembers : d.members = t.members) (hteams : d.teams = t.teams.filter p)
    (hmemberships : d.memberships = t.memberships.filter q)
    (hkept : ∀ m r, q m = true → r.id = m.team → p r = true) : d.Constrained where
  memberKeys := hmembers ▸ h.memberKeys
  teamKeys := by
    rw [hteams]
    exact h.teamKeys.sublist (List.filter_sublist.map _)
  teamNames := by
    rw [hteams]
    exact h.teamNames.sublist (List.filter_sublist.map _)
  membershipKeys := by
    rw [hmemberships]
    exact h.membershipKeys.sublist (List.filter_sublist.map _)
  teamReference m hm := by
    rw [hmemberships, List.mem_filter] at hm
    obtain ⟨r, hr, hid⟩ := List.mem_map.1 (h.teamReference m hm.1)
    rw [hteams, List.mem_map]
    exact ⟨r, List.mem_filter.2 ⟨hr, hkept m r hm.2 hid⟩, hid⟩
  memberReference m hm := by
    rw [hmemberships, List.mem_filter] at hm
    exact hmembers ▸ h.memberReference m hm.1

/-- A membership is inserted that is not there yet, of a team and of a member that are. -/
theorem seat (h : t.Constrained) {row : Membership}
    (habsent : t.membership? row.team row.member = none)
    (hinsert : t.insertMembership row = .ok d) : d.Constrained := by
  obtain ⟨hteam, hmember, rfl⟩ := insertMembership_eq_ok.1 hinsert
  have hnew : (row.team, row.member) ∉ t.memberships.map fun m => (m.team, m.member) := by
    intro hmem
    obtain ⟨m, hm, heq⟩ := List.mem_map.1 hmem
    rw [Prod.mk.injEq] at heq
    exact List.find?_eq_none.1 habsent m hm (by simp [heq])
  have hcases : ∀ m ∈ (t.seat row).memberships, m ∈ t.memberships ∨ m = row := by
    intro m hm
    simpa [Tables.seat] using hm
  refine ⟨h.memberKeys, h.teamKeys, h.teamNames, ?_, fun m hm => ?_, fun m hm => ?_⟩
  · rw [Tables.seat, List.map_append, List.map_singleton, List.nodup_append_comm]
    exact List.nodup_cons.2 ⟨hnew, h.membershipKeys⟩
  · rcases hcases m hm with hm | rfl
    · exact h.teamReference m hm
    · exact mem_teamKeys.2 hteam
  · rcases hcases m hm with hm | rfl
    · exact h.memberReference m hm
    · exact mem_memberKeys.2 hmember

/-- A team is saved whose name no other team has. -/
theorem saveTeam (h : t.Constrained) {row : TeamRow}
    (hfree : ∀ r ∈ t.teams, r.id ≠ row.id → r.name ≠ row.name) : (t.saveTeam row).Constrained where
  memberKeys := by
    rw [saveTeam_members]
    exact h.memberKeys
  teamKeys := nodup_saveTeam h.teamKeys row
  teamNames := by
    unfold Tables.saveTeam
    cases hr : t.team? row.id with
    | some found =>
        -- Rows of one name have one id, whether they were given the name or had it.
        rw [List.map_map]
        refine nodup_map_of_inj h.teamNames ?_
        intro a ha b hb heq
        by_cases hida : a.id = row.id
        · by_cases hidb : b.id = row.id
          · rw [List.inj_on_of_nodup_map h.teamKeys ha hb (hida.trans hidb.symm)]
          · simp only [Function.comp_apply, if_pos hida, if_neg hidb] at heq
            exact absurd heq.symm (hfree b hb hidb)
        · by_cases hidb : b.id = row.id
          · simp only [Function.comp_apply, if_neg hida, if_pos hidb] at heq
            exact absurd heq (hfree a ha hida)
          · simpa only [Function.comp_apply, if_neg hida, if_neg hidb] using heq
    | none =>
        have hnew : row.name ∉ t.teams.map TeamRow.name := by
          intro hmem
          obtain ⟨r, hmem, hname⟩ := List.mem_map.1 hmem
          rw [team?, List.find?_eq_none] at hr
          exact hfree r hmem (fun hid => hr r hmem (by simpa using hid)) hname
        rw [List.map_append, List.map_singleton, List.nodup_append_comm]
        exact List.nodup_cons.2 ⟨hnew, h.teamNames⟩
  membershipKeys := by
    rw [saveTeam_memberships]
    exact h.membershipKeys
  teamReference m hm := by
    rw [saveTeam_memberships] at hm
    obtain ⟨time, hsaved⟩ := t.team?_saveTeam row
    rw [mem_teamKeys, hsaved]
    split
    · simp
    · exact mem_teamKeys.1 (h.teamReference m hm)
  memberReference m hm := by
    rw [saveTeam_memberships] at hm
    rw [saveTeam_members]
    exact h.memberReference m hm

/-- A member is saved. -/
theorem saveMember (h : t.Constrained) (row : MemberRow) : (t.saveMember row).Constrained := by
  refine h.keepMembers (nodup_saveMember h.memberKeys row) (fun id hid => ?_) (by simp) (by simp)
  obtain ⟨time, hsaved⟩ := t.member?_saveMember row
  rw [mem_memberKeys, hsaved]
  split
  · simp
  · exact mem_memberKeys.1 hid

/-- Statuses are set. -/
theorem updateStatus (h : t.Constrained) (which : MemberRow → Bool) (status : Status) :
    (t.updateStatus which status).2.Constrained := by
  refine h.keepMembers (nodup_updateStatus h.memberKeys which status) (fun id hid => ?_) rfl rfl
  rw [mem_memberKeys, member?_updateStatus]
  simpa using mem_memberKeys.1 hid

/-- A statement that goes through keeps the constraints. -/
theorem execute (h : t.Constrained) {s : Statement} {result : s.Result}
    (hrun : t.execute s = .ok (result, d)) : d.Constrained := by
  cases s with
  | begin | commit | memberGet id | memberList | teamGet id | teamList | teamMembers team
  | membershipList | teamOfMember member | teamLock id | memberIds team =>
      cases hrun
      exact h
  | memberSave row =>
      obtain ⟨-, rfl⟩ := execute_memberSave_eq_ok.1 hrun
      exact h.saveMember row
  | memberUpdateStatus id status =>
      cases hrun
      exact h.updateStatus _ status
  | setStatus member before after =>
      cases hrun
      exact h.updateStatus _ after
  | teamInsert row =>
      obtain ⟨-, hfree, rfl⟩ := execute_teamInsert_eq_ok.1 hrun
      exact h.saveTeam hfree
  | teamClear team =>
      cases hrun
      exact h.drop (fun _ => true) _ rfl (by simp) rfl fun _ _ _ _ => rfl
  | membershipInsert row =>
      obtain ⟨habsent, hinsert⟩ := execute_membershipInsert_eq_ok.1 hrun
      exact h.seat habsent hinsert
  | teamDelete id =>
      cases hrun
      refine h.drop _ _ rfl rfl rfl fun m r hm hr => ?_
      rwa [hr]
  | membershipAppend team member =>
      obtain ⟨p, -, ⟨-, rfl⟩ | ⟨habsent, hinsert⟩⟩ := execute_membershipAppend_eq_ok.1 hrun
      · exact h
      · exact h.seat habsent hinsert
  | membershipDelete team member =>
      cases hrun
      exact h.drop (fun _ => true) _ rfl (by simp) rfl fun _ _ _ _ => rfl

/-- A call keeps the constraints, whether its statement goes through or not. -/
theorem answer (h : t.Constrained) (call : Call) : (t.answer call).2.Constrained := by
  cases call with
  | acquire => exact h
  | run s =>
      rw [Tables.answer]
      cases hrun : t.execute s with
      | error e => exact h
      | ok done => exact h.execute hrun

/-- Any query keeps the constraints. -/
theorem on {α : Type} (h : t.Constrained) (q : Query α) : (q.on t).2.Constrained :=
  (Dialogue.keeps_any q.run).run_invariant (fun call _ _ hd => hd.answer call) h

theorem atomically {α : Type} (h : t.Constrained) (q : Query α) :
    (q.atomically t).2.Constrained := by
  have hon := h.on q
  rw [Query.atomically]
  cases hq : q.on t with
  | mk reply after =>
      rw [hq] at hon
      cases reply with
      | ok a => exact hon
      | error e => exact h

/-- So does any request to the tables. -/
theorem storage (h : t.Constrained) (q : StorageRequest) : (storage q t).2.Constrained := by
  cases q with
  | createTeam team => exact h.atomically _
  | commit c => exact h.atomically _
  | member _ | members | saveMember _ | setStatus _ _ | team _ | teams | teamOf _
  | deleteTeam _ | addMember _ _ | removeMember _ _ => exact h.on _

end Constrained

end Tables

end TeamRoster
