import TeamRoster.Proofs.Store.WellFormed
import TeamRoster.Proofs.Tables.Lookup
import TeamRoster.Proofs.Tables.Trials

/-!
# Where the texts in the tables come from

A row has the texts of a member or a team that was handed over under its id (`Handed`), and keeps them
when other columns are written. Main statements: `Tables.Handed.execute`, by which a statement shows such
texts and leaves no others, and `Tables.Handed.overwrite`, by which only what was saved last counts.
-/

namespace TeamRoster

section Handed

variable (qs : List StorageRequest)

/-- A member with this id, name and address was handed over to be saved. -/
def Member.Handed (m : Member) : Prop :=
  ∃ w, StorageRequest.saveMember w ∈ qs ∧ w.id = m.id ∧ w.name = m.name ∧ w.email = m.email

/-- A team with this id and name was handed over to be created, and each of its members to be saved. -/
def Team.Handed (t : Team) : Prop :=
  (∃ q ∈ qs, ∃ u, Edit.createTeam u ∈ q.edits ∧ u.id = t.id ∧ u.name = t.name) ∧
    ∀ m ∈ t.members, m.Handed qs

/-- The row has the texts of a member that was handed over under its id. -/
def MemberRow.Handed (r : MemberRow) : Prop :=
  ∃ w, StorageRequest.saveMember w ∈ qs ∧ w.id = r.id ∧ w.name.text = r.name ∧ w.email.text = r.email

/-- The row has the name of a team that was handed over under its id. -/
def TeamRow.Handed (r : TeamRow) : Prop :=
  ∃ q ∈ qs, ∃ u, Edit.createTeam u ∈ q.edits ∧ u.id = r.id ∧ u.name.text = r.name

/-- All rows have texts that were handed over. -/
structure Tables.Handed (t : Tables) : Prop where
  members : ∀ r ∈ t.members, r.Handed qs
  teams : ∀ r ∈ t.teams, r.Handed qs

/-- If the statement writes texts, they were handed over. -/
def Statement.Brings : Statement → Prop
  | memberSave row => row.Handed qs
  | teamInsert row => row.Handed qs
  | _ => True

/-- The rows in a result have texts that were handed over. -/
def Statement.Shows : (s : Statement) → s.Result → Prop
  | memberGet _, (found : Option MemberRow) => ∀ r ∈ found, r.Handed qs
  | memberList, (rows : List MemberRow) => ∀ r ∈ rows, r.Handed qs
  | teamGet _, (found : Option TeamRow) => ∀ r ∈ found, r.Handed qs
  | teamList, (rows : List TeamRow) => ∀ r ∈ rows, r.Handed qs
  | teamMembers _, (rows : List MemberRow) => ∀ r ∈ rows, r.Handed qs
  | membershipList, (entries : List (Ident × MemberRow)) => ∀ e ∈ entries, e.2.Handed qs
  | _, _ => True

end Handed

variable {qs : List StorageRequest}

/-- Whether a request saves a member under this id. -/
def StorageRequest.saves (id : Ident) : StorageRequest → Bool
  | saveMember m => m.id == id
  | _ => false

namespace Tables

variable {t d : Tables}

/-- A row is one that was there, under another id, or it has got the texts of the row that is saved. -/
theorem mem_saveMember {row r : MemberRow} (hr : r ∈ (t.saveMember row).members) :
    (r.id = row.id ∧ r.name = row.name ∧ r.email = row.email) ∨ r ∈ t.members ∧ r.id ≠ row.id := by
  unfold saveMember at hr
  cases hfound : t.member? row.id with
  | some found =>
      rw [hfound] at hr
      obtain ⟨old, hold, rfl⟩ := List.mem_map.1 hr
      by_cases hid : old.id = row.id
      · simp [hid]
      · simp [hid, hold]
  | none =>
      rw [hfound] at hr
      rw [member?, List.find?_eq_none] at hfound
      rcases List.mem_append.1 hr with hr | hr
      · exact .inr ⟨hr, by simpa using hfound r hr⟩
      · rw [List.mem_singleton.1 hr]
        exact .inl ⟨rfl, rfl, rfl⟩

namespace Handed

theorem empty : Tables.Handed qs .empty where
  members r hr := by cases hr
  teams r hr := by cases hr

/-- More requests may be made. -/
theorem mono (h : t.Handed qs) {others : List StorageRequest} (hsub : qs ⊆ others) :
    t.Handed others where
  members r hr := by
    obtain ⟨w, hw, htexts⟩ := h.members r hr
    exact ⟨w, hsub hw, htexts⟩
  teams r hr := by
    obtain ⟨q, hq, htexts⟩ := h.teams r hr
    exact ⟨q, hsub hq, htexts⟩

theorem saveMember (h : t.Handed qs) {row : MemberRow} (hrow : row.Handed qs) :
    (t.saveMember row).Handed qs where
  members r hr := by
    rcases mem_saveMember hr with ⟨hid, hname, hemail⟩ | ⟨hmem, -⟩
    · obtain ⟨w, hw, htexts⟩ := hrow
      exact ⟨w, hw, by rwa [hid, hname, hemail]⟩
    · exact h.members r hmem
  teams := by
    rw [saveMember_teams]
    exact h.teams

/-- A member that is saved replaces what was saved under its id. -/
theorem overwrite (h : t.Handed qs) (m : Member) :
    (t.saveMember (.ofMember m)).Handed
      (.saveMember m :: qs.filter fun q => !q.saves m.id) where
  members r hr := by
    rcases mem_saveMember hr with ⟨hid, hname, hemail⟩ | ⟨hmem, hne⟩
    · exact ⟨m, List.mem_cons_self, hid.symm, hname.symm, hemail.symm⟩
    · obtain ⟨w, hw, hid, htexts⟩ := h.members r hmem
      have hother : (!(StorageRequest.saveMember w).saves m.id) = true := by
        simpa [StorageRequest.saves, hid, MemberRow.ofMember] using hne
      exact ⟨w, List.mem_cons_of_mem _ (List.mem_filter.2 ⟨hw, hother⟩), hid, htexts⟩
  teams r hr := by
    rw [saveMember_teams] at hr
    obtain ⟨q, hq, u, hu, hrow⟩ := h.teams r hr
    have hother : (!q.saves m.id) = true := by
      cases q <;> first | rfl | cases hu
    exact ⟨q, List.mem_cons_of_mem _ (List.mem_filter.2 ⟨hq, hother⟩), u, hu, hrow⟩

theorem saveTeam (h : t.Handed qs) {row : TeamRow} (hrow : row.Handed qs) :
    Tables.Handed qs (t.saveTeam row) where
  members := by
    rw [saveTeam_members]
    exact h.members
  teams r hr := by
    unfold Tables.saveTeam at hr
    split at hr
    · obtain ⟨old, hold, rfl⟩ := List.mem_map.1 hr
      split
      · rename_i hid
        obtain ⟨q, hq, u, hu, hrowId, hname⟩ := hrow
        exact ⟨q, hq, u, hu, hrowId.trans hid.symm, hname⟩
      · exact h.teams old hold
    · rcases List.mem_append.1 hr with hr | hr
      · exact h.teams r hr
      · rw [List.mem_singleton.1 hr]
        exact hrow

/-- A status is no text. -/
theorem updateStatus (h : t.Handed qs) (which : MemberRow → Bool) (status : Status) :
    Tables.Handed qs (t.updateStatus which status).2 where
  members r hr := by
    obtain ⟨old, hold, rfl⟩ := List.mem_map.1 hr
    split
    · exact h.members old hold
    · exact h.members old hold
  teams := h.teams

/-- It is only the rows of members and teams that have texts. -/
theorem congr (h : t.Handed qs) (hrows : d.members = t.members ∧ d.teams = t.teams) :
    d.Handed qs :=
  ⟨hrows.1 ▸ h.members, hrows.2 ▸ h.teams⟩

/-- A statement that goes through shows texts that were handed over, and leaves no others. -/
theorem execute (h : t.Handed qs) {s : Statement} (hs : s.Brings qs) {result : s.Result}
    (hrun : t.execute s = .ok (result, d)) : s.Shows qs result ∧ d.Handed qs := by
  cases s with
  | begin | commit | teamOfMember member | teamLock id | memberIds team =>
      cases hrun
      exact ⟨trivial, h⟩
  | memberGet id =>
      cases hrun
      exact ⟨fun r hr => h.members r (List.mem_of_find?_eq_some hr), h⟩
  | memberList =>
      cases hrun
      exact ⟨fun r hr => h.members r (List.mem_mergeSort.1 hr), h⟩
  | teamGet id =>
      cases hrun
      exact ⟨fun r hr => h.teams r (List.mem_of_find?_eq_some hr), h⟩
  | teamList =>
      cases hrun
      exact ⟨fun r hr => h.teams r (List.mem_mergeSort.1 hr), h⟩
  | teamMembers team =>
      cases hrun
      refine ⟨fun r hr => ?_, h⟩
      obtain ⟨m, -, hm⟩ := List.mem_filterMap.1 hr
      exact h.members r (List.mem_of_find?_eq_some hm)
  | membershipList =>
      cases hrun
      refine ⟨fun e he => ?_, h⟩
      obtain ⟨m, -, hm⟩ := List.mem_filterMap.1 he
      obtain ⟨r, hr, rfl⟩ := Option.map_eq_some_iff.1 hm
      exact h.members r (List.mem_of_find?_eq_some hr)
  | memberSave row =>
      obtain ⟨-, rfl⟩ := execute_memberSave_eq_ok.1 hrun
      exact ⟨trivial, h.saveMember hs⟩
  | memberUpdateStatus id status =>
      cases hrun
      exact ⟨trivial, h.updateStatus _ status⟩
  | setStatus member before after =>
      cases hrun
      exact ⟨trivial, h.updateStatus _ after⟩
  | teamInsert row =>
      obtain ⟨-, -, rfl⟩ := execute_teamInsert_eq_ok.1 hrun
      exact ⟨trivial, h.saveTeam hs⟩
  | teamDelete id =>
      cases hrun
      exact ⟨trivial, h.members, fun r hr => h.teams r (List.mem_filter.1 hr).1⟩
  | teamClear team | membershipDelete team member =>
      cases hrun
      exact ⟨trivial, h.members, h.teams⟩
  | membershipInsert row => exact ⟨trivial, h.congr (rows_of_membershipInsert hrun)⟩
  | membershipAppend team member => exact ⟨trivial, h.congr (rows_of_membershipAppend hrun)⟩

end Handed

theorem isSome_member?_updateStatus {id : Ident} (which : MemberRow → Bool) (status : Status) :
    ((t.updateStatus which status).2.member? id).isSome = (t.member? id).isSome := by
  rw [member?_updateStatus, Option.isSome_map]

/-- No statement deletes the row of a member. -/
theorem isSome_member?_execute {id : Ident} {s : Statement} {result : s.Result}
    (hrun : t.execute s = .ok (result, d)) (h : (t.member? id).isSome = true) :
    (d.member? id).isSome = true := by
  cases s with
  | begin | commit | memberGet _ | memberList | teamGet _ | teamList | teamMembers _ | membershipList
  | teamOfMember _ | teamClear _ | teamDelete _ | membershipDelete _ _ | teamLock _ | memberIds _ =>
      cases hrun
      exact h
  | memberSave row =>
      obtain ⟨-, rfl⟩ := execute_memberSave_eq_ok.1 hrun
      obtain ⟨time, hsaved⟩ := t.member?_saveMember row
      rw [hsaved]
      split
      · rfl
      · exact h
  | memberUpdateStatus _ _ | setStatus _ _ _ =>
      cases hrun
      exact (isSome_member?_updateStatus _ _).trans h
  | teamInsert row =>
      obtain ⟨-, -, rfl⟩ := execute_teamInsert_eq_ok.1 hrun
      rw [member?, saveTeam_members]
      exact h
  | membershipInsert row =>
      rw [member?, (rows_of_membershipInsert hrun).1]
      exact h
  | membershipAppend team member =>
      rw [member?, (rows_of_membershipAppend hrun).1]
      exact h

end Tables

/-- A statement is answered with texts that were handed over, whether it goes through or not. -/
theorem Connection.Satisfies.answer_handed {c : Connection} (h : c.Satisfies (Tables.Handed qs))
    {s : Statement} (hs : s.Brings qs) :
    (∀ result, (c.answer (.run s)).1 = .ok result → s.Shows qs result) ∧
      (c.answer (.run s)).2.Satisfies (Tables.Handed qs) :=
  h.answer fun hrun ht => ht.execute hs hrun

end TeamRoster
