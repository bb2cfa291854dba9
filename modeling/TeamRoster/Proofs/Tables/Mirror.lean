import TeamRoster.Command.Answer
import TeamRoster.Proofs.Store.Orderly
import TeamRoster.Proofs.Tables.Lookup
import TeamRoster.Proofs.Tables.Queries

/-!
# Tables that mirror a store

Tables mirror a store in memory if the rows of members and teams show what the store holds under
each id, and the list of each team is that of its memberships in the order of their positions. Times
and places are left out. The lemmas below say of single writes that the tables mirror the store
again.
-/

namespace TeamRoster

open scoped List

/-- What the row of a member shows of it, but for the time. -/
def MemberRow.view (r : MemberRow) : MemberView :=
  ⟨r.id, r.name, r.email, r.status⟩

/-- The tables show what the store holds. What the keys of the tables ask for is true of the lists
of the store: nobody is in a list twice, and whoever is in one is stored. -/
structure Mirrors (t : Tables) (s : Store) : Prop where
  members (id : Ident) :
    (t.member? id).map MemberRow.view = (s.members.find? id).map MemberView.ofMember
  teams (id : Ident) :
    (t.team? id).map TeamRow.name = (s.teams.find? id).map fun r => r.name.text
  seats (id : Ident) :
    ∃ seats, t.Seats id seats ∧ seats.map Membership.member = s.listOf id
  memberKeys : (t.members.map MemberRow.id).Nodup
  teamKeys : (t.teams.map TeamRow.id).Nodup
  once (id : Ident) : (s.listOf id).Nodup
  stored (id x : Ident) : x ∈ s.listOf id → s.members.contains x = true

namespace Mirrors

variable {t d : Tables} {s : Store} {id team member : Ident} {seats : List Membership}

theorem empty : Mirrors .empty .empty where
  members id := rfl
  teams id := rfl
  seats id := ⟨[], ⟨.nil, .nil⟩, rfl⟩
  memberKeys := .nil
  teamKeys := .nil
  once id := .nil
  stored id x hx := by cases hx

theorem contains_eq (h : Mirrors t s) (id : Ident) :
    s.members.contains id = (t.member? id).isSome := by
  rw [Directory.contains, ← Option.isSome_map, ← h.members id, Option.isSome_map]

theorem member?_eq_none (h : Mirrors t s) :
    t.member? id = none ↔ s.members.contains id = false := by
  rw [h.contains_eq]
  cases t.member? id <;> simp

theorem team?_eq_none (h : Mirrors t s) : t.team? id = none ↔ s.teams.find? id = none := by
  rw [← Option.map_eq_none_iff, h.teams id, Option.map_eq_none_iff]

/-- The rows mirror any store where the same is found. -/
theorem congr (h : Mirrors t s) {other : Store}
    (hteams : ∀ id, other.teams.find? id = s.teams.find? id)
    (hmembers : ∀ id, other.members.find? id = s.members.find? id) : Mirrors t other where
  members id := by rw [hmembers, h.members]
  teams id := by rw [hteams, h.teams]
  seats id := by
    rw [Store.listOf_congr (hteams id)]
    exact h.seats id
  memberKeys := h.memberKeys
  teamKeys := h.teamKeys
  once id := by
    rw [Store.listOf_congr (hteams id)]
    exact h.once id
  stored id x hx := by
    rw [Store.listOf_congr (hteams id)] at hx
    rw [Directory.contains, hmembers]
    exact h.stored id x hx

/-- A name is taken in the store exactly if it is in the tables. -/
theorem nameTaken_eq (h : Mirrors t s) (team : Team) :
    s.nameTaken s.stage team.id team.name =
      t.teams.any fun r => r.id != team.id && r.name == team.name.text := by
  rw [Bool.eq_iff_iff, Store.nameTaken_iff]
  simp only [Store.staged?_stage, List.any_eq_true, Bool.and_eq_true, bne_iff_ne, beq_iff_eq]
  constructor
  · rintro ⟨other, r, hne, hr, hname⟩
    have hrow := h.teams other
    rw [hr, Option.map_some, Option.map_eq_some_iff] at hrow
    obtain ⟨row, hrow, hrowName⟩ := hrow
    obtain ⟨hmem, rfl⟩ := (Tables.team?_eq_some h.teamKeys).1 hrow
    exact ⟨row, hmem, hne, by rw [hrowName, hname]⟩
  · rintro ⟨row, hmem, hne, hname⟩
    have hrow := h.teams row.id
    rw [(Tables.team?_eq_some h.teamKeys).2 ⟨hmem, rfl⟩, Option.map_some, eq_comm,
      Option.map_eq_some_iff] at hrow
    obtain ⟨r, hr, hrName⟩ := hrow
    exact ⟨row.id, r, hne, hr, TeamName.ext (hrName.trans hname)⟩

/-- A record with the same name is written, with the list of the seats that the team has now. -/
theorem rewrite (h : Mirrors t s) (hd : t.Reseated d team seats) {r q : TeamRecord}
    (hr : s.teams.find? team = some r) (hname : q.name = r.name)
    (hseats : seats.map Membership.member = q.memberIds) (honce : q.memberIds.Nodup)
    (hstored : ∀ x ∈ q.memberIds, s.members.contains x = true) :
    Mirrors d (s.rewrite team (some q)) where
  members id := by
    rw [Tables.member?, hd.members]
    exact h.members id
  teams id := by
    rw [Tables.team?, hd.teams, Store.find?_rewrite]
    by_cases hid : id = team
    · have hteam := h.teams team
      rw [hr, Option.map_some] at hteam
      rw [if_pos hid, hid, Option.map_some, hname]
      exact hteam
    · rw [if_neg hid]
      exact h.teams id
  seats id := by
    rw [Store.listOf_rewrite]
    by_cases hid : id = team
    · rw [if_pos hid, hid]
      exact ⟨seats, hd.seats, hseats⟩
    · rw [if_neg hid]
      obtain ⟨xs, hxs, hlist⟩ := h.seats id
      exact ⟨xs, hd.others id xs hid hxs, hlist⟩
  memberKeys := hd.members ▸ h.memberKeys
  teamKeys := hd.teams ▸ h.teamKeys
  once id := by
    rw [Store.listOf_rewrite]
    by_cases hid : id = team
    · rw [if_pos hid]
      exact honce
    · rw [if_neg hid]
      exact h.once id
  stored id x hx := by
    rw [Store.listOf_rewrite] at hx
    by_cases hid : id = team
    · rw [if_pos hid] at hx
      exact hstored x hx
    · rw [if_neg hid] at hx
      exact h.stored id x hx

/-- A team is dropped with its seats. -/
theorem drop (h : Mirrors t s) (team : Ident) :
    Mirrors (t.dropTeam team) (s.rewrite team none) where
  members id := h.members id
  teams id := by
    rw [Tables.team?_dropTeam, Store.find?_rewrite]
    split
    · rfl
    · exact h.teams id
  seats id := by
    rw [Store.listOf_rewrite]
    by_cases hid : id = team
    · rw [if_pos hid, hid]
      exact ⟨[], (t.reseated_clearTeam team).seats.congr rfl, rfl⟩
    · rw [if_neg hid]
      obtain ⟨xs, hxs, hlist⟩ := h.seats id
      exact ⟨xs, ((t.reseated_clearTeam team).others id xs hid hxs).congr rfl, hlist⟩
  memberKeys := h.memberKeys
  teamKeys := Tables.nodup_dropTeam h.teamKeys team
  once id := by
    rw [Store.listOf_rewrite]
    split
    · exact .nil
    · exact h.once id
  stored id x hx := by
    rw [Store.listOf_rewrite] at hx
    split at hx
    · cases hx
    · exact h.stored id x hx

/-- A team is saved and its members get their seats. -/
theorem enter (h : Mirrors t s) {new : Team}
    (hd : (t.saveTeam (.ofTeam new)).Reseated d new.id seats)
    (hseats : seats.map Membership.member = new.memberIds) (honce : new.memberIds.Nodup)
    (hstored : ∀ x ∈ new.memberIds, s.members.contains x = true) :
    Mirrors d (s.publish (s.enter s.stage new)) where
  members id := by
    rw [Tables.member?, hd.members, Tables.saveTeam_members]
    exact h.members id
  teams id := by
    obtain ⟨time, hsaved⟩ := t.team?_saveTeam (.ofTeam new)
    have hrow : d.team? id =
        if id = new.id then some ⟨new.id, new.name.text, time⟩ else t.team? id := by
      rw [Tables.team?, hd.teams]
      exact hsaved id
    rw [hrow, Store.find?_entered]
    by_cases hid : id = new.id
    · rw [if_pos hid, if_pos hid]
      rfl
    · rw [if_neg hid, if_neg hid]
      exact h.teams id
  seats id := by
    rw [Store.listOf_entered]
    by_cases hid : id = new.id
    · rw [if_pos hid, hid]
      exact ⟨seats, hd.seats, hseats⟩
    · rw [if_neg hid]
      obtain ⟨xs, hxs, hlist⟩ := h.seats id
      exact ⟨xs, hd.others id xs hid (hxs.congr (t.saveTeam_memberships _)), hlist⟩
  memberKeys := by
    rw [hd.members, Tables.saveTeam_members]
    exact h.memberKeys
  teamKeys := by
    rw [hd.teams]
    exact Tables.nodup_saveTeam h.teamKeys _
  once id := by
    rw [Store.listOf_entered]
    split
    · exact honce
    · exact h.once id
  stored id x hx := by
    rw [Store.listOf_entered] at hx
    split at hx
    · exact hstored x hx
    · exact h.stored id x hx

/-- A member is saved. -/
theorem saveMember (h : Mirrors t s) (m : Member) :
    Mirrors (t.saveMember (.ofMember m)) (s.saveMember m) where
  members id := by
    obtain ⟨time, hsaved⟩ := t.member?_saveMember (.ofMember m)
    have hrow : (t.saveMember (.ofMember m)).member? id =
        if id = m.id then some ⟨m.id, m.name.text, m.email.text, m.status, time⟩
        else t.member? id := hsaved id
    have hfound : (s.saveMember m).members.find? id =
        if id = m.id then some m else s.members.find? id :=
      s.members.find?_insert m.id m id
    rw [hrow, hfound]
    by_cases hid : id = m.id
    · rw [if_pos hid, if_pos hid]
      rfl
    · rw [if_neg hid, if_neg hid]
      exact h.members id
  teams id := by
    rw [Tables.team?, Tables.saveMember_teams]
    exact h.teams id
  seats id := by
    obtain ⟨xs, hxs, hlist⟩ := h.seats id
    exact ⟨xs, hxs.congr (t.saveMember_memberships _), hlist⟩
  memberKeys := Tables.nodup_saveMember h.memberKeys _
  teamKeys := by
    rw [Tables.saveMember_teams]
    exact h.teamKeys
  once id := h.once id
  stored id x hx := Directory.contains_insert (h.stored id x hx)

/-- The status of a stored member is set. -/
theorem restate (h : Mirrors t s) {m : Member} (hm : s.members.find? member = some m)
    (after : Status) :
    Mirrors (t.updateStatus (fun r => r.id == member && r.status == m.status) after).2
      (s.restate member m after) where
  members id := by
    rw [Tables.member?_updateStatus]
    have hid := h.members id
    by_cases heq : id = member
    · rw [heq] at hid ⊢
      rw [hm, Option.map_some, Option.map_eq_some_iff] at hid
      obtain ⟨r, hr, hview⟩ := hid
      have hmember : r.id = member := ((Tables.member?_eq_some h.memberKeys).1 hr).2
      have hstatus : r.status = m.status := congrArg MemberView.status hview
      have hfound : (s.restate member m after).members.find? member =
          some { m with status := after } := by
        simp [Store.restate]
      rw [hr, hfound, Option.map_some, Option.map_some, Option.map_some, Option.some_inj]
      simpa [hmember, hstatus, MemberRow.view, MemberView.ofMember] using hview
    · have hsame : (s.restate member m after).members.find? id = s.members.find? id := by
        simp [Store.restate, heq]
      rw [hsame, ← hid]
      cases hr : t.member? id with
      | none => rfl
      | some r =>
          have hmember : r.id ≠ member := by
            rw [((Tables.member?_eq_some h.memberKeys).1 hr).2]
            exact heq
          simp [hmember]
  teams id := h.teams id
  seats id := by
    obtain ⟨xs, hxs, hlist⟩ := h.seats id
    exact ⟨xs, hxs.congr rfl, hlist⟩
  memberKeys := Tables.nodup_updateStatus h.memberKeys _ after
  teamKeys := h.teamKeys
  once id := h.once id
  stored id x hx := Directory.contains_insert (h.stored id x hx)

end Mirrors

end TeamRoster
