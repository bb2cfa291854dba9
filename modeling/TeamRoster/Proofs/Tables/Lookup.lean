import TeamRoster.Directory
import TeamRoster.Proofs.Failing
import TeamRoster.Proofs.Tables.Rows

/-!
# What is found in tables after a write

Rows of members and teams have keys that are all different, and each write to them is described by
what a look-up finds after it. The memberships of a team are described by `Seats`; a write to the
memberships of one team gives that team other seats and leaves the members, the teams and the seats
of all other teams alone (`Reseated`). For each statement that may fail there is a lemma that says when it
goes through, and with what tables (`execute_*_eq_ok`).
-/

namespace TeamRoster

open scoped List

namespace Tables

section Keys

variable {α : Type} {key : α → Ident} {xs : List α} {id k : Ident} {a : α}

/-- With keys that are all different, what is found under a key is the entry of that key. -/
theorem find?_key_eq_some (h : (xs.map key).Nodup) :
    xs.find? (fun x => key x == id) = some a ↔ a ∈ xs ∧ key a = id := by
  have hlookup : xs.find? (fun x => key x == id) =
      Directory.lookup (xs.map fun x => (key x, x)) id := by
    simp [Directory.lookup, List.find?_map, Function.comp_def]
  have hkeys : ((xs.map fun x => (key x, x)).map Prod.fst).Nodup := by
    simpa [Function.comp_def] using h
  rw [hlookup, Directory.lookup_eq_some hkeys]
  simp only [List.mem_map, Prod.mk.injEq]
  constructor
  · rintro ⟨x, hx, hkey, rfl⟩
    exact ⟨hx, hkey⟩
  · rintro ⟨ha, hkey⟩
    exact ⟨a, ha, hkey, rfl⟩

/-- Entries that change but keep their keys are found changed. -/
theorem find?_map_key {f : α → α} (hf : ∀ x, key (f x) = key x) (xs : List α) (id : Ident) :
    (xs.map f).find? (fun x => key x == id) = (xs.find? fun x => key x == id).map f := by
  rw [List.find?_map]
  congr 2
  funext x
  simp [hf]

theorem key_replace (key : α → Ident) (k : Ident) {f : α → α} (hf : ∀ x, key x = k → key (f x) = k)
    (x : α) :
    key (if key x = k then f x else x) = key x := by
  split
  · rename_i hx
    rw [hf x hx, hx]
  · rfl

/-- An entry that is put in the place of the one with its key is found there. -/
theorem find?_replace {f : α → α} (hf : ∀ x, key x = k → key (f x) = k)
    (hfound : xs.find? (fun x => key x == k) = some a) (id : Ident) :
    (xs.map fun x => if key x = k then f x else x).find? (fun x => key x == id) =
      if id = k then some (f a) else xs.find? fun x => key x == id := by
  rw [find?_map_key (key_replace key k hf)]
  by_cases hid : id = k
  · have ha : key a = k := by simpa using List.find?_some hfound
    rw [hid, hfound, if_pos rfl, Option.map_some, if_pos ha]
  · rw [if_neg hid]
    cases hx : xs.find? fun x => key x == id with
    | none => rfl
    | some x =>
        have hkey : key x = id := by simpa using List.find?_some hx
        rw [Option.map_some, if_neg (hkey ▸ hid)]

/-- A new entry is found behind the others. -/
theorem find?_append_key (key : α → Ident) (a : α)
    (habsent : xs.find? (fun x => key x == key a) = none) (id : Ident) :
    (xs ++ [a]).find? (fun x => key x == id) =
      if id = key a then some a else xs.find? fun x => key x == id := by
  rw [List.find?_append]
  by_cases hid : id = key a
  · simp [hid, habsent]
  · have hid' : ¬ key a = id := fun h => hid h.symm
    simp [hid, hid']

/-- An entry that is dropped is not found, and all others are found as before. -/
theorem find?_filter_key (xs : List α) (k id : Ident) :
    (xs.filter fun x => key x != k).find? (fun x => key x == id) =
      if id = k then none else xs.find? fun x => key x == id := by
  rw [List.find?_filter]
  by_cases hid : id = k
  · simp [hid]
  · rw [if_neg hid]
    congr 1
    funext x
    by_cases hx : key x = id <;> simp [hx, hid]

/-- Entries that keep their keys keep them different. -/
theorem map_map_key {f : α → α} (hf : ∀ x, key (f x) = key x) (xs : List α) :
    (xs.map f).map key = xs.map key := by
  rw [List.map_map]
  congr 1
  funext x
  exact hf x

/-- A key that is not found is new. -/
theorem nodup_append_key (key : α → Ident) (a : α) (h : (xs.map key).Nodup)
    (habsent : xs.find? (fun x => key x == key a) = none) : ((xs ++ [a]).map key).Nodup := by
  rw [List.map_append, List.map_singleton]
  refine List.nodup_append.2 ⟨h, List.nodup_singleton _, ?_⟩
  rintro _ hx _ hy rfl
  obtain ⟨x, hx, hkey⟩ := List.mem_map.1 hx
  rw [List.find?_eq_none] at habsent
  exact habsent x hx (by simpa [hkey] using hy)

end Keys

variable {t d : Tables} {id team member : Ident}

section Members

variable {row : MemberRow}

theorem member?_eq_some (h : (t.members.map MemberRow.id).Nodup) :
    t.member? id = some row ↔ row ∈ t.members ∧ row.id = id :=
  find?_key_eq_some h

@[simp] theorem saveMember_teams (t : Tables) (row : MemberRow) :
    (t.saveMember row).teams = t.teams := by
  unfold saveMember
  split <;> rfl

@[simp] theorem saveMember_memberships (t : Tables) (row : MemberRow) :
    (t.saveMember row).memberships = t.memberships := by
  unfold saveMember
  split <;> rfl

/-- A saved member is found, with the time of the row that was there, if there was one. -/
theorem member?_saveMember (t : Tables) (row : MemberRow) :
    ∃ time, ∀ id, (t.saveMember row).member? id =
      if id = row.id then some { row with createdAt := time } else t.member? id := by
  unfold saveMember
  cases hr : t.member? row.id with
  | some r =>
      refine ⟨r.createdAt, fun id => ?_⟩
      exact find?_replace (f := fun r => { row with createdAt := r.createdAt }) (fun _ _ => rfl) hr
        id
  | none =>
      refine ⟨row.createdAt.toMicros, fun id => ?_⟩
      exact find?_append_key MemberRow.id { row with createdAt := row.createdAt.toMicros } hr id

theorem nodup_saveMember (h : (t.members.map MemberRow.id).Nodup) (row : MemberRow) :
    ((t.saveMember row).members.map MemberRow.id).Nodup := by
  unfold saveMember
  cases hr : t.member? row.id with
  | some r =>
      have hkeys := map_map_key (key_replace MemberRow.id row.id
        (f := fun r => { row with createdAt := r.createdAt }) fun _ _ => rfl) t.members
      exact hkeys ▸ h
  | none =>
      exact nodup_append_key MemberRow.id { row with createdAt := row.createdAt.toMicros } h hr

/-- Whoever has the status that is looked for is found with another one. -/
theorem member?_updateStatus (t : Tables) (which : MemberRow → Bool) (status : Status)
    (id : Ident) : (t.updateStatus which status).2.member? id =
      (t.member? id).map fun r => if which r then { r with status } else r := by
  refine find?_map_key (fun r => ?_) t.members id
  split <;> rfl

theorem nodup_updateStatus (h : (t.members.map MemberRow.id).Nodup) (which : MemberRow → Bool)
    (status : Status) : ((t.updateStatus which status).2.members.map MemberRow.id).Nodup := by
  have hkeys : ∀ r : MemberRow, (if which r then { r with status } else r).id = r.id := by
    intro r
    split <;> rfl
  exact map_map_key hkeys t.members ▸ h

/-- No status is changed exactly if there is nobody under the id who has the status before. -/
theorem updateStatus_eq_zero (h : (t.members.map MemberRow.id).Nodup) (before after : Status) :
    (t.updateStatus (fun r => r.id == id && r.status == before) after).1 = 0 ↔
      ∀ r, t.member? id = some r → r.status ≠ before := by
  simp only [updateStatus, List.countP_eq_zero, member?_eq_some h, Bool.and_eq_true, beq_iff_eq,
    not_and]
  constructor
  · rintro hnone r ⟨hr, hid⟩
    exact hnone r hr hid
  · intro hnone r hr hid
    exact hnone r ⟨hr, hid⟩

end Members

section Teams

variable {row : TeamRow}

theorem team?_eq_some (h : (t.teams.map TeamRow.id).Nodup) :
    t.team? id = some row ↔ row ∈ t.teams ∧ row.id = id :=
  find?_key_eq_some h

@[simp] theorem saveTeam_members (t : Tables) (row : TeamRow) :
    (t.saveTeam row).members = t.members := by
  unfold saveTeam
  split <;> rfl

@[simp] theorem saveTeam_memberships (t : Tables) (row : TeamRow) :
    (t.saveTeam row).memberships = t.memberships := by
  unfold saveTeam
  split <;> rfl

/-- A saved team is found, with the time of the row that was there, if there was one. -/
theorem team?_saveTeam (t : Tables) (row : TeamRow) :
    ∃ time, ∀ id, (t.saveTeam row).team? id =
      if id = row.id then some { row with createdAt := time } else t.team? id := by
  unfold saveTeam
  cases hr : t.team? row.id with
  | some r =>
      have hid : r.id = row.id := by simpa using List.find?_some hr
      refine ⟨r.createdAt, fun id => ?_⟩
      rw [← hid] at hr ⊢
      exact find?_replace (f := fun r => { r with name := row.name }) (fun _ h => h) hr id
  | none =>
      refine ⟨row.createdAt.toMicros, fun id => ?_⟩
      exact find?_append_key TeamRow.id { row with createdAt := row.createdAt.toMicros } hr id

theorem nodup_saveTeam (h : (t.teams.map TeamRow.id).Nodup) (row : TeamRow) :
    ((t.saveTeam row).teams.map TeamRow.id).Nodup := by
  unfold saveTeam
  cases hr : t.team? row.id with
  | some r =>
      have hkeys := map_map_key (key_replace TeamRow.id row.id
        (f := fun r => { r with name := row.name }) fun _ h => h) t.teams
      exact hkeys ▸ h
  | none => exact nodup_append_key TeamRow.id { row with createdAt := row.createdAt.toMicros } h hr

/-- Tables without a team. -/
def dropTeam (t : Tables) (id : Ident) : Tables :=
  { t with
    teams := t.teams.filter fun r => r.id != id
    memberships := t.memberships.filter fun m => m.team != id }

theorem team?_dropTeam (t : Tables) (id key : Ident) :
    (t.dropTeam id).team? key = if key = id then none else t.team? key :=
  find?_filter_key t.teams id key

theorem nodup_dropTeam (h : (t.teams.map TeamRow.id).Nodup) (id : Ident) :
    ((t.dropTeam id).teams.map TeamRow.id).Nodup :=
  h.sublist (List.filter_sublist.map TeamRow.id)

/-- No row is dropped exactly if there is no such team. -/
theorem countP_team_eq_zero : t.teams.countP (fun r => r.id == id) = 0 ↔ t.team? id = none := by
  rw [List.countP_eq_zero, team?, List.find?_eq_none]

end Teams

section Memberships

variable {e : Tables} {row : Membership} {seats others : List Membership}

/-- The memberships of one team were written, and nothing else was. -/
structure Reseated (t d : Tables) (team : Ident) (seats : List Membership) : Prop where
  members : d.members = t.members
  teams : d.teams = t.teams
  seats : d.Seats team seats
  others (id : Ident) (others : List Membership) :
    id ≠ team → t.Seats id others → d.Seats id others

theorem Reseated.refl (h : t.Seats team seats) : t.Reseated t team seats where
  members := rfl
  teams := rfl
  seats := h
  others _ _ _ hxs := hxs

theorem Reseated.trans (h : t.Reseated d team seats) (h' : d.Reseated e team others) :
    t.Reseated e team others where
  members := h'.members.trans h.members
  teams := h'.teams.trans h.teams
  seats := h'.seats
  others id xs hne hxs := h'.others id xs hne (h.others id xs hne hxs)

/-- Tables without the memberships of a team. -/
def clearTeam (t : Tables) (team : Ident) : Tables :=
  { t with memberships := t.memberships.filter fun m => m.team != team }

/-- Tables with one more membership. -/
def seat (t : Tables) (row : Membership) : Tables :=
  { t with memberships := t.memberships ++ [row] }

/-- Tables without a membership. -/
def unseat (t : Tables) (team member : Ident) : Tables :=
  { t with memberships := t.memberships.filter fun m => !(m.team == team && m.member == member) }

/-- Memberships of other teams stay when those of one team are dropped. -/
theorem Seats.stay (h : t.Seats id seats) (hne : id ≠ team) {p : Membership → Bool}
    (hp : ∀ m, m.team ≠ team → p m = true) (hrows : d.memberships = t.memberships.filter p) :
    d.Seats id seats := by
  have hall : seats.filter p = seats := by
    refine List.filter_eq_self.2 fun m hm => hp m ?_
    rw [(h.mem.1 hm).2]
    exact hne
  exact hall ▸ h.drop hrows

theorem reseated_clearTeam (t : Tables) (team : Ident) : t.Reseated (t.clearTeam team) team [] where
  members := rfl
  teams := rfl
  seats := by
    refine ⟨?_, List.Pairwise.nil⟩
    have hnone : (t.clearTeam team).memberships.filter (fun m => m.team == team) = [] := by
      simp [clearTeam, List.filter_filter]
    rw [hnone]
  others _ _ hne hxs := hxs.stay hne (fun m hm => by simpa using hm) rfl

/-- A membership at a position above all others comes last. -/
theorem Seats.reseated_seat (row : Membership) (h : t.Seats row.team seats)
    (hhigher : ∀ m ∈ seats, m.position < row.position) :
    t.Reseated (t.seat row) row.team (seats ++ [row]) where
  members := rfl
  teams := rfl
  seats := h.enter hhigher rfl
  others _ _ hne hxs := hxs.elsewhere hne.symm rfl

/-- A membership that is taken away leaves the others in their order. -/
theorem Seats.reseated_unseat (h : t.Seats team seats) (member : Ident) :
    t.Reseated (t.unseat team member) team (seats.filter fun m => m.member != member) where
  members := rfl
  teams := rfl
  seats := by
    have hdrop : (t.unseat team member).Seats team
        (seats.filter fun m => !(m.team == team && m.member == member)) := h.drop rfl
    have hsame : (seats.filter fun m => !(m.team == team && m.member == member)) =
        seats.filter fun m => m.member != member := by
      refine List.filter_congr fun m hm => ?_
      simp [(h.mem.1 hm).2, bne]
    exact hsame ▸ hdrop
  others _ _ hne hxs := hxs.stay hne (fun m hm => by simp [hm]) rfl

/-- Whether a member has a seat in the team. -/
theorem Seats.membership?_isSome (h : t.Seats team seats) :
    (t.membership? team member).isSome = true ↔ member ∈ seats.map Membership.member := by
  rw [membership?, List.find?_isSome]
  simp only [Bool.and_eq_true, beq_iff_eq, List.mem_map, h.mem]
  constructor
  · rintro ⟨m, hm, hteam, hmember⟩
    exact ⟨m, ⟨hm, hteam⟩, hmember⟩
  · rintro ⟨m, ⟨hm, hteam⟩, hmember⟩
    exact ⟨m, hm, hteam, hmember⟩

/-- No membership is taken away exactly if the member has no seat in the team. -/
theorem Seats.countP_eq_zero (h : t.Seats team seats) :
    t.memberships.countP (fun m => m.team == team && m.member == member) = 0 ↔
      member ∉ seats.map Membership.member := by
  rw [← h.membership?_isSome, membership?, List.find?_isSome, List.countP_eq_zero]
  simp only [not_exists, not_and]

/-- A membership is inserted where its team and its member are there. -/
theorem insertMembership_eq (t : Tables) (row : Membership) :
    t.insertMembership row =
      if t.team? row.team = none then .error (.dangling ServerError.teamReference)
      else if t.member? row.member = none then .error (.dangling ServerError.memberReference)
      else .ok (t.seat row) := by
  simp only [insertMembership, Option.isNone_iff_eq_none]
  rfl

theorem insertMembership_eq_ok {after : Tables} {row : Membership} :
    t.insertMembership row = .ok after ↔
      t.team? row.team ≠ none ∧ t.member? row.member ≠ none ∧ after = t.seat row := by
  rw [insertMembership_eq]
  by_cases hteam : t.team? row.team = none
  · simp [hteam]
  · by_cases hmember : t.member? row.member = none
    · simp [hteam, hmember]
    · simp only [hteam, hmember, if_false, ne_eq, not_false_eq_true, true_and, Except.ok.injEq]
      exact eq_comm

/-- To insert a membership leaves the rows of members and teams alone. -/
theorem rows_of_insertMembership {after : Tables} {row : Membership}
    (h : t.insertMembership row = .ok after) :
    after.members = t.members ∧ after.teams = t.teams := by
  obtain ⟨-, -, rfl⟩ := insertMembership_eq_ok.1 h
  exact ⟨rfl, rfl⟩

end Memberships

section Statements

variable {after : Tables} {result : Unit}

theorem execute_memberSave_eq_ok {row : MemberRow} :
    t.execute (.memberSave row) = .ok (result, after) ↔
      row.refusal? = none ∧ after = t.saveMember row := by
  rw [execute]
  cases row.refusal? with
  | some e => simp
  | none => simp [Prod.ext_iff, eq_comm]

theorem execute_teamInsert_eq_ok {row : TeamRow} :
    t.execute (.teamInsert row) = .ok (result, after) ↔
      row.refusal? = none ∧ (∀ r ∈ t.teams, r.id ≠ row.id → r.name ≠ row.name) ∧
        after = t.saveTeam row := by
  have hfree : (t.teams.any fun r => r.id != row.id && r.name == row.name) = false ↔
      ∀ r ∈ t.teams, r.id ≠ row.id → r.name ≠ row.name := by
    simp
  rw [execute, ← hfree]
  cases row.refusal? with
  | some e => simp
  | none =>
      cases t.teams.any fun r => r.id != row.id && r.name == row.name <;>
        simp [Prod.ext_iff, eq_comm]

theorem execute_membershipInsert_eq_ok {row : Membership} :
    t.execute (.membershipInsert row) = .ok (result, after) ↔
      t.membership? row.team row.member = none ∧ t.insertMembership row = .ok after := by
  rw [execute]
  cases t.membership? row.team row.member with
  | some m => simp
  | none => simp [Failing.map_eq_ok, Prod.ext_iff]

/-- A membership is there already, or it is inserted at the next position. Either way there has to be
one. -/
theorem execute_membershipAppend_eq_ok :
    t.execute (.membershipAppend team member) = .ok (result, after) ↔
      ∃ p, t.nextPosition? team = some p ∧
        ((∃ m, t.membership? team member = some m) ∧ after = t ∨
          t.membership? team member = none ∧ t.insertMembership ⟨team, member, p⟩ = .ok after) := by
  rw [execute]
  cases t.nextPosition? team with
  | none => simp
  | some p =>
      cases t.membership? team member with
      | some m => simp [Prod.ext_iff, eq_comm]
      | none => simp [Failing.map_eq_ok, Prod.ext_iff]

theorem rows_of_membershipInsert {row : Membership}
    (h : t.execute (.membershipInsert row) = .ok (result, after)) :
    after.members = t.members ∧ after.teams = t.teams :=
  rows_of_insertMembership (execute_membershipInsert_eq_ok.1 h).2

theorem rows_of_membershipAppend
    (h : t.execute (.membershipAppend team member) = .ok (result, after)) :
    after.members = t.members ∧ after.teams = t.teams := by
  obtain ⟨p, -, ⟨-, rfl⟩ | ⟨-, hinsert⟩⟩ := execute_membershipAppend_eq_ok.1 h
  · exact ⟨rfl, rfl⟩
  · exact rows_of_insertMembership hinsert

end Statements

end Tables

end TeamRoster
