import TeamRoster.Proofs.Store.Edits

/-!
# What reads give

A team is read as its record with the stored members in place of their ids. `Store.Holds` says that a
store holds a team just as it is, and every read of teams is described by it, provided that members
are stored under their own ids.
-/

namespace TeamRoster

namespace Store

variable {s : Store}

/-- Every member is stored under the id of the member. -/
def Keyed (s : Store) : Prop :=
  ∀ id m, s.members.find? id = some m → m.id = id

/-- The store holds the team, with its members as they are in the team. -/
structure Holds (s : Store) (t : Team) : Prop where
  record : ∃ place, s.teams.find? t.id = some (t.record place)
  members (m : Member) : m ∈ t.members → s.members.find? m.id = some m

theorem member_eq_ok {id : Ident} {m : Member} :
    s.member id = .ok m ↔ s.members.find? id = some m := by
  unfold member
  cases s.members.find? id <;> simp

/-- Members are found under a list of ids exactly if these are their ids and they are stored. -/
theorem forall₂_find?_iff (hs : s.Keyed) {ids : List Ident} {ms : List Member} :
    List.Forall₂ (fun id m => s.members.find? id = some m) ids ms ↔
      ids = ms.map Member.id ∧ ∀ m ∈ ms, s.members.find? m.id = some m := by
  constructor
  · intro h
    induction h with
    | nil => simp
    | @cons id m ids ms hm _ ih =>
        have heq := hs id m hm
        subst heq
        rw [List.map_cons, ← ih.1]
        exact ⟨rfl, List.forall_mem_cons.2 ⟨hm, ih.2⟩⟩
  · rintro ⟨rfl, hms⟩
    induction ms with
    | nil => exact .nil
    | cons m ms ih =>
        rw [List.forall_mem_cons] at hms
        exact .cons hms.1 (ih hms.2)

/-- A record is read as a team exactly if it is the record of that team and its members are stored
as they are in the team. -/
theorem assemble_eq_ok (hs : s.Keyed) {id : Ident} {r : TeamRecord} {t : Team} :
    s.assemble id r = .ok t ↔
      t.id = id ∧ r = t.record r.place ∧ ∀ m ∈ t.members, s.members.find? m.id = some m := by
  unfold assemble
  constructor
  · intro h
    obtain ⟨ms, hms, ht⟩ := Failing.bind_eq_ok.1 h
    have hfound : List.Forall₂ (fun id m => s.members.find? id = some m) r.memberIds ms := by
      refine (Failing.mapM_eq_ok.1 hms).imp fun x m hx => ?_
      cases hm : s.members.find? x <;> simp_all
    obtain ⟨hids, hms⟩ := (forall₂_find?_iff hs).1 hfound
    have heq : (⟨id, r.name, ms, r.createdAt⟩ : Team) = t := Except.ok.inj ht
    subst heq
    exact ⟨rfl, by rw [Team.record, Team.memberIds, ← hids], hms⟩
  · rintro ⟨rfl, hr, hms⟩
    have hfound : List.Forall₂ (fun id m => s.members.find? id = some m) r.memberIds t.members :=
      (forall₂_find?_iff hs).2 ⟨congrArg TeamRecord.memberIds hr, hms⟩
    refine Failing.bind_eq_ok.2 ⟨t.members, Failing.mapM_eq_ok.2 (hfound.imp ?_), ?_⟩
    · intro x m hx
      simp [hx]
    · rw [hr]
      rfl

/-- A record can be read as a team if all that it lists are stored. -/
theorem exists_assemble {id : Ident} {r : TeamRecord}
    (h : ∀ x ∈ r.memberIds, ∃ m, s.members.find? x = some m) : ∃ t, s.assemble id r = .ok t := by
  unfold assemble
  refine Failing.bind_ok (Failing.mapM_ok fun x hx => ?_) fun ms => ⟨_, rfl⟩
  obtain ⟨m, hm⟩ := h x hx
  exact ⟨m, by rw [hm]⟩

/-- A record is read as a team with the id under which it is stored. -/
theorem id_of_assemble {id : Ident} {r : TeamRecord} {t : Team} (h : s.assemble id r = .ok t) :
    t.id = id := by
  unfold assemble at h
  obtain ⟨ms, -, ht⟩ := Failing.bind_eq_ok.1 h
  cases ht
  rfl

/-- What is read under an id is the team of that id, as the store holds it. -/
theorem team_eq_ok (hs : s.Keyed) {id : Ident} {t : Team} :
    s.team id = .ok t ↔ t.id = id ∧ s.Holds t := by
  unfold team
  cases hr : s.teams.find? id with
  | none =>
      simp only [reduceCtorEq, false_iff, not_and]
      rintro rfl ⟨⟨place, hplace⟩, -⟩
      rw [hr] at hplace
      cases hplace
  | some r =>
      rw [assemble_eq_ok hs]
      constructor
      · rintro ⟨rfl, hrecord, hms⟩
        exact ⟨rfl, ⟨r.place, hr.trans (congrArg some hrecord)⟩, hms⟩
      · rintro ⟨rfl, ⟨place, hplace⟩, hms⟩
        have heq : r = t.record place := Option.some.inj (hr.symm.trans hplace)
        subst heq
        exact ⟨rfl, rfl, hms⟩

/-- A team that is held is read under its id. -/
theorem Holds.team (hs : s.Keyed) {t : Team} (h : s.Holds t) : s.team t.id = .ok t :=
  (team_eq_ok hs).2 ⟨rfl, h⟩

/-- A team that is held is determined by its id. -/
theorem Holds.ext (hs : s.Keyed) {t u : Team} (ht : s.Holds t) (hu : s.Holds u)
    (hid : t.id = u.id) : t = u := by
  have htt := ht.team hs
  rw [hid, hu.team hs] at htt
  exact (Except.ok.inj htt).symm

/-- The list of all teams has just the teams that are held. -/
theorem mem_allTeams (hs : s.Keyed) {roster : List Team} (h : s.allTeams = .ok roster) (t : Team) :
    t ∈ roster ↔ s.Holds t := by
  rw [Failing.mem_of_mapM_eq_ok h]
  constructor
  · rintro ⟨e, he, ht⟩
    obtain ⟨hid, hrecord, hms⟩ := (assemble_eq_ok hs).1 ht
    have hentry : (e.1, e.2) ∈ s.teams.entries := List.mem_mergeSort.1 he
    refine ⟨⟨e.2.place, ?_⟩, hms⟩
    rw [hid, Directory.find?_eq_some.2 hentry, ← hrecord]
  · rintro ⟨⟨place, hplace⟩, hms⟩
    refine ⟨(t.id, t.record place), List.mem_mergeSort.2 (Directory.find?_eq_some.1 hplace), ?_⟩
    exact (assemble_eq_ok hs).2 ⟨rfl, rfl, hms⟩

/-- Either no record lists the member, or a record that does is read. -/
theorem teamOf_cases (s : Store) (member : Ident) :
    (s.teamOf member = .ok none ∧ ∀ id r, s.teams.find? id = some r → member ∉ r.memberIds) ∨
      ∃ id r, s.teamOf member = (s.assemble id r).map some ∧ s.teams.find? id = some r ∧
        member ∈ r.memberIds := by
  unfold teamOf
  cases he : s.teams.entries.find? fun e => e.2.memberIds.contains member with
  | none =>
      rw [List.find?_eq_none] at he
      refine .inl ⟨rfl, fun id r hr hmem => ?_⟩
      exact he (id, r) (Directory.find?_eq_some.1 hr) (List.contains_iff_mem.2 hmem)
  | some e =>
      have hlists := List.find?_some he
      have hentry := List.mem_of_find?_eq_some he
      exact .inr ⟨e.1, e.2, rfl, Directory.find?_eq_some.2 hentry, List.contains_iff_mem.1 hlists⟩

/-- No team is found for a member exactly if no record lists the member. -/
theorem teamOf_eq_none {member : Ident} :
    s.teamOf member = .ok none ↔
      ∀ id r, s.teams.find? id = some r → member ∉ r.memberIds := by
  rcases s.teamOf_cases member with ⟨hnone, hlists⟩ | ⟨id, r, hfound, hr, hmem⟩
  · exact iff_of_true hnone hlists
  · refine iff_of_false ?_ fun h => h id r hr hmem
    rw [hfound]
    cases s.assemble id r <;> simp [Except.map]

/-- The team found for a member is held and lists the member. -/
theorem holds_of_teamOf_eq_some (hs : s.Keyed) {member : Ident} {t : Team}
    (h : s.teamOf member = .ok (some t)) : s.Holds t ∧ member ∈ t.memberIds := by
  rcases s.teamOf_cases member with ⟨hnone, -⟩ | ⟨id, r, hfound, hr, hmem⟩
  · rw [hnone] at h
    cases h
  · rw [hfound] at h
    cases ht : s.assemble id r with
    | error failure => simp [ht, Except.map] at h
    | ok u =>
        have heq : u = t := by simpa [ht, Except.map] using h
        subst heq
        obtain ⟨rfl, hrecord, hms⟩ := (assemble_eq_ok hs).1 ht
        exact ⟨⟨⟨r.place, hr.trans (congrArg some hrecord)⟩, hms⟩, by rwa [hrecord] at hmem⟩

end Store

end TeamRoster
