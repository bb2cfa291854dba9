import TeamRoster.Proofs.Composition.Timeless
import TeamRoster.Proofs.Tables.Order
import TeamRoster.Proofs.Workflow.Preparation

/-!
# Reading from tables

Tables that mirror an orderly store and list the teams in the same order are its twins (`Twins`).
Main statements: `Mirrors.member`, `Twins.team`, `Twins.teams` and `Twins.teamOf`. Whatever is read
from the tables is what the store gives, but for the times of members and teams, and what cannot be
read from the one cannot be read from the other for the same reason. Every text in the tables passes
the checks again that it passed before it was stored.
-/

namespace TeamRoster

open Failing

/-- Tables that show what an orderly store holds, with the teams in the same order. -/
structure Twins (t : Tables) (s : Store) : Prop where
  mirrors : Mirrors t s
  lists : t.Lists s.order
  orderly : s.Orderly

theorem twins_empty : Twins .empty .empty where
  mirrors := .empty
  lists := Store.order_empty ▸ Tables.lists_empty
  orderly := Store.orderly_empty

/-- A traversal whose elements come out in a form comes out in that form. -/
theorem Failing.mapM_of_forall₂ {ε α β γ : Type} {f : α → Except ε β} {form : β → γ} {xs : List α}
    {ys : List β} (h : List.Forall₂ (fun x y => ∃ z, f x = .ok z ∧ form z = form y) xs ys) :
    ∃ zs, xs.mapM f = .ok zs ∧ zs.map form = ys.map form := by
  induction h with
  | nil => exact ⟨[], rfl, rfl⟩
  | cons hx _ ih =>
      obtain ⟨z, hz, hform⟩ := hx
      obtain ⟨zs, hzs, hforms⟩ := ih
      exact ⟨z :: zs, by simp [hz, hzs], by simp [hform, hforms]⟩

/-- Elements of two lists are related where their keys are the same, position by position. -/
theorem Failing.forall₂_of_map_eq {α β γ : Type} {R : α → β → Prop} {f : α → γ} {g : β → γ}
    {xs : List α} {ys : List β} (h : xs.map f = ys.map g)
    (hR : ∀ x ∈ xs, ∀ y ∈ ys, f x = g y → R x y) : List.Forall₂ R xs ys := by
  induction xs generalizing ys with
  | nil =>
      rw [List.map_nil, eq_comm, List.map_eq_nil_iff] at h
      exact h ▸ .nil
  | cons x xs ih =>
      cases ys with
      | nil => cases h
      | cons y ys =>
          obtain ⟨hhead, htail⟩ := List.cons.inj h
          refine .cons (hR x List.mem_cons_self y List.mem_cons_self hhead) (ih htail ?_)
          exact fun a ha b hb => hR a (List.mem_cons_of_mem x ha) b (List.mem_cons_of_mem y hb)

/-- A row that shows a member is read as the member, but for the time. -/
theorem MemberRow.toMember_of_view {r : MemberRow} {m : Member}
    (h : r.view = MemberView.ofMember m) : ∃ x, r.toMember = .ok x ∧ x.timeless = m.timeless := by
  obtain ⟨id, name, email, status, createdAt⟩ := r
  simp only [view, MemberView.ofMember, MemberView.mk.injEq] at h
  obtain ⟨rfl, rfl, rfl, rfl⟩ := h
  exact ⟨⟨m.id, m.name, m.email, m.status, createdAt⟩, toMember_eq rfl rfl, rfl⟩

/-- A row with the name of a team is read as the team, but for times, if its members are. -/
theorem TeamRow.toTeam_of_name {row : TeamRow} {t : Team} {xs : List Member} (hid : row.id = t.id)
    (hname : row.name = t.name.text)
    (hxs : xs.map Member.timeless = t.members.map Member.timeless) :
    ∃ u, row.toTeam xs = .ok u ∧ u.timeless = t.timeless := by
  refine ⟨⟨row.id, t.name, xs, row.createdAt⟩, toTeam_eq hname xs, ?_⟩
  simp only [Team.timeless, hid, hxs]

section Grouping

/-- The members of one team among the memberships of all teams. -/
theorem filter_memberships (find : Ident → Option MemberRow) (ms : List Membership) (id : Ident) :
    ((ms.filterMap fun m => (find m.member).map fun r => (m.team, r)).filter
        fun e => e.1 == id).map Prod.snd =
      ((ms.filter fun m => m.team == id).map Membership.member).filterMap find := by
  induction ms with
  | nil => rfl
  | cons m ms ih =>
      cases hfound : find m.member with
      | none => by_cases hteam : m.team = id <;> simp [hfound, hteam, ih]
      | some r => by_cases hteam : m.team = id <;> simp [hfound, hteam, ih]

/-- The members of one team are read as they are among the members of all teams. -/
theorem mapM_filter_pairs {entries : List (Ident × MemberRow)} {pairs : List (Ident × Member)}
    (h : (entries.mapM fun e => e.2.toMember.map fun m => (e.1, m)) = .ok pairs) (id : Ident) :
    ((entries.filter fun e => e.1 == id).map Prod.snd).mapM MemberRow.toMember =
      .ok ((pairs.filter fun e => e.1 == id).map Prod.snd) := by
  rw [mapM_eq_ok] at h ⊢
  rw [List.forall₂_map_left_iff, List.forall₂_map_right_iff]
  have hpair : List.Forall₂
      (fun e p => (e : Ident × MemberRow).1 = (p : Ident × Member).1 ∧ e.2.toMember = .ok p.2)
      entries pairs := by
    refine h.imp fun e p hp => ?_
    cases hm : e.2.toMember with
    | error x =>
        rw [hm] at hp
        cases hp
    | ok m =>
        rw [hm] at hp
        cases hp
        exact ⟨rfl, rfl⟩
  induction hpair with
  | nil => exact .nil
  | @cons e p es ps hhead _ ih =>
      rw [List.forall₂_cons] at h
      by_cases hid : e.1 = id
      · have hid' : p.1 = id := hhead.1 ▸ hid
        rw [List.filter_cons_of_pos (by simpa using hid),
          List.filter_cons_of_pos (by simpa using hid')]
        exact .cons hhead.2 (ih h.2)
      · have hid' : ¬ p.1 = id := hhead.1 ▸ hid
        rw [List.filter_cons_of_neg (by simpa using hid),
          List.filter_cons_of_neg (by simpa using hid')]
        exact ih h.2

end Grouping

namespace Mirrors

variable {t : Tables} {s : Store} {id : Ident}

/-- A stored member is found in the tables and can be read. -/
theorem exists_row (h : Mirrors t s) {m : Member} (hm : s.members.find? id = some m) :
    ∃ r, t.member? id = some r ∧ ∃ x, r.toMember = .ok x ∧ x.timeless = m.timeless := by
  have hrow := h.members id
  rw [hm, Option.map_some, Option.map_eq_some_iff] at hrow
  obtain ⟨r, hr, hview⟩ := hrow
  exact ⟨r, hr, MemberRow.toMember_of_view hview⟩

/-- Every row of a member can be read. -/
theorem toMember_ok (h : Mirrors t s) {r : MemberRow} (hr : t.member? id = some r) :
    ∃ x, r.toMember = .ok x := by
  have hrow := h.members id
  rw [hr, Option.map_some, eq_comm, Option.map_eq_some_iff] at hrow
  obtain ⟨m, -, hview⟩ := hrow
  obtain ⟨x, hx, -⟩ := MemberRow.toMember_of_view hview.symm
  exact ⟨x, hx⟩

/-- Stored members are read from the rows that are found for their ids. -/
theorem read_rows (h : Mirrors t s) {ms : List Member}
    (hms : ∀ m ∈ ms, s.members.find? m.id = some m) :
    ∃ xs, ((ms.map Member.id).filterMap t.member?).mapM MemberRow.toMember = .ok xs ∧
      xs.map Member.timeless = ms.map Member.timeless := by
  refine mapM_of_forall₂ ?_
  induction ms with
  | nil => exact .nil
  | cons m ms ih =>
      rw [List.forall_mem_cons] at hms
      obtain ⟨r, hr, hread⟩ := h.exists_row hms.1
      rw [List.map_cons, List.filterMap_cons_some hr]
      exact .cons hread (ih hms.2)

/-- A team that is held is found in the tables, with seats and a name from which it can be read. -/
theorem exists_team (h : Mirrors t s) {T : Team} (hT : s.Holds T) :
    ∃ row seats xs, t.team? T.id = some row ∧ t.Seats T.id seats ∧
      ((seats.map Membership.member).filterMap t.member?).mapM MemberRow.toMember = .ok xs ∧
      ∃ u, row.toTeam xs = .ok u ∧ u.timeless = T.timeless := by
  obtain ⟨place, hplace⟩ := hT.record
  have hrow := h.teams T.id
  rw [hplace, Option.map_some, Option.map_eq_some_iff] at hrow
  obtain ⟨row, hrow, hname⟩ := hrow
  obtain ⟨seats, hseats, hlist⟩ := h.seats T.id
  obtain ⟨xs, hxs, hforms⟩ := h.read_rows hT.members
  have hids : seats.map Membership.member = T.members.map Member.id :=
    hlist.trans (Store.listOf_of_find? hplace)
  have hid : row.id = T.id := ((Tables.team?_eq_some h.teamKeys).1 hrow).2
  exact ⟨row, seats, xs, hrow, hseats, hids ▸ hxs, TeamRow.toTeam_of_name hid hname hforms⟩

/-- What is read of a member is what is stored, but for the time. -/
theorem member (h : Mirrors t s) (id : Ident) :
    ((Query.member id).on t).1.map Member.timeless = (s.member id).map Member.timeless := by
  have hsent : t.execute (.memberGet id) = .ok (t.member? id, t) := rfl
  rw [Query.member, Query.on_statement_bind t hsent, Store.member]
  cases hm : s.members.find? id with
  | none =>
      have hnone : t.member? id = none := by
        rw [h.member?_eq_none, Directory.contains, hm]
        rfl
      rw [hnone]
      rfl
  | some m =>
      obtain ⟨r, hr, x, hx, hform⟩ := h.exists_row hm
      rw [hr]
      simp only [Query.on_ofExcept, hx, Except.map, hform]

end Mirrors

namespace Twins

variable {t : Tables} {s : Store}

/-- A stored team is held as the team that it is read as. -/
theorem holds (h : Twins t s) {id : Ident} {r : TeamRecord} (hr : s.teams.find? id = some r) :
    ∃ T, s.assemble id r = .ok T ∧ T.id = id ∧ s.Holds T := by
  obtain ⟨T, hT⟩ := h.orderly.formed.assemble hr
  have hread : s.team id = .ok T := by simp [Store.team, hr, hT]
  exact ⟨T, hT, (Store.team_eq_ok h.orderly.keyed).1 hread⟩

theorem on_team (h : Twins t s) {T : Team} (hT : s.Holds T) :
    ∃ u, ((Query.team T.id).on t).1 = .ok u ∧ u.timeless = T.timeless := by
  obtain ⟨row, seats, xs, hrow, hseats, hxs, u, hu, hform⟩ := h.mirrors.exists_team hT
  have hsent : t.execute (.teamGet T.id) = .ok (t.team? T.id, t) := rfl
  have hread : t.execute (.teamMembers T.id) =
      .ok ((t.membershipsOf T.id).filterMap fun m => t.member? m.member, t) := rfl
  have hrows : ((t.membershipsOf T.id).filterMap fun m => t.member? m.member) =
      (seats.map Membership.member).filterMap t.member? := by
    rw [hseats.membershipsOf_eq, List.filterMap_map]
    rfl
  refine ⟨u, ?_, hform⟩
  rw [Query.team, Query.on_statement_bind t hsent, hrow]
  simp only
  rw [Query.on_statement_bind t hread, hrows, Query.on_bind, Query.on_ofExcept, hxs]
  simp only [Query.on_ofExcept, hu]

/-- What is read of a team is what is stored, but for times. -/
theorem team (h : Twins t s) (id : Ident) :
    ((Query.team id).on t).1.map Team.timeless = (s.team id).map Team.timeless := by
  cases hr : s.teams.find? id with
  | none =>
      have hsent : t.execute (.teamGet id) = .ok (t.team? id, t) := rfl
      rw [Query.team, Query.on_statement_bind t hsent, h.mirrors.team?_eq_none.2 hr, Store.team, hr]
      rfl
  | some r =>
      obtain ⟨T, hT, rfl, hholds⟩ := h.holds hr
      obtain ⟨u, hu, hform⟩ := h.on_team hholds
      rw [hu, hholds.team h.orderly.keyed]
      exact congrArg Except.ok hform

/-- All teams are read in the same order and as they are stored, but for times. -/
theorem teams (h : Twins t s) :
    (Query.teams.on t).1.map (List.map Team.timeless) =
      s.allTeams.map (List.map Team.timeless) := by
  obtain ⟨rows, hranks, hrows⟩ := h.lists.ranked
  obtain ⟨roster, hroster, hids⟩ := h.orderly.formed.allTeams
  have hread : ∀ e ∈ t.orderedMemberships.filterMap
      (fun m => (t.member? m.member).map fun r => (m.team, r)),
      ∃ p, (e.2.toMember.map fun m => (e.1, m)) = .ok p := by
    intro e he
    obtain ⟨m, -, hm⟩ := List.mem_filterMap.1 he
    obtain ⟨r, hr, rfl⟩ := Option.map_eq_some_iff.1 hm
    obtain ⟨x, hx⟩ := h.mirrors.toMember_ok hr
    exact ⟨(m.team, x), by rw [hx]; rfl⟩
  obtain ⟨pairs, hpairs⟩ := mapM_ok hread
  have hsent : t.execute .teamList = .ok (rows, t) := by
    rw [← hranks.orderedTeams_eq]
    rfl
  have hlisted : t.execute .membershipList =
      .ok (t.orderedMemberships.filterMap
        fun m => (t.member? m.member).map fun r => (m.team, r), t) := rfl
  -- A row is read as the team of the roster that has the same id.
  have hteam : List.Forall₂
      (fun row T => ∃ u, TeamRow.toTeam row ((pairs.filter fun e => e.1 == row.id).map Prod.snd) =
        .ok u ∧ u.timeless = T.timeless) rows roster := by
    refine forall₂_of_map_eq (hrows.trans hids.symm) fun row hrow T hT hid => ?_
    have hholds := (Store.mem_allTeams h.orderly.keyed hroster T).1 hT
    obtain ⟨found, seats, xs, hfound, hseats, hxs, hread⟩ := h.mirrors.exists_team hholds
    have heq : found = row := by
      have hkey := (Tables.team?_eq_some h.lists.keys).2 ⟨hranks.perm.mem_iff.1 hrow, hid⟩
      exact Option.some.inj (hfound.symm.trans hkey)
    have hmembers : (pairs.filter fun e => e.1 == row.id).map Prod.snd = xs := by
      have hgroup := mapM_filter_pairs hpairs row.id
      rw [filter_memberships, hid, hseats.filter_orderedMemberships, hxs] at hgroup
      rw [hid]
      exact (Except.ok.inj hgroup).symm
    rw [hmembers, ← heq]
    exact hread
  obtain ⟨us, hus, hforms⟩ := mapM_of_forall₂ hteam
  rw [Query.teams, Query.on_statement_bind t hsent, Query.on_statement_bind t hlisted,
    Query.on_bind, Query.on_ofExcept, hpairs, hroster]
  simp only [Query.on_ofExcept, hus, Except.map, hforms]

/-- The team that a member is in is read as it is stored, but for times. -/
theorem teamOf (h : Twins t s) (id : Ident) :
    ((Query.teamOf id).on t).1.map (Option.map Team.timeless) =
      (s.teamOf id).map (Option.map Team.timeless) := by
  have hsent : t.execute (.teamOfMember id) =
      .ok ((t.memberships.find? fun m => m.member == id).map Membership.team, t) := rfl
  have hlist (m : Membership) (hm : m ∈ t.memberships) : m.member ∈ s.listOf m.team := by
    obtain ⟨seats, hseats, hlist⟩ := h.mirrors.seats m.team
    rw [← hlist]
    exact List.mem_map_of_mem (hseats.mem.2 ⟨hm, rfl⟩)
  rw [Query.teamOf, Query.on_statement_bind t hsent]
  rcases s.teamOf_cases id with ⟨hnone, hlists⟩ | ⟨team, r, hsome, hr, hmem⟩
  · have hunseated : (t.memberships.find? fun m => m.member == id) = none := by
      rw [List.find?_eq_none]
      intro m hm hid
      obtain ⟨r, hr, hmem⟩ := Store.exists_of_mem_listOf (hlist m hm)
      exact hlists m.team r hr (beq_iff_eq.1 hid ▸ hmem)
    rw [hnone, hunseated]
    rfl
  · obtain ⟨T, hT, rfl, hholds⟩ := h.holds hr
    obtain ⟨u, hu, hform⟩ := h.on_team hholds
    have hseated : ∃ m, (t.memberships.find? fun m => m.member == id) = some m := by
      rw [← Option.isSome_iff_exists, List.find?_isSome]
      obtain ⟨seats, hseats, hids⟩ := h.mirrors.seats T.id
      rw [Store.listOf_of_find? hr] at hids
      rw [← hids] at hmem
      obtain ⟨m, hm, hid⟩ := List.mem_map.1 hmem
      exact ⟨m, (hseats.mem.1 hm).1, beq_iff_eq.2 hid⟩
    obtain ⟨m, hm⟩ := hseated
    -- Nobody is in two teams, so the first seat that is found is in the team that lists the member.
    have hteam : m.team = T.id := by
      have hid : m.member = id := by simpa using List.find?_some hm
      obtain ⟨q, hq, hlisted⟩ := Store.exists_of_mem_listOf (hlist m (List.mem_of_find?_eq_some hm))
      exact Store.roll_nodup_team h.orderly.once hq hr (hid ▸ hlisted) hmem
    rw [hsome, hT, hm, Option.map_some, hteam]
    simp only
    rw [Query.on_bind]
    rcases hread : (Query.team T.id).on t with ⟨reply, after⟩
    rw [hread] at hu
    subst hu
    simp only [Query.on_pure, Except.map, Option.map_some, hform]

end Twins

namespace Query

variable {α β : Type}

/-- A query that leaves all tables as they are. -/
def Looks (q : Query α) : Prop :=
  ∀ t, (q.on t).2 = t

theorem looks_throw (e : StorageError) : (throw e : Query α).Looks := fun _ => rfl

theorem looks_ofExcept (r : Except StorageError α) : (ofExcept r).Looks := by
  intro t
  rw [on_ofExcept]

theorem looks_statement (context : String) {s : Statement}
    (h : ∀ t : Tables, ∃ result, t.execute s = .ok (result, t)) : (statement context s).Looks := by
  intro t
  obtain ⟨result, hresult⟩ := h t
  rw [on_statement t hresult]

theorem Looks.bind {q : Query α} {f : α → Query β} (hq : q.Looks) (hf : ∀ a, (f a).Looks) :
    (q >>= f).Looks := by
  intro t
  have hafter := hq t
  rw [on_bind]
  cases hon : q.on t with
  | mk r after =>
      rw [hon] at hafter
      subst hafter
      cases r with
      | ok a => exact hf a after
      | error e => rfl

theorem looks_member (id : Ident) : (member id).Looks := by
  refine (looks_statement _ fun _ => ⟨_, rfl⟩).bind fun found => ?_
  cases found with
  | none => exact looks_throw _
  | some row => exact looks_ofExcept _

theorem looks_team (id : Ident) : (team id).Looks := by
  refine (looks_statement _ fun _ => ⟨_, rfl⟩).bind fun found => ?_
  cases found with
  | none => exact looks_throw _
  | some row =>
      exact (looks_statement _ fun _ => ⟨_, rfl⟩).bind fun _ => (looks_ofExcept _).bind
        fun _ => looks_ofExcept _

theorem looks_teams : teams.Looks :=
  (looks_statement _ fun _ => ⟨_, rfl⟩).bind fun _ => (looks_statement _ fun _ => ⟨_, rfl⟩).bind
    fun _ => (looks_ofExcept _).bind fun _ => looks_ofExcept _

theorem looks_teamOf (id : Ident) : (teamOf id).Looks := by
  refine (looks_statement _ fun _ => ⟨_, rfl⟩).bind fun found => ?_
  cases found with
  | none => exact fun _ => rfl
  | some team => exact (looks_team team).bind fun _ => fun _ => rfl

end Query

/-- Reads leave the tables as they are. -/
theorem Tables.storage_of_isRead {request : StorageRequest} (h : request.isRead = true)
    (t : Tables) : (storage request t).2 = t := by
  cases request with
  | member id => exact Query.looks_member id t
  | members =>
      exact ((Query.looks_statement _ fun _ => ⟨_, rfl⟩).bind fun _ => Query.looks_ofExcept _) t
  | team id => exact Query.looks_team id t
  | teams => exact Query.looks_teams t
  | teamOf id => exact Query.looks_teamOf id t
  | saveMember m => cases h
  | setStatus id status => cases h
  | createTeam team => cases h
  | deleteTeam id => cases h
  | addMember team member => cases h
  | removeMember team member => cases h
  | commit c => cases h

end TeamRoster
