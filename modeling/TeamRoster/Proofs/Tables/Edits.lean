import TeamRoster.Proofs.Tables.Mirror
import TeamRoster.Proofs.Tables.Storable
import TeamRoster.Proofs.Team.Operations

/-!
# Edits on both sides

`Query.effect` is what a query does to tables, as one value or one failure; there is an equation for
the query of each edit. Main statement: `Mirrors.edit`. An edit for which there is room in the tables
(`Edit.HasRoom`) goes through on tables exactly if it does on the store that they mirror, and the tables
mirror the store again. The two sides check in different orders, so that they may refuse an edit for
different reasons; the reason is the same where nothing is missing that the edit is about (`Edit.Known`).
Where there is no room the database refuses the edit, whatever the store does.
-/

namespace TeamRoster

open scoped List

namespace Failing

variable {ε α β α' β' : Type} {alike alike' : Prop} {R : α → β → Prop} {R' : α' → β' → Prop}

/-- Both give values that are related, or both fail, and in the same way under a condition. -/
inductive Together (alike : Prop) (R : α → β → Prop) : Except ε α → Except ε β → Prop
  | ok {a : α} {b : β} (related : R a b) : Together alike R (.ok a) (.ok b)
  | error {x y : ε} (same : alike → x = y) : Together alike R (.error x) (.error y)

theorem Together.bind {x : Except ε α} {y : Except ε β} {f : α → Except ε α'} {g : β → Except ε β'}
    (h : Together alike R x y) (hf : ∀ a b, R a b → y = .ok b → Together alike R' (f a) (g b)) :
    Together alike R' (x >>= f) (y >>= g) := by
  cases h with
  | ok related => exact hf _ _ related rfl
  | error same => exact .error same

/-- A condition may be asked for that is more than enough. -/
theorem Together.mono {x : Except ε α} {y : Except ε β} (h : Together alike R x y)
    (halike : alike' → alike) : Together alike' R x y := by
  cases h with
  | ok related => exact .ok related
  | error same => exact .error fun h => same (halike h)

end Failing

namespace Query

variable {α : Type} (t : Tables)

/-- The tables after a query that is about its effect alone, if it goes through. -/
def effect (q : Query Unit) (t : Tables) : Except StorageError Tables :=
  match q.on t with
  | (.ok (), after) => .ok after
  | (.error e, _) => .error e

@[simp] theorem effect_pure : (pure () : Query Unit).effect t = .ok t := rfl

@[simp] theorem effect_throw (e : StorageError) : (throw e : Query Unit).effect t = .error e := rfl

theorem effect_bind (q : Query Unit) (f : Unit → Query Unit) :
    (q >>= f).effect t = q.effect t >>= (f ()).effect := by
  rw [effect, on_bind, effect]
  cases q.on t with
  | mk r after => cases r <;> rfl

/-- A query whose writes are made together has its effect, or none. -/
theorem atomically_eq (q : Query Unit) :
    q.atomically t =
      match q.effect t with
      | .ok after => (.ok (), after)
      | .error e => (.error e, t) := by
  rw [atomically, effect]
  cases q.on t with
  | mk r after => cases r <;> rfl

/-- Writes that are made together and do not go through have changed nothing. -/
theorem atomically_unchanged {t : Tables} {q : Query Unit} (h : (q.atomically t).1 ≠ .ok ()) :
    (q.atomically t).2 = t := by
  rw [atomically_eq] at h ⊢
  cases hq : q.effect t with
  | ok after =>
      rw [hq] at h
      exact absurd rfl h
  | error e => rfl

theorem effect_callWith (explain : DatabaseFailure → StorageError) (s : Statement)
    (f : s.Result → Query Unit) :
    (callWith explain (send s) >>= f).effect t =
      match t.execute s with
      | .ok (result, after) => (f result).effect after
      | .error e => .error (explain (.server e)) := by
  rw [effect, on_bind, on_callWith]
  cases t.execute s <;> rfl

/-- A query that starts with a statement goes through if the statement does and what follows it does. -/
theorem effect_callWith_eq_ok {explain : DatabaseFailure → StorageError} {s : Statement}
    {f : s.Result → Query Unit} {d : Tables} :
    (callWith explain (send s) >>= f).effect t = .ok d ↔
      ∃ result mid, t.execute s = .ok (result, mid) ∧ (f result).effect mid = .ok d := by
  rw [effect_callWith]
  cases t.execute s with
  | error e => simp
  | ok done =>
      obtain ⟨result, mid⟩ := done
      simp [Prod.ext_iff]

/-- A query goes on after a statement that cannot fail. -/
theorem effect_statement {context : String} {s : Statement} {result : s.Result} {after : Tables}
    (h : t.execute s = .ok (result, after)) (f : s.Result → Query Unit) :
    (statement context s >>= f).effect t = (f result).effect after := by
  rw [statement, effect_callWith, h]

/-- A count that is zero fails, any other does not. -/
theorem effect_unless (changed : Nat) (e : StorageError) :
    (if changed = 0 then throw e else pure () : Query Unit).effect t =
      if changed = 0 then .error e else .ok t := by
  split <;> rfl

section Writes

variable {t}

theorem effect_deleteTeam (id : Ident) :
    (deleteTeam id).effect t =
      if t.team? id = none then .error (.notFound .team id) else .ok (t.dropTeam id) := by
  have hsent : t.execute (.teamDelete id) =
      .ok (t.teams.countP fun r => r.id == id, t.dropTeam id) := rfl
  rw [deleteTeam, effect_statement t hsent, effect_unless]
  simp only [Tables.countP_team_eq_zero]

/-- Where no position is left the database refuses a member, even one who is in the team. -/
theorem effect_appendMember (team member : Ident) :
    (appendMember team member).effect t =
      match t.nextPosition? team with
      | none => .error (explainAppend team member (.server .integerOutOfRange))
      | some p =>
        if (t.membership? team member).isSome then .ok t
        else if t.team? team = none then .error (.notFound .team team)
        else if t.member? member = none then .error (.notFound .member member)
        else .ok (t.seat ⟨team, member, p⟩) := by
  rw [appendMember, effect, on_callWith, Tables.execute]
  cases t.nextPosition? team with
  | none => rfl
  | some p =>
      simp only
      by_cases hin : (t.membership? team member).isSome = true
      · rw [if_pos hin, if_pos hin]
      · rw [if_neg hin, if_neg hin, Tables.insertMembership_eq]
        by_cases hteam : t.team? team = none
        · simp only [if_pos hteam]
          rfl
        · by_cases hmember : t.member? member = none
          · simp only [if_neg hteam, if_pos hmember]
            rfl
          · simp only [if_neg hteam, if_neg hmember]
            rfl

/-- An addition that goes through is the statement that is sent for it. -/
theorem execute_of_effect_appendMember {team member : Ident} {d : Tables}
    (h : (appendMember team member).effect t = .ok d) :
    t.execute (.membershipAppend team member) = .ok ((), d) := by
  rw [appendMember, effect, on_callWith] at h
  cases hsent : t.execute (.membershipAppend team member) with
  | error e =>
      rw [hsent] at h
      cases h
  | ok done =>
      rw [hsent] at h
      cases h
      rfl

theorem effect_removeMember (team member : Ident) :
    (removeMember team member).effect t =
      if (t.memberships.countP fun m => m.team == team && m.member == member) = 0 then
        .error (.notFound .membership member)
      else .ok (t.unseat team member) := by
  have hsent : t.execute (.membershipDelete team member) =
      .ok (t.memberships.countP fun m => m.team == team && m.member == member,
        t.unseat team member) := rfl
  rw [removeMember, effect_statement t hsent, effect_unless]

/-- After a removal that goes through, the member is not in the team. -/
theorem eq_unseat_of_effect {team member : Ident} {d : Tables}
    (h : (removeMember team member).effect t = .ok d) : d = t.unseat team member := by
  rw [effect_removeMember] at h
  split at h
  · cases h
  · exact (Except.ok.inj h).symm

/-- A removal goes through if the member has a seat. -/
theorem effect_removeMember_of_seats {team : Ident} {seats : List Membership}
    (h : t.Seats team seats) (member : Ident) :
    (removeMember team member).effect t =
      if member ∈ seats.map Membership.member then .ok (t.unseat team member)
      else .error (.notFound .membership member) := by
  rw [effect_removeMember]
  simp only [h.countP_eq_zero]
  split <;> simp_all

theorem effect_setStatus (member : Ident) (before after : Status) :
    (edit (.setStatus member before after)).effect t =
      if (t.updateStatus (fun r => r.id == member && r.status == before) after).1 = 0 then
        .error (.conflict .member member)
      else .ok (t.updateStatus (fun r => r.id == member && r.status == before) after).2 := by
  have hsent : t.execute (.setStatus member before after) =
      .ok (t.updateStatus (fun r => r.id == member && r.status == before) after) := rfl
  rw [edit, effect_statement t hsent, effect_unless]
  rfl

/-- A member who has no seat yet gets the next one, if stored. -/
theorem effect_insertMembers_cons {team : Team} (position : Nat) {m : Member} (ms : List Member)
    (hteam : t.team? team.id ≠ none) (habsent : ¬ (t.membership? team.id m.id).isSome = true) :
    (insertMembers team position (m :: ms)).effect t =
      if t.member? m.id = none then
        .error (explainCreate team (.server (.dangling ServerError.memberReference)))
      else
        (insertMembers team (position + 1) ms).effect
          (t.seat ⟨team.id, m.id, .ofNat position⟩) := by
  rw [insertMembers, effect_callWith, Tables.execute, if_neg habsent, Tables.insertMembership_eq,
    if_neg hteam]
  by_cases hmember : t.member? m.id = none
  · simp only [if_pos hmember]
    rfl
  · simp only [if_neg hmember]
    rfl

/-- Members who have no seat yet get one each, in order, if all of them are stored and there are enough
positions. -/
theorem effect_insertMembers {team : Team} (ms : List Member) (position : Nat)
    {seats : List Membership} (hteam : t.team? team.id ≠ none) (hseats : t.Seats team.id seats)
    (hlower : ∀ m ∈ seats, m.position.toInt < position)
    (henough : position + ms.length ≤ Tables.places)
    (hnodup : (seats.map Membership.member ++ ms.map Member.id).Nodup) :
    (∃ d more, (insertMembers team position ms).effect t = .ok d ∧
        t.Reseated d team.id (seats ++ more) ∧ more.map Membership.member = ms.map Member.id ∧
        ∀ m ∈ ms, t.member? m.id ≠ none) ∨
      ∃ x, (insertMembers team position ms).effect t = .error x ∧
        ∃ m ∈ ms, t.member? m.id = none := by
  induction ms generalizing t position seats with
  | nil =>
      refine .inl ⟨t, [], rfl, ?_, rfl, by simp⟩
      rw [List.append_nil]
      exact .refl hseats
  | cons m ms ih =>
      have habsent : ¬ (t.membership? team.id m.id).isSome = true := by
        rw [hseats.membership?_isSome]
        intro hmem
        rw [List.map_cons, List.nodup_append] at hnodup
        exact hnodup.2.2 m.id hmem m.id List.mem_cons_self rfl
      rw [effect_insertMembers_cons position ms hteam habsent]
      by_cases hmember : t.member? m.id = none
      · rw [if_pos hmember]
        exact .inr ⟨_, rfl, m, List.mem_cons_self, hmember⟩
      · rw [if_neg hmember]
        rw [List.length_cons] at henough
        have hposition : (Int32.ofNat position).toInt = position :=
          Tables.toInt_ofNat (by omega)
        have hseated := hseats.reseated_seat ⟨team.id, m.id, .ofNat position⟩ fun s hs =>
          Int32.lt_iff_toInt_lt.2 (hposition ▸ hlower s hs)
        have hthere : (t.seat ⟨team.id, m.id, .ofNat position⟩).team? team.id ≠ none := hteam
        have hhigher : ∀ s ∈ seats ++ [⟨team.id, m.id, .ofNat position⟩],
            s.position.toInt < ((position + 1 : Nat) : Int) := by
          intro s hs
          rcases List.mem_append.1 hs with hs | hs
          · have hlt := hlower s hs
            omega
          · rw [List.mem_singleton.1 hs, hposition]
            omega
        have hrest : ((seats ++ [(⟨team.id, m.id, .ofNat position⟩ : Membership)]).map
            Membership.member ++ ms.map Member.id).Nodup := by
          simpa using hnodup
        rcases ih (position + 1) hthere hseated.seats hhigher (by omega) hrest with
          ⟨d, more, hd, hreseated, hmore, hall⟩ | ⟨x, hx, k, hk, hmissing⟩
        · refine .inl ⟨d, ⟨team.id, m.id, .ofNat position⟩ :: more, hd, ?_, ?_, ?_⟩
          · rw [← List.append_cons] at hreseated
            exact hseated.trans hreseated
          · rw [List.map_cons, List.map_cons, hmore]
          · exact List.forall_mem_cons.2 ⟨hmember, hall⟩
        · exact .inr ⟨x, hx, k, List.mem_cons_of_mem m hk, hmissing⟩

/-- A team with a time that cannot be stored is refused by the database. -/
theorem effect_insertTeam_refused {team : Team} (htime : team.createdAt.isStorable = false) :
    (insertTeam team).effect t = .error (explainCreate team (.server .timeOutOfRange)) := by
  have hrefused := TeamRow.refusal?_ofTeam team
  rw [htime, if_neg Bool.false_ne_true] at hrefused
  rw [insertTeam, effect_callWith, Tables.execute, hrefused]

/-- A team whose name is free and whose members are stored is saved, and its members get the seats
of the team. -/
theorem effect_insertTeam {team : Team} (htime : team.createdAt.isStorable = true)
    (hnodup : team.memberIds.Nodup) (henough : team.members.length ≤ Tables.places) :
    ((t.teams.any fun r => r.id != team.id && r.name == team.name.text) = true ∧
        (insertTeam team).effect t = .error (.nameTaken team.name.text)) ∨
      (t.teams.any fun r => r.id != team.id && r.name == team.name.text) = false ∧
        ((∃ d seats, (insertTeam team).effect t = .ok d ∧
            (t.saveTeam (.ofTeam team)).Reseated d team.id seats ∧
            seats.map Membership.member = team.memberIds ∧
            ∀ id ∈ team.memberIds, t.member? id ≠ none) ∨
          ∃ x, (insertTeam team).effect t = .error x ∧
            ∃ id ∈ team.memberIds, t.member? id = none) := by
  have htaken : (TeamRow.ofTeam team).refusal? = none := by
    rw [TeamRow.refusal?_ofTeam, if_pos htime]
  cases hname : t.teams.any fun r => r.id != team.id && r.name == team.name.text with
  | true =>
      refine .inl ⟨rfl, ?_⟩
      have hsent : t.execute (.teamInsert (.ofTeam team)) =
          .error (.duplicate ServerError.teamNameKey) := by
        rw [Tables.execute, htaken]
        exact if_pos hname
      rw [insertTeam, effect_callWith, hsent]
      rfl
  | false =>
      refine .inr ⟨rfl, ?_⟩
      have hsent : t.execute (.teamInsert (.ofTeam team)) =
          .ok ((), t.saveTeam (.ofTeam team)) := by
        rw [Tables.execute, htaken]
        exact if_neg (by simp [TeamRow.ofTeam, hname])
      have hcleared : (t.saveTeam (.ofTeam team)).execute (.teamClear team.id) =
          .ok ((), (t.saveTeam (.ofTeam team)).clearTeam team.id) := rfl
      have heffect : (insertTeam team).effect t =
          (insertMembers team 0 team.members).effect
            ((t.saveTeam (.ofTeam team)).clearTeam team.id) := by
        rw [insertTeam, effect_callWith, hsent]
        exact effect_statement _ hcleared _
      have hreseated := (t.saveTeam (.ofTeam team)).reseated_clearTeam team.id
      have hthere : ((t.saveTeam (.ofTeam team)).clearTeam team.id).team? team.id ≠ none := by
        obtain ⟨time, hsaved⟩ := t.team?_saveTeam (.ofTeam team)
        have hfound := (hsaved team.id).trans (if_pos rfl)
        change (t.saveTeam (.ofTeam team)).team? team.id ≠ none
        rw [hfound]
        exact Option.some_ne_none _
      have hmembers (id : Ident) :
          ((t.saveTeam (.ofTeam team)).clearTeam team.id).member? id = t.member? id := by
        change (t.saveTeam (.ofTeam team)).members.find? _ = _
        rw [Tables.saveTeam_members]
        rfl
      rw [heffect]
      rcases effect_insertMembers team.members 0 hthere hreseated.seats (by simp) (by omega)
          hnodup with
        ⟨d, more, hd, hseated, hmore, hall⟩ | ⟨x, hx, m, hm, hmissing⟩
      · refine .inl ⟨d, more, hd, hreseated.trans (by simpa using hseated), hmore, ?_⟩
        intro id hid
        obtain ⟨m, hm, rfl⟩ := Team.mem_memberIds.1 hid
        rw [← hmembers]
        exact hall m hm
      · refine .inr ⟨x, hx, m.id, Team.mem_memberIds_of_mem hm, ?_⟩
        rw [← hmembers]
        exact hmissing

end Writes

end Query

/-- No edit lists anybody twice, or more than so many members. -/
def Edit.Seatable (n : Nat) : Edit → Prop
  | createTeam t => t.memberIds.Nodup ∧ t.members.length ≤ n
  | deleteTeam _ | addMember _ _ | removeMember _ _ | setStatus _ _ _ => True

theorem Edit.Seatable.mono {n k : Nat} {e : Edit} (h : e.Seatable n) (hle : n ≤ k) :
    e.Seatable k := by
  cases e with
  | createTeam t => exact ⟨h.1, h.2.trans hle⟩
  | deleteTeam _ | addMember _ _ | removeMember _ _ | setStatus _ _ _ => trivial

/-- There is room in the tables for what an edit writes: a position for a member who joins, and a
place in time for a team that is created. -/
def Edit.HasRoom (t : Tables) : Edit → Prop
  | createTeam new => new.createdAt.isStorable = true
  | addMember team _ => t.nextPosition? team ≠ none
  | deleteTeam _ | removeMember _ _ | setStatus _ _ _ => True

/-- There is no place in time for a team. -/
def Query.noTime : StorageError :=
  failure "Failed to create team" (.server .timeOutOfRange)

/-- There is no position for a member. -/
def Query.noPosition : StorageError :=
  failure "Failed to add team member" (.server .integerOutOfRange)

/-- How the database refuses an edit for which there is no room. -/
def Edit.refusal : Edit → StorageError
  | createTeam _ => Query.noTime
  | deleteTeam _ | addMember _ _ | removeMember _ _ | setStatus _ _ _ => Query.noPosition

/-- An edit alone. -/
theorem Query.effect_edits_singleton (e : Edit) (t : Tables) :
    (edits [e]).effect t = (edit e).effect t := by
  rw [edits, effect_bind]
  cases (edit e).effect t <;> rfl

/-- Where there is no room the database refuses an edit. -/
theorem Query.effect_edit_of_not_hasRoom {t : Tables} {e : Edit} (h : ¬ e.HasRoom t) :
    (edit e).effect t = .error e.refusal := by
  cases e with
  | createTeam new =>
      have htime : new.createdAt.isStorable = false := by simpa [Edit.HasRoom] using h
      exact effect_insertTeam_refused htime
  | addMember team member =>
      have hnone : t.nextPosition? team = none := by simpa [Edit.HasRoom] using h
      rw [edit, effect_appendMember, hnone]
      rfl
  | deleteTeam _ | removeMember _ _ | setStatus _ _ _ => exact absurd trivial h

/-- The members that an edit is about are stored, and so is the team that it takes a member from. -/
def Edit.Known (s : Store) : Edit → Prop
  | createTeam t => ∀ id ∈ t.memberIds, s.members.contains id = true
  | deleteTeam _ => True
  | addMember _ member => s.members.contains member = true
  | removeMember team _ => ∃ r, s.teams.find? team = some r
  | setStatus member _ _ => s.members.contains member = true

namespace Mirrors

open Failing

variable {t : Tables} {s : Store} {team member : Ident}

theorem createTeam (h : Mirrors t s) {new : Team} (hseats : (Edit.createTeam new).Seatable Tables.places)
    (hroom : (Edit.createTeam new).HasRoom t) :
    Together (Edit.Known s (.createTeam new)) Mirrors ((Query.insertTeam new).effect t)
      (s.apply (.createTeam new)) := by
  obtain ⟨hnodup, henough⟩ := hseats
  rcases Query.effect_insertTeam (t := t) hroom hnodup henough with
    ⟨htaken, heffect⟩ | ⟨hfree, ⟨d, seats, heffect, hreseated, hseats, hall⟩ |
      ⟨x, heffect, id, hid, hmissing⟩⟩
  · have hrefused : s.apply (.createTeam new) = .error (.nameTaken new.name.text) := by
      rw [← h.nameTaken_eq] at htaken
      simp [Store.apply, Store.single, Store.stageCreate_eq, htaken]
    rw [heffect, hrefused]
    exact .error fun _ => rfl
  · have hstored : ∀ id ∈ new.memberIds, s.members.contains id = true := by
      intro id hid
      rw [h.contains_eq, Option.isSome_iff_ne_none]
      exact hall id hid
    rw [heffect, Store.apply_createTeam_eq_ok.2 ⟨(h.nameTaken_eq new).trans hfree, hstored, rfl⟩]
    exact .ok (h.enter hreseated hseats hnodup hstored)
  · have hunknown : s.members.contains id = false := h.member?_eq_none.1 hmissing
    rw [heffect]
    cases happly : s.apply (.createTeam new) with
    | ok d =>
        obtain ⟨-, hstored, -⟩ := Store.apply_createTeam_eq_ok.1 happly
        rw [hstored id hid] at hunknown
        cases hunknown
    | error y =>
        refine .error fun hknown => ?_
        rw [hknown id hid] at hunknown
        cases hunknown

theorem team?_ne_none (h : Mirrors t s) {r : TeamRecord} (hr : s.teams.find? team = some r) :
    t.team? team ≠ none := by
  rw [Ne, h.team?_eq_none, hr]
  exact Option.some_ne_none r

theorem deleteTeam (h : Mirrors t s) (team : Ident) :
    Together True Mirrors ((Query.deleteTeam team).effect t) (s.apply (.deleteTeam team)) := by
  rw [Query.effect_deleteTeam]
  cases hr : s.teams.find? team with
  | none =>
      have hrefused : s.apply (.deleteTeam team) = .error (.notFound .team team) := by
        simp [Store.apply, Store.single, Store.stageDelete_eq, hr]
      rw [if_pos (h.team?_eq_none.2 hr), hrefused]
      exact .error fun _ => rfl
  | some r =>
      rw [if_neg (h.team?_ne_none hr), Store.apply_deleteTeam_eq_ok.2 ⟨by rw [hr]; rfl, rfl⟩]
      exact .ok (h.drop team)

/-- Who is on the list of a team already stays there, and keeps the seat. -/
theorem rejoin (h : Mirrors t s) {r : TeamRecord} (hr : s.teams.find? team = some r)
    (hmem : member ∈ r.memberIds) : Mirrors t (s.rewrite team (some (r.join member))) := by
  obtain ⟨seats, hseats, hlist⟩ := h.seats team
  have hjoined : (r.join member).memberIds = s.listOf team := by
    rw [Store.listOf_of_find? hr, TeamRecord.join, if_pos (List.contains_iff_mem.2 hmem)]
  refine h.rewrite (.refl hseats) hr rfl (hlist.trans hjoined.symm) ?_ ?_
  · rw [hjoined]
    exact h.once team
  · rw [hjoined]
    exact h.stored team

/-- A stored member who is not on the list of a team gets the seat after all others. -/
theorem join (h : Mirrors t s) {r : TeamRecord} (hr : s.teams.find? team = some r)
    (hnot : member ∉ r.memberIds) (hknown : s.members.contains member = true) {p : Int32}
    (hp : t.nextPosition? team = some p) :
    Mirrors (t.seat ⟨team, member, p⟩) (s.rewrite team (some (r.join member))) := by
  obtain ⟨seats, hseats, hlist⟩ := h.seats team
  have hids := Store.listOf_of_find? hr
  have hjoined : (r.join member).memberIds = s.listOf team ++ [member] := by
    rw [TeamRecord.join_of_not_mem hnot, TeamRecord.relist_memberIds, hids]
  have hseated := hseats.reseated_seat ⟨team, member, p⟩ fun m hm => hseats.position_lt hp hm
  refine h.rewrite hseated hr rfl ?_ ?_ ?_
  · rw [hjoined, List.map_append, hlist]
    rfl
  · rw [hjoined, hids]
    exact List.nodup_append_comm.1 (List.nodup_cons.2 ⟨hnot, hids ▸ h.once team⟩)
  · rw [hjoined]
    intro x hx
    rcases List.mem_append.1 hx with hx | hx
    · exact h.stored team x hx
    · exact List.mem_singleton.1 hx ▸ hknown

theorem addMember (h : Mirrors t s) {team member : Ident}
    (hroom : (Edit.addMember team member).HasRoom t) :
    Together (Edit.Known s (.addMember team member)) Mirrors
      ((Query.appendMember team member).effect t) (s.apply (.addMember team member)) := by
  obtain ⟨seats, hseats, hlist⟩ := h.seats team
  have hseated : (t.membership? team member).isSome = true ↔ member ∈ s.listOf team := by
    rw [hseats.membership?_isSome, hlist]
  obtain ⟨p, hp⟩ := Option.ne_none_iff_exists'.1 hroom
  rw [Query.effect_appendMember, hp]
  simp only
  by_cases hin : member ∈ s.listOf team
  · obtain ⟨r, hr, hmem⟩ := Store.exists_of_mem_listOf hin
    rw [if_pos (hseated.2 hin),
      Store.apply_addMember_eq_ok.2 ⟨h.stored team member hin, r, hr, rfl⟩]
    exact .ok (h.rejoin hr hmem)
  · rw [if_neg fun hseat => hin (hseated.1 hseat)]
    by_cases hunknown : s.members.contains member = false
    · have hrefused : s.apply (.addMember team member) = .error (.notFound .member member) := by
        simp [Store.apply, Store.single, Store.stageAdd_eq, hunknown]
      have hfails (x : StorageError) : Together (Edit.Known s (.addMember team member)) Mirrors
          (.error x) (s.apply (.addMember team member)) := by
        rw [hrefused]
        refine .error fun hknown => ?_
        rw [Edit.Known, hunknown] at hknown
        cases hknown
      rw [if_pos (h.member?_eq_none.2 hunknown)]
      split <;> exact hfails _
    · have hmember : t.member? member ≠ none := fun hnone => hunknown (h.member?_eq_none.1 hnone)
      have hknown : s.members.contains member = true := by simpa using hunknown
      cases hr : s.teams.find? team with
      | none =>
          have hrefused : s.apply (.addMember team member) = .error (.notFound .team team) := by
            simp [Store.apply, Store.single, Store.stageAdd_eq, hknown, hr]
          rw [if_pos (h.team?_eq_none.2 hr), hrefused]
          exact .error fun _ => rfl
      | some r =>
          rw [Store.listOf_of_find? hr] at hin
          rw [if_neg (h.team?_ne_none hr), if_neg hmember,
            Store.apply_addMember_eq_ok.2 ⟨hknown, r, hr, rfl⟩]
          exact .ok (h.join hr hin hknown hp)

theorem removeMember (h : Mirrors t s) (team member : Ident) :
    Together (Edit.Known s (.removeMember team member)) Mirrors
      ((Query.removeMember team member).effect t) (s.apply (.removeMember team member)) := by
  obtain ⟨seats, hseats, hlist⟩ := h.seats team
  rw [Query.effect_removeMember_of_seats hseats, hlist]
  by_cases hin : member ∈ s.listOf team
  · obtain ⟨r, hr, hmem⟩ := Store.exists_of_mem_listOf hin
    have hleft : (r.leave member).memberIds = (s.listOf team).erase member := by
      rw [Store.listOf_of_find? hr]
      rfl
    rw [if_pos hin, Store.apply_removeMember_eq_ok.2 ⟨r, hr, hmem, rfl⟩]
    refine .ok (h.rewrite (hseats.reseated_unseat member) hr rfl ?_ ?_ ?_)
    · rw [hleft, (h.once team).erase_eq_filter, ← hlist, List.filter_map]
      rfl
    · rw [hleft]
      exact (h.once team).erase member
    · rw [hleft]
      exact fun x hx => h.stored team x (List.mem_of_mem_erase hx)
  · rw [if_neg hin]
    cases hr : s.teams.find? team with
    | none =>
        have hrefused : s.apply (.removeMember team member) = .error (.notFound .team team) := by
          simp [Store.apply, Store.single, Store.stageRemove_eq, hr]
        rw [hrefused]
        refine .error fun hknown => ?_
        obtain ⟨r, hfound⟩ := hknown
        rw [hr] at hfound
        cases hfound
    | some r =>
        rw [Store.listOf_of_find? hr] at hin
        have hrefused : s.apply (.removeMember team member) =
            .error (.notFound .membership member) := by
          simp [Store.apply, Store.single, Store.stageRemove_eq, hr, hin]
        rw [hrefused]
        exact .error fun _ => rfl

theorem setStatus (h : Mirrors t s) (member : Ident) (before after : Status) :
    Together (Edit.Known s (.setStatus member before after)) Mirrors
      ((Query.edit (.setStatus member before after)).effect t)
      (s.apply (.setStatus member before after)) := by
  rw [Query.effect_setStatus]
  cases hm : s.members.find? member with
  | none =>
      have hunknown : s.members.contains member = false := by rw [Directory.contains, hm]; rfl
      have hnone :
          (t.updateStatus (fun r => r.id == member && r.status == before) after).1 = 0 := by
        rw [Tables.updateStatus_eq_zero h.memberKeys, h.member?_eq_none.2 hunknown]
        simp
      have hrefused : s.apply (.setStatus member before after) =
          .error (.notFound .member member) := by
        simp [Store.apply, Store.exchangeStatus, hm]
      rw [if_pos hnone, hrefused]
      refine .error fun hknown => ?_
      rw [Edit.Known, hunknown] at hknown
      cases hknown
  | some m =>
      have hrow := h.members member
      rw [hm, Option.map_some, Option.map_eq_some_iff] at hrow
      obtain ⟨r, hr, hview⟩ := hrow
      have hstatus : r.status = m.status := congrArg MemberView.status hview
      have hcount : (t.updateStatus (fun r => r.id == member && r.status == before) after).1 = 0 ↔
          m.status ≠ before := by
        rw [Tables.updateStatus_eq_zero h.memberKeys, hr, ← hstatus]
        simp
      by_cases hbefore : m.status = before
      · have hset := h.restate hm after
        rw [hbefore] at hset
        rw [if_neg (by simpa [hcount] using hbefore),
          Store.apply_setStatus_eq_ok.2 ⟨m, hm, hbefore, rfl⟩]
        exact .ok hset
      · have hrefused : s.apply (.setStatus member before after) =
            .error (.conflict .member member) := by
          simp [Store.apply, Store.exchangeStatus, hm, hbefore]
        rw [if_pos (hcount.2 hbefore), hrefused]
        exact .error fun _ => rfl

/-- Every edit for which there is room goes through on both sides, and the tables mirror the store again,
or it is refused on both sides. -/
theorem edit (h : Mirrors t s) {e : Edit} (he : e.Seatable Tables.places) (hroom : e.HasRoom t) :
    Together (e.Known s) Mirrors ((Query.edit e).effect t) (s.apply e) := by
  cases e with
  | createTeam new => exact h.createTeam he hroom
  | deleteTeam team => exact h.deleteTeam team
  | addMember team member => exact h.addMember hroom
  | removeMember team member => exact h.removeMember team member
  | setStatus member before after => exact h.setStatus member before after

end Mirrors

end TeamRoster
