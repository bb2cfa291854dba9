import TeamRoster.Proofs.Tables.Commits

/-!
# The order of teams in tables

Tables list teams by the times of their creation. As long as each team that comes in was created
after all that are there, this is the order in which they came in: an edit changes it as it changes
the order of the teams in a store (`Edit.arrive`). Main statements: `Tables.Lists.edit`, and
`Tables.Lists.edits` for edits one after the other.
-/

namespace TeamRoster

open Failing

/-- The team that an edit creates, if it creates one. -/
def Edit.created? : Edit → Option Team
  | createTeam t => some t
  | deleteTeam _ | addMember _ _ | removeMember _ _ | setStatus _ _ _ => none

namespace Tables

variable {t d : Tables} {ids : List Ident} {row : TeamRow}

/-- The rows of the teams after an edit. -/
def teamsAfter (t : Tables) : Edit → List TeamRow
  | .createTeam new => (t.saveTeam (.ofTeam new)).teams
  | .deleteTeam team => (t.dropTeam team).teams
  | .addMember _ _ | .removeMember _ _ | .setStatus _ _ _ => t.teams

/-- These are the ids of the teams, all different, in the order of their creation. -/
structure Lists (t : Tables) (ids : List Ident) : Prop where
  ranked : ∃ rows, t.Ranks rows ∧ rows.map TeamRow.id = ids
  keys : (t.teams.map TeamRow.id).Nodup

theorem lists_empty : empty.Lists [] where
  ranked := ⟨[], ⟨.nil, .nil⟩, rfl⟩
  keys := .nil

/-- Where no team was created at a time like this, one may be created then. -/
theorem createdAt_saveTeam {r : TeamRow} (h : r ∈ (t.saveTeam row).teams) :
    (∃ q ∈ t.teams, r.createdAt = q.createdAt) ∨ r.createdAt = row.createdAt.toMicros := by
  unfold saveTeam at h
  split at h
  · obtain ⟨q, hq, rfl⟩ := List.mem_map.1 h
    refine .inl ⟨q, hq, ?_⟩
    split <;> rfl
  · rcases List.mem_append.1 h with h | h
    · exact .inl ⟨r, h, rfl⟩
    · rw [List.mem_singleton.1 h]
      exact .inr rfl

namespace Lists

theorem mem_iff (h : t.Lists ids) {id : Ident} : id ∈ ids ↔ t.team? id ≠ none := by
  obtain ⟨⟨rows, hranks, rfl⟩, -⟩ := h
  rw [(hranks.perm.map TeamRow.id).mem_iff, Ne, team?, List.find?_eq_none]
  simp

theorem nodup (h : t.Lists ids) : ids.Nodup := by
  obtain ⟨⟨rows, hranks, rfl⟩, hkeys⟩ := h
  exact (hranks.perm.map TeamRow.id).nodup_iff.2 hkeys

/-- The order of the teams is a matter of their rows. -/
theorem congr (h : t.Lists ids) (hrows : d.teams = t.teams) : d.Lists ids := by
  obtain ⟨⟨rows, hranks, hids⟩, hkeys⟩ := h
  exact ⟨⟨rows, ⟨hrows ▸ hranks.perm, hranks.rising⟩, hids⟩, hrows ▸ hkeys⟩

/-- A team that is saved comes last if it is a new one, and else stays where it is. -/
theorem save (h : t.Lists ids) (hlater : ∀ r ∈ t.teams, r.createdAt.Before row.createdAt.toMicros)
    (hrows : d.teams = (t.saveTeam row).teams) :
    d.Lists (if row.id ∈ ids then ids else ids ++ [row.id]) := by
  have hkeys : (d.teams.map TeamRow.id).Nodup := hrows ▸ nodup_saveTeam h.keys row
  have hmem : row.id ∈ ids ↔ t.team? row.id ≠ none := h.mem_iff
  obtain ⟨rows, hranks, rfl⟩ := h.ranked
  refine ⟨?_, hkeys⟩
  unfold saveTeam at hrows
  cases hr : t.team? row.id with
  | some r =>
      rw [hr] at hrows hmem
      rw [if_pos (hmem.2 (Option.some_ne_none r))]
      refine ⟨_, hranks.change (fun q => ?_) hrows, ?_⟩
      · split <;> rfl
      · exact map_map_key (key_replace TeamRow.id row.id
          (f := fun q => { q with name := row.name }) fun _ hq => hq) rows
  | none =>
      rw [hr] at hrows hmem
      rw [if_neg fun hin => hmem.1 hin rfl]
      exact ⟨_, hranks.enter hlater hrows, by simp⟩

/-- A team that is dropped is missing. -/
theorem drop (h : t.Lists ids) {team : Ident} (hrows : d.teams = (t.dropTeam team).teams) :
    d.Lists (ids.erase team) := by
  have hkeys : (d.teams.map TeamRow.id).Nodup := hrows ▸ nodup_dropTeam h.keys team
  have hnodup := h.nodup
  obtain ⟨rows, hranks, rfl⟩ := h.ranked
  refine ⟨⟨_, hranks.drop hrows, ?_⟩, hkeys⟩
  rw [hnodup.erase_eq_filter, List.filter_map]
  rfl

end Lists

end Tables

namespace Query

variable {t d : Tables}

theorem teams_of_insertMembers {team : Team} {position : Nat} {ms : List Member}
    (h : (insertMembers team position ms).effect t = .ok d) : d.teams = t.teams := by
  induction ms generalizing t position with
  | nil =>
      cases h
      rfl
  | cons m ms ih =>
      obtain ⟨done, mid, hsent, hrest⟩ := (effect_callWith_eq_ok t).1 h
      exact (ih hrest).trans (Tables.rows_of_membershipInsert hsent).2

theorem teams_of_insertTeam {team : Team} (h : (insertTeam team).effect t = .ok d) :
    d.teams = (t.saveTeam (.ofTeam team)).teams := by
  obtain ⟨done, saved, hsaved, hrest⟩ := (effect_callWith_eq_ok t).1 h
  obtain ⟨-, -, rfl⟩ := Tables.execute_teamInsert_eq_ok.1 hsaved
  have hcleared : (t.saveTeam (.ofTeam team)).execute (.teamClear team.id) =
      .ok ((), (t.saveTeam (.ofTeam team)).clearTeam team.id) := rfl
  rw [effect_statement _ hcleared] at hrest
  have hteams := teams_of_insertMembers hrest
  exact hteams

/-- What an edit makes of the rows of the teams. -/
theorem teams_of_edit {e : Edit} (h : (edit e).effect t = .ok d) : d.teams = t.teamsAfter e := by
  cases e with
  | createTeam new => exact teams_of_insertTeam h
  | deleteTeam team =>
      rw [edit, effect_deleteTeam] at h
      split at h <;> cases h
      rfl
  | addMember team member =>
      exact (Tables.rows_of_membershipAppend (execute_of_effect_appendMember h)).2
  | removeMember team member =>
      obtain rfl := eq_unseat_of_effect h
      rfl
  | setStatus member before after =>
      rw [effect_setStatus] at h
      split at h <;> cases h
      rfl

end Query

namespace Tables

variable {t d : Tables} {ids : List Ident}

/-- An edit changes the order of the teams as it does by itself, if the team that it creates comes
later than all others. -/
theorem Lists.edit (h : t.Lists ids) {e : Edit} (heffect : (Query.edit e).effect t = .ok d)
    (hlater : ∀ new ∈ e.created?, ∀ r ∈ t.teams, r.createdAt.Before new.createdAt.toMicros) :
    d.Lists (e.arrive ids) := by
  have hrows := Query.teams_of_edit heffect
  cases e with
  | createTeam new =>
      have hnew : ∀ r ∈ t.teams, r.createdAt.Before (TeamRow.ofTeam new).createdAt.toMicros :=
        hlater new rfl
      exact h.save hnew hrows
  | deleteTeam team => exact h.drop hrows
  | addMember team member => exact h.congr hrows
  | removeMember team member => exact h.congr hrows
  | setStatus member before after => exact h.congr hrows

/-- A team that is there after an edit was created when one was that was there before, or by the
edit. -/
theorem createdAt_edit {e : Edit} (heffect : (Query.edit e).effect t = .ok d) {r : TeamRow}
    (hr : r ∈ d.teams) :
    (∃ q ∈ t.teams, r.createdAt = q.createdAt) ∨
      ∃ new ∈ e.created?, r.createdAt = new.createdAt.toMicros := by
  rw [Query.teams_of_edit heffect] at hr
  cases e with
  | createTeam new => exact (createdAt_saveTeam hr).imp_right fun hnew => ⟨new, rfl, hnew⟩
  | deleteTeam team => exact .inl ⟨r, List.mem_of_mem_filter hr, rfl⟩
  | addMember team member => exact .inl ⟨r, hr, rfl⟩
  | removeMember team member => exact .inl ⟨r, hr, rfl⟩
  | setStatus member before after => exact .inl ⟨r, hr, rfl⟩

/-- Edits, one after the other, whose teams come later than all others and one after the other. -/
theorem Lists.edits (h : t.Lists ids) {es : List Edit} (heffect : (Query.edits es).effect t = .ok d)
    (hlater : ∀ new ∈ es.filterMap Edit.created?,
      ∀ r ∈ t.teams, r.createdAt.Before new.createdAt.toMicros)
    (hrising : (es.filterMap Edit.created?).Pairwise fun a b =>
      a.createdAt.toMicros.Before b.createdAt.toMicros) :
    d.Lists (es.foldl Edit.arrive ids) ∧ ∀ r ∈ d.teams,
      (∃ q ∈ t.teams, r.createdAt = q.createdAt) ∨
        ∃ new ∈ es.filterMap Edit.created?, r.createdAt = new.createdAt.toMicros := by
  induction es generalizing t ids with
  | nil =>
      cases heffect
      exact ⟨h, fun r hr => .inl ⟨r, hr, rfl⟩⟩
  | cons e es ih =>
      rw [Query.edits, Query.effect_bind, bind_eq_ok] at heffect
      obtain ⟨mid, hmid, hrest⟩ := heffect
      have hcreated (new : Team) : new ∈ (e :: es).filterMap Edit.created? ↔
          new ∈ e.created? ∨ new ∈ es.filterMap Edit.created? := by
        cases hnew : e.created? <;> simp [hnew, eq_comm]
      have hnext : ∀ new ∈ es.filterMap Edit.created?,
          ∀ r ∈ mid.teams, r.createdAt.Before new.createdAt.toMicros := by
        intro new hnew r hr
        rcases createdAt_edit hmid hr with ⟨q, hq, heq⟩ | ⟨first, hfirst, heq⟩
        · rw [heq]
          exact hlater new ((hcreated new).2 (.inr hnew)) q hq
        · rw [Option.mem_def] at hfirst
          rw [List.filterMap_cons, hfirst, List.pairwise_cons] at hrising
          rw [heq]
          exact hrising.1 new hnew
      have hrising' : (es.filterMap Edit.created?).Pairwise fun a b =>
          a.createdAt.toMicros.Before b.createdAt.toMicros := by
        refine hrising.sublist ?_
        rw [List.filterMap_cons]
        split
        · exact List.Sublist.refl _
        · exact List.sublist_cons_self _ _
      have hedited := h.edit hmid fun new hnew => hlater new ((hcreated new).2 (.inl hnew))
      obtain ⟨hlists, htimes⟩ := ih hedited hrest hnext hrising'
      refine ⟨hlists, fun r hr => ?_⟩
      rcases htimes r hr with ⟨q, hq, heq⟩ | ⟨new, hnew, heq⟩
      · rcases createdAt_edit hmid hq with ⟨p, hp, heq'⟩ | ⟨new, hnew, heq'⟩
        · exact .inl ⟨p, hp, heq.trans heq'⟩
        · exact .inr ⟨new, (hcreated new).2 (.inl hnew), heq.trans heq'⟩
      · exact .inr ⟨new, (hcreated new).2 (.inr hnew), heq⟩

end Tables

end TeamRoster
