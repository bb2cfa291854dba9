import TeamRoster.Proofs.Store.Roll
import TeamRoster.Proofs.Store.WellFormed

/-!
# Orderly stores

In an orderly store members are stored under their ids, teams are well-formed, and nobody is listed
twice. This is less than soundness: those who are listed need not be active, and nothing is said of
where ids came from. Main statements: `roll_applyAll` and `Orderly.commit`. Edits lengthen the roll
by those whom they put on lists at most, and shorten it by those whom they strike off at least,
whatever ids the teams have; a commit keeps the store orderly if nobody is listed twice after its
edits.
-/

namespace TeamRoster

open scoped List

/-- Whom an edit puts on a list. -/
def Edit.enlists : Edit → List Ident
  | createTeam t => t.memberIds
  | addMember _ member => [member]
  | deleteTeam _ | removeMember _ _ | setStatus _ _ _ => []

/-- Whom an edit strikes off a list. -/
def Edit.strikes : Edit → List Ident
  | removeMember _ member => [member]
  | createTeam _ | deleteTeam _ | addMember _ _ | setStatus _ _ _ => []

namespace Store

variable {s d : Store} {team : Ident}

/-- Members are stored under their ids, teams are well-formed, and nobody is listed twice. -/
structure Orderly (s : Store) : Prop where
  keyed : s.Keyed
  formed : s.WellFormed
  once : s.roll.Nodup

theorem orderly_empty : empty.Orderly where
  keyed id m hm := by cases hm
  formed := wellFormed_empty
  once := .nil

section Lists

theorem listOf_rewrite (s : Store) (team : Ident) (record : Option TeamRecord) (id : Ident) :
    (s.rewrite team record).listOf id =
      if id = team then (record.map TeamRecord.memberIds).getD [] else s.listOf id := by
  change (((s.rewrite team record).teams.find? id).map TeamRecord.memberIds).getD [] = _
  rw [find?_rewrite]
  split <;> rfl

theorem listOf_entered (s : Store) (t : Team) (id : Ident) :
    (s.publish (s.enter s.stage t)).listOf id = if id = t.id then t.memberIds else s.listOf id := by
  change (((s.publish (s.enter s.stage t)).teams.find? id).map TeamRecord.memberIds).getD [] = _
  rw [find?_entered]
  split <;> rfl

/-- Whoever is in a list is in that of some record. -/
theorem exists_of_mem_listOf {x : Ident} (h : x ∈ s.listOf team) :
    ∃ r, s.teams.find? team = some r ∧ x ∈ r.memberIds := by
  cases hr : s.teams.find? team with
  | none =>
      rw [listOf_of_find?_none hr] at h
      cases h
  | some r => exact ⟨r, rfl, listOf_of_find? hr ▸ h⟩

end Lists

section Roll

/-- Where one list has changed, the roll has changed by that. -/
theorem roll_exchange_one (team : Ident) (hkept : ∀ id, id ≠ team → d.listOf id = s.listOf id) :
    (d.roll + s.listOf team : Multiset Ident) = s.roll + d.listOf team := by
  have hexchange := roll_exchange (s := s) (d := d) (List.nodup_singleton team) fun id hid =>
    hkept id (by simpa using hid)
  simpa using Multiset.coe_eq_coe.2 hexchange

theorem roll_rewrite (s : Store) (team : Ident) (record : Option TeamRecord) :
    ((s.rewrite team record).roll + s.listOf team : Multiset Ident) =
      s.roll + ((record.map TeamRecord.memberIds).getD [] : List Ident) := by
  have hlist := s.listOf_rewrite team record
  rw [roll_exchange_one team fun id hid => (hlist id).trans (if_neg hid), hlist, if_pos rfl]

/-- The roll grows by those who are put on a list at most, and loses those who are struck off. -/
theorem roll_apply {e : Edit} (happly : s.apply e = .ok d) :
    (d.roll + e.strikes : Multiset Ident) ≤ s.roll + e.enlists := by
  cases e with
  | createTeam t =>
      obtain ⟨-, -, rfl⟩ := apply_createTeam_eq_ok.1 happly
      have hlist := s.listOf_entered t
      have hroll := roll_exchange_one t.id fun id hid => (hlist id).trans (if_neg hid)
      rw [hlist, if_pos rfl] at hroll
      exact (Multiset.add_le_add_left (Multiset.zero_le _)).trans_eq hroll
  | deleteTeam team =>
      obtain ⟨-, rfl⟩ := apply_deleteTeam_eq_ok.1 happly
      exact (Multiset.add_le_add_left (Multiset.zero_le _)).trans_eq (s.roll_rewrite team none)
  | addMember team member =>
      obtain ⟨-, r, hr, rfl⟩ := apply_addMember_eq_ok.1 happly
      have hjoined : ((r.join member).memberIds : Multiset Ident) ≤ s.listOf team + [member] := by
        rw [listOf_of_find? hr, TeamRecord.join]
        split
        · exact Multiset.le_add_right _ _
        · exact le_of_eq (Multiset.coe_add _ _).symm
      refine Multiset.le_of_add_le_add_right (u := (s.listOf team : Multiset Ident)) ?_
      calc
        ((s.rewrite team (some (r.join member))).roll + 0 + s.listOf team : Multiset Ident) =
            s.roll + (r.join member).memberIds := by
              rw [add_zero]
              exact s.roll_rewrite team (some (r.join member))
        _ ≤ s.roll + (s.listOf team + [member]) := Multiset.add_le_add_left hjoined
        _ = s.roll + [member] + s.listOf team := by
              rw [add_assoc, add_comm (s.listOf team : Multiset Ident)]
  | removeMember team member =>
      obtain ⟨r, hr, hmem, rfl⟩ := apply_removeMember_eq_ok.1 happly
      have hleft : (s.listOf team : Multiset Ident) = [member] + (r.leave member).memberIds := by
        rw [listOf_of_find? hr]
        exact Multiset.coe_eq_coe.2 (List.perm_cons_erase hmem)
      refine le_of_eq (add_right_cancel (b := ((r.leave member).memberIds : Multiset Ident)) ?_)
      calc
        ((s.rewrite team (some (r.leave member))).roll + [member] + (r.leave member).memberIds :
            Multiset Ident) = (s.rewrite team (some (r.leave member))).roll + s.listOf team := by
              rw [hleft, add_assoc]
        _ = s.roll + (r.leave member).memberIds := s.roll_rewrite team (some (r.leave member))
        _ = s.roll + 0 + (r.leave member).memberIds := by rw [add_zero]
  | setStatus member before after =>
      obtain ⟨m, -, -, rfl⟩ := apply_setStatus_eq_ok.1 happly
      exact le_refl _

/-- The same of edits, one after the other. -/
theorem roll_applyAll {es : List Edit} (happly : s.applyAll es = .ok d) :
    (d.roll + es.flatMap Edit.strikes : Multiset Ident) ≤ s.roll + es.flatMap Edit.enlists := by
  induction es generalizing s with
  | nil =>
      cases happly
      exact le_refl _
  | cons e es ih =>
      obtain ⟨mid, hmid, hrest⟩ := Failing.bind_eq_ok.1 happly
      rw [List.flatMap_cons, List.flatMap_cons, ← Multiset.coe_add, ← Multiset.coe_add]
      calc
        (d.roll + (e.strikes + es.flatMap Edit.strikes) : Multiset Ident) =
            d.roll + es.flatMap Edit.strikes + e.strikes := by
              rw [add_assoc, add_comm (e.strikes : Multiset Ident)]
        _ ≤ mid.roll + es.flatMap Edit.enlists + e.strikes := Multiset.add_le_add_right (ih hrest)
        _ = mid.roll + e.strikes + es.flatMap Edit.enlists := add_right_comm _ _ _
        _ ≤ s.roll + e.enlists + es.flatMap Edit.enlists :=
            Multiset.add_le_add_right (roll_apply hmid)
        _ = s.roll + (e.enlists + es.flatMap Edit.enlists) := add_assoc _ _ _

/-- Nobody is listed twice after edits that put some on lists in place of those whom they strike
off, and others who are not listed and different. -/
theorem nodup_roll_applyAll {es : List Edit} {joined : List Ident} (happly : s.applyAll es = .ok d)
    (hmoves : es.flatMap Edit.enlists ~ es.flatMap Edit.strikes ++ joined)
    (hnodup : (s.roll ++ joined).Nodup) : d.roll.Nodup := by
  have hbalance : (d.roll + es.flatMap Edit.strikes : Multiset Ident) ≤
      (s.roll ++ joined : List Ident) + es.flatMap Edit.strikes :=
    calc
      (d.roll + es.flatMap Edit.strikes : Multiset Ident) ≤ s.roll + es.flatMap Edit.enlists :=
        roll_applyAll happly
      _ = s.roll + (es.flatMap Edit.strikes + joined) := by
        rw [Multiset.coe_eq_coe.2 hmoves, ← Multiset.coe_add]
      _ = (s.roll ++ joined : List Ident) + es.flatMap Edit.strikes := by
        rw [← Multiset.coe_add, add_assoc, add_comm (joined : Multiset Ident)]
  have hless := Multiset.le_of_add_le_add_right hbalance
  exact Multiset.coe_nodup.1 (Multiset.nodup_of_le hless hnodup)

end Roll

section Keys

/-- Edits keep members under their ids. -/
theorem Keyed.apply (h : s.Keyed) {e : Edit} (happly : s.apply e = .ok d) : d.Keyed := by
  cases e with
  | setStatus member before after =>
      obtain ⟨m, hm, -, rfl⟩ := apply_setStatus_eq_ok.1 happly
      intro id x hx
      change (s.members.insert member { m with status := after }).find? id = some x at hx
      rw [Directory.find?_insert] at hx
      split at hx
      · cases hx
        rw [‹id = member›]
        exact h member m hm
      · exact h id x hx
  | createTeam t | deleteTeam team | addMember team member | removeMember team member =>
      intro id x hx
      rw [apply_members rfl happly] at hx
      exact h id x hx

theorem Keyed.applyAll (h : s.Keyed) {es : List Edit} (happly : s.applyAll es = .ok d) :
    d.Keyed := by
  induction es generalizing s with
  | nil =>
      cases happly
      exact h
  | cons e es ih =>
      obtain ⟨mid, hmid, hrest⟩ := Failing.bind_eq_ok.1 happly
      exact ih (h.apply hmid) hrest

end Keys

namespace Orderly

/-- A member who is saved is listed nowhere because of that. -/
theorem saveMember (h : s.Orderly) (m : Member) : (s.saveMember m).Orderly where
  keyed id x hx := by
    change (s.members.insert m.id m).find? id = some x at hx
    rw [Directory.find?_insert] at hx
    split at hx
    · cases hx
      exact ‹id = m.id›.symm
    · exact h.keyed id x hx
  formed := (h.formed.request (.saveMember m)).1
  once := h.once

/-- A write of its own keeps the store orderly if nobody is listed twice after it. -/
theorem written (h : s.Orderly) (e : Edit) (honce : ∀ d, s.apply e = .ok d → d.roll.Nodup) :
    (s.written (s.apply e)).2.Orderly := by
  have hformed := (h.formed.write e).1
  cases happly : s.apply e with
  | ok d =>
      rw [happly] at hformed
      exact ⟨h.keyed.apply happly, hformed, honce d happly⟩
  | error failure => exact h

/-- A commit keeps the store orderly if nobody is listed twice after its edits. -/
theorem commit (h : s.Orderly) {c : ChangeSet}
    (honce : ∀ d, s.applyAll c.edits = .ok d → d.roll.Nodup) : (s.commit c).2.Orderly := by
  have hformed := (h.formed.commit c).1
  cases hreply : (s.commit c).1 with
  | ok done =>
      obtain ⟨d, hserial⟩ := commit_eq_ok_iff.1 hreply
      have happly := (serial_eq_ok.1 hserial).2
      have hagrees := commit_agrees hserial
      refine ⟨fun id m hm => ?_, hformed, (roll_congr hagrees.teams).nodup_iff.2 (honce d happly)⟩
      exact h.keyed.applyAll happly id m (hagrees.members id ▸ hm)
  | error failure =>
      obtain ⟨hteams, hmembers⟩ := commit_unchanged hreply
      refine ⟨fun id m hm => h.keyed id m (hmembers ▸ hm), hformed, ?_⟩
      exact (roll_congr fun id => by rw [hteams]).nodup_iff.2 h.once

end Orderly

end Store

end TeamRoster
