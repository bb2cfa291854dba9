import TeamRoster.Proofs.Store.Commit
import TeamRoster.Proofs.Tables.Room

/-!
# Commits on both sides

A change set for whose edits there is room in the tables is committed to them exactly if it is committed
to the store that they mirror, and otherwise neither changes. Main statement: `Mirrors.commit`. The tables
are checked against the expectations in another order than the store, so the failure may be another one;
it is the same where all expectations are met and nothing is missing that the edits are about
(`ChangeSet.Fits`). Where there is no room, the database refuses a change set whose expectations are met
(`Query.atomically_change_of_not_hasRoom`).
-/

namespace TeamRoster

open Failing

/-- The first edit does not drop the team from which the second one takes a member. -/
def Edit.Spares (e f : Edit) : Prop :=
  ∀ team member, f = .removeMember team member → e ≠ .deleteTeam team

namespace Store

variable {s d : Store}

/-- Nothing is missing that the edits are about, when it is their turn. -/
def Knows (s : Store) : List Edit → Prop
  | [] => True
  | e :: es => e.Known s ∧ ∀ d, s.apply e = .ok d → d.Knows es

/-- No edit takes away a member. -/
theorem contains_apply {e : Edit} (happly : s.apply e = .ok d) {id : Ident}
    (h : s.members.contains id = true) : d.members.contains id = true := by
  cases e with
  | setStatus member before after =>
      obtain ⟨m, -, -, rfl⟩ := apply_setStatus_eq_ok.1 happly
      exact Directory.contains_insert h
  | createTeam t | deleteTeam team | addMember team member | removeMember team member =>
      rw [apply_members rfl happly]
      exact h

/-- No edit takes away a team that it does not delete. -/
theorem exists_team_apply {e : Edit} (happly : s.apply e = .ok d) {id : Ident}
    (hkept : e ≠ .deleteTeam id) (h : ∃ r, s.teams.find? id = some r) :
    ∃ r, d.teams.find? id = some r := by
  have hrewrite (team : Ident) (q : TeamRecord) :
      ∃ r, (s.rewrite team (some q)).teams.find? id = some r := by
    rw [find?_rewrite]
    split
    · exact ⟨q, rfl⟩
    · exact h
  cases e with
  | createTeam t =>
      obtain ⟨-, -, rfl⟩ := apply_createTeam_eq_ok.1 happly
      rw [find?_entered]
      split
      · exact ⟨_, rfl⟩
      · exact h
  | deleteTeam team =>
      obtain ⟨-, rfl⟩ := apply_deleteTeam_eq_ok.1 happly
      have hother : id ≠ team := fun heq => hkept (congrArg Edit.deleteTeam heq.symm)
      rw [find?_rewrite, if_neg hother]
      exact h
  | addMember team member =>
      obtain ⟨-, r, -, rfl⟩ := apply_addMember_eq_ok.1 happly
      exact hrewrite team _
  | removeMember team member =>
      obtain ⟨r, -, -, rfl⟩ := apply_removeMember_eq_ok.1 happly
      exact hrewrite team _
  | setStatus member before after =>
      obtain ⟨m, -, -, rfl⟩ := apply_setStatus_eq_ok.1 happly
      exact h

end Store

/-- What an edit is about is still there after another one that spares it. -/
theorem Edit.Known.apply {s d : Store} {e f : Edit} (h : f.Known s) (hspares : e.Spares f)
    (happly : s.apply e = .ok d) : f.Known d := by
  cases f with
  | createTeam t => exact fun id hid => Store.contains_apply happly (h id hid)
  | deleteTeam team => trivial
  | addMember team member => exact Store.contains_apply happly h
  | removeMember team member =>
      exact Store.exists_team_apply happly (hspares team member rfl) h
  | setStatus member before after => exact Store.contains_apply happly h

/-- Nothing will be missing that is not missing yet, where the edits spare one another. -/
theorem Store.knows_of_known {s : Store} {es : List Edit} (h : ∀ e ∈ es, e.Known s)
    (hspares : es.Pairwise Edit.Spares) : s.Knows es := by
  induction es generalizing s with
  | nil => trivial
  | cons e es ih =>
      rw [List.forall_mem_cons] at h
      rw [List.pairwise_cons] at hspares
      refine ⟨h.1, fun d happly => ih (fun f hf => ?_) hspares.2⟩
      exact (h.2 f hf).apply (hspares.1 f hf) happly

/-- The change set expects what is stored, and nothing is missing that its edits are about. -/
structure ChangeSet.Fits (c : ChangeSet) (s : Store) : Prop where
  meets (e : Ident × List Ident) : e ∈ c.expectations → s.Meets e
  knows : s.Knows c.edits

namespace Query

variable {t : Tables} {s : Store}

/-- A team is checked on tables as it is on the store that they mirror. -/
theorem effect_checkExpectation (h : Mirrors t s) (e : Ident × List Ident) :
    (checkExpectation e).effect t =
      if s.Meets e then .ok t else .error (.conflict .team e.1) := by
  have hlocked : t.execute (.teamLock e.1) = .ok ((t.team? e.1).map TeamRow.id, t) := rfl
  have hread : t.execute (.memberIds e.1) =
      .ok ((t.membershipsOf e.1).map Membership.member, t) := rfl
  rw [checkExpectation, effect_statement t hlocked]
  cases hr : s.teams.find? e.1 with
  | none =>
      have hunmet : ¬ s.Meets e := by simp [Store.Meets, hr]
      rw [h.team?_eq_none.2 hr, if_neg hunmet]
      rfl
  | some r =>
      have hmeets : s.Meets e ↔ r.memberIds = e.2 := by simp [Store.Meets, hr]
      obtain ⟨seats, hseats, hlist⟩ := h.seats e.1
      have hids : (t.membershipsOf e.1).map Membership.member = r.memberIds := by
        rw [hseats.membershipsOf_eq, hlist, Store.listOf_of_find? hr]
      cases hrow : t.team? e.1 with
      | none =>
          rw [h.team?_eq_none, hr] at hrow
          cases hrow
      | some row =>
          simp only [Option.map_some]
          rw [effect_statement t hread, hids]
          by_cases heq : r.memberIds = e.2
          · simp [heq, hmeets]
          · simp [heq, hmeets]

theorem effect_checkExpectations (h : Mirrors t s) (es : List (Ident × List Ident)) :
    (checkExpectations es).effect t =
      match es.find? fun e => !decide (s.Meets e) with
      | some e => .error (.conflict .team e.1)
      | none => .ok t := by
  induction es with
  | nil => rfl
  | cons e es ih =>
      rw [checkExpectations, effect_bind, effect_checkExpectation h]
      by_cases he : s.Meets e
      · simpa [he] using ih
      · simp [he]

/-- Expectations that are met are passed over. -/
theorem effect_change_of_meets (h : Mirrors t s) {c : ChangeSet}
    (hmeets : ∀ e ∈ c.expectations, s.Meets e) :
    (change c).effect t = (edits c.edits).effect t := by
  have hmet : (lockOrder c.expectations).find? (fun e => !decide (s.Meets e)) = none := by
    refine List.find?_eq_none.2 fun e he => ?_
    simpa using hmeets e (List.mem_mergeSort.1 he)
  rw [change, effect_bind, effect_checkExpectations h, hmet]
  rfl

/-- A change set goes through only if its expectations are met. -/
theorem meets_of_effect_change (h : Mirrors t s) {c : ChangeSet} {d : Tables}
    (hd : (change c).effect t = .ok d) : ∀ e ∈ c.expectations, s.Meets e := by
  rw [change, effect_bind, effect_checkExpectations h] at hd
  split at hd
  · cases hd
  · rename_i hmet
    intro e he
    simpa using List.find?_eq_none.1 hmet e (List.mem_mergeSort.2 he)

/-- A change set that goes through makes its edits. -/
theorem effect_edits_of_change (h : Mirrors t s) {c : ChangeSet} {d : Tables}
    (hd : (change c).effect t = .ok d) : (edits c.edits).effect t = .ok d := by
  rw [← effect_change_of_meets h (meets_of_effect_change h hd)]
  exact hd

/-- A change set for which there is no room is refused by the database, and the tables are as before. -/
theorem atomically_change_of_not_hasRoom (h : Mirrors t s) {c : ChangeSet}
    (hmeets : ∀ e ∈ c.expectations, s.Meets e) (hroom : ¬ t.HasRoom c.edits) :
    ∃ e ∈ c.edits, (∃ d, ¬ e.HasRoom d) ∧ (change c).atomically t = (.error e.refusal, t) := by
  obtain ⟨e, he, hnone, hrefused⟩ := effect_edits_of_not_hasRoom hroom
  refine ⟨e, he, hnone, ?_⟩
  rw [atomically_eq, effect_change_of_meets h hmeets, hrefused]

/-- Only a change set for which there is room goes through. -/
theorem hasRoom_of_effect_change (h : Mirrors t s) {c : ChangeSet} {d : Tables}
    (hd : (change c).effect t = .ok d) : t.HasRoom c.edits := by
  by_contra hroom
  obtain ⟨e, -, -, hrefused⟩ := effect_edits_of_not_hasRoom hroom
  rw [effect_edits_of_change h hd] at hrefused
  cases hrefused

end Query

namespace Mirrors

variable {t : Tables} {s : Store}

/-- Edits, one after the other: they all go through on both sides, or one is refused on both. -/
theorem edits (h : Mirrors t s) {es : List Edit} (hes : ∀ e ∈ es, e.Seatable Tables.places)
    (hroom : t.HasRoom es) :
    Together (s.Knows es) Mirrors ((Query.edits es).effect t) (s.applyAll es) := by
  induction es generalizing t s with
  | nil => exact .ok h
  | cons e es ih =>
      rw [List.forall_mem_cons] at hes
      obtain ⟨hfirst, hrest⟩ := hroom
      have hedit := (h.edit hes.1 hfirst).mono fun hknows : s.Knows (e :: es) => hknows.1
      rw [Query.edits, Query.effect_bind, Store.applyAll_cons]
      generalize (Query.edit e).effect t = outcome at hedit hrest
      generalize happly : s.apply e = applied at hedit
      cases hedit with
      | error same => exact .error same
      | ok related => exact (ih related hes.2 (hrest _ rfl)).mono fun hknows => hknows.2 _ happly

/-- The plain form of a commit has the same effect on both sides. -/
theorem serial (h : Mirrors t s) {c : ChangeSet} (hc : ∀ e ∈ c.edits, e.Seatable Tables.places)
    (hroom : t.HasRoom c.edits) :
    Together (c.Fits s) Mirrors ((Query.change c).effect t) (s.serial c) := by
  have hperm (e : Ident × List Ident) :
      e ∈ Query.lockOrder c.expectations ↔ e ∈ c.expectations := List.mem_mergeSort
  rw [Query.change, Query.effect_bind, Query.effect_checkExpectations h, Store.serial]
  cases hunmet : c.expectations.find? fun e => !decide (s.Meets e) with
  | none =>
      have hall : (Query.lockOrder c.expectations).find? (fun e => !decide (s.Meets e)) = none := by
        simp only [List.find?_eq_none, hperm] at hunmet ⊢
        exact hunmet
      rw [hall]
      exact (h.edits hc hroom).mono fun hfits => hfits.knows
  | some e =>
      have hmem := List.mem_of_find?_eq_some hunmet
      have he : ¬ s.Meets e := by simpa using List.find?_some hunmet
      cases hlocked : (Query.lockOrder c.expectations).find? fun e => !decide (s.Meets e) with
      | none =>
          rw [List.find?_eq_none] at hlocked
          exact absurd (by simpa using he) (hlocked e ((hperm e).2 hmem))
      | some other => exact .error fun hfits => absurd (hfits.meets e hmem) he

/-- A change set is committed on both sides or on neither; the tables mirror the store again, and
tables to which nothing was committed are as before. -/
theorem commit (h : Mirrors t s) {c : ChangeSet} (hc : ∀ e ∈ c.edits, e.Seatable Tables.places)
    (hroom : t.HasRoom c.edits) :
    Together (c.Fits s) (fun _ _ => True) ((Query.change c).atomically t).1 (s.commit c).1 ∧
      Mirrors ((Query.change c).atomically t).2 (s.commit c).2 := by
  have hserial := h.serial hc hroom
  rw [Query.atomically_eq]
  rcases s.commit_eq_serial c with
    ⟨d, hd, hreply, hagrees⟩ | ⟨failure, hd, hreply, hteams, hmembers⟩
  · rw [hd] at hserial
    rw [hreply]
    generalize (Query.change c).effect t = outcome at hserial
    cases hserial with
    | ok related => exact ⟨.ok trivial, related.congr hagrees.teams hagrees.members⟩
  · rw [hd] at hserial
    rw [hreply]
    have hsame : Mirrors t (s.commit c).2 :=
      h.congr (fun id => by rw [hteams]) fun id => by rw [hmembers]
    generalize (Query.change c).effect t = outcome at hserial
    cases hserial with
    | error same => exact ⟨.error same, hsame⟩

end Mirrors

end TeamRoster
