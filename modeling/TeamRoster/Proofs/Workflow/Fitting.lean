import TeamRoster.Proofs.Store.Orderly
import TeamRoster.Proofs.Tables.Order
import TeamRoster.Proofs.Workflow.Faults
import TeamRoster.Proofs.Workflow.Offers

/-!
# Writes that suit the store

What a command is going to write suits the orderly store from which it was prepared
(`Write.Suits`). The teams are as they are expected to be, nothing is missing that the edits are
about, each team that is formed has four members at most and the time of a birth that was drawn for
it, one member at most joins a team, and nobody is listed twice afterwards. Main statement:
`suits_of_prepare`. It asks nothing of the ids at births. Where a team is formed under the id of
another one, members may be lost, but nobody is listed twice because of that.
-/

namespace TeamRoster

open scoped List

variable {τ : Type}

/-- Edits that can be made to a store whether it is in memory or in tables, as long as there is a
position for the one member who may join, and that form teams at these times only, in this order. -/
structure Store.Suits (s : Store) (times : List Instant) (es : List Edit) : Prop where
  seats (e : Edit) : e ∈ es → e.Seatable 4
  joins : es.countP Edit.joins ≤ 1
  known (e : Edit) : e ∈ es → e.Known s
  spares : es.Pairwise Edit.Spares
  created : (es.filterMap Edit.created?).map Team.createdAt <+ times
  once (d : Store) : s.applyAll es = .ok d → d.roll.Nodup

namespace Store

variable {s : Store} {times : List Instant}

/-- Four members find their places in the tables. -/
theorem Suits.seatable {es : List Edit} (h : s.Suits times es) :
    ∀ e ∈ es, e.Seatable Tables.places :=
  fun e he => (h.seats e he).mono (by decide)

theorem suits_nil (h : s.roll.Nodup) (times : List Instant) : s.Suits times [] where
  seats e he := by cases he
  joins := Nat.zero_le 1
  known e he := by cases he
  spares := .nil
  created := List.nil_sublist times
  once d happly := by
    cases happly
    exact h

/-- The status of a stored member may be set at the end. -/
theorem Suits.push_status {es : List Edit} (h : s.Suits times es) {id : Ident}
    (hid : s.members.contains id = true) (before after : Status) :
    s.Suits times (es ++ [.setStatus id before after]) := by
  constructor
  · intro e he
    rcases List.mem_append.1 he with he | he
    · exact h.seats e he
    · rw [List.mem_singleton.1 he]
      trivial
  · simpa [Edit.joins] using h.joins
  · intro e he
    rcases List.mem_append.1 he with he | he
    · exact h.known e he
    · rw [List.mem_singleton.1 he]
      exact hid
  · refine List.pairwise_append.2 ⟨h.spares, List.pairwise_singleton _ _, ?_⟩
    intro e _ f hf team member hremove
    rw [List.mem_singleton.1 hf] at hremove
    cases hremove
  · have hnone : [Edit.setStatus id before after].filterMap Edit.created? = [] := rfl
    rw [List.filterMap_append, hnone, List.append_nil]
    exact h.created
  · intro d happly
    rw [applyAll_append] at happly
    obtain ⟨mid, hmid, hset⟩ := Failing.bind_eq_ok.1 happly
    obtain ⟨last, hlast, hdone⟩ := Failing.bind_eq_ok.1 hset
    cases hdone
    obtain ⟨m, -, -, rfl⟩ := apply_setStatus_eq_ok.1 hlast
    exact h.once mid hmid

/-- An edit that strikes nobody off may be made alone, if nobody is listed twice who joins. -/
theorem suits_singleton {e : Edit} (hseats : e.Seatable 4) (hknown : e.Known s)
    (hstrikes : e.strikes = []) (hroll : (s.roll ++ e.enlists).Nodup) :
    s.Suits (([e].filterMap Edit.created?).map Team.createdAt) [e] where
  seats f hf := by
    rw [List.mem_singleton.1 hf]
    exact hseats
  joins := by cases e <;> simp [Edit.joins]
  known f hf := by
    rw [List.mem_singleton.1 hf]
    exact hknown
  spares := List.pairwise_singleton _ _
  created := List.Sublist.refl _
  once d happly := by
    refine nodup_roll_applyAll happly ?_ hroll
    rw [List.flatMap_singleton, List.flatMap_singleton, hstrikes]
    exact List.Perm.refl _

/-- Whoever is stored and on no list may be in a new team, but not twice. -/
theorem suits_createTeam (hs : s.roll.Nodup) {t : Team} (hnodup : t.memberIds.Nodup)
    (hfour : t.members.length ≤ 4)
    (hmembers : ∀ m ∈ t.members, m.id ∉ s.roll ∧ s.members.contains m.id = true) :
    s.Suits [t.createdAt] [.createTeam t] := by
  have hids (id : Ident) (hid : id ∈ t.memberIds) :
      id ∉ s.roll ∧ s.members.contains id = true := by
    obtain ⟨m, hm, rfl⟩ := Team.mem_memberIds.1 hid
    exact hmembers m hm
  have hseats : (Edit.createTeam t).Seatable 4 := ⟨hnodup, hfour⟩
  have hknown : Edit.Known s (.createTeam t) := fun id hid => (hids id hid).2
  have hjoined : (s.roll ++ t.memberIds).Nodup := by
    refine List.nodup_append.2 ⟨hs, hnodup, ?_⟩
    rintro x hx y hy rfl
    exact (hids x hy).1 hx
  exact suits_singleton hseats hknown rfl hjoined

theorem nodup_roll_concat (hs : s.roll.Nodup) {member : Ident} (habsent : member ∉ s.roll) :
    (s.roll ++ [member]).Nodup :=
  List.nodup_append_comm.1 (List.nodup_cons.2 ⟨habsent, hs⟩)

/-- A stored member who is on no list may join any team. -/
theorem suits_addMember (hs : s.roll.Nodup) (team : Ident) {member : Ident}
    (habsent : member ∉ s.roll) (hm : s.members.contains member = true) :
    s.Suits [] [.addMember team member] := by
  have hseats : (Edit.addMember team member).Seatable 4 := trivial
  exact suits_singleton hseats hm rfl (nodup_roll_concat hs habsent)

/-- Members may move to a new team together with a stored member who is on no list. -/
theorem suits_moved (hs : s.roll.Nodup) {team member : Ident} {r : TeamRecord}
    (hr : s.teams.find? team = some r) (habsent : member ∉ s.roll) {new : Team}
    {moved : List Ident} (hnew : new.memberIds = moved ++ [member]) (hnodup : new.memberIds.Nodup)
    (hfour : new.members.length ≤ 4)
    (hmembers : ∀ id ∈ new.memberIds, s.members.contains id = true) :
    s.Suits [new.createdAt] (.createTeam new :: moved.map (.removeMember team)) := by
  have hcases (e : Edit) (he : e ∈ Edit.createTeam new :: moved.map (Edit.removeMember team)) :
      e = .createTeam new ∨ ∃ id ∈ moved, e = .removeMember team id := by
    rcases List.mem_cons.1 he with he | he
    · exact .inl he
    · obtain ⟨id, hid, rfl⟩ := List.mem_map.1 he
      exact .inr ⟨id, hid, rfl⟩
  have hcreated : (moved.map (Edit.removeMember team)).filterMap Edit.created? = [] := by
    simp [List.filterMap_map, Edit.created?, Function.comp_def]
  have hstrikes : (moved.map (Edit.removeMember team)).flatMap Edit.strikes = moved := by
    simp [List.flatMap_map, Edit.strikes]
  have henlists : (moved.map (Edit.removeMember team)).flatMap Edit.enlists = [] := by
    simp [List.flatMap_map, Edit.enlists]
  constructor
  · intro e he
    rcases hcases e he with rfl | ⟨id, -, rfl⟩
    · exact ⟨hnodup, hfour⟩
    · trivial
  · simp [Edit.joins, List.countP_eq_zero.2]
  · intro e he
    rcases hcases e he with rfl | ⟨id, -, rfl⟩
    · exact hmembers
    · exact ⟨r, hr⟩
  · refine List.pairwise_of_forall_mem_list fun e he f _ team member _ hdelete => ?_
    rcases hcases e he with rfl | ⟨id, -, rfl⟩ <;> cases hdelete
  · rw [List.filterMap_cons, hcreated]
    exact List.Sublist.refl _
  · intro d happly
    -- Whoever is struck off is on the new list.
    refine nodup_roll_applyAll happly ?_ (nodup_roll_concat hs habsent)
    rw [List.flatMap_cons, List.flatMap_cons, hstrikes, henlists]
    simp only [Edit.enlists, Edit.strikes, hnew, List.append_nil, List.nil_append]
    exact List.Perm.refl _

/-- Everybody in a team that is held is stored. -/
theorem Holds.contains {t : Team} (ht : s.Holds t) {m : Member} (hm : m ∈ t.members) :
    s.members.contains m.id = true :=
  Directory.contains_iff.2 ⟨m, (ht.listed hm).1⟩

end Store

/-- The edits for a stored member who joins a team that is held. -/
theorem Arrival.suits {s : Store} {t : Team} {m : Member} {i : Intake} (h : Arrival t m i)
    (hs : s.roll.Nodup) (ht : s.Holds t) (hm : s.members.contains m.id = true)
    (habsent : m.id ∉ s.roll) (birth : Birth) :
    s.Suits (List.replicate i.needsBirth.toNat birth.time)
      ((i.compose birth).edits t.memberIds m.id) := by
  obtain ⟨place, hplace⟩ := ht.record
  cases h with
  | fits room => exact Store.suits_addMember hs t.id habsent hm
  | overflows draft full members name =>
      have hnot : m.id ∉ t.memberIds := by
        intro hmem
        exact habsent (Store.mem_roll.2 ⟨t.id, _, hplace, hmem⟩)
      have hdraft : (draft.form birth).memberIds =
          t.memberIds.drop ((t.size + 1) / 2) ++ [m.id] := by
        rw [Team.Draft.form_memberIds, members, List.map_append, List.map_drop]
        rfl
      have hknown : ∀ id ∈ (draft.form birth).memberIds, s.members.contains id = true := by
        intro id hid
        rw [hdraft] at hid
        rcases List.mem_append.1 hid with hid | hid
        · obtain ⟨x, hx, rfl⟩ := Team.mem_memberIds.1 (List.mem_of_mem_drop hid)
          exact ht.contains hx
        · rw [List.mem_singleton.1 hid]
          exact hm
      rw [Intake.compose, Composition.edits_halves (ht.nodup hs) hnot]
      exact Store.suits_moved hs hplace habsent hdraft draft.nodup draft.le_four hknown

/-- A removal takes the member out, and where nobody stays the team is deleted, after the last one
of those who are left has joined another team. -/
theorem Departure.edits_cases {team : Team} {roster : List Team} {removed : Member}
    {left : List Member} {r : Redistribution} (h : Departure team roster removed left r)
    (member : Ident) :
    r.edits team.id member = [.removeMember team.id member] ∨
      r.edits team.id member = [.removeMember team.id member, .deleteTeam team.id] ∨
      ∃ home last, last ∈ left ∧ r.edits team.id member =
        [.removeMember team.id member, .addMember home last.id, .deleteTeam team.id] := by
  cases h with
  | emptied => exact .inr (.inl rfl)
  | stranded last alone => exact .inl rfl
  | small two => exact .inl rfl
  | normal more => exact .inl rfl
  | moved last home homes active absent =>
      exact .inr (.inr ⟨home.id, last, List.mem_cons_self, rfl⟩)

namespace Surroundings

variable {v : Surroundings τ} {w ready : World Store τ}

/-- The edits for a member who leaves a team that is held. -/
theorem Parting.suits {t : Team} {m : Member} {roster : List Team} {left : List Member}
    {r : Redistribution} (h : Parting w t m roster left r) (hs : w.storage.Orderly)
    (times : List Instant) : w.storage.Suits times (r.edits t.id m.id) := by
  have hroster : ∀ home ∈ roster, w.storage.Holds home := by
    intro home hhome
    exact (Store.mem_allTeams hs.keyed h.read home).1 hhome
  obtain ⟨place, hplace⟩ := h.held.record
  obtain ⟨-, -, -, -, hsub⟩ := Team.remove_spec h.removed
  have hknown : Edit.Known w.storage (.removeMember t.id m.id) := ⟨_, hplace⟩
  have honce (d : Store) (happly : w.storage.applyAll (r.edits t.id m.id) = .ok d) :
      d.roll.Nodup := by
    obtain ⟨-, -, hmoves⟩ := h.departure.effects h.removed h.held hroster d happly
    exact hmoves.nodup hs.once fun id hid => by cases hid
  rcases h.departure.edits_cases m.id with hedits | hedits | ⟨home, last, hlast, hedits⟩
  · rw [hedits] at honce ⊢
    refine ⟨by simp [Edit.Seatable], by simp [Edit.joins], ?_, List.pairwise_singleton _ _,
      List.nil_sublist times, honce⟩
    simpa using hknown
  · rw [hedits] at honce ⊢
    refine ⟨by simp [Edit.Seatable], by simp [Edit.joins], ?_, by simp [Edit.Spares],
      List.nil_sublist times, honce⟩
    simpa [Edit.Known] using hknown
  · have hmoved := h.held.contains (hsub last hlast)
    rw [hedits] at honce ⊢
    refine ⟨by simp [Edit.Seatable], by simp [Edit.joins, List.countP_cons], ?_, by simp [Edit.Spares],
      List.nil_sublist times, honce⟩
    simpa [Edit.Known] using ⟨hknown, hmoved⟩

end Surroundings

/-- A write that suits a store: it finds the teams as it expects them, and its edits suit the
store. -/
structure Write.Suits (x : Write) (s : Store) (times : List Instant) : Prop where
  meets (e : Ident × List Ident) : e ∈ x.request.expectations → s.Meets e
  edits : s.Suits times x.request.edits

namespace Write.Suits

variable {x : Write} {s : Store} {times : List Instant}

/-- A change set that suits a store fits it. -/
theorem fits {c : ChangeSet} (h : (Write.commit c).Suits s times) : c.Fits s where
  meets := h.meets
  knows := Store.knows_of_known h.edits.known h.edits.spares

/-- A store is orderly after a write that suits it, whether or not the write goes through. -/
theorem orderly (h : x.Suits s times) (hs : s.Orderly) :
    (Storage.write Store.storage x s).2.Orderly := by
  have honce := h.edits.once
  cases x with
  | save m => exact hs.saveMember m
  | form t =>
      refine hs.written (.createTeam t) fun d happly => honce d ?_
      exact Failing.bind_eq_ok.2 ⟨d, happly, rfl⟩
  | commit c => exact hs.commit honce

end Write.Suits

namespace Surroundings

variable {v : Surroundings τ} {w ready : World Store τ}

/-- The times of births, from one count up to another. -/
def times (v : Surroundings τ) (born ready : Nat) : List Instant :=
  (List.range' born (ready - born)).map fun n => (v.births n).time

/-- A birth is drawn or it is not. -/
theorem times_toNat (v : Surroundings τ) (born : Nat) (drawn : Bool) :
    v.times born (born + drawn.toNat) = List.replicate drawn.toNat (v.births born).time := by
  cases drawn <;> simp [times]

/-- The plan for a stored member who joins a team. -/
theorem suits_joiningPlan (hs : w.storage.Orderly) {t : Team} {m : Member} {i : Intake}
    (ht : w.storage.Holds t) (hm : w.storage.members.contains m.id = true)
    (habsent : m.id ∉ w.storage.roll) (hi : t.intake m = .ok i) (picks : Nat) :
    w.storage.Suits (v.times w.born (w.drew i.needsBirth.toNat picks).born)
      (v.joiningPlan w t m i).changes.edits := by
  have hedits : (v.joiningPlan w t m i).changes.edits =
      (i.compose (v.births w.born)).edits t.memberIds m.id := by
    rw [joiningPlan, edits_growth, edits_expect]
    rfl
  have hborn : (w.drew i.needsBirth.toNat picks).born = w.born + i.needsBirth.toNat := rfl
  rw [hedits, hborn, times_toNat]
  exact (Team.intake_eq_ok hi).2.2.suits hs.once ht hm habsent _

theorem suits_of_assignment (hs : w.storage.Orderly) {m : Member}
    (hm : w.storage.members.contains m.id = true) {p : Plan Team}
    (hp : v.Yields (Plan.assignment m) w p ready) :
    w.storage.Suits (v.times w.born ready.born) p.changes.edits := by
  obtain ⟨t, i, picks, ht, habsent, hi, rfl, rfl⟩ := joiningPlan_of_assignment hs.keyed hp
  exact suits_joiningPlan hs ht hm habsent hi picks

theorem suits_of_removal (hs : w.storage.Orderly) {team member : Ident} {p : Plan Team}
    (hp : v.Yields (Plan.removal team member) w p ready) (times : List Instant) :
    w.storage.Suits times p.changes.edits := by
  obtain ⟨t, m, roster, left, r, rfl, rfl, hparting, -, rfl⟩ := parting_of_removal hs.keyed hp
  rw [partingPlan, edits_shrinkage, edits_expectations]
  exact hparting.suits hs times

theorem suits_of_followStatus (hs : w.storage.Orderly) {before : Status} {m : Member}
    (hm : w.storage.members.contains m.id = true) {p : Plan (Option Team)}
    (hp : v.Yields (Plan.followStatus before m) w p ready) :
    w.storage.Suits (v.times w.born ready.born) p.changes.edits := by
  rcases yields_followStatus.1 hp with
    ⟨-, -, rfl, -⟩ | ⟨-, t, q, -, hq, rfl⟩ | ⟨-, -, q, hq, rfl⟩ | ⟨-, -, rfl, -⟩
  · exact Store.suits_nil hs.once _
  · exact suits_of_removal hs hq _
  · exact suits_of_assignment hs hm hq
  · exact Store.suits_nil hs.once _

/-- What a command is going to write suits the store from which it was prepared. -/
theorem suits_of_prepare (hs : w.storage.Orderly) {c : Command} {u : Undertaking Answer}
    (hu : v.Yields c.prepare w u ready) :
    u.write.Suits w.storage (v.times w.born ready.born) := by
  cases c with
  | registerMember name email status =>
      obtain ⟨m, hsave⟩ := Setting.write_of_registerMember hu
      rw [hsave]
      refine ⟨?_, Store.suits_nil hs.once _⟩
      rintro e ⟨⟩
  | createTeam name members =>
      obtain ⟨_, ms, draft, -, hfree, hdraft, rfl, rfl⟩ := yields_createTeam.1 hu
      obtain ⟨-, hmembers⟩ := Team.Draft.of_ofMembers hdraft
      have hborn : v.times w.born (w.drew 1 0).born = [(v.births w.born).time] :=
        v.times_toNat w.born true
      have hnodup : (draft.form (v.births w.born)).memberIds.Nodup := draft.nodup
      rw [hborn]
      refine ⟨?_, Store.suits_createTeam hs.once hnodup draft.le_four fun m hm => ?_⟩
      · rintro e ⟨⟩
      · rw [Team.Draft.form_members, hmembers] at hm
        obtain ⟨id, hnone, hstored⟩ := Failing.exists_of_forall₂ hfree hm
        have heq := hs.keyed id m hstored
        subst heq
        exact ⟨not_mem_roll hnone, Directory.contains_iff.2 ⟨m, hstored⟩⟩
  | addMember team member =>
      obtain ⟨p, hp, rfl⟩ := Command.yields_undertaking.1 hu
      have hmeets := (current_of_addition hs.keyed hp).meets
      obtain ⟨t, m, i, -, ht, -, hm, habsent, hi, rfl, rfl⟩ :=
        (joiningPlan_of_addition hs.keyed).1 hp
      have hstored := Directory.contains_iff.2 ⟨m, hm⟩
      exact ⟨hmeets, suits_joiningPlan hs ht hstored habsent hi 0⟩
  | removeMember team member =>
      obtain ⟨p, hp, rfl⟩ := Command.yields_undertaking.1 hu
      exact ⟨(current_of_removal hs.keyed hp).meets, suits_of_removal hs hp _⟩
  | reassignMember member =>
      obtain ⟨m, mid, hm, hrest⟩ := yields_bind.1 hu
      obtain ⟨hfound, rfl⟩ := yields_member.1 hm
      obtain ⟨p, hp, rfl⟩ := Command.yields_undertaking.1 hrest
      have hstored := Directory.contains_iff.2 ⟨m, hs.keyed member m hfound ▸ hfound⟩
      exact ⟨(current_of_assignment hs.keyed hp).meets, suits_of_assignment hs hstored hp⟩
  | changeStatus member target =>
      obtain ⟨p, hp, rfl⟩ := Command.yields_undertaking.1 hu
      obtain ⟨m, q, hm, -, hq, rfl⟩ := yields_statusChange.1 hp
      have heq := hs.keyed member m hm
      subst heq
      have hstored := Directory.contains_iff.2 ⟨m, hm⟩
      refine ⟨(current_of_followStatus hs.keyed hq).meets, ?_⟩
      have hchanged : w.storage.members.contains ({ m with status := target } : Member).id = true :=
        hstored
      exact (suits_of_followStatus hs hchanged hq).push_status hstored _ _

end Surroundings

end TeamRoster
