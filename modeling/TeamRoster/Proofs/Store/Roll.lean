import Mathlib.Algebra.BigOperators.Group.Finset.Piecewise
import TeamRoster.Proofs.Store.Serial

/-!
# The roll of a store

The member lists of all teams together, with repetitions. Main statement: `roll_exchange` says how
the roll changes when only the lists of some teams do, as an equation of multisets in which nothing
is subtracted. That nobody is listed twice is one property of the roll.
-/

namespace TeamRoster

namespace Store

open scoped List

variable {s d : Store}

/-- The list of the record under an id; empty if there is no such record. -/
def listIn (es : List (Ident × TeamRecord)) (team : Ident) : List Ident :=
  ((Directory.lookup es team).map TeamRecord.memberIds).getD []

/-- The ids of the members of a team; none if there is no such team. -/
def listOf (s : Store) (team : Ident) : List Ident :=
  listIn s.teams.entries team

/-- The member lists of all stored teams, one after the other. -/
def roll (s : Store) : List Ident :=
  s.teams.values.flatMap TeamRecord.memberIds

theorem listOf_of_find? {team : Ident} {r : TeamRecord} (h : s.teams.find? team = some r) :
    s.listOf team = r.memberIds :=
  congrArg (fun found : Option TeamRecord => (found.map TeamRecord.memberIds).getD []) h

theorem listOf_of_find?_none {team : Ident} (h : s.teams.find? team = none) :
    s.listOf team = [] :=
  congrArg (fun found : Option TeamRecord => (found.map TeamRecord.memberIds).getD []) h

/-- Where the same record is found, the list is the same. -/
theorem listOf_congr {team : Ident} (h : d.teams.find? team = s.teams.find? team) :
    d.listOf team = s.listOf team :=
  congrArg (fun found : Option TeamRecord => (found.map TeamRecord.memberIds).getD []) h

theorem roll_eq (s : Store) : s.roll = s.teams.entries.flatMap fun e => e.2.memberIds := by
  rw [roll, Directory.values, List.flatMap_map]

/-- A member is on the roll exactly if some record lists the member. -/
theorem mem_roll {member : Ident} :
    member ∈ s.roll ↔ ∃ team r, s.teams.find? team = some r ∧ member ∈ r.memberIds := by
  simp only [roll_eq, List.mem_flatMap, Directory.find?_eq_some, Prod.exists]

theorem roll_nodup_list (h : s.roll.Nodup) {team : Ident} {r : TeamRecord}
    (hr : s.teams.find? team = some r) : r.memberIds.Nodup := by
  rw [roll_eq, List.nodup_flatMap] at h
  exact h.1 (team, r) (Directory.find?_eq_some.1 hr)

/-- Where nobody is on the roll twice, a member is in one team at most. -/
theorem roll_nodup_team (h : s.roll.Nodup) {team other : Ident} {r q : TeamRecord}
    (hr : s.teams.find? team = some r) (hq : s.teams.find? other = some q) {member : Ident}
    (hmr : member ∈ r.memberIds) (hmq : member ∈ q.memberIds) : team = other := by
  by_contra hne
  rw [roll_eq, List.nodup_flatMap] at h
  have hentries : (team, r) ≠ (other, q) := fun heq => hne (congrArg Prod.fst heq)
  have hsymm : Std.Symm (Function.onFun List.Disjoint
      fun e : Ident × TeamRecord => e.2.memberIds) := ⟨fun _ _ hab => hab.symm⟩
  have hdisjoint := h.2.forall (Directory.find?_eq_some.1 hr) (Directory.find?_eq_some.1 hq) hentries
  exact hdisjoint hmr hmq

theorem coe_flatMap (ids : List Ident) (f : Ident → List Ident) :
    ((ids.flatMap f : List Ident) : Multiset Ident) =
      (ids.map fun id => (f id : Multiset Ident)).sum := by
  induction ids with
  | nil => rfl
  | cons id ids ih => rw [List.flatMap_cons, ← Multiset.coe_add, ih, List.map_cons, List.sum_cons]

/-- The lists of entries with different ids add up, over any ids that include theirs. -/
theorem coe_flatMap_entries (es : List (Ident × TeamRecord)) (hes : (es.map Prod.fst).Nodup)
    {ids : Finset Ident} (hids : ∀ e ∈ es, e.1 ∈ ids) :
    ((es.flatMap fun e => e.2.memberIds : List Ident) : Multiset Ident) =
      ∑ id ∈ ids, (listIn es id : Multiset Ident) := by
  induction es with
  | nil => simp [listIn, Directory.lookup]
  | cons e es ih =>
      rw [List.map_cons, List.nodup_cons] at hes
      rw [List.forall_mem_cons] at hids
      have habsent : Directory.lookup es e.1 = none := Directory.lookup_eq_none.2 hes.1
      have hstep (id : Ident) : (listIn (e :: es) id : Multiset Ident) =
          (if id = e.1 then (e.2.memberIds : Multiset Ident) else 0) + listIn es id := by
        by_cases hid : id = e.1
        · simp [listIn, Directory.lookup_cons, hid, habsent]
        · simp [listIn, Directory.lookup_cons, hid, Ne.symm hid]
      rw [List.flatMap_cons, ← Multiset.coe_add, ih hes.2 hids.2]
      simp only [hstep, Finset.sum_add_distrib, Finset.sum_ite_eq', if_pos hids.1]

/-- The roll as a sum over ids that include those of all teams. -/
theorem coe_roll {ids : Finset Ident} (hids : ∀ id ∈ s.teams.keys, id ∈ ids) :
    (s.roll : Multiset Ident) = ∑ id ∈ ids, (s.listOf id : Multiset Ident) := by
  rw [roll_eq]
  exact coe_flatMap_entries s.teams.entries s.teams.nodup fun e he =>
    hids e.1 (List.mem_map_of_mem he)

/-- If only the lists of some teams differ, the rolls differ as those lists do. -/
theorem roll_exchange {ids : List Ident} (hids : ids.Nodup)
    (hkept : ∀ id, id ∉ ids → d.listOf id = s.listOf id) :
    d.roll ++ ids.flatMap s.listOf ~ s.roll ++ ids.flatMap d.listOf := by
  let all : Finset Ident := (s.teams.keys ++ d.teams.keys ++ ids).toFinset
  have hsome : ids.toFinset ⊆ all := by
    intro id hid
    simp_all [all]
  have hsplit (t : Store) (ht : ∀ id ∈ t.teams.keys, id ∈ all) :
      (t.roll : Multiset Ident) =
        ∑ id ∈ all \ ids.toFinset, (t.listOf id : Multiset Ident) + ids.flatMap t.listOf := by
    have hlists : ((ids.flatMap t.listOf : List Ident) : Multiset Ident) =
        ∑ id ∈ ids.toFinset, (t.listOf id : Multiset Ident) := by
      rw [List.sum_toFinset _ hids, coe_flatMap]
    rw [coe_roll ht, hlists, Finset.sum_sdiff hsome]
  have hrest : ∑ id ∈ all \ ids.toFinset, (d.listOf id : Multiset Ident) =
      ∑ id ∈ all \ ids.toFinset, (s.listOf id : Multiset Ident) := by
    refine Finset.sum_congr rfl fun id hid => ?_
    rw [hkept id (by simpa using (Finset.mem_sdiff.1 hid).2)]
  rw [← Multiset.coe_eq_coe, ← Multiset.coe_add, ← Multiset.coe_add,
    hsplit d (by simp_all [all]), hsplit s (by simp_all [all]), hrest, add_right_comm]

/-- Where the same records are found, the rolls have the same members. -/
theorem roll_congr (h : ∀ id, d.teams.find? id = s.teams.find? id) :
    d.roll ~ s.roll := by
  have hexchange := roll_exchange (s := s) (d := d) List.nodup_nil fun id _ => listOf_congr (h id)
  simpa using hexchange

end Store

end TeamRoster
