import TeamRoster.Composition.Placement
import TeamRoster.Proofs.Team.Operations

/-!
# Choosing a team

Which teams of a roster there are to choose from, and which of them an answer picks. Main statements:
`resolve_pickSmallest` and `questions_pickSmallest`. Who breaks ties is asked once, among the teams with
the fewest members, and the answer counts along these; beyond the last one it stands for the last one.
-/

namespace TeamRoster

namespace TieBreak

variable {α : Type} {as : List α} {pick : Nat → Nat} {a : α}

theorem resolve_choose :
    (choose as).resolve pick = as[min (pick as.length) (as.length - 1)]? := by
  cases as <;> rfl

theorem questions_choose (h : as ≠ []) : (choose as).questions = [as.length] := by
  cases as with
  | nil => exact absurd rfl h
  | cons a as => rfl

end TieBreak

variable {teams roster : List Team} {t : Team} {pick : Nat → Nat}

section Fewest

/-- The teams of a list than which none of it has fewer members, in order. -/
def fewest (teams : List Team) : List Team :=
  teams.filter fun t => teams.all fun u => decide (t.size ≤ u.size)

theorem mem_fewest : t ∈ fewest teams ↔ t ∈ teams ∧ ∀ u ∈ teams, t.size ≤ u.size := by
  simp [fewest]

/-- The teams of the smallest size are those with the fewest members. -/
theorem smallest_eq_fewest (teams : List Team) : smallest teams = fewest teams := by
  unfold smallest fewest
  cases hmin : (teams.map Team.size).min? with
  | none =>
      have hnone : teams = [] := by simpa using hmin
      rw [hnone]
      rfl
  | some least =>
      obtain ⟨hattained, hleast⟩ := List.min?_eq_some_iff.1 hmin
      obtain ⟨smallest, hsmallest, rfl⟩ := List.mem_map.1 hattained
      refine List.filter_congr ?_
      intro t ht
      rw [Bool.eq_iff_iff, beq_iff_eq, List.all_eq_true]
      simp only [decide_eq_true_eq]
      constructor
      · intro hsize u hu
        rw [hsize]
        exact hleast _ (List.mem_map_of_mem hu)
      · intro hfewest
        exact Nat.le_antisymm (hfewest smallest hsmallest) (hleast _ (List.mem_map_of_mem ht))

/-- Where there are teams, some have the fewest members. -/
theorem exists_mem_fewest (h : teams ≠ []) : ∃ t, t ∈ fewest teams := by
  cases hmin : (teams.map Team.size).min? with
  | none => exact absurd (by simpa using hmin) h
  | some least =>
      obtain ⟨hattained, hleast⟩ := List.min?_eq_some_iff.1 hmin
      obtain ⟨t, ht, rfl⟩ := List.mem_map.1 hattained
      exact ⟨t, mem_fewest.2 ⟨ht, fun u hu => hleast _ (List.mem_map_of_mem hu)⟩⟩

theorem fewest_ne_nil (h : teams ≠ []) : fewest teams ≠ [] := by
  obtain ⟨t, ht⟩ := exists_mem_fewest h
  exact List.ne_nil_of_mem ht

/-- Where all teams are of the same size, all have the fewest members. -/
theorem fewest_of_same {size : Nat} (hsize : ∀ t ∈ roster, t.size = size) :
    fewest roster = roster := by
  refine List.filter_eq_self.2 ?_
  intro t ht
  rw [List.all_eq_true]
  intro u hu
  exact decide_eq_true (Nat.le_of_eq ((hsize t ht).trans (hsize u hu).symm))

end Fewest

section Picking

/-- The team at a position of a list; a position beyond the last one stands for the last one. -/
def nth? (roster : List Team) (position : Nat) : Option Team :=
  roster[min position (roster.length - 1)]?

theorem mem_of_nth? {position : Nat} (h : nth? roster position = some t) : t ∈ roster :=
  List.mem_of_getElem? h

/-- Where there are teams, every position stands for one of them. -/
theorem exists_nth? (h : roster ≠ []) (position : Nat) : ∃ t, nth? roster position = some t := by
  have hlength : 0 < roster.length := List.length_pos_of_ne_nil h
  exact ⟨_, List.getElem?_eq_getElem (by omega)⟩

/-- Every team of a list stands at some position. -/
theorem exists_nth?_of_mem (h : t ∈ roster) :
    ∃ position < roster.length, nth? roster position = some t := by
  obtain ⟨position, hlt, hget⟩ := List.getElem_of_mem h
  refine ⟨position, hlt, ?_⟩
  rw [nth?, Nat.min_eq_left (by omega), List.getElem?_eq_getElem hlt, hget]

/-- The team that an answer picks: it is counted off along those with the fewest members. -/
def picked? (pick : Nat → Nat) (teams : List Team) : Option Team :=
  nth? (fewest teams) (pick (fewest teams).length)

theorem mem_of_picked? (h : picked? pick teams = some t) : t ∈ fewest teams :=
  mem_of_nth? h

theorem exists_picked? (h : teams ≠ []) (pick : Nat → Nat) : ∃ t, picked? pick teams = some t :=
  exists_nth? (fewest_ne_nil h) _

theorem resolve_pickSmallest : (pickSmallest teams).resolve pick = picked? pick teams := by
  rw [pickSmallest, smallest_eq_fewest]
  exact TieBreak.resolve_choose

theorem questions_pickSmallest (h : teams ≠ []) :
    (pickSmallest teams).questions = [(fewest teams).length] := by
  rw [pickSmallest, smallest_eq_fewest]
  exact TieBreak.questions_choose (fewest_ne_nil h)

theorem pickSmallest_eq_none : (pickSmallest teams).resolve pick = none ↔ teams = [] := by
  rw [resolve_pickSmallest]
  constructor
  · intro hnone
    by_contra hteams
    obtain ⟨t, ht⟩ := exists_picked? hteams pick
    rw [hnone] at ht
    cases ht
  · rintro rfl
    rfl

theorem mem_of_pickSmallest (h : (pickSmallest teams).resolve pick = some t) : t ∈ teams := by
  rw [resolve_pickSmallest] at h
  exact (mem_fewest.1 (mem_of_picked? h)).1

end Picking

section Eligible

/-- The teams of a roster with one to three members. -/
def roomy (roster : List Team) : List Team :=
  roster.filter fun t => decide (1 ≤ t.size ∧ t.size ≤ 3)

/-- The teams to choose from for somebody who comes back: those with one to three members or, if
there are none, all that are not empty. -/
def eligible (roster : List Team) : List Team :=
  if roomy roster = [] then roster.filter fun t => decide (1 ≤ t.size) else roomy roster

/-- The teams to choose from for the last member of a team: the others with one to three members. -/
def others (team : Team) (roster : List Team) : List Team :=
  roomy (roster.filter fun t => decide (t.id ≠ team.id))

theorem acceptsMember_eq (t : Team) : t.acceptsMember = decide (1 ≤ t.size ∧ t.size ≤ 3) := by
  rw [Bool.eq_iff_iff, Team.acceptsMember_iff, decide_eq_true_eq]

theorem filter_acceptsMember (roster : List Team) : roster.filter Team.acceptsMember = roomy roster :=
  List.filter_congr fun t _ => acceptsMember_eq t

theorem assignable_eq_eligible (roster : List Team) : assignable roster = eligible roster := by
  have hfilled : (roster.filter fun t => !t.isEmpty) = roster.filter fun t => decide (1 ≤ t.size) := by
    refine List.filter_congr ?_
    intro t _
    have hone : t.isEmpty = false ↔ 1 ≤ t.size := by
      rw [Team.isEmpty, List.isEmpty_eq_false_iff]
      exact List.length_pos_iff.symm
    rw [Bool.eq_iff_iff, Bool.not_eq_true', hone, decide_eq_true_eq]
  simp only [assignable, eligible, filter_acceptsMember, hfilled, List.isEmpty_iff]

theorem otherHomes_eq_others (team : Team) (roster : List Team) :
    otherHomes team roster = others team roster := by
  rw [others, roomy, List.filter_filter]
  refine List.filter_congr ?_
  intro t _
  rw [acceptsMember_eq, Bool.and_comm]
  by_cases hid : t.id = team.id <;> simp [hid]

theorem assignable_subset (roster : List Team) : ∀ t ∈ assignable roster, t ∈ roster := by
  intro t ht
  simp only [assignable] at ht
  split at ht <;> exact List.mem_of_mem_filter ht

/-- Where some team has room, those with room are the ones to choose from. -/
theorem assignable_of_room (hroom : roster.any Team.acceptsMember = true) :
    assignable roster = roster.filter Team.acceptsMember := by
  obtain ⟨t, ht, haccepts⟩ := List.any_eq_true.1 hroom
  have hmem : t ∈ roster.filter Team.acceptsMember := List.mem_filter.2 ⟨ht, haccepts⟩
  have hsome : (roster.filter Team.acceptsMember).isEmpty = false :=
    List.isEmpty_eq_false_iff.2 (List.ne_nil_of_mem hmem)
  unfold assignable
  simp only [hsome, Bool.false_eq_true, if_false]

/-- Where all teams are full, all are there to choose from. -/
theorem assignable_of_full (hfull : ∀ t ∈ roster, t.size = 4) : assignable roster = roster := by
  have hnone : roomy roster = [] := by
    refine List.filter_eq_nil_iff.2 ?_
    intro t ht
    rw [hfull t ht]
    decide
  rw [assignable_eq_eligible, eligible, if_pos hnone]
  refine List.filter_eq_self.2 ?_
  intro t ht
  rw [hfull t ht]
  decide

/-- Where all teams are full, the answer picks among all of them. -/
theorem pickSmallest_of_full (hfull : ∀ t ∈ roster, t.size = 4) (pick : Nat → Nat) :
    (pickSmallest (assignable roster)).resolve pick = nth? roster (pick roster.length) := by
  rw [assignable_of_full hfull, resolve_pickSmallest, picked?, fewest_of_same hfull]

end Eligible

end TeamRoster
