import TeamRoster.Proofs.Composition.Removal

/-!
# Laws of placement

`Arrival` lists what can become of a team that a member joins, `Departure` what can follow from a
removal. The rules of placement have these outcomes and no others, whoever breaks the ties.
-/

namespace TeamRoster

/-- What can become of a team when an active member joins who is not in it. -/
inductive Arrival (t : Team) (m : Member) : Intake → Prop
  | fits (room : t.size < 4) : Arrival t m (.fits (t.relist (t.members ++ [m])))
  | overflows (draft : Team.Draft) (full : 4 ≤ t.size)
      (members : draft.members = t.members.drop ((t.size + 1) / 2) ++ [m])
      (name : t.name.split = .ok draft.name) :
      Arrival t m (.overflows (t.relist (t.members.take ((t.size + 1) / 2))) draft)

/-- A member joins only if the rules allow it, and the team grows or splits. -/
theorem Team.intake_eq_ok {t : Team} {m : Member} {i : Intake} (h : t.intake m = .ok i) :
    m.status = .active ∧ m.id ∉ t.memberIds ∧ Arrival t m i := by
  obtain ⟨grown, hgrown, hsplit⟩ := Failing.bind_eq_ok.1 h
  obtain ⟨hactive, habsent, rfl⟩ := add_eq_ok.1 hgrown
  refine ⟨hactive, habsent, ?_⟩
  obtain ⟨halves, hhalves, hi⟩ := Failing.bind_eq_ok.1 hsplit
  have hsize : (t.relist (t.members ++ [m])).size = t.size + 1 := by
    simp [size]
  cases halves with
  | none =>
      have hroom := split_eq_none.1 hhalves
      cases hi
      exact .fits (by omega)
  | some parts =>
      obtain ⟨kept, draft⟩ := parts
      obtain ⟨hfull, rfl, hmembers, hname⟩ := split_eq_some hhalves
      cases hi
      rw [hsize] at hfull hmembers ⊢
      have hhalf : (t.size + 1) / 2 ≤ t.members.length := by
        have hlength : t.members.length = t.size := rfl
        omega
      rw [relist_members, List.drop_append_of_le_length hhalf] at hmembers
      have hkept : (t.relist (t.members ++ [m])).relist
          ((t.members ++ [m]).take ((t.size + 1) / 2)) =
            t.relist (t.members.take ((t.size + 1) / 2)) := by
        rw [List.take_append_of_le_length hhalf]
        rfl
      rw [relist_members, hkept]
      exact .overflows draft (by omega) hmembers hname

/-- Whoever is assigned joins a team of the roster. -/
theorem assign_eq_ok {m : Member} {roster : List Team} {pick : Nat → Nat} {i : Intake}
    (h : (assign m roster).resolve pick = .ok i) : ∃ t ∈ roster, t.intake m = .ok i := by
  rw [assign, TieBreak.resolve_map] at h
  cases hpick : (pickSmallest (assignable roster)).resolve pick with
  | none =>
      rw [hpick] at h
      cases h
  | some t =>
      rw [hpick] at h
      exact ⟨t, assignable_subset roster t (mem_of_pickSmallest hpick), h⟩

/-- What can follow from the removal of a member `removed` that leaves the members `left`. -/
inductive Departure (team : Team) (roster : List Team) (removed : Member) :
    List Member → Redistribution → Prop
  | emptied : Departure team roster removed [] (.emptied (team.relist []) removed)
  | stranded (last : Member) (alone : otherHomes team roster = []) :
      Departure team roster removed [last]
        (.mergeFailure (team.relist [last]) removed last true)
  | moved (last : Member) (home : Team) (homes : home ∈ otherHomes team roster)
      (active : last.status = .active) (absent : last.id ∉ home.memberIds) :
      Departure team roster removed [last]
        (.needsMonitoringAndMerge
          (.merge (home.relist (home.members ++ [last])) (team.relist []) [last]) removed)
  | small (left : List Member) (two : left.length = 2) :
      Departure team roster removed left (.needsMonitoring (team.relist left) removed)
  | normal (left : List Member) (more : 2 < left.length) :
      Departure team roster removed left (.normal (team.relist left) removed)

theorem mem_otherHomes_of_picked? {team home : Team} {roster : List Team} {pick : Nat → Nat}
    (h : picked? pick (others team roster) = some home) : home ∈ otherHomes team roster := by
  rw [otherHomes_eq_others]
  exact (mem_fewest.1 (mem_of_picked? h)).1

/-- A removal takes out a member of this id and has one of the outcomes that are listed. -/
theorem redistribute_eq_ok {team : Team} {member : Ident} {roster : List Team} {pick : Nat → Nat}
    {r : Redistribution} (h : (redistribute team member roster).resolve pick = .ok r) :
    ∃ removed shrunken, team.remove member = .ok (removed, shrunken) ∧
      Departure team roster removed shrunken.members r := by
  cases resolve_redistribute_iff.1 h with
  | emptied removed out => exact ⟨removed, _, Team.takesOut_iff.1 out, .emptied⟩
  | large removed left out three => exact ⟨removed, _, Team.takesOut_iff.1 out, .normal left three⟩
  | small removed left out two => exact ⟨removed, _, Team.takesOut_iff.1 out, .small left two⟩
  | stranded removed last out nowhere =>
      rw [← otherHomes_eq_others] at nowhere
      exact ⟨removed, _, Team.takesOut_iff.1 out, .stranded last nowhere⟩
  | merged removed last home out choice active absent =>
      exact ⟨removed, _, Team.takesOut_iff.1 out,
        .moved last home (mem_otherHomes_of_picked? choice) active absent⟩

/-- A removal is refused because the member is not in the team, or because the last member may not
join the home that was found. -/
theorem redistribute_eq_error {team : Team} {member : Ident} {roster : List Team} {pick : Nat → Nat}
    {e : RuleError} (h : (redistribute team member roster).resolve pick = .error e) :
    team.remove member = .error e ∨
      ∃ removed shrunken last home, team.remove member = .ok (removed, shrunken) ∧
        last ∈ shrunken.members ∧ home ∈ otherHomes team roster ∧ home.checkJoin last = .error e := by
  cases resolve_redistribute_iff.1 h with
  | notListed absent => exact .inl (Team.remove_eq_error.2 ⟨absent, rfl⟩)
  | notActive removed last home out choice away =>
      exact .inr ⟨removed, _, last, home, Team.takesOut_iff.1 out, List.mem_singleton_self last,
        mem_otherHomes_of_picked? choice, Team.checkJoin_of_away away⟩
  | alreadyListed removed last home out choice active listed =>
      exact .inr ⟨removed, _, last, home, Team.takesOut_iff.1 out, List.mem_singleton_self last,
        mem_otherHomes_of_picked? choice, Team.checkJoin_of_listed active listed⟩

end TeamRoster
