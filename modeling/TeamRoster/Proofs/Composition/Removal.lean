import TeamRoster.Proofs.Composition.Choice

/-!
# Removing a member

What the removal of a member from a team comes to. `Removal` is a table of the outcomes, each with its
condition on the ids, the sizes and the statuses. Main statement: `removal_law`. For every team, every
roster and whoever breaks ties, a removal gives what stands in the table and nothing else.
-/

namespace TeamRoster

variable {team home : Team} {member : Ident} {roster : List Team} {removed last : Member}
  {left : List Member} {pick : Nat → Nat}

section Equations

theorem redistribute_of_absent (habsent : member ∉ team.memberIds) :
    redistribute team member roster = .settled (.error (.notListed member team.id)) := by
  have hremove := Team.remove_eq_error.2 ⟨habsent, rfl⟩
  simp only [redistribute, hremove]

theorem redistribute_of_nobody_left (hout : team.TakesOut member removed []) :
    redistribute team member roster = .settled (.ok (.emptied (team.relist []) removed)) := by
  have hremove := Team.takesOut_iff.1 hout
  simp only [redistribute, hremove, Team.relist_members]

/-- Where one member is left, there is a tie to break among the smallest of the other teams with
room. -/
theorem redistribute_of_one_left (hout : team.TakesOut member removed [last]) :
    redistribute team member roster =
      (pickSmallest (others team roster)).map (rehome (team.relist [last]) removed last) := by
  have hremove := Team.takesOut_iff.1 hout
  have hhomes : otherHomes (team.relist [last]) roster = others team roster :=
    otherHomes_eq_others team roster
  simp only [redistribute, hremove, Team.relist_members, hhomes]

theorem redistribute_of_two_le (hout : team.TakesOut member removed left) (htwo : 2 ≤ left.length) :
    redistribute team member roster = .settled (.ok
      ⟨.unchanged (team.relist left), removed, decide (left.length ≤ 2), .unchanged⟩) := by
  have hremove := Team.takesOut_iff.1 hout
  match left, htwo with
  | x :: y :: rest, _ =>
      have hmonitoring : (team.relist (x :: y :: rest)).needsMonitoring =
          decide ((x :: y :: rest).length ≤ 2) := rfl
      simp only [redistribute, hremove, Team.relist_members, hmonitoring]
      cases decide ((x :: y :: rest).length ≤ 2) <;> rfl

/-- The last member moves to a home exactly if the member may join it. -/
theorem rehome_some : rehome (team.relist [last]) removed last (some home) =
    (home.checkJoin last).map fun _ =>
      ⟨.merge (home.relist (home.members ++ [last])) (team.relist []) [last], removed, true,
        .merged⟩ := by
  cases hcheck : home.checkJoin last <;> simp [rehome, Team.absorb, hcheck] <;> rfl

end Equations

/-- What the removal of a member from a team comes to. -/
inductive Removal (team : Team) (member : Ident) (roster : List Team) (pick : Nat → Nat) :
    Except RuleError Redistribution → Prop
  /-- The member is not in the team. -/
  | notListed (absent : member ∉ team.memberIds) :
      Removal team member roster pick (.error (.notListed member team.id))
  /-- Nobody is left. -/
  | emptied (removed : Member) (out : team.TakesOut member removed []) :
      Removal team member roster pick
        (.ok ⟨.unchanged (team.relist []), removed, false, .emptied⟩)
  /-- Three or more are left. -/
  | large (removed : Member) (left : List Member) (out : team.TakesOut member removed left)
      (three : 3 ≤ left.length) :
      Removal team member roster pick
        (.ok ⟨.unchanged (team.relist left), removed, false, .unchanged⟩)
  /-- Two are left, and a mentor should keep an eye on them. -/
  | small (removed : Member) (left : List Member) (out : team.TakesOut member removed left)
      (two : left.length = 2) :
      Removal team member roster pick
        (.ok ⟨.unchanged (team.relist left), removed, true, .unchanged⟩)
  /-- One is left, and no other team has room. -/
  | stranded (removed last : Member) (out : team.TakesOut member removed [last])
      (nowhere : others team roster = []) :
      Removal team member roster pick
        (.ok ⟨.unchanged (team.relist [last]), removed, true, .stranded last⟩)
  /-- One is left, who is not active and may not join the team that is picked. -/
  | notActive (removed last : Member) (home : Team) (out : team.TakesOut member removed [last])
      (choice : picked? pick (others team roster) = some home) (away : last.status ≠ .active) :
      Removal team member roster pick (.error (.notActive last.id))
  /-- One is left, who is in the team that is picked already. -/
  | alreadyListed (removed last : Member) (home : Team) (out : team.TakesOut member removed [last])
      (choice : picked? pick (others team roster) = some home) (active : last.status = .active)
      (listed : last.id ∈ home.memberIds) :
      Removal team member roster pick (.error (.alreadyListed last.id))
  /-- One is left and moves to the team that is picked. -/
  | merged (removed last : Member) (home : Team) (out : team.TakesOut member removed [last])
      (choice : picked? pick (others team roster) = some home) (active : last.status = .active)
      (absent : last.id ∉ home.memberIds) :
      Removal team member roster pick
        (.ok ⟨.merge (home.relist (home.members ++ [last])) (team.relist []) [last], removed, true,
          .merged⟩)

namespace Removal

variable {result : Except RuleError Redistribution}

/-- What stands in the table is what the removal gives. -/
theorem resolve (h : Removal team member roster pick result) :
    (redistribute team member roster).resolve pick = result := by
  have hmove {removed last : Member} {home : Team} (hout : team.TakesOut member removed [last])
      (hchoice : picked? pick (others team roster) = some home) :
      (redistribute team member roster).resolve pick =
        rehome (team.relist [last]) removed last (some home) := by
    rw [redistribute_of_one_left hout, TieBreak.resolve_map, resolve_pickSmallest, hchoice]
  cases h with
  | notListed absent => rw [redistribute_of_absent absent, TieBreak.resolve]
  | emptied removed out =>
      rw [redistribute_of_nobody_left out]
      rfl
  | large removed left out three =>
      have hlarge : decide (left.length ≤ 2) = false := decide_eq_false (by omega)
      rw [redistribute_of_two_le out (by omega), hlarge, TieBreak.resolve]
  | small removed left out two =>
      have hsmall : decide (left.length ≤ 2) = true := decide_eq_true (by omega)
      rw [redistribute_of_two_le out (by omega), hsmall, TieBreak.resolve]
  | stranded removed last out nowhere =>
      rw [redistribute_of_one_left out, nowhere]
      rfl
  | notActive removed last home out choice away =>
      rw [hmove out choice, rehome_some, Team.checkJoin_of_away away]
      rfl
  | alreadyListed removed last home out choice active listed =>
      rw [hmove out choice, rehome_some, Team.checkJoin_of_listed active listed]
      rfl
  | merged removed last home out choice active absent =>
      rw [hmove out choice, rehome_some, Team.checkJoin_eq_ok.2 ⟨active, absent⟩]
      rfl

/-- The table covers every removal. -/
theorem exists_result (team : Team) (member : Ident) (roster : List Team) (pick : Nat → Nat) :
    ∃ result, Removal team member roster pick result := by
  by_cases hlisted : member ∈ team.memberIds
  · obtain ⟨removed, left, hout⟩ := Team.exists_takesOut_iff.2 hlisted
    match left, hout with
    | [], hout => exact ⟨_, .emptied removed hout⟩
    | [last], hout =>
        by_cases hnowhere : others team roster = []
        · exact ⟨_, .stranded removed last hout hnowhere⟩
        · obtain ⟨home, hchoice⟩ := exists_picked? hnowhere pick
          by_cases hactive : last.status = .active
          · by_cases hin : last.id ∈ home.memberIds
            · exact ⟨_, .alreadyListed removed last home hout hchoice hactive hin⟩
            · exact ⟨_, .merged removed last home hout hchoice hactive hin⟩
          · exact ⟨_, .notActive removed last home hout hchoice hactive⟩
    | [x, y], hout => exact ⟨_, .small removed [x, y] hout rfl⟩
    | x :: y :: z :: rest, hout =>
        exact ⟨_, .large removed (x :: y :: z :: rest) hout (by simp only [List.length_cons]; omega)⟩
  · exact ⟨_, .notListed hlisted⟩

/-- Only a member who is not in the team is not listed. -/
theorem absent_of_notListed {id other : Ident}
    (h : Removal team member roster pick (.error (.notListed id other))) :
    member ∉ team.memberIds := by
  cases h with
  | notListed absent => exact absent

/-- The member who is reported is the one who was taken out; a member who is stranded or moves is
among those who are left. -/
theorem reports {r : Redistribution} (h : Removal team member roster pick (.ok r)) :
    ∃ left, team.TakesOut member r.removed left ∧
      ∀ x, r.outcome = .stranded x ∨ x ∈ r.composition.moved → x ∈ left := by
  cases h with
  | emptied removed out => exact ⟨[], out, by simp [Composition.moved]⟩
  | large removed left out three => exact ⟨left, out, by simp [Composition.moved]⟩
  | small removed left out two => exact ⟨left, out, by simp [Composition.moved]⟩
  | stranded removed last out nowhere =>
      exact ⟨[last], out, by simp [Composition.moved, eq_comm]⟩
  | merged removed last home out choice active absent =>
      exact ⟨[last], out, by simp [Composition.moved]⟩

end Removal

/-- A removal gives what stands in the table, and nothing else. -/
theorem resolve_redistribute_iff {result : Except RuleError Redistribution} :
    (redistribute team member roster).resolve pick = result ↔
      Removal team member roster pick result := by
  constructor
  · rintro rfl
    obtain ⟨result, hresult⟩ := Removal.exists_result team member roster pick
    rw [hresult.resolve]
    exact hresult
  · exact Removal.resolve

/-- The law of a removal. It gives what stands in the table, and nothing else; it says that the member is
not listed exactly if this is so; where other teams have room, the team that is picked is one of them,
and none of them is smaller. The member who is reported is the first of the id in the team, and never
the one who is stranded or moves, who stands at another position. -/
theorem removal_law (team : Team) (member : Ident) (roster : List Team) (pick : Nat → Nat) :
    (∀ result, (redistribute team member roster).resolve pick = result ↔
      Removal team member roster pick result) ∧
    ((∃ id other, (redistribute team member roster).resolve pick = .error (.notListed id other)) ↔
      member ∉ team.memberIds) ∧
    (others team roster ≠ [] → ∃ home ∈ others team roster,
      picked? pick (others team roster) = some home ∧
        ∀ t ∈ others team roster, home.size ≤ t.size) ∧
    ∀ r, (redistribute team member roster).resolve pick = .ok r →
      ∃ n : Nat, team.members[n]? = some r.removed ∧ r.removed.id = member ∧
        (∀ k < n, ∀ x : Member, team.members[k]? = some x → x.id ≠ member) ∧
        ∀ x, r.outcome = .stranded x ∨ x ∈ r.composition.moved →
          ∃ k : Nat, k ≠ n ∧ team.members[k]? = some x := by
  refine ⟨fun result => resolve_redistribute_iff, ?_, ?_, ?_⟩
  · constructor
    · rintro ⟨id, other, hrefused⟩
      exact (resolve_redistribute_iff.1 hrefused).absent_of_notListed
    · intro habsent
      exact ⟨member, team.id, (Removal.notListed habsent).resolve⟩
  · intro hhomes
    obtain ⟨home, hchoice⟩ := exists_picked? hhomes pick
    obtain ⟨hmem, hleast⟩ := mem_fewest.1 (mem_of_picked? hchoice)
    exact ⟨home, hmem, hchoice, hleast⟩
  · intro r hr
    obtain ⟨left, hout, hleft⟩ := (resolve_redistribute_iff.1 hr).reports
    obtain ⟨n, hn, rfl, hfirst⟩ := hout.exists_position
    obtain ⟨hid, -⟩ := Team.remove_spec (Team.takesOut_iff.1 hout)
    refine ⟨n, hn, hid, hfirst, ?_⟩
    intro x hx
    exact List.mem_eraseIdx_iff_getElem?.1 (hleft x hx)

end TeamRoster
