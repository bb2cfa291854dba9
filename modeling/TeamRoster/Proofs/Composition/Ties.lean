import TeamRoster.Proofs.Composition.Removal
import TeamRoster.Proofs.Dialogue
import TeamRoster.Workflow.Plan

/-!
# What an answer to a tie decides

`ChoosesFewest` says of a value that it rests on one team, and on which one: where there are teams to
choose from, the one who breaks ties is asked once, and the answer counts along those of them with the
fewest members. Main statement: `smallest_team_chosen`. Removals that leave one member behind and
assignments choose like this, other removals and additions ask nothing.
-/

namespace TeamRoster

variable {candidates : List Team} {pick : Nat → Nat}

/-- Where one team has the fewest members, every answer picks it. -/
theorem picked?_of_single (hone : (fewest candidates).length = 1) (pick pick' : Nat → Nat) :
    picked? pick candidates = picked? pick' candidates := by
  simp only [picked?, nth?, hone, Nat.sub_self, Nat.min_zero]

namespace TieBreak

variable {β : Type}

/-- The value rests on a team among the candidates with the fewest members. -/
structure ChoosesFewest (b : TieBreak β) (candidates : List Team) (nobody : β) (use : Team → β) :
    Prop where
  /-- Where there are no candidates, nothing is asked. -/
  nothing : candidates = [] → b.questions = [] ∧ ∀ pick, b.resolve pick = nobody
  /-- Where there are candidates, there is one question, among those with the fewest members. -/
  asked : candidates ≠ [] → b.questions = [(fewest candidates).length]
  /-- The answer counts along these, and beyond the last one it stands for the last one. -/
  used : candidates ≠ [] → ∀ pick, ∃ t,
    (fewest candidates)[min (pick (fewest candidates).length) ((fewest candidates).length - 1)]? =
      some t ∧ b.resolve pick = use t
  /-- Each of these is picked by some answer. -/
  reached : ∀ t ∈ fewest candidates, ∃ answer < (fewest candidates).length,
    b.resolve (fun _ => answer) = use t
  /-- Where there is one of these, the answer does not matter. -/
  settled : (fewest candidates).length = 1 → ∀ pick pick', b.resolve pick = b.resolve pick'

/-- What is made of the smallest team that was picked rests on this team. -/
theorem choosesFewest_map (f : Option Team → β) (candidates : List Team) :
    ((pickSmallest candidates).map f).ChoosesFewest candidates (f none) fun t => f (some t) where
  nothing := by
    rintro rfl
    exact ⟨rfl, fun _ => rfl⟩
  asked hsome := by
    rw [questions_map, questions_pickSmallest hsome]
  used hsome pick := by
    obtain ⟨t, ht⟩ := exists_picked? hsome pick
    refine ⟨t, ht, ?_⟩
    rw [resolve_map, resolve_pickSmallest, ht]
  reached t ht := by
    obtain ⟨answer, hlt, hanswer⟩ := exists_nth?_of_mem ht
    refine ⟨answer, hlt, ?_⟩
    rw [resolve_map, resolve_pickSmallest, picked?, hanswer]
  settled hone pick pick' := by
    rw [resolve_map, resolve_map, resolve_pickSmallest, resolve_pickSmallest,
      picked?_of_single hone pick pick']

end TieBreak

/-- A removal that does not leave one member behind asks nothing. -/
theorem questions_redistribute {team : Team} {member : Ident} {roster : List Team}
    (hnot : ¬ ∃ removed last, team.TakesOut member removed [last]) :
    (redistribute team member roster).questions = [] := by
  by_cases hlisted : member ∈ team.memberIds
  · obtain ⟨removed, left, hout⟩ := Team.exists_takesOut_iff.2 hlisted
    match left, hout with
    | [], hout =>
        rw [redistribute_of_nobody_left hout]
        rfl
    | [last], hout => exact absurd ⟨removed, last, hout⟩ hnot
    | x :: y :: rest, hout =>
        rw [redistribute_of_two_le hout (by simp only [List.length_cons]; omega)]
        rfl
  · rw [redistribute_of_absent hlisted]
    rfl

/-- Adding a member to a team asks for the birth of a team that splits off, and for nothing else. -/
theorem keeps_enlarge (team : Team) (m : Member) :
    (UseCase.ofRule (team.intake m) >>= Plan.compose).run.Keeps (fun q => q = .birth)
      fun _ => True := by
  cases team.intake m with
  | error e => trivial
  | ok i =>
      cases i with
      | fits grown => trivial
      | overflows kept draft => exact ⟨rfl, fun _ => trivial⟩

/-- Which teams there are to choose from, and which of them is taken. The last member who is left behind
by a removal moves to one of the other teams with one to three members, and an assignment goes to a team
with one to three members or, if there is none, to any that is not empty. The smallest of these is taken;
a tie is broken by one answer, whatever it is. Other removals and the addition to a given team ask
nothing. -/
theorem smallest_team_chosen (team : Team) (member : Ident) (m : Member) (roster : List Team) :
    (∀ removed last, team.TakesOut member removed [last] →
      (redistribute team member roster).ChoosesFewest (others team roster)
        (.ok ⟨.unchanged (team.relist [last]), removed, true, .stranded last⟩)
        fun home => (home.absorb (team.relist [last])).map fun after =>
          ⟨.merge after.destination after.source after.moved, removed, true, .merged⟩) ∧
    ((¬ ∃ removed last, team.TakesOut member removed [last]) →
      (redistribute team member roster).questions = []) ∧
    (assign m roster).ChoosesFewest (eligible roster) (.error .noOpenTeam)
      (fun home => home.intake m) ∧
    (UseCase.ofRule (team.intake m) >>= Plan.compose).run.Keeps (fun q => q = .birth)
      fun _ => True := by
  refine ⟨?_, questions_redistribute, ?_, keeps_enlarge team m⟩
  · intro removed last hout
    rw [redistribute_of_one_left hout]
    exact TieBreak.choosesFewest_map _ _
  · rw [assign, assignable_eq_eligible]
    exact TieBreak.choosesFewest_map _ _

end TeamRoster
