import TeamRoster.Proofs.Composition.Admission
import TeamRoster.Proofs.Team.InPlace

/-!
# What becomes of a team that a member joins

A team of any size that takes a member in grows, or falls into two halves. Main statement:
`intake_law`. It says when a member is taken in, what the team or its halves are then, and that nothing
has been written where a team was to be split in place and is not.
-/

namespace TeamRoster

/-- The two halves of a team that a member joined. -/
structure Halves (t : Team) (m : Member) (kept new : Team) : Prop where
  /-- Nobody is lost, and the order is kept. -/
  members : kept.members ++ new.members = t.members ++ [m]
  id : kept.id = t.id
  name : kept.name = t.name
  /-- The first half stays, rounded down. -/
  size : kept.size = (t.size + 1) / 2
  newName : new.name.text = t.name.text ++ "Split"
  newest : new.members.getLast? = some m
  bounds : 2 ≤ kept.size ∧ kept.size ≤ 4 ∧ 2 ≤ new.size ∧ new.size ≤ 4

/-- A team that takes a member in grows if it has room, and falls into two halves otherwise. -/
theorem Arrival.halves {t : Team} {m : Member} {i : Intake} (h : Arrival t m i) (birth : Birth) :
    (t.size + 1 ≤ 4 ∧ i.compose birth = .unchanged (t.enlarged m)) ∨
      (5 ≤ t.size + 1 ∧ ∃ kept new, i.compose birth = .split kept new new.members ∧
        Halves t m kept new) := by
  cases h with
  | fits room => exact .inl ⟨room, rfl⟩
  | overflows draft full members name =>
      refine .inr ⟨by omega, _, draft.form birth, rfl, ?_⟩
      have hlength : t.members.length = t.size := rfl
      have hkept : (t.members.take ((t.size + 1) / 2)).length = (t.size + 1) / 2 := by
        rw [List.length_take, hlength]
        omega
      have hnew : draft.members.length = t.size + 1 - (t.size + 1) / 2 := by
        rw [members, List.length_append, List.length_drop, List.length_singleton, hlength]
        omega
      have htwo := draft.two_le
      have hfour := draft.le_four
      exact {
        members := calc
          t.members.take ((t.size + 1) / 2) ++ draft.members =
              t.members.take ((t.size + 1) / 2) ++
                (t.members.drop ((t.size + 1) / 2) ++ [m]) := by rw [members]
          _ = t.members ++ [m] := by rw [← List.append_assoc, List.take_append_drop]
        id := rfl
        name := rfl
        size := hkept
        newName := TeamName.ofText_eq_ok.1 name
        newest := by
          rw [Team.Draft.form_members, members, List.getLast?_concat]
        bounds := by
          simp only [Team.size, Team.relist_members, Team.Draft.form_members] at full hkept hnew ⊢
          omega }

/-- A team that was to be split in place and is not is still whole, and so are all others. -/
theorem Family.on_split_whole {t : Team} (hwhole : ∀ parts, t.split ≠ .ok (some parts)) (f : Family)
    (n : Nat) (birth : Birth) :
    (Mutation.split n t birth).on f = (t.split.map fun _ => .parted none, f) := by
  rw [on_split]
  cases hsplit : t.split with
  | error e => rfl
  | ok parts =>
      cases parts with
      | none => rfl
      | some parts => exact absurd hsplit (hwhole parts)

theorem Team.divisible_enlarged_iff {t : Team} {m : Member} : (t.enlarged m).Divisible ↔
    5 ≤ t.size + 1 ∧ t.size + 1 ≤ 8 ∧ t.name.text.length ≤ 15 ∧
      (∀ x ∈ (t.members ++ [m]).drop ((t.size + 1) / 2), x.status = .active) ∧
      (((t.members ++ [m]).drop ((t.size + 1) / 2)).map Member.id).Nodup := by
  rw [← t.size_enlarged m]
  constructor
  · rintro ⟨hfive, height, hname, hactive, hnodup⟩
    exact ⟨hfive, height, hname, hactive, hnodup⟩
  · rintro ⟨hfive, height, hname, hactive, hnodup⟩
    exact ⟨hfive, height, hname, hactive, hnodup⟩

/-- The law of additions. A team takes in whoever is active and not in it, as long as it has at most four
members then, or five to eight of whom the second half are active and all different, and a name of at
most 15 characters. Up to four members it stays one team with the newcomer at the end; from five on it
falls into two halves. A team of fewer than five does not split. A split in place, one check and one
write after the other, that gives no second team or fails has written nothing: the team and those beside
it are as they were, and nobody has left before there was another team to be in. -/
theorem intake_law (t : Team) (m : Member) (birth : Birth) :
    ((∃ c, (t.intake m).map (Intake.compose birth) = .ok c) ↔
      m.status = .active ∧ m.id ∉ t.memberIds ∧
        (t.size + 1 ≤ 4 ∨ 5 ≤ t.size + 1 ∧ t.size + 1 ≤ 8 ∧ t.name.text.length ≤ 15 ∧
          (∀ x ∈ (t.members ++ [m]).drop ((t.size + 1) / 2), x.status = .active) ∧
          (((t.members ++ [m]).drop ((t.size + 1) / 2)).map Member.id).Nodup)) ∧
    (∀ c, (t.intake m).map (Intake.compose birth) = .ok c →
      (t.size + 1 ≤ 4 ∧ c = .unchanged (t.relist (t.members ++ [m]))) ∨
        (5 ≤ t.size + 1 ∧ ∃ kept new, c = .split kept new new.members ∧ Halves t m kept new)) ∧
    (t.split = .ok none ↔ t.size < 5) ∧
    ∀ (f : Family) (n : Nat), (∀ parts, t.split ≠ .ok (some parts)) →
      (Mutation.split n t birth).on f = (t.split.map fun _ => .parted none, f) := by
  refine ⟨?_, ?_, Team.split_eq_none, fun f n hwhole => Family.on_split_whole hwhole f n birth⟩
  · rw [← Team.divisible_enlarged_iff, ← Team.exists_intake_iff_divisible]
    constructor
    · rintro ⟨c, hc⟩
      obtain ⟨i, hi, -⟩ := Failing.map_eq_ok.1 hc
      exact ⟨i, hi⟩
    · rintro ⟨i, hi⟩
      exact ⟨i.compose birth, Failing.map_eq_ok.2 ⟨i, hi, rfl⟩⟩
  · intro c hc
    obtain ⟨i, hi, rfl⟩ := Failing.map_eq_ok.1 hc
    obtain ⟨-, -, harrival⟩ := Team.intake_eq_ok hi
    exact harrival.halves birth

end TeamRoster
