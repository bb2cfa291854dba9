import TeamRoster.Proofs.Composition.Placement

/-!
# When a team takes a member in

`Arrival` lists what can become of a team that a member joins; here is said when a member can join at
all. Main statements: `Team.exists_intake_iff_divisible`, for teams of any size, and
`Team.exists_intake_iff`. A team of three or fewer takes everybody in who is active and not in it yet,
and a team of four does if its name leaves room for the name of the team that splits off.
-/

namespace TeamRoster

namespace TeamName

variable {s : String} {n half : TeamName}

/-- A text is taken as a name only unchanged. -/
theorem ofText_eq_ok : ofText s = .ok n ↔ n.text = s := by
  constructor
  · intro h
    unfold ofText at h
    split at h
    · cases h
    · split at h
      · split at h
        · cases h
          rfl
        · cases h
      · cases h
  · rintro rfl
    exact ofText_text n

/-- The letters of the ending that the name of a split-off team gets. -/
theorem letters_split : "Split".toList.all Text.isLetter = true := by
  decide +kernel

/-- There is a name for the team that splits off exactly if five more letters fit. -/
theorem exists_split_iff : (∃ half, n.split = .ok half) ↔ n.text.length ≤ 15 := by
  have hlength : (n.text ++ "Split").length = n.text.length + 5 :=
    String.length_append n.text "Split"
  constructor
  · rintro ⟨half, hhalf⟩
    have hfits := half.length_le
    rw [ofText_eq_ok.1 hhalf, hlength] at hfits
    omega
  · intro hfits
    have hempty : n.text ++ "Split" ≠ "" := by
      intro h
      rw [h] at hlength
      have hnone : "".length = 0 := rfl
      omega
    have hletters : (n.text ++ "Split").toList.all Text.isLetter = true := by
      rw [String.toList_append, List.all_append, n.letters, letters_split]
      rfl
    exact ⟨⟨n.text ++ "Split", hempty, hletters, by omega⟩, ofText_eq_ok.2 rfl⟩

end TeamName

namespace Team

variable {t : Team} {m : Member} {name : TeamName}

/-- Active members who are all different are a draft if there are two to four of them. -/
theorem Draft.ofMembers_eq_ok {ms : List Member} :
    (∃ d, Draft.ofMembers name ms = .ok d) ↔
      2 ≤ ms.length ∧ ms.length ≤ 4 ∧ (∀ m ∈ ms, m.status = .active) ∧ (ms.map Member.id).Nodup := by
  constructor
  · rintro ⟨d, hd⟩
    obtain ⟨-, rfl⟩ := Draft.of_ofMembers hd
    exact ⟨d.two_le, d.le_four, d.active, d.nodup⟩
  · rintro ⟨htwo, hfour, hactive, hnodup⟩
    have hjoinable : firstProblem? [] ms = none :=
      firstProblem?_eq_none.2 ⟨hactive, hnodup, fun m _ => List.not_mem_nil⟩
    refine ⟨⟨name, ms, htwo, hfour, hjoinable⟩, ?_⟩
    unfold Draft.ofMembers
    rw [dif_pos ⟨htwo, hfour⟩]
    split
    · rfl
    · rename_i problem hproblem
      rw [hjoinable] at hproblem
      cases hproblem

/-- A team can be divided if both halves are of a size that a team may have, there is a name for the
second half, and the members of the second half are a draft. -/
structure Divisible (t : Team) : Prop where
  five_le : 5 ≤ t.size
  le_eight : t.size ≤ 8
  name : t.name.text.length ≤ 15
  active : ∀ x ∈ t.members.drop (t.size / 2), x.status = .active
  nodup : ((t.members.drop (t.size / 2)).map Member.id).Nodup

theorem length_drop_half (t : Team) :
    (t.members.drop (t.size / 2)).length = t.size - t.size / 2 :=
  List.length_drop

/-- A team splits exactly if it can be divided. -/
theorem exists_split_iff : (∃ parts, t.split = .ok (some parts)) ↔ t.Divisible := by
  constructor
  · rintro ⟨⟨kept, draft⟩, hsplit⟩
    obtain ⟨hfive, -, hmembers, hname⟩ := split_eq_some hsplit
    refine ⟨hfive, ?_, TeamName.exists_split_iff.1 ⟨_, hname⟩, hmembers ▸ draft.active,
      hmembers ▸ draft.nodup⟩
    have hfour := draft.le_four
    rw [hmembers, length_drop_half] at hfour
    omega
  · intro h
    have hfive := h.five_le
    have height := h.le_eight
    obtain ⟨name, hname⟩ := TeamName.exists_split_iff.2 h.name
    have hdraft : ∃ draft, Draft.ofMembers name (t.members.drop (t.size / 2)) = .ok draft := by
      rw [Draft.ofMembers_eq_ok, length_drop_half]
      exact ⟨by omega, by omega, h.active, h.nodup⟩
    obtain ⟨draft, hdraft⟩ := hdraft
    refine ⟨(t.relist (t.members.take (t.size / 2)), draft), ?_⟩
    have hneeds : t.needsSplitting = true := decide_eq_true hfive
    unfold split
    rw [if_pos hneeds, hname, Failing.ok_bind, hdraft]
    rfl

/-- A team that a member has joined. -/
def enlarged (t : Team) (m : Member) : Team :=
  t.relist (t.members ++ [m])

@[simp] theorem size_enlarged (t : Team) (m : Member) : (t.enlarged m).size = t.size + 1 := by
  simp [enlarged, size]

/-- A member who may join is taken in exactly if the team does not have to split then, or can be
divided. -/
theorem exists_intake_iff_divisible : (∃ i, t.intake m = .ok i) ↔
    m.status = .active ∧ m.id ∉ t.memberIds ∧ (t.size + 1 ≤ 4 ∨ (t.enlarged m).Divisible) := by
  constructor
  · rintro ⟨i, hi⟩
    obtain ⟨grown, hgrown, hhalves⟩ := Failing.bind_eq_ok.1 hi
    obtain ⟨hactive, habsent, rfl⟩ := add_eq_ok.1 hgrown
    obtain ⟨halves, hsplit, -⟩ := Failing.bind_eq_ok.1 hhalves
    refine ⟨hactive, habsent, ?_⟩
    cases halves with
    | none =>
        have hsmall : (t.enlarged m).size < 5 := split_eq_none.1 hsplit
        rw [size_enlarged] at hsmall
        exact .inl (by omega)
    | some parts => exact .inr (exists_split_iff.1 ⟨parts, hsplit⟩)
  · rintro ⟨hactive, habsent, hspace⟩
    have hadd : t.add m = .ok (t.enlarged m) := add_eq_ok.2 ⟨hactive, habsent, rfl⟩
    unfold intake
    rw [hadd, Failing.ok_bind]
    rcases hspace with hroom | hdivisible
    · have hsplit : (t.enlarged m).split = .ok none :=
        split_eq_none.2 (by rw [size_enlarged]; omega)
      rw [hsplit]
      exact ⟨_, rfl⟩
    · obtain ⟨parts, hsplit⟩ := exists_split_iff.2 hdivisible
      rw [hsplit]
      exact ⟨_, rfl⟩

/-- A full team of active members who are all different can be divided after somebody else joined, if
there is a name for the team that splits off. -/
theorem divisible_enlarged (hactive : m.status = .active) (habsent : m.id ∉ t.memberIds)
    (hfull : t.size = 4) (hall : ∀ x ∈ t.members, x.status = .active) (hnodup : t.memberIds.Nodup)
    (hname : t.name.text.length ≤ 15) : (t.enlarged m).Divisible := by
  have hsize := t.size_enlarged m
  have hgrown : ((t.members ++ [m]).map Member.id).Nodup := nodup_ids_concat.2 ⟨hnodup, habsent⟩
  refine ⟨by omega, by omega, hname, ?_, ?_⟩
  · intro x hx
    rcases List.mem_append.1 (List.mem_of_mem_drop hx) with hx | hx
    · exact hall x hx
    · rw [List.mem_singleton.1 hx, hactive]
  · exact hgrown.sublist ((List.drop_sublist _ _).map Member.id)

/-- A team of at most four active members who are all different takes in just those who are active and
not in it, if it has room or there is a name for the team that splits off. -/
theorem exists_intake_iff (hfour : t.size ≤ 4) (hall : ∀ x ∈ t.members, x.status = .active)
    (hnodup : t.memberIds.Nodup) :
    (∃ i, t.intake m = .ok i) ↔
      m.status = .active ∧ m.id ∉ t.memberIds ∧ (t.size ≤ 3 ∨ t.name.text.length ≤ 15) := by
  rw [exists_intake_iff_divisible]
  refine and_congr_right fun hactive => and_congr_right fun habsent => ?_
  constructor
  · rintro (hroom | hdivisible)
    · exact .inl (by omega)
    · exact .inr hdivisible.name
  · intro hspace
    by_cases hroom : t.size ≤ 3
    · exact .inl (by omega)
    · exact .inr (divisible_enlarged hactive habsent (by omega) hall hnodup
        (hspace.resolve_left hroom))

end Team

end TeamRoster
