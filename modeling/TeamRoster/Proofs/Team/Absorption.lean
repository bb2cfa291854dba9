import TeamRoster.Ident.Random
import TeamRoster.Proofs.Team.InPlace
import TeamRoster.Proofs.Team.Operations

/-!
# Absorbing a team and adding its members

A team that absorbs another one checks all members against the members that it had before; adding them
one after the other checks each also against those who were just added. Main statement:
`absorb_eq_addAll_iff`. The two come to the same exactly if nobody is listed twice among the members up
to the first one who is refused; a team that lists somebody twice is absorbed as it is.
-/

namespace TeamRoster

namespace Team

variable {destination source t u : Team} {m : Member} {before ms : List Member} {e : RuleError}

/-- Add members one after the other, until one is refused. -/
def addAll (t : Team) (ms : List Member) : Except RuleError Team :=
  ms.foldlM add t

@[simp] theorem addAll_nil (t : Team) : t.addAll [] = .ok t := rfl

@[simp] theorem addAll_cons (t : Team) (m : Member) (ms : List Member) :
    t.addAll (m :: ms) = t.add m >>= fun grown => grown.addAll ms := rfl

/-- Whether a member may join a team. -/
def takes (t : Team) (m : Member) : Bool :=
  decide (m.status = .active ∧ m.id ∉ t.memberIds)

theorem takes_iff : t.takes m = true ↔ m.status = .active ∧ m.id ∉ t.memberIds :=
  decide_eq_true_iff

/-- A team with members added at the end. -/
def extended (t : Team) (ms : List Member) : Team :=
  t.relist (t.members ++ ms)

@[simp] theorem extended_nil (t : Team) : t.extended [] = t := by
  simp [extended, relist]

@[simp] theorem memberIds_extended (t : Team) (ms : List Member) :
    (t.extended ms).memberIds = t.memberIds ++ ms.map Member.id := by
  simp [extended, memberIds]

/-- A member who may join and is not among those who were added is added. -/
theorem add_extended (htakes : t.takes m = true) (hfresh : m.id ∉ before.map Member.id) :
    (t.extended before).add m = .ok (t.extended (before ++ [m])) := by
  obtain ⟨hactive, habsent⟩ := takes_iff.1 htakes
  refine add_eq_ok.2 ⟨hactive, ?_, by simp [extended, relist]⟩
  rw [memberIds_extended, List.mem_append, not_or]
  exact ⟨habsent, hfresh⟩

/-- A member who was just added is refused. -/
theorem add_extended_again (htakes : t.takes m = true) (hagain : m.id ∈ before.map Member.id) :
    (t.extended before).add m = .error (.alreadyListed m.id) := by
  have hlisted : m.id ∈ (t.extended before).memberIds := by
    rw [memberIds_extended]
    exact List.mem_append_right _ hagain
  rw [add, checkJoin_of_listed (takes_iff.1 htakes).1 hlisted]
  rfl

/-- A member who may not join is refused for the same reason after others were added. -/
theorem checkJoin_extended (hrefused : t.takes m = false) (before : List Member) :
    (t.extended before).checkJoin m = t.checkJoin m := by
  by_cases hactive : m.status = .active
  · have hlisted : m.id ∈ t.memberIds := by
      by_contra habsent
      exact Bool.false_ne_true (hrefused.symm.trans (takes_iff.2 ⟨hactive, habsent⟩))
    have hlisted' : m.id ∈ (t.extended before).memberIds := by
      rw [memberIds_extended]
      exact List.mem_append_left _ hlisted
    rw [checkJoin_of_listed hactive hlisted, checkJoin_of_listed hactive hlisted']
  · rw [checkJoin_of_away hactive, checkJoin_of_away hactive]

theorem exists_refusal (hrefused : t.takes m = false) : ∃ e, t.checkJoin m = .error e := by
  cases hcheck : t.checkJoin m with
  | error e => exact ⟨e, rfl⟩
  | ok done =>
      have htakes := takes_iff.2 (checkJoin_eq_ok.1 hcheck)
      rw [hrefused] at htakes
      cases htakes

/-- Whoever is the last one of a list without repetition does not come before. -/
theorem fresh_of_nodup {after : List Member}
    (hnodup : ((before ++ [m] ++ after).map Member.id).Nodup) : m.id ∉ before.map Member.id := by
  rw [List.map_append] at hnodup
  exact (nodup_ids_concat.1 hnodup.of_append_left).2

/-- As long as nobody comes twice, adding one after the other is checking all against the members at
first. The induction is on those who are still to be added, with those who were added at the end of the
team. -/
theorem addAll_extended (before : List Member)
    (hnodup : ((before ++ ms.takeWhile t.takes).map Member.id).Nodup) :
    (t.extended before).addAll ms = (ms.forM t.checkJoin).map fun _ => t.extended (before ++ ms) := by
  induction ms generalizing before with
  | nil =>
      rw [addAll_nil, List.append_nil]
      rfl
  | cons m ms ih =>
      rw [addAll_cons]
      cases htakes : t.takes m with
      | false =>
          obtain ⟨e, he⟩ := exists_refusal htakes
          have hadd : (t.extended before).add m = .error e := by
            rw [add, checkJoin_extended htakes, he]
            rfl
          rw [hadd]
          simp [he, Except.map]
      | true =>
          rw [List.takeWhile_cons_of_pos htakes, List.append_cons] at hnodup
          rw [add_extended htakes (fresh_of_nodup hnodup), Failing.ok_bind, ih _ hnodup,
            ← List.append_cons]
          simp [checkJoin_eq_ok.2 (takes_iff.1 htakes)]

/-- Where somebody comes twice before anybody is refused, the second time is refused: the member is not
in the team at first. -/
theorem addAll_extended_repeated (before : List Member) (hbefore : (before.map Member.id).Nodup)
    (hrepeated : ¬ ((before ++ ms.takeWhile t.takes).map Member.id).Nodup) :
    ∃ id, id ∉ t.memberIds ∧ (t.extended before).addAll ms = .error (.alreadyListed id) := by
  induction ms generalizing before with
  | nil =>
      rw [List.takeWhile_nil, List.append_nil] at hrepeated
      exact absurd hbefore hrepeated
  | cons m ms ih =>
      cases htakes : t.takes m with
      | false =>
          have hstop : ¬ t.takes m = true := by simp [htakes]
          rw [List.takeWhile_cons_of_neg hstop, List.append_nil] at hrepeated
          exact absurd hbefore hrepeated
      | true =>
          rw [List.takeWhile_cons_of_pos htakes, List.append_cons] at hrepeated
          rw [addAll_cons]
          by_cases hagain : m.id ∈ before.map Member.id
          · refine ⟨m.id, (takes_iff.1 htakes).2, ?_⟩
            rw [add_extended_again htakes hagain]
            rfl
          · rw [add_extended htakes hagain, Failing.ok_bind]
            exact ih _ (nodup_ids_concat.2 ⟨hbefore, hagain⟩) hrepeated

/-- Nobody is refused as listed who is not. -/
theorem checkJoin_ne {id : Ident} (habsent : id ∉ t.memberIds) (m : Member) :
    t.checkJoin m ≠ .error (.alreadyListed id) := by
  intro hcheck
  by_cases hactive : m.status = .active
  · by_cases hlisted : m.id ∈ t.memberIds
    · rw [checkJoin_of_listed hactive hlisted] at hcheck
      cases hcheck
      exact habsent hlisted
    · rw [checkJoin_eq_ok.2 ⟨hactive, hlisted⟩] at hcheck
      cases hcheck
  · rw [checkJoin_of_away hactive] at hcheck
    cases hcheck

theorem forM_checkJoin_ne {id : Ident} (habsent : id ∉ t.memberIds) (ms : List Member) :
    ms.forM t.checkJoin ≠ .error (.alreadyListed id) := by
  induction ms with
  | nil =>
      intro h
      cases h
  | cons m ms ih =>
      intro h
      cases hcheck : t.checkJoin m with
      | error e =>
          refine checkJoin_ne habsent m (hcheck.trans ?_)
          simpa [hcheck] using h
      | ok done =>
          apply ih
          simpa [hcheck] using h

/-- All members of a list pass exactly if each of them may join the team as it is. -/
theorem forM_checkJoin_eq_ok :
    ms.forM t.checkJoin = .ok () ↔ ∀ m ∈ ms, m.status = .active ∧ m.id ∉ t.memberIds := by
  induction ms with
  | nil => simp
  | cons m ms ih =>
      rw [List.forall_mem_cons, ← ih, ← checkJoin_eq_ok]
      cases hcheck : t.checkJoin m <;> simp [hcheck]

/-- Two teams after the members of one were added to the other, which has grown. -/
def Absorbed.ofGrown (source grown : Team) : Absorbed :=
  ⟨grown, source.relist [], source.members⟩

theorem absorb_eq_map (destination source : Team) : destination.absorb source =
    (source.members.forM destination.checkJoin).map fun _ =>
      .ofGrown source (destination.extended source.members) := by
  unfold absorb
  cases source.members.forM destination.checkJoin <;> rfl

/-- A team is absorbed exactly if each of its members may join the destination as it is. -/
theorem absorb_eq_ok {after : Absorbed} : destination.absorb source = .ok after ↔
    (∀ m ∈ source.members, m.status = .active ∧ m.id ∉ destination.memberIds) ∧
      after = .ofGrown source (destination.extended source.members) := by
  rw [absorb_eq_map, ← forM_checkJoin_eq_ok, Failing.map_eq_ok]
  constructor
  · rintro ⟨done, hcheck, rfl⟩
    exact ⟨hcheck, rfl⟩
  · rintro ⟨hcheck, rfl⟩
    exact ⟨(), hcheck, rfl⟩

/-- If nobody comes twice up to the first who is refused, a team is absorbed as its members are added. -/
theorem absorb_eq_addAll
    (hnodup : ((source.members.takeWhile destination.takes).map Member.id).Nodup) :
    destination.absorb source = (destination.addAll source.members).map (.ofGrown source) := by
  have hadd := addAll_extended [] hnodup
  rw [extended_nil, List.nil_append] at hadd
  rw [absorb_eq_map, hadd]
  cases source.members.forM destination.checkJoin <;> rfl

/-- If somebody comes twice before anybody is refused, adding fails for a reason for which absorbing
does not. -/
theorem absorb_ne_addAll
    (hrepeated : ¬ ((source.members.takeWhile destination.takes).map Member.id).Nodup) :
    destination.absorb source ≠ (destination.addAll source.members).map (.ofGrown source) := by
  obtain ⟨id, habsent, hadd⟩ := addAll_extended_repeated [] List.nodup_nil hrepeated
  rw [extended_nil] at hadd
  rw [absorb_eq_map, hadd]
  intro h
  apply forM_checkJoin_ne habsent source.members
  cases hcheck : source.members.forM destination.checkJoin with
  | error e =>
      rw [hcheck] at h
      cases h
      rfl
  | ok done =>
      rw [hcheck] at h
      cases h

end Team

/-- A team absorbs another one in place, or both and all others are as they were. -/
theorem Family.on_absorb_eq {n k : Nat} (hne : n ≠ k) (f : Family) (destination source : Team) :
    (Mutation.absorb n k destination source).on f =
      match destination.absorb source with
      | .ok after => (.ok (.moved after.moved), (f.put n after.destination).put k after.source)
      | .error e => (.error e, f) := by
  rw [on_absorb hne]
  cases destination.absorb source <;> rfl

/-- Absorbing a team is adding its members one after the other exactly if nobody comes twice among them
up to the first one who is refused: then it goes through exactly if all additions do, the destination is
what they make of it, the source is left without members, its former members are given back, and a
refusal is that of the first addition which is refused. Absorbing goes through exactly if each of the
members may join the destination as it is before, and appends them all, whoever comes twice. Carried out
in place, one check and one write after the other, it changes the two teams together or not at all. -/
theorem absorb_eq_addAll_iff (destination source : Team) :
    (destination.absorb source = (destination.addAll source.members).map (.ofGrown source) ↔
      ((source.members.takeWhile destination.takes).map Member.id).Nodup) ∧
    (∀ after, destination.absorb source = .ok after ↔
      (∀ m ∈ source.members, m.status = .active ∧ m.id ∉ destination.memberIds) ∧
        after = .ofGrown source (destination.extended source.members)) ∧
    ∀ (f : Family) (n k : Nat), n ≠ k →
      (Mutation.absorb n k destination source).on f =
        match destination.absorb source with
        | .ok after => (.ok (.moved after.moved), (f.put n after.destination).put k after.source)
        | .error e => (.error e, f) := by
  refine ⟨⟨?_, Team.absorb_eq_addAll⟩, fun after => Team.absorb_eq_ok,
    fun f n k hne => Family.on_absorb_eq hne f destination source⟩
  intro hsame
  by_contra hrepeated
  exact Team.absorb_ne_addAll hrepeated hsame

section Doubled

/-- An active member. -/
def kim (n : Nat) : Member where
  id := .ofRandom n
  name := ⟨"Kim", by decide, by decide, by decide +kernel⟩
  email := ⟨"kim@example.org", by decide +kernel⟩
  status := .active
  createdAt := .ofSeconds 0

/-- A team of two. -/
def owls : Team where
  id := .ofRandom 10
  name := ⟨"Owls", by decide, by decide +kernel, by decide⟩
  members := [kim 0, kim 1]
  createdAt := .ofSeconds 0

/-- A team that was stored with the same member twice. -/
def doubled : Team where
  id := .ofRandom 11
  name := ⟨"Bees", by decide, by decide +kernel, by decide⟩
  members := [kim 2, kim 2]
  createdAt := .ofSeconds 0

/-- A team that lists somebody twice is absorbed as it is, while the second addition is refused. -/
theorem absorb_doubled :
    owls.absorb doubled =
      .ok ⟨owls.relist [kim 0, kim 1, kim 2, kim 2], doubled.relist [], [kim 2, kim 2]⟩ ∧
    owls.addAll doubled.members = .error (.alreadyListed (kim 2).id) ∧
    owls.absorb doubled ≠ (owls.addAll doubled.members).map (.ofGrown doubled) := by
  decide +kernel

end Doubled

end TeamRoster
