import TeamRoster.Proofs.Store.TeamEdits
import TeamRoster.Proofs.Workflow.Soundness

/-!
# Change sets that are tied to what was read

A change set is grounded on teams that were read if it expects them to be as they were read, touches no
others, and does what was decided wherever they are so. Main statements: `Grounded.rewritten` and
`Grounded.refused`. Nothing is supposed of the store on which it is committed: where it goes through,
nothing that the decision was made from had changed, and where something had, it is refused.
-/

namespace TeamRoster

/-- The team that an edit supposes to be there. -/
def Edit.target? : Edit → Option Ident
  | deleteTeam team | addMember team _ | removeMember team _ => some team
  | createTeam _ | setStatus _ _ _ => none

/-- The destination of a merge, as it was read. -/
def Redistribution.homes (r : Redistribution) (roster : List Team) : List Team :=
  match r.composition with
  | .merge destination _ _ => (Plan.stored? roster destination.id).toList
  | .unchanged _ | .split _ _ _ => []

/-- A change set that is tied to the teams that were read for it: they are expected to be as they were
read, no other team is touched, and where they are so, the teams are rewritten as was decided. A team
that splits off is to have the id `birth`. -/
structure ChangeSet.Grounded (c : ChangeSet) (birth : Ident) (d : Decision) (reads : List Team) :
    Prop where
  expects : c.expectations = reads.map fun t => (t.id, t.memberIds)
  targets (e : Edit) : e ∈ c.edits → ∀ id, e.target? = some id → id ∈ reads.map Team.id
  rewrites (s after : Store) : (∀ t ∈ reads, s.Meets (t.id, t.memberIds)) → s.teams.find? birth = none →
    s.applyAll c.edits = .ok after → s.Rewritten after d.rewrite

theorem Store.Meets.listOf {s : Store} {t : Team} (h : s.Meets (t.id, t.memberIds)) :
    s.listOf t.id = t.memberIds :=
  congrArg (fun found : Option (List Ident) => found.getD []) h

/-- All writes for a member who joins a team are about that team, or create one. -/
theorem Arrival.target_of_mem {t : Team} {m : Member} {i : Intake} {birth : Birth}
    (h : Arrival t m i) {e : Edit} (he : e ∈ (i.compose birth).edits t.memberIds m.id) {id : Ident}
    (hid : e.target? = some id) : id = t.id := by
  cases h with
  | fits room =>
      rw [List.mem_singleton.1 he] at hid
      exact (Option.some.inj hid).symm
  | overflows draft full members name =>
      rcases List.mem_append.1 he with he | he
      · rcases List.mem_cons.1 he with rfl | he
        · cases hid
        · obtain ⟨x, -, rfl⟩ := List.mem_map.1 he
          exact (Option.some.inj hid).symm
      · split at he
        · rw [List.mem_singleton.1 he] at hid
          exact (Option.some.inj hid).symm
        · cases he

namespace Departure

variable {t : Team} {roster : List Team} {removed : Member} {left : List Member}
  {r : Redistribution}

/-- Of the roster that was read, a removal needs the destination of the last member only. -/
theorem narrow (h : Departure t roster removed left r)
    (hfind : ∀ home ∈ roster, Plan.stored? roster home.id = some home) :
    Departure t (r.homes roster) removed left r := by
  cases h with
  | emptied => exact .emptied
  | stranded last alone => exact .stranded last rfl
  | small _ two => exact .small left two
  | normal _ more => exact .normal left more
  | moved last home homes active absent =>
      obtain ⟨hmem, hother, haccepts⟩ := mem_otherHomes.1 homes
      refine .moved last home (mem_otherHomes.2 ⟨?_, hother, haccepts⟩) active absent
      change home ∈ (Plan.stored? roster home.id).toList
      rw [hfind home hmem]
      exact List.mem_singleton_self home

/-- A removal expects of the team, and of the destination of the last member, what was read of them. -/
theorem expects (h : Departure t roster removed left r)
    (hfind : ∀ home ∈ roster, Plan.stored? roster home.id = some home) :
    (Surroundings.expectations t roster r.composition).expectations =
      (t :: r.homes roster).map fun u => (u.id, u.memberIds) := by
  cases h with
  | emptied => rfl
  | stranded last alone => rfl
  | small two => rfl
  | normal more => rfl
  | moved last home homes active absent =>
      obtain ⟨hmem, hother, -⟩ := mem_otherHomes.1 homes
      have hfound : Plan.stored? roster (home.relist (home.members ++ [last])).id = some home :=
        hfind home hmem
      have hnew : ((ChangeSet.empty.expect t).expectations.any fun e => e.1 == home.id) = false := by
        change (t.id == home.id || false) = false
        rw [Bool.or_false]
        exact beq_eq_false_iff_ne.2 hother.symm
      have hboth : ((ChangeSet.empty.expect t).expect home).expectations =
          [(t.id, t.memberIds), (home.id, home.memberIds)] := by
        rw [ChangeSet.expect, hnew]
        rfl
      change (Surroundings.expectations t roster (.merge _ _ _)).expectations =
        (t :: Option.toList _).map _
      simp only [Surroundings.expectations, hfound, hboth]
      rfl

/-- All writes for a removal are about the team or the destination of the last member. -/
theorem target_of_mem (h : Departure t roster removed left r)
    (hfind : ∀ home ∈ roster, Plan.stored? roster home.id = some home) {member : Ident} {e : Edit}
    (he : e ∈ r.edits t.id member) {id : Ident} (hid : e.target? = some id) :
    id ∈ (t :: r.homes roster).map Team.id := by
  have hteam (htarget : e.target? = some t.id) : id ∈ (t :: r.homes roster).map Team.id := by
    rw [← Option.some.inj (hid.symm.trans htarget).symm]
    exact List.mem_cons_self
  rcases List.mem_cons.1 he with rfl | he
  · exact hteam rfl
  · cases h with
    | emptied => exact hteam (List.mem_singleton.1 he ▸ rfl)
    | stranded last alone => cases he
    | small two => cases he
    | normal more => cases he
    | moved last home homes active absent =>
        obtain ⟨hmem, -, -⟩ := mem_otherHomes.1 homes
        have hfound : Plan.stored? roster (home.relist (home.members ++ [last])).id = some home :=
          hfind home hmem
        change e ∈ [.addMember home.id last.id, .deleteTeam t.id] at he
        rcases List.mem_cons.1 he with rfl | he
        · have hid' : id = home.id := (Option.some.inj hid).symm
          rw [hid', Redistribution.homes]
          simp only [Redistribution.needsMonitoringAndMerge, Redistribution.merged, hfound]
          exact List.mem_cons_of_mem _ List.mem_cons_self
        · exact hteam (List.mem_singleton.1 he ▸ rfl)

end Departure

namespace ChangeSet.Grounded

variable {c : ChangeSet} {birth : Ident} {d : Decision} {reads : List Team}

/-- The plan for a member who joins is grounded on the team that was read. -/
theorem of_arrival {t : Team} {m : Member} {i : Intake} {born : Birth} (h : Arrival t m i)
    (habsent : m.id ∉ t.memberIds) (hnodup : t.memberIds.Nodup) :
    (Surroundings.growth (ChangeSet.empty.expect t, t.memberIds) (i.compose born) m
      m.id).changes.Grounded born.id (.joined m.id (i.compose born)) [t] where
  expects := rfl
  targets e he id hid := by
    rw [h.target_of_mem he hid]
    exact List.mem_cons_self
  rewrites s after hmeets hnew happly := by
    have hlist := (hmeets t List.mem_cons_self).listOf
    exact (h.rewritten habsent hnodup hlist (fun _ => hnew) happly).1

/-- The plan for a member who leaves is grounded on the team and the destination that were read. -/
theorem of_departure {t : Team} {roster : List Team} {removed : Member} {shrunken : Team}
    {r : Redistribution} {member : Ident} (h : Departure t roster removed shrunken.members r)
    (hremove : t.remove member = .ok (removed, shrunken))
    (hfind : ∀ home ∈ roster, Plan.stored? roster home.id = some home) :
    (Surroundings.shrinkage (Surroundings.expectations t roster r.composition) r t.id
      member).changes.Grounded birth (.left r) (t :: r.homes roster) where
  expects := h.expects hfind
  targets e he id hid := by
    rw [Surroundings.edits_shrinkage, Surroundings.edits_expectations] at he
    exact h.target_of_mem hfind he hid
  rewrites s after hmeets _ happly := by
    rw [Surroundings.edits_shrinkage, Surroundings.edits_expectations] at happly
    obtain ⟨-, -, -, hleft, -⟩ := Team.remove_spec hremove
    have hlist := (hmeets t List.mem_cons_self).listOf
    have hhomes : ∀ home ∈ r.homes roster, s.listOf home.id = home.memberIds := by
      intro home hhome
      exact (hmeets home (List.mem_cons_of_mem t hhome)).listOf
    exact ((h.narrow hfind).rewritten hlist hleft hhomes happly).1

/-- Where nothing is read or written, nothing is tied. -/
theorem of_nothing : ChangeSet.empty.Grounded birth .untouched [] where
  expects := rfl
  targets e he := by cases he
  rewrites s after _ _ happly := by
    cases happly
    exact Store.rewritten_nothing fun _ => rfl

/-- A change of status at the end is about no team. -/
theorem push_status (h : c.Grounded birth d reads) (member : Ident) (before target : Status) :
    (c.push (.setStatus member before target)).Grounded birth d reads where
  expects := h.expects
  targets e he id hid := by
    rcases List.mem_append.1 he with he | he
    · exact h.targets e he id hid
    · rw [List.mem_singleton.1 he] at hid
      cases hid
  rewrites s after hmeets hnew happly := by
    change s.applyAll (c.edits ++ [.setStatus member before target]) = .ok after at happly
    rw [Store.applyAll_append, Failing.bind_eq_ok] at happly
    obtain ⟨mid, hmid, hrest⟩ := happly
    obtain ⟨last, hset, hdone⟩ := Failing.bind_eq_ok.1 hrest
    cases hdone
    obtain ⟨m, -, -, rfl⟩ := Store.apply_setStatus_eq_ok.1 hset
    exact (h.rewrites s mid hmeets hnew hmid).congr fun _ => rfl

variable {s : Store}

/-- What a grounded change set expects is that the teams are as they were read. -/
theorem meets_iff (h : c.Grounded birth d reads) :
    (∀ e ∈ c.expectations, s.Meets e) ↔ ∀ t ∈ reads, s.Meets (t.id, t.memberIds) := by
  rw [h.expects]
  exact List.forall_mem_map

/-- Where a grounded change set is committed, the teams were as they had been read, and the teams are
rewritten as was decided on these. -/
theorem rewritten (h : c.Grounded birth d reads) (hnew : s.teams.find? birth = none)
    (hcommit : (s.commit c).1 = .ok ()) :
    (∀ t ∈ reads, s.Meets (t.id, t.memberIds)) ∧ s.Rewritten (s.commit c).2 d.rewrite := by
  obtain ⟨after, hserial⟩ := Store.commit_eq_ok_iff.1 hcommit
  obtain ⟨hexpected, happly⟩ := Store.serial_eq_ok.1 hserial
  have hmeets := h.meets_iff.1 hexpected
  exact ⟨hmeets, (h.rewrites s after hmeets hnew happly).congr (Store.commit_agrees hserial).teams⟩

/-- Where a team is not as it was read, a grounded change set is refused with a conflict over such a
team, and the store is left alone. -/
theorem refused (h : c.Grounded birth d reads) (hchanged : ∃ t ∈ reads, ¬ s.Meets (t.id, t.memberIds)) :
    ∃ t ∈ reads, ¬ s.Meets (t.id, t.memberIds) ∧ s.commit c = (.error (.conflict .team t.id), s) := by
  have hunmet : ¬ ∀ e ∈ c.expectations, s.Meets e := by
    rw [h.meets_iff]
    intro hall
    obtain ⟨t, ht, hgone⟩ := hchanged
    exact hgone (hall t ht)
  cases hfind : c.expectations.find? fun e => !decide (s.Meets e) with
  | none => exact absurd (Store.find?_unmet_eq_none.1 hfind) hunmet
  | some e =>
      have hmem := List.mem_of_find?_eq_some hfind
      obtain ⟨met, rest, -, -, hgone⟩ := Store.find?_unmet_eq_some.1 hfind
      rw [h.expects] at hmem
      obtain ⟨t, ht, rfl⟩ := List.mem_map.1 hmem
      refine ⟨t, ht, hgone, ?_⟩
      rw [Store.commit, Store.checkExpectations_eq, hfind]

end ChangeSet.Grounded

end TeamRoster
