import Mathlib.Data.List.Nodup
import TeamRoster.Proofs.Composition.Placement
import TeamRoster.Proofs.Store.Edits
import TeamRoster.Proofs.Store.Roll
import TeamRoster.Workflow.Plan

/-!
# The writes of a composition

A composition says which teams there are; the writes that are derived from it are lists of single
additions and removals. Main statements: `Arrival.rewritten` and `Departure.rewritten` say that these
writes, where they go through, leave just the teams of the composition, and `Arrival.roll` and
`Departure.roll` that the roll gains or loses the one member and nobody else.
-/

namespace TeamRoster

open scoped List

/-- What a composition makes of the stored teams. -/
def Composition.rewrite : Composition → Rewrite
  | unchanged team => ⟨[team], [], []⟩
  | split kept new _ => ⟨[kept], [new], []⟩
  | merge destination dissolved _ => ⟨[destination], [], [dissolved.id]⟩

/-- What a removal makes of the stored teams. -/
def Redistribution.rewrite (r : Redistribution) : Rewrite :=
  if r.isEmptied then ⟨[], [], [r.composition.team.id]⟩ else r.composition.rewrite

/-- All but the first ones are the rest. -/
theorem filter_not_mem_append {first rest : List Ident} (h : (first ++ rest).Nodup) :
    (first ++ rest).filter (fun id => !decide (id ∈ first)) = rest := by
  rw [List.filter_append, List.filter_eq_nil_iff.2 (by simp), List.nil_append,
    List.filter_eq_self.2]
  intro id hid
  simpa using fun hfirst => (List.disjoint_of_nodup_append h) hfirst hid

/-- Taking out all but the first ones leaves the first ones. -/
theorem diff_filter_not_mem (first rest : List Ident) (h : (first ++ rest).Nodup) :
    (first ++ rest).diff ((first ++ rest).filter fun id => !decide (id ∈ first)) = first := by
  rw [filter_not_mem_append h, h.sdiff_eq_filter, List.filter_append, List.filter_eq_self.2,
    List.filter_eq_nil_iff.2, List.append_nil]
  · simp
  · intro id hid
    simpa using fun hlast => (List.disjoint_of_nodup_append h) hid hlast

namespace Store

variable {s d : Store}

/-- The record of a team has the list of the team. -/
theorem memberIds_of_find? {team : Ident} {r : TeamRecord} {ids : List Ident}
    (hr : s.teams.find? team = some r) (h : s.listOf team = ids) : r.memberIds = ids := by
  rw [← listOf_of_find? hr, h]

/-- A team with members is stored. -/
theorem find?_of_listOf {team : Ident} {ids : List Ident} (h : s.listOf team = ids)
    (hne : ids ≠ []) : ∃ r, s.teams.find? team = some r ∧ r.memberIds = ids := by
  cases hr : s.teams.find? team with
  | none =>
      rw [listOf_of_find?_none hr] at h
      exact absurd h.symm hne
  | some r => exact ⟨r, rfl, memberIds_of_find? hr h⟩

/-- One team with another list of members. -/
theorem rewritten_relist {t : Team} {r : TeamRecord} (hr : s.teams.find? t.id = some r) :
    s.Rewritten (s.rewrite t.id (some (r.relist t.memberIds))) ⟨[t], [], []⟩ where
  relisted u hu := by
    have heq := List.mem_singleton.1 hu
    subst heq
    exact ⟨r, hr, by simp⟩
  founded u hu := by cases hu
  dropped id hid := by cases hid
  kept id hid := by
    rw [find?_rewrite, if_neg]
    simpa [Rewrite.touched] using hid

/-- A new team beside one that keeps the first of its members. -/
theorem rewritten_split {kept new : Team} {r : TeamRecord} {rest : List Ident}
    (hr : s.teams.find? kept.id = some r) (hids : r.memberIds = kept.memberIds ++ rest)
    (hnodup : r.memberIds.Nodup) (hnew : s.teams.find? new.id = none)
    (happly : s.applyAll (.createTeam new ::
      (r.memberIds.filter fun id => !decide (id ∈ kept.memberIds)).map
        (Edit.removeMember kept.id)) = .ok d) :
    s.Rewritten d ⟨[kept], [new], []⟩ ∧ d.members = s.members := by
  have hdifferent : kept.id ≠ new.id := by
    intro heq
    rw [heq, hnew] at hr
    cases hr
  obtain ⟨mid, hcreate, hremove⟩ := Failing.bind_eq_ok.1 happly
  obtain ⟨hsame, hfound⟩ := find?_created hnew hcreate
  have hmid : mid.teams.find? kept.id = some r := by
    rw [hfound, if_neg hdifferent, hr]
  obtain ⟨hmembers, hteam, hothers⟩ := applyAll_removeMember hremove hmid
  have hdiff : r.memberIds.diff (r.memberIds.filter fun id => !decide (id ∈ kept.memberIds)) =
      kept.memberIds := by
    rw [hids] at hnodup ⊢
    exact diff_filter_not_mem kept.memberIds rest hnodup
  rw [hdiff] at hteam
  refine ⟨⟨?_, ?_, ?_, ?_⟩, hmembers.trans hsame⟩
  · intro t ht
    have heq := List.mem_singleton.1 ht
    subst heq
    exact ⟨r, hr, hteam⟩
  · intro t ht
    have heq := List.mem_singleton.1 ht
    subst heq
    refine ⟨s.nextPlace, ?_⟩
    rw [hothers _ hdifferent.symm, hfound]
    exact if_pos rfl
  · intro id hid
    cases hid
  · intro id hid
    have hne : id ≠ kept.id ∧ id ≠ new.id := by
      simpa [Rewrite.touched] using hid
    rw [hothers id hne.1, hfound]
    exact if_neg hne.2

/-- One team with another list of members, and another one dropped. -/
theorem rewritten_merge {t : Team} {r : TeamRecord} {team : Ident} (hother : t.id ≠ team)
    (hr : s.teams.find? t.id = some r)
    (ht : d.teams.find? t.id = some (r.relist t.memberIds)) (hgone : d.teams.find? team = none)
    (hothers : ∀ id, id ≠ t.id → id ≠ team → d.teams.find? id = s.teams.find? id) :
    s.Rewritten d ⟨[t], [], [team]⟩ where
  relisted u hu := by
    have heq := List.mem_singleton.1 hu
    subst heq
    exact ⟨r, hr, ht⟩
  founded u hu := by cases hu
  dropped id hid := by
    have heq := List.mem_singleton.1 hid
    subst heq
    exact hgone
  kept id hid := by
    have hne : id ≠ t.id ∧ id ≠ team := by
      simpa [Rewrite.touched] using hid
    exact hothers id hne.1 hne.2

end Store

/-- A record that lists the members of a team lists those of the grown team after one more joined. -/
theorem TeamRecord.join_eq_relist {r : TeamRecord} {t : Team} {m : Member}
    (hids : r.memberIds = t.memberIds) (habsent : m.id ∉ t.memberIds) :
    r.join m.id = r.relist (t.relist (t.members ++ [m])).memberIds := by
  rw [TeamRecord.join_of_not_mem (hids ▸ habsent), hids, Team.relist_memberIds, List.map_append]
  rfl

/-- The writes of a split, where the newcomer is not among those who stay. -/
theorem Composition.edits_split {kept new : Team} {moved : List Member} {persisted : List Ident}
    {member : Ident} (h : member ∉ kept.memberIds) :
    (split kept new moved).edits persisted member =
      .createTeam new :: (persisted.filter fun id => !decide (id ∈ kept.memberIds)).map
        (Edit.removeMember kept.id) := by
  have hkept (id : Ident) : kept.contains id = decide (id ∈ kept.memberIds) := by
    rw [Bool.eq_iff_iff, Team.contains_iff, decide_eq_true_iff]
  simp [edits, hkept, h]

/-- The writes of a split into the first so many members and a new team: all others are taken
out. -/
theorem Composition.edits_halves {t new : Team} {moved : List Member} {member : Ident}
    (hnodup : t.memberIds.Nodup) (habsent : member ∉ t.memberIds) (half : Nat) :
    (split (t.relist (t.members.take half)) new moved).edits t.memberIds member =
      .createTeam new :: (t.memberIds.drop half).map (Edit.removeMember t.id) := by
  have hkept : (t.relist (t.members.take half)).memberIds = t.memberIds.take half := by
    rw [Team.relist_memberIds, List.map_take]
    rfl
  have hstays : member ∉ (t.relist (t.members.take half)).memberIds := by
    rw [hkept]
    exact fun hmem => habsent (List.mem_of_mem_take hmem)
  have hrest : (t.memberIds.filter fun id => !decide (id ∈ t.memberIds.take half)) =
      t.memberIds.drop half := by
    rw [← List.take_append_drop half t.memberIds] at hnodup
    have hfilter := filter_not_mem_append hnodup
    rwa [List.take_append_drop] at hfilter
  rw [edits_split hstays, hkept, hrest, Team.relist_id]

namespace Arrival

variable {s d : Store} {t : Team} {m : Member} {i : Intake} {birth : Birth}

/-- Where the writes for a member who joined go through, the stored teams are those of the
composition afterwards. -/
theorem rewritten (h : Arrival t m i) (habsent : m.id ∉ t.memberIds) (hnodup : t.memberIds.Nodup)
    (hlist : s.listOf t.id = t.memberIds)
    (hfresh : i.needsBirth = true → s.teams.find? birth.id = none)
    (happly : s.applyAll ((i.compose birth).edits t.memberIds m.id) = .ok d) :
    s.Rewritten d (i.compose birth).rewrite ∧ d.members = s.members := by
  cases h with
  | fits room =>
      obtain ⟨mid, hadd, hdone⟩ := Failing.bind_eq_ok.1 happly
      cases hdone
      obtain ⟨-, r, hr, rfl⟩ := Store.apply_addMember_eq_ok.1 hadd
      have hids := Store.memberIds_of_find? hr hlist
      have hrewritten := Store.rewritten_relist (t := t.relist (t.members ++ [m])) hr
      rw [← TeamRecord.join_eq_relist hids habsent] at hrewritten
      exact ⟨hrewritten, rfl⟩
  | overflows draft full members name =>
      have hne : t.memberIds ≠ [] := by
        intro hnil
        have hlength := Team.length_memberIds (t := t)
        rw [hnil, List.length_nil] at hlength
        omega
      obtain ⟨r, hr, hids⟩ := Store.find?_of_listOf hlist hne
      have hfirst : (t.relist (t.members.take ((t.size + 1) / 2))).memberIds =
          t.memberIds.take ((t.size + 1) / 2) := by
        rw [Team.relist_memberIds, List.map_take]
        rfl
      -- The one who joined is not among those who stay.
      have hmoves : m.id ∉ (t.relist (t.members.take ((t.size + 1) / 2))).memberIds := by
        rw [hfirst]
        exact fun hmem => habsent (List.mem_of_mem_take hmem)
      have hparts : r.memberIds = (t.relist (t.members.take ((t.size + 1) / 2))).memberIds ++
          t.memberIds.drop ((t.size + 1) / 2) := by
        rw [hfirst, hids, List.take_append_drop]
      rw [Intake.compose, Composition.edits_split hmoves, ← hids] at happly
      rw [← hids] at hnodup
      exact Store.rewritten_split hr hparts hnodup (hfresh rfl) happly

end Arrival

theorem mem_otherHomes {team home : Team} {roster : List Team} :
    home ∈ otherHomes team roster ↔
      home ∈ roster ∧ home.id ≠ team.id ∧ home.acceptsMember = true := by
  simp [otherHomes]

namespace Departure

variable {s d : Store} {team : Team} {roster : List Team} {removed : Member} {left : List Member}
  {r : Redistribution}

/-- Where the one write of a removal goes through that leaves the team in its place, the team has the
members who are left. -/
theorem rewritten_stays {member : Ident} (hlist : s.listOf team.id = team.memberIds)
    (hleft : left.map Member.id = team.memberIds.erase member)
    (happly : s.applyAll [.removeMember team.id member] = .ok d) :
    s.Rewritten d ⟨[team.relist left], [], []⟩ ∧ d.members = s.members := by
  obtain ⟨mid, hremove, hdone⟩ := Failing.bind_eq_ok.1 happly
  cases hdone
  obtain ⟨q, hq, -, rfl⟩ := Store.apply_removeMember_eq_ok.1 hremove
  have hids := Store.memberIds_of_find? hq hlist
  have hleave : q.leave member = q.relist (team.relist left).memberIds := by
    rw [Team.relist_memberIds, hleft, ← hids]
    rfl
  have hrewritten := Store.rewritten_relist (t := team.relist left) hq
  rw [← hleave] at hrewritten
  exact ⟨hrewritten, rfl⟩

/-- Where the writes of a removal go through, the stored teams are those of the redistribution
afterwards. -/
theorem rewritten {member : Ident} (h : Departure team roster removed left r)
    (hlist : s.listOf team.id = team.memberIds)
    (hleft : left.map Member.id = team.memberIds.erase member)
    (hhomes : ∀ home ∈ roster, s.listOf home.id = home.memberIds)
    (happly : s.applyAll (r.edits team.id member) = .ok d) :
    s.Rewritten d r.rewrite ∧ d.members = s.members := by
  cases h with
  | stranded last alone => exact rewritten_stays hlist hleft happly
  | small two => exact rewritten_stays hlist hleft happly
  | normal more => exact rewritten_stays hlist hleft happly
  | emptied =>
      obtain ⟨mid, hremove, hrest⟩ := Failing.bind_eq_ok.1 happly
      obtain ⟨last, hdelete, hdone⟩ := Failing.bind_eq_ok.1 hrest
      cases hdone
      obtain ⟨q, -, -, rfl⟩ := Store.apply_removeMember_eq_ok.1 hremove
      obtain ⟨-, rfl⟩ := Store.apply_deleteTeam_eq_ok.1 hdelete
      refine ⟨⟨?_, ?_, ?_, ?_⟩, rfl⟩
      · intro t ht
        cases ht
      · intro t ht
        cases ht
      · intro id hid
        have heq := List.mem_singleton.1 hid
        subst heq
        rw [Store.find?_rewrite]
        exact if_pos rfl
      · intro id hid
        have hne : id ≠ team.id := by
          intro heq
          exact hid (List.mem_singleton.2 heq)
        rw [Store.find?_rewrite, if_neg hne, Store.find?_rewrite, if_neg hne]
  | moved last home homes active absent =>
      obtain ⟨hstored, hother, -⟩ := mem_otherHomes.1 homes
      change s.applyAll [.removeMember team.id member, .addMember home.id last.id,
        .deleteTeam team.id] = .ok d at happly
      obtain ⟨mid, hremove, hrest⟩ := Failing.bind_eq_ok.1 happly
      obtain ⟨next, hadd, hlast⟩ := Failing.bind_eq_ok.1 hrest
      obtain ⟨final, hdelete, hdone⟩ := Failing.bind_eq_ok.1 hlast
      cases hdone
      obtain ⟨q, -, -, rfl⟩ := Store.apply_removeMember_eq_ok.1 hremove
      obtain ⟨-, p, hp, rfl⟩ := Store.apply_addMember_eq_ok.1 hadd
      obtain ⟨-, rfl⟩ := Store.apply_deleteTeam_eq_ok.1 hdelete
      have hfound : s.teams.find? home.id = some p := by
        rw [← hp, Store.find?_rewrite]
        exact (if_neg hother).symm
      have hids := Store.memberIds_of_find? hfound (hhomes home hstored)
      refine ⟨Store.rewritten_merge hother hfound ?_ ?_ ?_, rfl⟩
      · rw [← TeamRecord.join_eq_relist hids absent, Team.relist_id, Store.find?_rewrite,
          if_neg hother, Store.find?_rewrite, if_pos rfl]
      · rw [Store.find?_rewrite]
        exact if_pos rfl
      · intro id hhome hteam
        change id ≠ home.id at hhome
        change id ≠ team.id at hteam
        rw [Store.find?_rewrite, if_neg hteam, Store.find?_rewrite, if_neg hhome,
          Store.find?_rewrite, if_neg hteam]

end Departure

section Roll

variable {s d : Store}

/-- Where one more is listed in place of others, the roll gains that one. -/
theorem roll_gains {before after : List Ident} {member : Ident} {joined former : List Ident}
    (h : after ++ former ~ before ++ joined) (hjoined : joined ~ member :: former) :
    after ~ member :: before := by
  have hperm : after ++ former ~ (member :: before) ++ former :=
    calc
      after ++ former ~ before ++ joined := h
      _ ~ before ++ (member :: former) := hjoined.append_left before
      _ ~ (member :: before) ++ former := List.perm_middle
  exact (List.perm_append_right_iff former).1 hperm

theorem listOf_relisted {x : Rewrite} (h : s.Rewritten d x) {t : Team} (ht : t ∈ x.relisted) :
    d.listOf t.id = t.memberIds := by
  obtain ⟨r, -, hr⟩ := h.relisted t ht
  exact Store.listOf_of_find? hr

theorem listOf_founded {x : Rewrite} (h : s.Rewritten d x) {t : Team} (ht : t ∈ x.founded) :
    d.listOf t.id = t.memberIds := by
  obtain ⟨place, hplace⟩ := h.founded t ht
  exact Store.listOf_of_find? hplace

theorem listOf_dropped {x : Rewrite} (h : s.Rewritten d x) {id : Ident} (hid : id ∈ x.dropped) :
    d.listOf id = [] :=
  Store.listOf_of_find?_none (h.dropped id hid)

/-- The rolls before and after differ as the lists of the teams do that were rewritten. -/
theorem roll_rewritten {x : Rewrite} (h : s.Rewritten d x) (hx : x.touched.Nodup) :
    d.roll ++ x.touched.flatMap s.listOf ~ s.roll ++ x.touched.flatMap d.listOf :=
  Store.roll_exchange hx fun id hid => Store.listOf_congr (h.kept id hid)

/-- The roll gains whoever joined a team. -/
theorem Arrival.roll {t : Team} {m : Member} {i : Intake} {birth : Birth} (h : Arrival t m i)
    (hlist : s.listOf t.id = t.memberIds)
    (hfresh : i.needsBirth = true → s.teams.find? birth.id = none ∧ birth.id ≠ t.id)
    (hrewritten : s.Rewritten d (i.compose birth).rewrite) : d.roll ~ m.id :: s.roll := by
  cases h with
  | fits room =>
      have hafter := listOf_relisted hrewritten List.mem_cons_self
      have hexchange := roll_rewritten hrewritten (List.nodup_singleton _)
      apply roll_gains hexchange
      change d.listOf t.id ++ [] ~ m.id :: (s.listOf t.id ++ [])
      rw [List.append_nil, List.append_nil, hlist]
      rw [Team.relist_id, Team.relist_memberIds, List.map_append] at hafter
      rw [hafter]
      exact List.perm_append_singleton m.id t.memberIds
  | overflows draft full members name =>
      obtain ⟨hnew, hdifferent⟩ := hfresh rfl
      have hkept := listOf_relisted hrewritten List.mem_cons_self
      have hdraft := listOf_founded hrewritten List.mem_cons_self
      have hnodup : ([t.id, birth.id] : List Ident).Nodup := by
        simpa using hdifferent.symm
      have hexchange := roll_rewritten hrewritten hnodup
      apply roll_gains hexchange
      change d.listOf t.id ++ (d.listOf birth.id ++ []) ~
        m.id :: (s.listOf t.id ++ (s.listOf birth.id ++ []))
      rw [Team.relist_id, Team.relist_memberIds] at hkept
      rw [Team.Draft.form_id, Team.Draft.form_memberIds, members] at hdraft
      rw [hkept, hdraft, hlist, Store.listOf_of_find?_none hnew, List.append_nil, List.append_nil,
        List.append_nil, List.map_append, ← List.append_assoc, ← List.map_append,
        List.take_append_drop]
      exact List.perm_append_singleton m.id t.memberIds

/-- The roll loses whoever was removed from a team. -/
theorem Departure.roll {team : Team} {roster : List Team} {removed : Member} {left : List Member}
    {r : Redistribution} {member : Ident} (h : Departure team roster removed left r)
    (hmember : member ∈ team.memberIds) (hlist : s.listOf team.id = team.memberIds)
    (hleft : left.map Member.id = team.memberIds.erase member)
    (hhomes : ∀ home ∈ roster, s.listOf home.id = home.memberIds)
    (hrewritten : s.Rewritten d r.rewrite) : s.roll ~ member :: d.roll := by
  have hformer : team.memberIds ~ member :: left.map Member.id := by
    rw [hleft]
    exact List.perm_cons_erase hmember
  have hstays (hx : s.Rewritten d ⟨[team.relist left], [], []⟩) : s.roll ~ member :: d.roll := by
    have hafter := listOf_relisted hx List.mem_cons_self
    have hexchange := roll_rewritten hx (List.nodup_singleton _)
    apply roll_gains hexchange.symm
    change s.listOf team.id ++ [] ~ member :: (d.listOf team.id ++ [])
    rw [List.append_nil, List.append_nil, hlist]
    rw [Team.relist_id, Team.relist_memberIds] at hafter
    rw [hafter]
    exact hformer
  cases h with
  | stranded last alone => exact hstays hrewritten
  | small two => exact hstays hrewritten
  | normal more => exact hstays hrewritten
  | emptied =>
      have hgone := listOf_dropped hrewritten List.mem_cons_self
      have hexchange := roll_rewritten hrewritten (List.nodup_singleton _)
      apply roll_gains hexchange.symm
      change s.listOf team.id ++ [] ~ member :: (d.listOf team.id ++ [])
      change d.listOf team.id = [] at hgone
      rw [hgone, List.append_nil, hlist]
      exact hformer
  | moved last home homes active absent =>
      obtain ⟨hstored, hother, -⟩ := mem_otherHomes.1 homes
      have hhome := listOf_relisted hrewritten List.mem_cons_self
      have hgone := listOf_dropped hrewritten List.mem_cons_self
      have hnodup : ([home.id, team.id] : List Ident).Nodup := by
        simpa using hother
      have hexchange := roll_rewritten hrewritten hnodup
      apply roll_gains hexchange.symm
      change s.listOf home.id ++ (s.listOf team.id ++ []) ~
        member :: (d.listOf home.id ++ (d.listOf team.id ++ []))
      change d.listOf home.id = (home.members ++ [last]).map Member.id at hhome
      change d.listOf team.id = [] at hgone
      rw [hhome, hgone, hhomes home hstored, hlist, List.append_nil, List.append_nil,
        List.append_nil, List.map_append]
      calc
        home.memberIds ++ team.memberIds ~ home.memberIds ++ (member :: [last].map Member.id) :=
          hformer.append_left home.memberIds
        _ ~ member :: (home.memberIds ++ [last].map Member.id) := List.perm_middle

end Roll

end TeamRoster
