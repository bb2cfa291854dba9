import TeamRoster.Proofs.Workflow.Soundness

/-!
# What a commit settles

A commit that goes through leaves the stored teams as the rules decided and the members as they were,
but for the status of the one whose status the command is to change. Main statements:
`Command.prepared_of_commit` says that what a command prepares carries out what is decided for it, and
`Planned.carriedOut` and `Planned.sound` what the store is like afterwards.
-/

namespace TeamRoster

open scoped List

theorem Decision.Moves.congr {d : Decision} {before mid after : List Ident}
    (h : d.Moves before mid) (hafter : after ~ mid) : d.Moves before after := by
  cases d with
  | joined member c => exact hafter.trans h
  | left r => exact h.trans (hafter.symm.cons _)
  | untouched => exact hafter.trans h

/-- A commit that goes through leaves what its edits leave. -/
theorem Store.applyAll_of_commit {s after : Store} {c : ChangeSet}
    (h : s.commit c = (.ok (), after)) : ∃ d, s.applyAll c.edits = .ok d ∧ after.Agrees d := by
  obtain ⟨d, hserial⟩ := commit_eq_ok_iff.1 (congrArg Prod.fst h)
  have hagrees := commit_agrees hserial
  rw [h] at hagrees
  exact ⟨d, (serial_eq_ok.1 hserial).2, hagrees⟩

namespace Command

variable {s after : Store} {c : Command} {d : Decision} {edits : List Edit}
  {newcomer : Option Member}

/-- The member of this id as the command leaves it. -/
def restated (c : Command) (id : Ident) (m : Member) : Member :=
  match c with
  | changeStatus member target => if id = member then { m with status := target } else m
  | _ => m

@[simp] theorem restated_id (c : Command) (id : Ident) (m : Member) : (c.restated id m).id = m.id := by
  cases c with
  | changeStatus member target =>
      simp only [restated]
      split <;> rfl
  | _ => rfl

theorem restated_of_ne {member id : Ident} {target : Status} (h : id ≠ member) (m : Member) :
    (changeStatus member target).restated id m = m :=
  if_neg h

/-- The store was left as the edits to teams leave it, with the member restated. -/
def Produces (c : Command) (s : Store) (edits : List Edit) (after : Store) : Prop :=
  ∃ mid, s.applyAll edits = .ok mid ∧ (∀ id, after.teams.find? id = mid.teams.find? id) ∧
    ∀ id, after.members.find? id = (mid.members.find? id).map (c.restated id)

theorem produces_of_commit {changes : ChangeSet} (hplain : ∀ id m, c.restated id m = m)
    (h : s.commit changes = (.ok (), after)) : c.Produces s changes.edits after := by
  obtain ⟨mid, happly, hagrees⟩ := Store.applyAll_of_commit h
  refine ⟨mid, happly, hagrees.teams, ?_⟩
  intro id
  have hid : c.restated id = fun m => m := funext (hplain id)
  rw [hagrees.members id, hid, Option.map_id']

theorem produces_of_commit_status {member : Ident} {before target : Status} {changes : ChangeSet}
    (hedits : changes.edits = edits ++ [.setStatus member before target])
    (h : s.commit changes = (.ok (), after)) :
    (changeStatus member target).Produces s edits after := by
  obtain ⟨final, happly, hagrees⟩ := Store.applyAll_of_commit h
  rw [hedits, Store.applyAll_append, Failing.bind_eq_ok] at happly
  obtain ⟨mid, hmid, hrest⟩ := happly
  obtain ⟨last, hset, hdone⟩ := Failing.bind_eq_ok.1 hrest
  cases hdone
  obtain ⟨m, hm, -, rfl⟩ := Store.apply_setStatus_eq_ok.1 hset
  refine ⟨mid, hmid, hagrees.teams, ?_⟩
  intro id
  rw [hagrees.members id]
  by_cases hid : id = member
  · simp [Store.restate, restated, hid, hm]
  · have hsame : (changeStatus member target).restated id = fun m => m :=
      funext (restated_of_ne hid)
    simp [Store.restate, hid, hsame]

/-- Edits that carry out what was decided for a command, with what is known of the newcomer and of
the one whose status changes. -/
structure Planned (c : Command) (s : Store) (d : Decision) (newcomer : Option Member)
    (edits : List Edit) : Prop where
  effects : d.Effects s edits
  rests : d.Rests s newcomer
  joins : d.newcomer? = newcomer.map Member.id
  /-- The newcomer was in no team, and is stored afterwards as planned, and active. -/
  welcome (m : Member) : newcomer = some m → m.id ∉ s.roll ∧ m.status = .active ∧
    (s.members.find? m.id).map (c.restated m.id) = some m
  /-- Whoever stays in a team keeps the status. -/
  stays (after : List Ident) : d.Moves s.roll after → ∀ id ∈ s.roll, id ∈ after →
    ∀ m, c.restated id m = m

/-- What a command has done to a store when it carried out what was decided. -/
structure CarriedOut (c : Command) (d : Decision) (s after : Store) : Prop where
  teams : s.Rewritten after d.rewrite
  /-- The teams of the decision are stored as they were decided, members included. -/
  held (u : Team) : u ∈ d.rewrite.relisted ++ d.rewrite.founded → after.Holds u
  members (id : Ident) : after.members.find? id = (s.members.find? id).map (c.restated id)
  moves : d.Moves s.roll after.roll

theorem Planned.carriedOut (h : c.Planned s d newcomer edits) (hproduces : c.Produces s edits after) :
    c.CarriedOut d s after := by
  obtain ⟨mid, happly, hteams, hmembers⟩ := hproduces
  obtain ⟨hrewritten, hsame, hmoves⟩ := h.effects mid happly
  have hafter := hrewritten.congr hteams
  have hmoved := hmoves.congr (Store.roll_congr hteams)
  have hfound (id : Ident) : after.members.find? id = (s.members.find? id).map (c.restated id) := by
    rw [hmembers, hsame]
  refine ⟨hafter, ?_, hfound, hmoved⟩
  intro u hu
  have hrecord : ∃ place, after.teams.find? u.id = some (u.record place) := by
    rcases List.mem_append.1 hu with hrelisted | hfounded
    · obtain ⟨r, hr, hlist⟩ := hafter.relisted u hrelisted
      obtain ⟨t, ht, hut⟩ := h.rests.relisted u hrelisted
      obtain ⟨place, hplace⟩ := ht.record
      have hid : u.id = t.id := by
        rw [hut, Team.relist_id]
      rw [hid, hplace] at hr
      cases hr
      refine ⟨place, hlist.trans ?_⟩
      rw [hut]
      rfl
    · exact hafter.founded u hfounded
  obtain ⟨place, hplace⟩ := hrecord
  refine ⟨⟨place, hplace⟩, ?_⟩
  intro x hx
  rcases h.rests.members u hu x hx with hnew | ⟨hx', hlisted⟩
  · obtain ⟨-, -, hwelcome⟩ := h.welcome x hnew.symm
    rw [hfound, hwelcome]
  · have hroll : x.id ∈ after.roll :=
      Store.mem_roll.2 ⟨u.id, _, hplace, Team.mem_memberIds_of_mem hx⟩
    rw [hfound, hx', Option.map_some, h.stays _ hmoved x.id hlisted hroll]

/-- What was carried out leaves a sound store sound. -/
theorem Planned.sound (h : c.Planned s d newcomer edits) (hs : s.Sound)
    (hcarried : c.CarriedOut d s after) : after.Sound where
  keyed := by
    intro id m hm
    rw [hcarried.members] at hm
    obtain ⟨x, hx, rfl⟩ := Option.map_eq_some_iff.1 hm
    rw [restated_id]
    exact hs.keyed id x hx
  once := by
    apply hcarried.moves.nodup hs.once
    intro id hid
    rw [h.joins] at hid
    obtain ⟨m, hm, rfl⟩ := Option.map_eq_some_iff.1 hid
    exact (h.welcome m hm).1
  active := by
    intro id hid
    rw [hcarried.members]
    rcases hcarried.moves.mem hid with hbefore | hnew
    · obtain ⟨m, hm, hactive⟩ := hs.active id hbefore
      refine ⟨m, ?_, hactive⟩
      rw [hm, Option.map_some, h.stays _ hcarried.moves id hbefore hid]
    · rw [h.joins] at hnew
      obtain ⟨m, hm, rfl⟩ := Option.map_eq_some_iff.1 hnew
      obtain ⟨-, hactive, hwelcome⟩ := h.welcome m hm
      exact ⟨m, hwelcome, hactive⟩

section Plans

variable {τ : Type} {v : Surroundings τ} {w ready : World Store τ} {m : Member} {p : Plan Team}
  {born : Nat}

/-- A plan for a member who joins, where the command leaves the member as planned and all others
alone. -/
theorem planned_of_joins (hj : v.Joins w born m d p)
    (hwelcome : (w.storage.members.find? m.id).map (c.restated m.id) = some m)
    (hothers : ∀ id, id ≠ m.id → ∀ x, c.restated id x = x) :
    c.Planned w.storage d (some m) p.changes.edits where
  effects := hj.effects
  rests := hj.rests
  joins := by
    obtain ⟨composition, rfl⟩ := hj.joined
    rfl
  welcome := by
    intro x hx
    cases hx
    exact ⟨hj.absent, hj.active, hwelcome⟩
  stays := by
    intro after _ id hid _
    apply hothers
    rintro rfl
    exact hj.absent hid

/-- A plan for a member who leaves, where the command leaves all others alone. The one who leaves is
in no team afterwards and may have any status. -/
theorem planned_of_leaves {member : Ident} (hs : w.storage.Sound) (hl : v.Leaves w member d p)
    (hothers : ∀ id, id ≠ member → ∀ x, c.restated id x = x) :
    c.Planned w.storage d none p.changes.edits where
  effects := hl.effects
  rests := hl.rests
  joins := by
    obtain ⟨r, rfl, -⟩ := hl.left
    rfl
  welcome := by
    rintro x ⟨⟩
  stays := by
    intro after hmoves id _ hid
    obtain ⟨r, rfl, rfl⟩ := hl.left
    have hnodup := hmoves.nodup_iff.1 hs.once
    apply hothers
    rintro rfl
    exact (List.nodup_cons.1 hnodup).1 hid

/-- The status of a member who is in no team concerns no team. -/
theorem planned_untouched {member : Ident} {target : Status} (habsent : member ∉ s.roll) :
    (changeStatus member target).Planned s .untouched none [] where
  effects := Decision.effects_untouched s
  rests := Decision.rests_untouched s
  joins := rfl
  welcome := by
    rintro x ⟨⟩
  stays := by
    intro after _ id hid _
    apply restated_of_ne
    rintro rfl
    exact habsent hid

end Plans

end Command

/-- The team that an answer shows. -/
def Answer.team? : Answer → Option TeamView
  | team view => some view
  | statusChanged _ _ _ view => view
  | member _ | failure _ _ => none

namespace Command

variable {τ : Type} {v : Surroundings τ} {w ready : World Store τ} {c : Command}
  {u : Undertaking Answer} {changes : ChangeSet}

/-- A change set that was prepared for a command, with the decision that it carries out and the team
that is going to be shown. -/
structure Prepared (v : Surroundings τ) (w ready : World Store τ) (c : Command)
    (u : Undertaking Answer) (changes : ChangeSet) (d : Decision) : Prop where
  decided : c.decision v w = some d
  planned : ∃ newcomer edits, c.Planned w.storage d newcomer edits ∧
    ∀ after, w.storage.commit changes = (.ok (), after) → c.Produces w.storage edits after
  founded (t : Team) : t ∈ d.rewrite.founded → ∃ n < ready.born, (v.births n).id = t.id
  shown : u.result.team? = d.team?.map TeamView.ofTeam

theorem yields_undertaking {α : Type} {view : α → Answer} {plan : UseCase (Plan α)} :
    v.Yields (do return (← plan).undertaking view : UseCase (Undertaking Answer)) w u ready ↔
      ∃ p, v.Yields plan w p ready ∧ u = p.undertaking view :=
  Setting.gives_undertaking

/-- What a plan for a change of status comes to. -/
theorem prepared_of_statusChange (h : v.Sound w) (hbirths : v.DistinctBirths ready.born)
    {member : Ident} {target : Status} {p : Plan Plan.StatusChange}
    (hp : v.Yields (Plan.statusChange member target) w p ready) :
    ∃ d, Prepared v w ready (changeStatus member target) (p.undertaking .ofStatusChange)
      p.changes d := by
  obtain ⟨m, q, hm, -, hq, rfl⟩ := Surroundings.yields_statusChange.1 hp
  have heq := h.store.keyed member m hm
  subst heq
  have hproduces (edits : List Edit) (hedits : q.changes.edits = edits) (after : Store)
      (hcommit : w.storage.commit (q.changes.push (.setStatus m.id m.status target)) =
        (.ok (), after)) : (changeStatus m.id target).Produces w.storage edits after := by
    have hall : (q.changes.push (.setStatus m.id m.status target)).edits =
        edits ++ [.setStatus m.id m.status target] := by
      rw [← hedits]
      rfl
    exact produces_of_commit_status hall hcommit
  rcases Surroundings.yields_followStatus.1 hq with
    ⟨hactive, hfree, rfl, -⟩ | ⟨hactive, t, q', hfound, hq', rfl⟩ |
      ⟨hinactive, htarget, q', hq', rfl⟩ | ⟨hinactive, htarget, rfl, -⟩
  · refine ⟨.untouched, ?_, ⟨none, [], ?_, hproduces [] rfl⟩, ?_, rfl⟩
    · have hnone : w.storage.teamOf m.id = .ok none := hfree
      simp [decision, hm, hactive, hnone, Except.toOption]
    · exact planned_untouched (Surroundings.not_mem_roll hfree)
    · intro t ht
      cases ht
  · obtain ⟨d, hd, hl⟩ := Surroundings.leaves_of_removal h hq'
    have hplanned := planned_of_leaves (c := changeStatus m.id target) h.store hl fun id hid =>
      restated_of_ne hid
    refine ⟨d, ?_, ⟨none, _, hplanned, hproduces _ rfl⟩, ?_, ?_⟩
    · have hsome : w.storage.teamOf m.id = .ok (some t) := hfound
      simp [decision, hm, hactive, hsome, Except.toOption, hd]
    · rw [hl.founded]
      intro t ht
      cases ht
    · rw [hl.returned]
      rfl
  · obtain ⟨d, hd, hj⟩ := Surroundings.joins_of_assignment h hbirths hq'
    have hwelcome : (w.storage.members.find? m.id).map
        ((changeStatus m.id target).restated m.id) = some { m with status := target } := by
      simp [hm, restated]
    have hplanned := planned_of_joins hj hwelcome fun id hid => restated_of_ne hid
    refine ⟨d, ?_, ⟨_, _, hplanned, hproduces _ rfl⟩, hj.founded, ?_⟩
    · have htarget' : target = .active := htarget
      rw [htarget'] at hd
      simp [decision, hm, hinactive, htarget', hd]
    · rw [hj.returned]
      rfl
  · refine ⟨.untouched, ?_, ⟨none, [], ?_, hproduces [] rfl⟩, ?_, rfl⟩
    · have htarget' : target ≠ .active := htarget
      simp [decision, hm, hinactive, htarget']
    · apply planned_untouched
      intro hlisted
      obtain ⟨x, hx, hstatus⟩ := h.store.active m.id hlisted
      rw [hm] at hx
      cases hx
      exact hinactive hstatus
    · intro t ht
      cases ht

/-- A change set that a command prepares on a sound store carries out what the rules decide. -/
theorem prepared_of_commit (h : v.Sound w) (hbirths : v.DistinctBirths ready.born)
    (hu : v.Yields c.prepare w u ready) (hwrite : u.write = .commit changes) :
    ∃ d, Prepared v w ready c u changes d := by
  cases c with
  | registerMember name email status =>
      obtain ⟨m, hsave⟩ := Setting.write_of_registerMember hu
      rw [hsave] at hwrite
      cases hwrite
  | createTeam name members =>
      obtain ⟨t, hform⟩ := Setting.write_of_createTeam hu
      rw [hform] at hwrite
      cases hwrite
  | addMember team member =>
      obtain ⟨p, hp, rfl⟩ := yields_undertaking.1 hu
      have heq := Write.commit.inj hwrite
      subst heq
      obtain ⟨m, d, hm, rfl, hd, hj⟩ := Surroundings.joins_of_addition h hbirths hp
      have hwelcome : (w.storage.members.find? m.id).map
          ((addMember team m.id).restated m.id) = some m := by
        rw [hm]
        rfl
      have hplanned := planned_of_joins hj hwelcome fun _ _ _ => rfl
      refine ⟨d, hd, ⟨some m, _, hplanned, ?_⟩, hj.founded, ?_⟩
      · intro after hcommit
        exact produces_of_commit (fun _ _ => rfl) hcommit
      · rw [hj.returned]
        rfl
  | removeMember team member =>
      obtain ⟨p, hp, rfl⟩ := yields_undertaking.1 hu
      have heq := Write.commit.inj hwrite
      subst heq
      obtain ⟨d, hd, hl⟩ := Surroundings.leaves_of_removal h hp
      have hplanned := planned_of_leaves (c := removeMember team member) h.store hl fun _ _ _ => rfl
      refine ⟨d, hd, ⟨none, _, hplanned, ?_⟩, ?_, ?_⟩
      · intro after hcommit
        exact produces_of_commit (fun _ _ => rfl) hcommit
      · rw [hl.founded]
        intro t ht
        cases ht
      · rw [hl.returned]
        rfl
  | changeStatus member target =>
      obtain ⟨p, hp, rfl⟩ := yields_undertaking.1 hu
      have heq := Write.commit.inj hwrite
      subst heq
      exact prepared_of_statusChange h hbirths hp
  | reassignMember member =>
      obtain ⟨m, mid, hm, hrest⟩ := Surroundings.yields_bind.1 hu
      obtain ⟨hm, hmid⟩ := Surroundings.yields_member.1 hm
      rw [hmid] at hrest
      obtain ⟨p, hp, rfl⟩ := yields_undertaking.1 hrest
      have heq := Write.commit.inj hwrite
      subst heq
      have heq := h.store.keyed member m hm
      subst heq
      obtain ⟨d, hd, hj⟩ := Surroundings.joins_of_assignment h hbirths hp
      have hwelcome : (w.storage.members.find? m.id).map
          ((reassignMember m.id).restated m.id) = some m := by
        rw [hm]
        rfl
      have hplanned := planned_of_joins hj hwelcome fun _ _ _ => rfl
      refine ⟨d, ?_, ⟨some m, _, hplanned, ?_⟩, hj.founded, ?_⟩
      · simp [decision, hm, hd]
      · intro after hcommit
        exact produces_of_commit (fun _ _ => rfl) hcommit
      · rw [hj.returned]
        rfl

end Command

end TeamRoster
