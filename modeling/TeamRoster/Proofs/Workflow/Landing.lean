import TeamRoster.Proofs.Workflow.Admission
import TeamRoster.Proofs.Workflow.Stale

/-!
# Landing on another store

A write may land on a store that is not the one it was prepared on. Its expectations make sure that the
teams are as they were read, but not that the member it is about is still free and active. Main
statement: `sound_iff_timely`. A commit that goes through leaves a sound store sound exactly if it is
timely, and timeliness speaks of that one member only.
-/

namespace TeamRoster

open scoped List

namespace Store

variable {s after : Store}

/-- Where everybody is in one team at most, nobody is listed twice. -/
theorem OneTeamEach.nodup (h : s.OneTeamEach) : s.roll.Nodup := by
  rw [roll_eq, List.nodup_flatMap]
  refine ⟨fun e he => h.once e.1 e.2 (Directory.find?_eq_some.2 he), ?_⟩
  have hkeys : s.teams.entries.Pairwise fun e f => e.1 ≠ f.1 := List.pairwise_map.1 s.teams.nodup
  refine hkeys.imp_of_mem ?_
  intro e f he hf hne
  exact h.apart e.1 f.1 e.2 f.2 (Directory.find?_eq_some.2 he) (Directory.find?_eq_some.2 hf) hne

/-- A store is sound exactly if its members are stored under their own ids and everybody is in one team
at most. -/
theorem sound_iff : s.Sound ↔ s.Keyed ∧ s.OneTeamEach := by
  constructor
  · intro h
    refine ⟨h.keyed, ?_, ?_, ?_⟩
    · intro team r hr
      exact roll_nodup_list h.once hr
    · intro team other r q hr hq hne id hidr hidq
      exact hne (roll_nodup_team h.once hr hq hidr hidq)
    · intro team r hr id hid
      obtain ⟨m, hm, hactive⟩ := h.active id (mem_roll.2 ⟨team, r, hr, hid⟩)
      exact ⟨m, hm, h.keyed id m hm, hactive⟩
  · rintro ⟨hkeyed, hone⟩
    refine ⟨hkeyed, hone.nodup, ?_⟩
    intro id hid
    obtain ⟨team, r, hr, hlisted⟩ := mem_roll.1 hid
    obtain ⟨m, hm, -, hactive⟩ := hone.active team r hr id hlisted
    exact ⟨m, hm, hactive⟩

theorem available_iff_not_mem_roll {id : Ident} :
    s.Available id ↔ (∃ m, s.members.find? id = some m ∧ m.status = .active) ∧ id ∉ s.roll := by
  rw [available_iff, teamOf_eq_none_iff]

/-- A store is sound where everybody in a team is active, or was in a team of a sound store and has not
changed. -/
theorem Sound.of_kept (h : s.Sound)
    (hkeyed : after.Keyed) (honce : after.roll.Nodup)
    (hkept : ∀ id ∈ after.roll, (∃ m, after.members.find? id = some m ∧ m.status = .active) ∨
      id ∈ s.roll ∧ after.members.find? id = s.members.find? id) : after.Sound := by
  refine ⟨hkeyed, honce, ?_⟩
  intro id hid
  rcases hkept id hid with hactive | ⟨hbefore, hsame⟩
  · exact hactive
  · rw [hsame]
    exact h.active id hbefore

/-- Where some join, and no member changes, a sound store stays sound exactly if these were available. -/
theorem Sound.joined_iff (h : s.Sound) {ids : List Ident} (hids : ids.Nodup)
    (hmembers : ∀ id, after.members.find? id = s.members.find? id)
    (hroll : after.roll ~ ids ++ s.roll) : after.Sound ↔ ∀ id ∈ ids, s.Available id := by
  constructor
  · intro hafter id hid
    rw [available_iff_not_mem_roll, ← hmembers]
    refine ⟨hafter.active id (hroll.mem_iff.2 (List.mem_append_left _ hid)), ?_⟩
    intro hlisted
    exact (List.nodup_append.1 (hroll.nodup_iff.1 hafter.once)).2.2 id hid id hlisted rfl
  · intro havailable
    refine h.of_kept ?_ (hroll.nodup_iff.2 (List.nodup_append.2 ⟨hids, h.once, ?_⟩)) ?_
    · intro id m hm
      exact h.keyed id m (hmembers id ▸ hm)
    · rintro x hx y hy rfl
      exact (available_iff_not_mem_roll.1 (havailable x hx)).2 hy
    · intro id hid
      rcases List.mem_append.1 (hroll.mem_iff.1 hid) with hnew | hbefore
      · rw [hmembers]
        exact .inl (havailable id hnew).active
      · exact .inr ⟨hbefore, hmembers id⟩

/-- Where one leaves, and no member changes, a sound store stays sound. -/
theorem Sound.left (h : s.Sound) {id : Ident}
    (hmembers : ∀ id, after.members.find? id = s.members.find? id) (hroll : s.roll ~ id :: after.roll) :
    after.Sound := by
  refine h.of_kept ?_ (List.nodup_cons.1 (hroll.nodup_iff.1 h.once)).2 ?_
  · intro other m hm
    exact h.keyed other m (hmembers other ▸ hm)
  · intro other hother
    exact .inr ⟨hroll.mem_iff.2 (List.mem_cons_of_mem _ hother), hmembers other⟩

/-- Where the status of a stored member changes, and nobody else has joined, the store is sound
afterwards exactly if the member is active then or in no team. -/
theorem Sound.restated_iff (h : s.Sound) {member : Ident} {m : Member} {target : Status}
    (hm : s.members.find? member = some m)
    (hmembers : ∀ id, after.members.find? id =
      (s.members.find? id).map ((Command.changeStatus member target).restated id))
    (honce : after.roll.Nodup) (hroll : ∀ id ∈ after.roll, id ∈ s.roll ∨ id = member) :
    after.Sound ↔ (target ≠ .active → member ∉ after.roll) := by
  have hfound : after.members.find? member = some { m with status := target } := by
    simp [hmembers, hm, Command.restated]
  constructor
  · intro hafter haway
    exact hafter.not_mem_roll_of_away hfound haway
  · intro hfree
    refine h.of_kept ?_ honce ?_
    · intro id x hx
      rw [hmembers] at hx
      obtain ⟨y, hy, rfl⟩ := Option.map_eq_some_iff.1 hx
      rw [Command.restated_id]
      exact h.keyed id y hy
    · intro id hid
      by_cases hself : id = member
      · subst hself
        have hactive : target = .active := by
          by_contra haway
          exact hfree haway hid
        exact .inl ⟨_, hfound, hactive⟩
      · have hsame : (Command.changeStatus member target).restated id = fun x => x :=
          funext (Command.restated_of_ne hself)
        refine .inr ⟨(hroll id hid).resolve_right hself, ?_⟩
        rw [hmembers, hsame, Option.map_id']

end Store

namespace Command

variable {s after : Store} {c : Command} {states : Nat → Store} {birth : Birth} {born ready : Nat}
  {core changes : ChangeSet}

/-- What a command still has to find when its write lands on a store: that those are free and active
whom it gives to a team, and that nobody is in a team of whom it decided, without having seen a team,
that the member goes away. -/
def Timely (s : Store) (expectations : List (Ident × List Ident)) : Command → Prop
  | createTeam _ members => ∀ id ∈ members, s.Available id
  | addMember _ member => s.Available member
  | reassignMember member => s.Available member
  | changeStatus member target => target ≠ .active → expectations = [] → member ∉ s.roll
  | registerMember _ _ _ | removeMember _ _ => True

/-- Where the teams are as they were read and are rewritten as was decided, the roll changes by the one
member that the decision is about. -/
theorem RestsOn.moves {d : Decision} {reads : List Team} (hstates : ∀ n, (states n).Legible)
    (h : c.RestsOn states birth d reads) (hmeets : ∀ t ∈ reads, s.Meets (t.id, t.memberIds))
    (hnew : s.teams.find? birth.id = none) (hrewritten : s.Rewritten after d.rewrite) :
    d.Moves s.roll after.roll := by
  cases h with
  | @joined _ t m i n k admits read intake =>
      obtain ⟨-, -, harrival⟩ := Team.intake_eq_ok intake
      have ht := hmeets t List.mem_cons_self
      refine harrival.roll ht.listOf ?_ hrewritten
      intro _
      refine ⟨hnew, ?_⟩
      intro hid
      rw [Store.Meets, ← hid, hnew] at ht
      cases ht
  | @left _ t m roster pick r n k releases read others decided =>
      obtain ⟨x, shrunken, hremove, hdeparture⟩ := redistribute_eq_ok decided
      obtain ⟨hid, hmem, -, hleft, -⟩ := Team.remove_spec hremove
      have hfind : ∀ home ∈ roster, Plan.stored? roster home.id = some home := by
        intro home hhome
        exact Surroundings.stored?_of_mem (hstates k).keyed others hhome
      have hhomes : ∀ home ∈ r.homes roster, s.listOf home.id = home.memberIds := by
        intro home hhome
        exact (hmeets home (List.mem_cons_of_mem t hhome)).listOf
      change s.roll ~ r.removed.id :: after.roll
      rw [hdeparture.removed_eq, hid]
      exact (hdeparture.narrow hfind).roll (hid ▸ Team.mem_memberIds_of_mem hmem)
        (hmeets t List.mem_cons_self).listOf hleft hhomes hrewritten
  | untouched k stored =>
      apply Store.roll_congr
      intro id
      apply hrewritten.kept
      exact List.not_mem_nil

/-- A commit that goes through leaves the teams as was decided, and the members as they were but for the
one whose status the command is to change. -/
theorem Completes.restates (h : c.Completes core changes) (hteams : ∀ e ∈ core.edits, e.isTeamEdit = true)
    (hcommit : s.commit changes = (.ok (), after)) (id : Ident) :
    after.members.find? id = (s.members.find? id).map (c.restated id) := by
  have hproduces : c.Produces s core.edits after := by
    cases c with
    | changeStatus member target =>
        obtain ⟨before, -, rfl⟩ := h
        exact produces_of_commit_status rfl hcommit
    | _ =>
        have heq : changes = core := h
        subst heq
        exact produces_of_commit (fun _ _ => rfl) hcommit
  obtain ⟨mid, happly, -, hmembers⟩ := hproduces
  rw [hmembers, Store.applyAll_members hteams happly]

/-- A change of status that goes through finds the status that was read. -/
theorem Completes.status {member : Ident} {target : Status}
    (h : (changeStatus member target).Completes core changes)
    (hteams : ∀ e ∈ core.edits, e.isTeamEdit = true) (hcommit : s.commit changes = (.ok (), after)) :
    ∃ m, s.members.find? member = some m ∧ m.status.canBecome target = true := by
  obtain ⟨before, hallowed, rfl⟩ := h
  obtain ⟨last, happly, -⟩ := Store.applyAll_of_commit hcommit
  change s.applyAll (core.edits ++ [.setStatus member before target]) = .ok last at happly
  rw [Store.applyAll_append, Failing.bind_eq_ok] at happly
  obtain ⟨mid, hmid, hrest⟩ := happly
  obtain ⟨d, hset, -⟩ := Failing.bind_eq_ok.1 hrest
  obtain ⟨m, hm, rfl, -⟩ := Store.apply_setStatus_eq_ok.1 hset
  rw [Store.applyAll_members hteams hmid] at hm
  exact ⟨m, hm, hallowed⟩

/-- Whatever the stores were that a command read, where its change set goes through on a sound store,
the store is sound afterwards exactly if the command is timely there. -/
theorem Drafted.sound_iff_timely (hstates : ∀ n, (states n).Legible)
    (h : c.Drafted states birth born ready core) (hcompletes : c.Completes core changes) (hs : s.Sound)
    (hnew : s.teams.find? birth.id = none) (hcommit : s.commit changes = (.ok (), after)) :
    after.Sound ↔ c.Timely s changes.expectations := by
  obtain ⟨d, reads, hrests, hgrounded, hteams, -⟩ := h
  have hwhole := hcompletes.grounded hgrounded
  obtain ⟨hmeets, hrewritten⟩ := hwhole.rewritten hnew (congrArg Prod.fst hcommit)
  rw [hcommit] at hrewritten
  have hmoves := hrests.moves hstates hmeets hnew hrewritten
  have hmembers := hcompletes.restates hteams hcommit
  have hplain (hc : ∀ id m, c.restated id m = m) (id : Ident) :
      after.members.find? id = s.members.find? id := by
    have hid : c.restated id = fun m => m := funext (hc id)
    rw [hmembers, hid, Option.map_id']
  cases hrests with
  | @joined _ t m i n k admits read intake =>
      have hroll : after.roll ~ m.id :: s.roll := hmoves
      have hjoined (hc : ∀ id m, c.restated id m = m) : after.Sound ↔ s.Available m.id :=
        (hs.joined_iff (List.nodup_singleton m.id) (hplain hc) hroll).trans List.forall_mem_singleton
      cases admits with
      | added stored => exact hjoined fun _ _ => rfl
      | reassigned stored => exact hjoined fun _ _ => rfl
      | @returned m stored away =>
          -- The status that was read still stands, so the member has been in no team since.
          obtain ⟨x, hx, hallowed⟩ := hcompletes.status hteams hcommit
          have hinactive : x.status ≠ .active := by
            intro hactive
            rw [hactive] at hallowed
            cases hallowed
          have hfree := hs.not_mem_roll_of_away hx hinactive
          have honce : after.roll.Nodup := hroll.nodup_iff.2 (List.nodup_cons.2 ⟨hfree, hs.once⟩)
          refine (hs.restated_iff hx hmembers honce ?_).trans ?_
          · intro id hid
            exact (List.mem_cons.1 (hroll.mem_iff.1 hid)).symm
          · exact ⟨fun _ haway => absurd rfl haway, fun _ haway => absurd rfl haway⟩
  | @left _ t m roster pick r n k releases read others decided =>
      obtain ⟨x, shrunken, hremove, hdeparture⟩ := redistribute_eq_ok decided
      have hid : r.removed.id = m.id := by
        rw [hdeparture.removed_eq]
        exact (Team.remove_spec hremove).1
      have hroll : s.roll ~ m.id :: after.roll := hid ▸ hmoves
      cases releases with
      | removed => exact iff_of_true (hs.left (hplain fun _ _ => rfl) hroll) trivial
      | paused away =>
          obtain ⟨y, hy, -⟩ := hcompletes.status hteams hcommit
          have honce := List.nodup_cons.1 (hroll.nodup_iff.1 hs.once)
          refine iff_of_true ((hs.restated_iff hy hmembers honce.2 ?_).2 fun _ => honce.1) ?_
          · intro id hlisted
            exact .inl (hroll.mem_iff.2 (List.mem_cons_of_mem _ hlisted))
          · intro _ hnone
            rw [hwhole.expects] at hnone
            cases hnone
  | @untouched m target k stored =>
      obtain ⟨y, hy, -⟩ := hcompletes.status hteams hcommit
      have hroll : after.roll ~ s.roll := hmoves
      refine (hs.restated_iff hy hmembers (hroll.nodup_iff.2 hs.once) ?_).trans ?_
      · intro id hlisted
        exact .inl (hroll.mem_iff.1 hlisted)
      · have hnone : changes.expectations = [] := hwhole.expects
        simp only [Timely, hnone, hroll.mem_iff, true_implies]

end Command

end TeamRoster
