import TeamRoster.Proofs.Workflow.Deeds
import TeamRoster.Proofs.Workflow.Faults
import TeamRoster.Proofs.Workflow.Grounded

/-!
# Plans made on stale reads

Between the reads of a command and its commit, others may change the store, and each read may find
another one. Main statement: `stale_plan_harmless`. Whatever the stores were that a command read, its
change set is grounded on the teams as it read them (`grounded_of_prepared`), so that it goes through
only where these have not changed.
-/

namespace TeamRoster

variable {τ α : Type}

/-- A store that can be read: members are stored under their own ids, and nobody is listed twice in a
team. -/
structure Store.Legible (s : Store) : Prop where
  keyed : s.Keyed
  once (team : Ident) (r : TeamRecord) : s.teams.find? team = some r → r.memberIds.Nodup

theorem Store.Legible.nodup {s : Store} (h : s.Legible) {t : Team} (ht : s.Holds t) :
    t.memberIds.Nodup := by
  obtain ⟨place, hplace⟩ := ht.record
  exact h.once t.id _ hplace

/-- A sound store can be read. -/
theorem Store.Sound.legible {s : Store} (h : s.Sound) : s.Legible := by
  refine ⟨h.keyed, ?_⟩
  intro team r hr
  exact roll_nodup_list h.once hr

/-- A storage that others change all the time: each request is answered by the next of these stores. -/
def Store.shifting (states : Nat → Store) : Storage Nat := fun request n =>
  ((Store.storage request (states n)).1, n + 1)

/-- The surroundings with a storage that others change all the time. -/
def Surroundings.shifting (v : Surroundings τ) (states : Nat → Store) : Setting Nat τ :=
  ⟨Store.shifting states, v.transport, v.births, v.picks⟩

/-- The world after one more request was answered. -/
def World.requested (w : World Nat τ) : World Nat τ :=
  { w with storage := w.storage + 1 }

/-- What was decided for a command, and the teams that it was decided on, as they were read from some of
the stores. A team that splits off has this birth. -/
inductive Command.RestsOn (states : Nat → Store) (birth : Birth) :
    Command → Decision → List Team → Prop
  | joined {c : Command} {t : Team} {m : Member} {i : Intake} (n k : Nat)
      (admits : Admits (states k) t c m) (read : (states n).Holds t) (intake : t.intake m = .ok i) :
      RestsOn states birth c (.joined m.id (i.compose birth)) [t]
  | left {c : Command} {t : Team} {m : Member} {roster : List Team} {pick : Nat → Nat}
      {r : Redistribution} (n k : Nat) (releases : Releases t m c) (read : (states n).Holds t)
      (others : (states k).allTeams = .ok roster)
      (decided : (redistribute t m.id roster).resolve pick = .ok r) :
      RestsOn states birth c (.left r) (t :: r.homes roster)
  | untouched {m : Member} {target : Status} (k : Nat)
      (stored : (states k).members.find? m.id = some m) :
      RestsOn states birth (.changeStatus m.id target) .untouched []

/-- Edits to teams that were drafted for a command on what it read, after `born` births, where there were
`ready` in the end: what was decided, the teams that it was decided on, and that a team which splits off
has the one birth that was drawn. -/
def Command.Drafted (c : Command) (states : Nat → Store) (birth : Birth) (born ready : Nat)
    (core : ChangeSet) : Prop :=
  ∃ d reads, c.RestsOn states birth d reads ∧ core.Grounded birth.id d reads ∧
    (∀ e ∈ core.edits, e.isTeamEdit = true) ∧
    ∀ u ∈ d.rewrite.founded, u.id = birth.id ∧ born < ready

/-- The change set of a command is what was drafted for the teams, with the change of the status at its
end if it is one. -/
def Command.Completes (core changes : ChangeSet) : Command → Prop
  | changeStatus member target => ∃ before : Status, before.canBecome target = true ∧
      changes = core.push (.setStatus member before target)
  | registerMember _ _ _ | createTeam _ _ | addMember _ _ | removeMember _ _ | reassignMember _ =>
      changes = core

/-- What a change set is grounded on does not depend on a change of status at its end. -/
theorem Command.Completes.grounded {c : Command} {core changes : ChangeSet} {birth : Ident} {d : Decision}
    {reads : List Team} (h : c.Completes core changes) (hgrounded : core.Grounded birth d reads) :
    changes.Grounded birth d reads := by
  cases c with
  | changeStatus member target =>
      obtain ⟨before, -, rfl⟩ := h
      exact hgrounded.push_status member before target
  | _ =>
      have heq : changes = core := h
      exact heq ▸ hgrounded

section Committing

variable {σ : Type} {e : Setting σ τ} {w : World σ τ} {c : Command} {changes : ChangeSet}

theorem mem_commitsOf {log : List (Dialogue.Exchange Ask Ask.Answer)} (h : changes ∈ commitsOf log) :
    ∃ x ∈ log, x.1 = .storage (.commit changes) := by
  obtain ⟨⟨q, reply⟩, hx, hcommit⟩ := List.mem_filterMap.1 h
  refine ⟨_, hx, ?_⟩
  cases q with
  | storage request =>
      cases request with
      | commit c =>
          cases hcommit
          rfl
      | _ => cases hcommit
  | _ => cases hcommit

/-- What an undertaking commits is its write. -/
theorem write_of_commit {u : Undertaking Answer} {x : Dialogue.Exchange Ask Ask.Answer}
    (hx : x ∈ e.log u.carryOut w) (hcommit : x.1 = .storage (.commit changes)) :
    u.write = .commit changes := by
  simp only [Setting.log_carryOut, List.mem_cons] at hx
  rcases hx with rfl | hx
  · cases hwrite : u.write with
    | commit own =>
        rw [hwrite] at hcommit
        cases hcommit
        rfl
    | save m =>
        rw [hwrite] at hcommit
        cases hcommit
    | form t =>
        rw [hwrite] at hcommit
        cases hcommit
  · -- What follows the write are deliveries.
    split at hx
    · cases hx
    · obtain ⟨event, hdeliver⟩ :=
        Dialogue.Keeps.transcript (UseCase.keeps_announce u.events) e.answer _ x hx
      rw [hcommit] at hdeliver
      cases hdeliver

/-- A change set that a command commits, successfully or not, is what it prepared. -/
theorem Command.prepared_of_commitsOf (h : changes ∈ commitsOf (e.transcript c.answer w)) :
    ∃ u ready, e.Gives c.prepare w u ready ∧ u.write = .commit changes := by
  obtain ⟨x, hx, hcommit⟩ := mem_commitsOf h
  rw [transcript_answer, perform_eq, Setting.log_bind, List.mem_append] at hx
  rcases hx with hx | hx
  · -- Preparing writes nothing.
    have hprepares := Dialogue.Keeps.transcript c.preparesIn_prepare e.answer w x hx
    rw [hcommit] at hprepares
    cases hprepares
  · cases hprepared : e.exec c.prepare w with
    | mk r ready =>
        rw [hprepared] at hx
        cases r with
        | error failure => cases hx
        | ok u => exact ⟨u, ready, hprepared, write_of_commit hx hcommit⟩

end Committing

namespace Surroundings

variable {v : Surroundings τ} {states : Nat → Store} {w after : World Nat τ}

section Reads

theorem shifting_member {id : Ident} {m : Member} :
    (v.shifting states).Gives (UseCase.member id) w m after ↔
      (states w.storage).members.find? id = some m ∧ after = w.requested := by
  rw [← Store.member_eq_ok]
  exact Setting.gives_request (.member id) fun reply => reply

theorem shifting_team {id : Ident} {t : Team} :
    (v.shifting states).Gives (UseCase.team id) w t after ↔
      (states w.storage).team id = .ok t ∧ after = w.requested :=
  Setting.gives_request (.team id) fun reply => reply

theorem shifting_teams {roster : List Team} :
    (v.shifting states).Gives UseCase.teams w roster after ↔
      (states w.storage).allTeams = .ok roster ∧ after = w.requested :=
  Setting.gives_request .teams fun reply => reply

theorem shifting_teamOf {member : Ident} {found : Option Team} :
    (v.shifting states).Gives (UseCase.teamOf member) w found after ↔
      (states w.storage).teamOf member = .ok found ∧ after = w.requested :=
  Setting.gives_request (.teamOf member) fun reply => reply

end Reads

section Plans

variable {p : Plan Team} {team member : Ident}

theorem shifting_requireFree {allowed : Option Ident} {done : Unit}
    (h : (v.shifting states).Gives (Plan.requireFree member allowed) w done after) :
    after = w.requested := by
  unfold Plan.requireFree at h
  obtain ⟨found, mid, hfound, hcheck⟩ := Setting.gives_bind.1 h
  obtain ⟨-, rfl⟩ := shifting_teamOf.1 hfound
  cases found with
  | none => exact (Setting.gives_pure.1 hcheck).2
  | some t =>
      by_cases hallowed : some t.id = allowed
      · simp only [if_pos hallowed] at hcheck
        exact (Setting.gives_pure.1 hcheck).2
      · simp only [if_neg hallowed] at hcheck
        exact absurd hcheck Setting.not_gives_throw

theorem shifting_compose {i : Intake} {c : Composition}
    (h : (v.shifting states).Gives (Plan.compose i) w c after) :
    c = i.compose (v.births w.born) ∧ after.born = w.born + i.needsBirth.toNat := by
  cases i with
  | fits team =>
      obtain ⟨rfl, rfl⟩ := Setting.gives_pure.1 h
      exact ⟨rfl, rfl⟩
  | overflows kept draft =>
      obtain ⟨b, mid, hb, hc⟩ := Setting.gives_bind.1 h
      obtain ⟨rfl, rfl⟩ := Setting.gives_birth.1 hb
      obtain ⟨rfl, rfl⟩ := Setting.gives_pure.1 hc
      exact ⟨rfl, rfl⟩

/-- An addition is planned on a team that was read, and on a member who was. -/
theorem shifting_addition (hstates : ∀ n, (states n).Legible)
    (hp : (v.shifting states).Gives (Plan.addition team member) w p after) :
    ∃ n k t m i, t.id = team ∧ m.id = member ∧ (states n).Holds t ∧
      (states k).members.find? m.id = some m ∧ t.intake m = .ok i ∧
      p = growth (ChangeSet.empty.expect t, t.memberIds) (i.compose (v.births w.born)) m m.id ∧
      after.born = w.born + i.needsBirth.toNat := by
  unfold Plan.addition at hp
  simp only [Setting.gives_bind, shifting_team, shifting_member, Setting.gives_ofRule,
    Setting.gives_pure] at hp
  obtain ⟨t, _, ⟨ht, rfl⟩, m, _, ⟨hm, rfl⟩, _, _, hfree, i, _, ⟨hi, rfl⟩, c, _, hc, rfl, rfl⟩ := hp
  have heq := shifting_requireFree hfree
  subst heq
  obtain ⟨rfl, hborn⟩ := shifting_compose hc
  obtain ⟨rfl, hheld⟩ := (Store.team_eq_ok (hstates _).keyed).1 ht
  have heq := (hstates _).keyed member m hm
  subst heq
  exact ⟨_, _, t, m, i, rfl, rfl, hheld, hm, hi, rfl, hborn⟩

/-- An assignment is planned on a team that was read. -/
theorem shifting_assignment (hstates : ∀ n, (states n).Legible) {m : Member}
    (hp : (v.shifting states).Gives (Plan.assignment m) w p after) :
    ∃ n t i, (states n).Holds t ∧ t.intake m = .ok i ∧
      p = growth (ChangeSet.empty.expect t, t.memberIds) (i.compose (v.births w.born)) m m.id ∧
      after.born = w.born + i.needsBirth.toNat := by
  unfold Plan.assignment at hp
  simp only [Setting.gives_bind, shifting_teams, Setting.gives_settle, Setting.gives_ofRule,
    Setting.gives_pure] at hp
  obtain ⟨_, _, hfree, roster, _, ⟨hroster, rfl⟩, _, _, ⟨rfl, rfl⟩, i, _, ⟨hi, rfl⟩, c, _, hc, rfl,
    rfl⟩ := hp
  have heq := shifting_requireFree hfree
  subst heq
  obtain ⟨rfl, hborn⟩ := shifting_compose hc
  obtain ⟨t, ht, hintake⟩ := assign_eq_ok hi
  refine ⟨_, t, i, (Store.mem_allTeams (hstates _).keyed hroster t).1 ht, hintake, ?_, hborn⟩
  have hexpected := expectation_of_mem (hstates _).keyed hroster ht
  rw [← team_compose (Team.intake_eq_ok hintake).2.2 (v.births w.born)] at hexpected
  rw [← hexpected]
  rfl

/-- A removal is planned on a team that was read, and on a roster that may have been read from another
store. -/
theorem shifting_removal (hstates : ∀ n, (states n).Legible)
    (hp : (v.shifting states).Gives (Plan.removal team member) w p after) :
    ∃ n k t roster pick r, t.id = team ∧ (states n).Holds t ∧ (states k).allTeams = .ok roster ∧
      (redistribute t member roster).resolve pick = .ok r ∧
      p = shrinkage (expectations t roster r.composition) r t.id member := by
  unfold Plan.removal at hp
  simp only [Setting.gives_bind, shifting_team, shifting_teams, Setting.gives_settle,
    Setting.gives_ofRule, Setting.gives_pure] at hp
  obtain ⟨t, _, ⟨ht, rfl⟩, roster, _, ⟨hroster, rfl⟩, _, _, ⟨rfl, rfl⟩, r, _, ⟨hr, rfl⟩, rfl, -⟩ := hp
  obtain ⟨rfl, hheld⟩ := (Store.team_eq_ok (hstates _).keyed).1 ht
  exact ⟨_, _, t, roster, _, r, rfl, hheld, hroster, hr, shrinkage_eq t roster r t.id member⟩

end Plans

section Decisions

variable {c : Command} {changes : ChangeSet}

/-- A plan for a member who joins is drafted on the team as it was read. -/
theorem drafted_of_joining (hstates : ∀ n, (states n).Legible) {birth : Birth} {t : Team} {m : Member}
    {i : Intake} {n k born ready : Nat} (hadmits : Command.Admits (states k) t c m)
    (ht : (states n).Holds t) (hi : t.intake m = .ok i) (hborn : ready = born + i.needsBirth.toNat) :
    c.Drafted states birth born ready
      (growth (ChangeSet.empty.expect t, t.memberIds) (i.compose birth) m m.id).changes := by
  obtain ⟨-, habsent, harrival⟩ := Team.intake_eq_ok hi
  refine ⟨_, _, .joined n k hadmits ht hi, .of_arrival harrival habsent ((hstates n).nodup ht), ?_, ?_⟩
  · intro e he
    rw [edits_growth, edits_expect] at he
    exact Composition.isTeamEdit_of_mem he
  · intro u hu
    cases harrival with
    | fits room => cases hu
    | overflows draft full members name =>
        have heq := List.mem_singleton.1 hu
        subst heq
        exact ⟨rfl, by rw [hborn]; exact Nat.lt_succ_self born⟩

/-- A plan for a member who leaves is drafted on the team and the destination as they were read. -/
theorem drafted_of_parting (hstates : ∀ n, (states n).Legible) {birth : Birth} {t : Team}
    {roster : List Team} {member : Ident} {pick : Nat → Nat} {r : Redistribution}
    {n k born ready : Nat} (hreleases : ∀ m : Member, m.id = member → Command.Releases t m c)
    (ht : (states n).Holds t) (hroster : (states k).allTeams = .ok roster)
    (hr : (redistribute t member roster).resolve pick = .ok r) :
    c.Drafted states birth born ready
      (shrinkage (expectations t roster r.composition) r t.id member).changes := by
  obtain ⟨m, shrunken, hremove, hdeparture⟩ := redistribute_eq_ok hr
  obtain ⟨rfl, -⟩ := Team.remove_spec hremove
  refine ⟨_, _, .left n k (hreleases m rfl) ht hroster hr, .of_departure hdeparture hremove ?_, ?_, ?_⟩
  · intro home hhome
    exact stored?_of_mem (hstates k).keyed hroster hhome
  · intro e he
    rw [edits_shrinkage, edits_expectations] at he
    exact Redistribution.isTeamEdit_of_mem he
  · intro u hu
    rw [hdeparture.founded_eq_nil] at hu
    cases hu

/-- What becomes of the teams after a change of status is drafted on the teams that were read for it. -/
theorem drafted_of_followStatus (hstates : ∀ n, (states n).Legible) {m : Member} {target : Status}
    {k : Nat} (hm : (states k).members.find? m.id = some m)
    (hallowed : m.status.canBecome target = true) {q : Plan (Option Team)}
    (hq : (v.shifting states).Gives (Plan.followStatus m.status { m with status := target }) w q after) :
    (Command.changeStatus m.id target).Drafted states (v.births w.born) w.born after.born q.changes := by
  have hnothing (hq : q = standstill) : (Command.changeStatus m.id target).Drafted states
      (v.births w.born) w.born after.born q.changes := by
    rw [hq]
    refine ⟨_, _, .untouched k hm, .of_nothing, ?_, ?_⟩
    · intro e he
      cases he
    · intro u hu
      cases hu
  unfold Plan.followStatus at hq
  by_cases hbefore : m.status = .active
  · -- Whoever goes away leaves the team that is found.
    have haway : target ≠ .active := by
      rintro rfl
      rw [hbefore] at hallowed
      cases hallowed
    rw [if_pos hbefore, Setting.gives_bind] at hq
    obtain ⟨found, _, hfound, hrest⟩ := hq
    obtain ⟨-, rfl⟩ := shifting_teamOf.1 hfound
    cases found with
    | none => exact hnothing (Setting.gives_pure.1 hrest).1
    | some u =>
        obtain ⟨plan, mid, hplan, hpure⟩ := Setting.gives_bind.1 hrest
        obtain ⟨rfl, -⟩ := Setting.gives_pure.1 hpure
        obtain ⟨n, k, t, roster, pick, r, -, ht, hroster, hr, rfl⟩ := shifting_removal hstates hplan
        refine drafted_of_parting hstates ?_ ht hroster hr
        rintro x (hx : x.id = m.id)
        rw [← hx]
        exact .paused haway
  · rw [if_neg hbefore] at hq
    by_cases htarget : target = .active
    · -- Whoever comes back joins a team.
      subst htarget
      rw [if_pos rfl, Setting.gives_bind] at hq
      obtain ⟨plan, mid, hplan, hpure⟩ := hq
      obtain ⟨rfl, rfl⟩ := Setting.gives_pure.1 hpure
      obtain ⟨n, t, i, ht, hi, rfl, hborn⟩ := shifting_assignment hstates hplan
      exact drafted_of_joining hstates (.returned hm hbefore) ht hi hborn
    · rw [if_neg htarget] at hq
      exact hnothing (Setting.gives_pure.1 hq).1

/-- The plan of a change of status is what was drafted for the teams, and the change of the status. -/
theorem drafted_of_statusChange (hstates : ∀ n, (states n).Legible) {member : Ident} {target : Status}
    {p : Plan Plan.StatusChange}
    (hp : (v.shifting states).Gives (Plan.statusChange member target) w p after) :
    ∃ core, (Command.changeStatus member target).Drafted states (v.births w.born) w.born after.born
        core ∧
      (Command.changeStatus member target).Completes core p.changes := by
  unfold Plan.statusChange at hp
  simp only [Setting.gives_bind, shifting_member, Setting.gives_ofRule, Member.transition_eq_ok,
    Setting.gives_pure] at hp
  obtain ⟨m, _, ⟨hm, rfl⟩, _, _, ⟨⟨hallowed, rfl⟩, rfl⟩, q, _, hq, rfl, rfl⟩ := hp
  have heq := (hstates _).keyed member m hm
  subst heq
  have hdrafted := drafted_of_followStatus hstates hm hallowed hq
  exact ⟨q.changes, hdrafted, m.status, hallowed, rfl⟩

/-- Whatever the stores were that a command read, its change set is what was drafted on the teams as
they were read. -/
theorem drafted_of_prepared (hstates : ∀ n, (states n).Legible) {u : Undertaking Answer}
    (hu : (v.shifting states).Gives c.prepare w u after) (hwrite : u.write = .commit changes) :
    ∃ core, c.Drafted states (v.births w.born) w.born after.born core ∧ c.Completes core changes := by
  cases c with
  | registerMember name email status =>
      obtain ⟨m, hsave⟩ := Setting.write_of_registerMember hu
      rw [hsave] at hwrite
      cases hwrite
  | createTeam name members =>
      obtain ⟨t, hform⟩ := Setting.write_of_createTeam hu
      rw [hform] at hwrite
      cases hwrite
  | addMember team member =>
      obtain ⟨p, hp, rfl⟩ := Setting.gives_undertaking.1 hu
      cases hwrite
      obtain ⟨n, k, t, m, i, rfl, rfl, ht, hm, hi, rfl, hborn⟩ := shifting_addition hstates hp
      exact ⟨_, drafted_of_joining hstates (.added hm) ht hi hborn, rfl⟩
  | removeMember team member =>
      obtain ⟨p, hp, rfl⟩ := Setting.gives_undertaking.1 hu
      cases hwrite
      obtain ⟨n, k, t, roster, pick, r, rfl, ht, hroster, hr, rfl⟩ := shifting_removal hstates hp
      refine ⟨_, drafted_of_parting hstates ?_ ht hroster hr, rfl⟩
      rintro m rfl
      exact .removed
  | changeStatus member target =>
      obtain ⟨p, hp, rfl⟩ := Setting.gives_undertaking.1 hu
      rw [← Write.commit.inj hwrite]
      exact drafted_of_statusChange hstates hp
  | reassignMember member =>
      obtain ⟨m, mid, hread, hrest⟩ := Setting.gives_bind.1 hu
      obtain ⟨hm, rfl⟩ := shifting_member.1 hread
      obtain ⟨p, hp, rfl⟩ := Setting.gives_undertaking.1 hrest
      cases hwrite
      have heq := (hstates _).keyed member m hm
      subst heq
      obtain ⟨n, t, i, ht, hi, rfl, hborn⟩ := shifting_assignment hstates hp
      exact ⟨_, drafted_of_joining hstates (.reassigned hm) ht hi hborn, rfl⟩

/-- Whatever the stores were that a command read, its change set is grounded on the teams as they were
read. -/
theorem grounded_of_prepared (hstates : ∀ n, (states n).Legible) {u : Undertaking Answer}
    (hu : (v.shifting states).Gives c.prepare w u after) (hwrite : u.write = .commit changes) :
    ∃ d reads, c.RestsOn states (v.births w.born) d reads ∧
      changes.Grounded (v.births w.born).id d reads := by
  obtain ⟨core, ⟨d, reads, hrests, hgrounded, -, -⟩, hcompletes⟩ := drafted_of_prepared hstates hu hwrite
  exact ⟨d, reads, hrests, hcompletes.grounded hgrounded⟩

end Decisions

/-- A plan made on stale reads does no harm. Let each request of a command be answered by another store,
and take the change set that it commits, whatever the store is on which that happens, as long as the id
for a new team is not in use there. The command was decided on teams as they were read from some of the
stores. The change set expects these to be as they were read, and every team that it adds to, takes from
or deletes is among them. Where it goes through, they were so, and the stored teams are those that were
decided, and otherwise as before. Where one of them is not so any more, it is refused with a conflict,
and nothing is changed. -/
theorem stale_plan_harmless (hstates : ∀ n, (states n).Legible) {c : Command} {changes : ChangeSet}
    (hplanned : changes ∈ commitsOf ((v.shifting states).transcript c.answer w)) {later : Store}
    (hnew : later.teams.find? (v.births w.born).id = none) :
    ∃ d reads, c.RestsOn states (v.births w.born) d reads ∧
      changes.expectations = reads.map (fun t => (t.id, t.memberIds)) ∧
      (∀ e ∈ changes.edits, ∀ id, e.target? = some id → id ∈ changes.expectations.map Prod.fst) ∧
      ((later.commit changes).1 = .ok () →
        (∀ t ∈ reads, later.Meets (t.id, t.memberIds)) ∧
          later.Rewritten (later.commit changes).2 d.rewrite) ∧
      ((∃ t ∈ reads, ¬ later.Meets (t.id, t.memberIds)) →
        ∃ t ∈ reads, ¬ later.Meets (t.id, t.memberIds) ∧
          later.commit changes = (.error (.conflict .team t.id), later)) := by
  obtain ⟨u, ready, hu, hwrite⟩ := Command.prepared_of_commitsOf hplanned
  obtain ⟨d, reads, hrests, hgrounded⟩ := grounded_of_prepared hstates hu hwrite
  refine ⟨d, reads, hrests, hgrounded.expects, ?_, hgrounded.rewritten hnew, hgrounded.refused⟩
  intro e he id hid
  rw [hgrounded.expects, List.map_map]
  exact hgrounded.targets e he id hid

/-- The world after a member left the full team. -/
def leftBehind : World Store Unit :=
  counting.follow [.removeMember (.ofRandom 5) (.ofRandom 3)] full

/-- The first read finds the full team, and all later ones find that a member has left it. -/
def overtaken (n : Nat) : Store :=
  if n = 0 then full.storage else leftBehind.storage

/-- An addition that was planned on the full team is refused where a member has left it since. -/
theorem stale_plan_harmless_overtaken :
    ∃ changes ∈ commitsOf ((counting.shifting overtaken).transcript
        (Command.addMember (.ofRandom 5) (.ofRandom 4)).answer ⟨0, (), 6, 0⟩),
      ∃ id, leftBehind.storage.commit changes = (.error (.conflict .team id), leftBehind.storage) := by
  have hlegible (n : Nat) : (overtaken n).Legible := by
    have hbefore := (reachable_full.sound (by decide +kernel)).store.legible
    have hafter : leftBehind.storage.Legible :=
      ((reachable_full.follow [.removeMember (.ofRandom 5) (.ofRandom 3)]).sound
        (by decide +kernel)).store.legible
    by_cases hn : n = 0
    · simpa [overtaken, hn] using hbefore
    · simpa [overtaken, hn] using hafter
  have hplanned : (commitsOf ((counting.shifting overtaken).transcript
      (Command.addMember (.ofRandom 5) (.ofRandom 4)).answer ⟨0, (), 6, 0⟩)).map
        ChangeSet.expectations =
      [[(.ofRandom 5, [.ofRandom 0, .ofRandom 1, .ofRandom 2, .ofRandom 3])]] := by
    decide +kernel
  have hchanged : ¬ leftBehind.storage.Meets
      (.ofRandom 5, [.ofRandom 0, .ofRandom 1, .ofRandom 2, .ofRandom 3]) := by
    decide +kernel
  obtain ⟨changes, hmem, hexpects⟩ := List.mem_map.1 (hplanned ▸ List.mem_cons_self)
  have hnew : leftBehind.storage.teams.find? (counting.births 6).id = none := by
    decide +kernel
  obtain ⟨d, reads, -, hreads, -, -, hrefused⟩ := stale_plan_harmless hlegible hmem hnew
  rw [hexpects] at hreads
  obtain ⟨t, ht, heq⟩ := List.mem_map.1 (hreads ▸ List.mem_cons_self)
  rw [← heq] at hchanged
  obtain ⟨u, -, -, hconflict⟩ := hrefused ⟨t, ht, hchanged⟩
  exact ⟨changes, hmem, u.id, hconflict⟩

end Surroundings

end TeamRoster
