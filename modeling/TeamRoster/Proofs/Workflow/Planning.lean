import TeamRoster.Proofs.Store.Reads
import TeamRoster.Proofs.Team.Operations
import TeamRoster.Proofs.Workflow.Memory

/-!
# What plans come out as

A plan is made from reads, births and answers to ties. `Surroundings.Yields` says that a use case
gives a value over the store in memory; it is taken apart along sequences, so that each plan is
described by what was read for it. Nothing is said of the stored teams here: these descriptions hold
of every store.
-/

namespace TeamRoster

variable {τ α β : Type}

/-- A world after so many more births and broken ties. -/
def World.drew (w : World Store τ) (births picks : Nat) : World Store τ :=
  { w with born := w.born + births, picked := w.picked + picks }

/-- The member is in no team, or in the one that is allowed. -/
def Store.FreeFor (s : Store) (member : Ident) (allowed : Option Ident) : Prop :=
  ∃ found, s.teamOf member = .ok found ∧ ∀ t ∈ found, some t.id = allowed

theorem Store.freeFor_none {s : Store} {member : Ident} :
    s.FreeFor member none ↔ s.teamOf member = .ok none := by
  constructor
  · rintro ⟨found, hfound, hallowed⟩
    cases found with
    | none => exact hfound
    | some t => cases hallowed t rfl
  · intro h
    exact ⟨none, h, by simp⟩

@[simp] theorem World.drew_drew (w : World Store τ) (births picks births' picks' : Nat) :
    (w.drew births picks).drew births' picks' = w.drew (births + births') (picks + picks') := by
  simp [drew, Nat.add_assoc]

namespace Surroundings

variable {v : Surroundings τ} {w after : World Store τ}

/-- The use case gives this value and leaves this world behind. -/
def Yields (v : Surroundings τ) (u : UseCase α) (w : World Store τ) (a : α)
    (after : World Store τ) : Prop :=
  v.setting.exec u w = (.ok a, after)

/-- A sequence gives a value exactly if its parts do. -/
theorem yields_bind {u : UseCase α} {f : α → UseCase β} {b : β} :
    v.Yields (u >>= f) w b after ↔
      ∃ a mid, v.Yields u w a mid ∧ v.Yields (f a) mid b after :=
  Setting.gives_bind

theorem yields_pure {a b : α} : v.Yields (pure a) w b after ↔ b = a ∧ after = w :=
  Setting.gives_pure

theorem not_yields_throw {x : WorkflowError} {a : α} : ¬ v.Yields (throw x) w a after :=
  Setting.not_gives_throw

theorem yields_ofRule {r : Except RuleError α} {a : α} :
    v.Yields (UseCase.ofRule r) w a after ↔ r = .ok a ∧ after = w :=
  Setting.gives_ofRule

/-- A read gives the reply of the store and leaves the world as it is. -/
theorem yields_read (request : StorageRequest) (hread : request.isRead = true)
    (f : request.Reply → Except StorageError α) {a : α} :
    v.Yields (UseCase.ofReply .storage (.ask (.storage request) fun reply => .done (f reply))) w a
        after ↔
      f (Store.storage request w.storage).1 = .ok a ∧ after = w := by
  have hstorage : (v.setting.storage request w.storage).2 = w.storage :=
    Store.storage_of_isRead hread w.storage
  calc
    v.Yields _ w a after ↔ f (Store.storage request w.storage).1 = .ok a ∧
        after = { w with storage := (v.setting.storage request w.storage).2 } :=
      Setting.gives_request request f
    _ ↔ f (Store.storage request w.storage).1 = .ok a ∧ after = w := by rw [hstorage]

theorem yields_member {id : Ident} {m : Member} :
    v.Yields (UseCase.member id) w m after ↔ w.storage.members.find? id = some m ∧ after = w := by
  rw [← Store.member_eq_ok]
  exact yields_read (.member id) rfl fun reply => reply

theorem yields_team {id : Ident} {t : Team} :
    v.Yields (UseCase.team id) w t after ↔ w.storage.team id = .ok t ∧ after = w :=
  yields_read (.team id) rfl fun reply => reply

theorem yields_teams {roster : List Team} :
    v.Yields UseCase.teams w roster after ↔ w.storage.allTeams = .ok roster ∧ after = w :=
  yields_read .teams rfl fun reply => reply

theorem yields_teamOf {member : Ident} {found : Option Team} :
    v.Yields (UseCase.teamOf member) w found after ↔
      w.storage.teamOf member = .ok found ∧ after = w :=
  yields_read (.teamOf member) rfl fun reply => reply

theorem yields_birth {b : Birth} :
    v.Yields UseCase.birth w b after ↔ b = v.births w.born ∧ after = w.drew 1 0 :=
  Setting.gives_birth

theorem yields_settle {tie : TieBreak α} {a : α} :
    v.Yields (UseCase.settle tie) w a after ↔
      a = tie.resolve (v.picks w.picked) ∧ after = w.drew 0 tie.questions.length :=
  Setting.gives_settle

theorem yields_requireFree {member : Ident} {allowed : Option Ident} {done : Unit} :
    v.Yields (Plan.requireFree member allowed) w done after ↔
      w.storage.FreeFor member allowed ∧ after = w := by
  unfold Plan.requireFree
  rw [yields_bind]
  simp only [yields_teamOf]
  constructor
  · rintro ⟨found, mid, ⟨hfound, rfl⟩, hcheck⟩
    cases found with
    | none => exact ⟨⟨none, hfound, by simp⟩, (yields_pure.1 hcheck).2⟩
    | some t =>
        by_cases hallowed : some t.id = allowed
        · simp only [if_pos hallowed] at hcheck
          exact ⟨⟨some t, hfound, by simpa using hallowed⟩, (yields_pure.1 hcheck).2⟩
        · simp only [if_neg hallowed] at hcheck
          exact absurd hcheck not_yields_throw
  · rintro ⟨⟨found, hfound, hallowed⟩, rfl⟩
    refine ⟨found, after, ⟨hfound, rfl⟩, ?_⟩
    cases found with
    | none => exact yields_pure.2 ⟨rfl, rfl⟩
    | some t =>
        simp only [if_pos (hallowed t rfl)]
        exact yields_pure.2 ⟨rfl, rfl⟩

theorem yields_compose {i : Intake} {c : Composition} :
    v.Yields (Plan.compose i) w c after ↔
      c = i.compose (v.births w.born) ∧ after = w.drew i.needsBirth.toNat 0 := by
  cases i with
  | fits team => exact yields_pure
  | overflows kept draft =>
      unfold Plan.compose
      simp only [yields_bind, yields_birth, yields_pure]
      constructor
      · rintro ⟨b, mid, ⟨rfl, rfl⟩, rfl, rfl⟩
        exact ⟨rfl, rfl⟩
      · rintro ⟨rfl, rfl⟩
        exact ⟨_, _, ⟨rfl, rfl⟩, rfl, rfl⟩

/-- The plan of an addition that was decided, where `expected` is what the stored team is expected to
be and the list it was read with. -/
def growth (expected : ChangeSet × List Ident) (c : Composition) (m : Member) (id : Ident) :
    Plan Team where
  changes := expected.1.pushAll (c.edits expected.2 id)
  events := c.events m
  result := c.team

/-- What a stored team is expected to be: just as it is in the roster. -/
def expectation (roster : List Team) (id : Ident) : ChangeSet × List Ident :=
  match Plan.stored? roster id with
  | some t => (ChangeSet.empty.expect t, t.memberIds)
  | none => (ChangeSet.empty, [])

theorem yields_addition {team member : Ident} {p : Plan Team} :
    v.Yields (Plan.addition team member) w p after ↔
      ∃ t m i, w.storage.team team = .ok t ∧ w.storage.members.find? member = some m ∧
        w.storage.FreeFor member (some team) ∧ t.intake m = .ok i ∧
        p = growth (ChangeSet.empty.expect t, t.memberIds) (i.compose (v.births w.born)) m member ∧
        after = w.drew i.needsBirth.toNat 0 := by
  unfold Plan.addition
  simp only [yields_bind, yields_team, yields_member, yields_requireFree, yields_ofRule,
    yields_compose, yields_pure]
  constructor
  · rintro ⟨t, _, ⟨ht, rfl⟩, m, _, ⟨hm, rfl⟩, _, _, ⟨hfree, rfl⟩, i, _, ⟨hi, rfl⟩, c, _, ⟨rfl, rfl⟩,
      rfl, rfl⟩
    exact ⟨t, m, i, ht, hm, hfree, hi, rfl, rfl⟩
  · rintro ⟨t, m, i, ht, hm, hfree, hi, rfl, rfl⟩
    exact ⟨t, w, ⟨ht, rfl⟩, m, w, ⟨hm, rfl⟩, (), w, ⟨hfree, rfl⟩, i, w, ⟨hi, rfl⟩, _, _, ⟨rfl, rfl⟩,
      rfl, rfl⟩

theorem yields_assignment {m : Member} {p : Plan Team} :
    v.Yields (Plan.assignment m) w p after ↔
      ∃ roster i, w.storage.teamOf m.id = .ok none ∧ w.storage.allTeams = .ok roster ∧
        (assign m roster).resolve (v.picks w.picked) = .ok i ∧
        p = growth (expectation roster (i.compose (v.births w.born)).team.id)
          (i.compose (v.births w.born)) m m.id ∧
        after = w.drew i.needsBirth.toNat (assign m roster).questions.length := by
  unfold Plan.assignment
  simp only [yields_bind, yields_teams, yields_requireFree, Store.freeFor_none, yields_settle,
    yields_ofRule, yields_compose, yields_pure]
  constructor
  · rintro ⟨_, _, ⟨hfree, rfl⟩, roster, _, ⟨hroster, rfl⟩, r, _, ⟨rfl, rfl⟩, i, _, ⟨hi, rfl⟩, c, _,
      ⟨rfl, rfl⟩, rfl, rfl⟩
    refine ⟨roster, i, hfree, hroster, hi, rfl, ?_⟩
    rw [World.drew_drew, Nat.zero_add, Nat.add_zero]
  · rintro ⟨roster, i, hfree, hroster, hi, rfl, rfl⟩
    refine ⟨(), w, ⟨hfree, rfl⟩, roster, w, ⟨hroster, rfl⟩, _, _, ⟨rfl, rfl⟩, i, _, ⟨hi, rfl⟩, _, _,
      ⟨rfl, rfl⟩, rfl, ?_⟩
    rw [World.drew_drew, Nat.zero_add, Nat.add_zero]

/-- The plan of a removal that was decided: what is written, told and returned. -/
def shrinkage (expected : ChangeSet) (r : Redistribution) (team member : Ident) : Plan Team where
  changes := expected.pushAll (r.edits team member)
  events := r.events
  result := r.composition.team

/-- What the teams of a removal are expected to be. -/
def expectations (t : Team) (roster : List Team) : Composition → ChangeSet
  | .merge destination _ _ =>
    match Plan.stored? roster destination.id with
    | some home => (ChangeSet.empty.expect t).expect home
    | none => ChangeSet.empty.expect t
  | _ => ChangeSet.empty.expect t

/-- The plan of a removal as it is put together. -/
theorem shrinkage_eq (t : Team) (roster : List Team) (r : Redistribution) (team member : Ident) :
    ({ changes := (match r.composition with
          | .merge destination _ _ =>
            match Plan.stored? roster destination.id with
            | some t' => (ChangeSet.empty.expect t).expect t'
            | none => ChangeSet.empty.expect t
          | _ => ChangeSet.empty.expect t).pushAll (r.edits team member)
       events := r.events
       result := r.composition.team } : Plan Team) =
      shrinkage (expectations t roster r.composition) r team member := by
  cases hc : r.composition <;> simp [shrinkage, expectations, hc]

theorem yields_removal {team member : Ident} {p : Plan Team} :
    v.Yields (Plan.removal team member) w p after ↔
      ∃ t roster r, w.storage.team team = .ok t ∧ w.storage.allTeams = .ok roster ∧
        (redistribute t member roster).resolve (v.picks w.picked) = .ok r ∧
        p = shrinkage (expectations t roster r.composition) r team member ∧
        after = w.drew 0 (redistribute t member roster).questions.length := by
  unfold Plan.removal
  simp only [yields_bind, yields_team, yields_teams, yields_settle, yields_ofRule, yields_pure]
  constructor
  · rintro ⟨t, _, ⟨ht, rfl⟩, roster, _, ⟨hroster, rfl⟩, _, _, ⟨rfl, rfl⟩, r, _, ⟨hr, rfl⟩, rfl, rfl⟩
    exact ⟨t, roster, r, ht, hroster, hr, shrinkage_eq t roster r team member, rfl⟩
  · rintro ⟨t, roster, r, ht, hroster, hr, rfl, rfl⟩
    exact ⟨t, w, ⟨ht, rfl⟩, roster, w, ⟨hroster, rfl⟩, _, _, ⟨rfl, rfl⟩, r, _, ⟨hr, rfl⟩,
      (shrinkage_eq t roster r team member).symm, rfl⟩

/-- The plan of a change of status that no team is concerned with. -/
def standstill : Plan (Option Team) :=
  ⟨.empty, [], none⟩

/-- A plan whose team is shown as part of something larger. -/
def aside (p : Plan Team) : Plan (Option Team) :=
  { p with result := some p.result }

theorem yields_followStatus {before : Status} {m : Member} {p : Plan (Option Team)} :
    v.Yields (Plan.followStatus before m) w p after ↔
      (before = .active ∧ w.storage.teamOf m.id = .ok none ∧ p = standstill ∧ after = w) ∨
      (before = .active ∧ ∃ t q, w.storage.teamOf m.id = .ok (some t) ∧
        v.Yields (Plan.removal t.id m.id) w q after ∧ p = aside q) ∨
      (before ≠ .active ∧ m.status = .active ∧
        ∃ q, v.Yields (Plan.assignment m) w q after ∧ p = aside q) ∨
      (before ≠ .active ∧ m.status ≠ .active ∧ p = standstill ∧ after = w) := by
  by_cases hbefore : before = .active
  · rw [Plan.followStatus, if_pos hbefore, yields_bind]
    simp only [yields_teamOf, hbefore, ne_eq, not_true_eq_false, false_and, or_false, true_and]
    constructor
    · rintro ⟨found, _, ⟨hfound, rfl⟩, hrest⟩
      cases found with
      | none =>
          obtain ⟨rfl, rfl⟩ := yields_pure.1 hrest
          exact .inl ⟨hfound, rfl, rfl⟩
      | some t =>
          obtain ⟨q, mid, hq, hp⟩ := yields_bind.1 hrest
          obtain ⟨rfl, rfl⟩ := yields_pure.1 hp
          exact .inr ⟨t, q, hfound, hq, rfl⟩
    · rintro (⟨hfound, rfl, rfl⟩ | ⟨t, q, hfound, hq, rfl⟩)
      · exact ⟨none, after, ⟨hfound, rfl⟩, yields_pure.2 ⟨rfl, rfl⟩⟩
      · exact ⟨some t, w, ⟨hfound, rfl⟩, yields_bind.2 ⟨q, after, hq, yields_pure.2 ⟨rfl, rfl⟩⟩⟩
  · by_cases hstatus : m.status = .active
    · rw [Plan.followStatus, if_neg hbefore, if_pos hstatus, yields_bind]
      simp only [yields_pure, hbefore, hstatus, ne_eq, not_true_eq_false, not_false_eq_true,
        false_and, and_false, or_false, false_or, true_and]
      constructor
      · rintro ⟨q, _, hq, rfl, rfl⟩
        exact ⟨q, hq, rfl⟩
      · rintro ⟨q, hq, rfl⟩
        exact ⟨q, after, hq, rfl, rfl⟩
    · rw [Plan.followStatus, if_neg hbefore, if_neg hstatus, yields_pure]
      simp only [hbefore, hstatus, ne_eq, not_false_eq_true, false_and, false_or, true_and]
      exact Iff.rfl

/-- The plan of a change of status: what it does to the teams, and the change itself at the end. -/
def statusPlan (m : Member) (id : Ident) (target : Status) (p : Plan (Option Team)) :
    Plan Plan.StatusChange where
  changes := p.changes.push (.setStatus id m.status target)
  events := p.events
  result := ⟨id, m.status, target, p.result⟩

theorem yields_statusChange {member : Ident} {target : Status} {p : Plan Plan.StatusChange} :
    v.Yields (Plan.statusChange member target) w p after ↔
      ∃ m q, w.storage.members.find? member = some m ∧ m.status.canBecome target = true ∧
        v.Yields (Plan.followStatus m.status { m with status := target }) w q after ∧
        p = statusPlan m member target q := by
  unfold Plan.statusChange
  simp only [yields_bind, yields_member, yields_ofRule, Member.transition_eq_ok,
    yields_pure]
  constructor
  · rintro ⟨m, _, ⟨hm, rfl⟩, _, _, ⟨⟨hallowed, rfl⟩, rfl⟩, q, _, hq, rfl, rfl⟩
    exact ⟨m, q, hm, hallowed, hq, rfl⟩
  · rintro ⟨m, q, hm, hallowed, hq, rfl⟩
    exact ⟨m, w, ⟨hm, rfl⟩, _, w, ⟨⟨hallowed, rfl⟩, rfl⟩, q, after, hq, rfl, rfl⟩

/-- Free members are those that are stored under the ids and in no team. -/
theorem yields_freeMembers {ids : List Ident} {ms : List Member} :
    v.Yields (UseCase.freeMembers ids) w ms after ↔
      List.Forall₂ (fun id m => w.storage.teamOf id = .ok none ∧
        w.storage.members.find? id = some m) ids ms ∧ after = w := by
  induction ids generalizing ms w after with
  | nil =>
      rw [UseCase.freeMembers, yields_pure, List.forall₂_nil_left_iff]
  | cons id ids ih =>
      rw [UseCase.freeMembers, List.forall₂_cons_left_iff]
      simp only [yields_bind, yields_requireFree, Store.freeFor_none, yields_member, ih, yields_pure]
      constructor
      · rintro ⟨_, _, ⟨hfree, rfl⟩, m, _, ⟨hm, rfl⟩, rest, _, ⟨hrest, rfl⟩, rfl, rfl⟩
        exact ⟨⟨m, rest, ⟨hfree, hm⟩, hrest, rfl⟩, rfl⟩
      · rintro ⟨⟨m, rest, ⟨hfree, hm⟩, hrest, rfl⟩, rfl⟩
        exact ⟨(), after, ⟨hfree, rfl⟩, m, after, ⟨hm, rfl⟩, rest, after, ⟨hrest, rfl⟩, rfl, rfl⟩

/-- A member is registered under a name and an address, with the next birth. -/
theorem yields_registerMember {text address : String} {status : Status} {u : Undertaking Answer} :
    v.Yields (Command.registerMember text address status).prepare w u after ↔
      ∃ name email, MemberName.ofText text = .ok name ∧ Email.ofText address = .ok email ∧
        u = ⟨.save (.register (v.births w.born) name email status), [],
          .ofMember (.register (v.births w.born) name email status)⟩ ∧
        after = w.drew 1 0 := by
  simp only [Command.prepare, yields_bind, yields_ofRule, yields_birth, yields_pure]
  constructor
  · rintro ⟨name, _, ⟨hname, rfl⟩, email, _, ⟨hemail, rfl⟩, _, _, ⟨rfl, rfl⟩, rfl, rfl⟩
    exact ⟨name, email, hname, hemail, rfl, rfl⟩
  · rintro ⟨name, email, hname, hemail, rfl, rfl⟩
    exact ⟨name, w, ⟨hname, rfl⟩, email, w, ⟨hemail, rfl⟩, _, _, ⟨rfl, rfl⟩, rfl, rfl⟩

/-- A team is formed of free members who make up a draft, with the next birth. -/
theorem yields_createTeam {text : String} {ids : List Ident} {u : Undertaking Answer} :
    v.Yields (Command.createTeam text ids).prepare w u after ↔
      ∃ name ms draft, TeamName.ofText text = .ok name ∧
        List.Forall₂ (fun id m => w.storage.teamOf id = .ok none ∧
          w.storage.members.find? id = some m) ids ms ∧
        Team.Draft.ofMembers name ms = .ok draft ∧
        u = ⟨.form (draft.form (v.births w.born)), [], .ofTeam (draft.form (v.births w.born))⟩ ∧
        after = w.drew 1 0 := by
  simp only [Command.prepare, yields_bind, yields_ofRule, yields_freeMembers, yields_birth,
    yields_pure]
  constructor
  · rintro ⟨name, _, ⟨hname, rfl⟩, ms, _, ⟨hms, rfl⟩, draft, _, ⟨hdraft, rfl⟩, _, _, ⟨rfl, rfl⟩, rfl,
      rfl⟩
    exact ⟨name, ms, draft, hname, hms, hdraft, rfl, rfl⟩
  · rintro ⟨name, ms, draft, hname, hms, hdraft, rfl, rfl⟩
    exact ⟨name, w, ⟨hname, rfl⟩, ms, w, ⟨hms, rfl⟩, draft, w, ⟨hdraft, rfl⟩, _, _, ⟨rfl, rfl⟩, rfl,
      rfl⟩

end Surroundings

end TeamRoster
