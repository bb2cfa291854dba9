import TeamRoster.Proofs.Store.WellFormed
import TeamRoster.Proofs.Workflow.Landing

/-!
# What a command comes up with, and what becomes of it

A command that read from any stores comes up with a write, and after it does nothing but tell mentors.
Main statements: `offers_of_prepared` says what the write is, and `Offers.lands` what it does to the sound
store on which it goes through.
-/

namespace TeamRoster

open scoped List

variable {ι τ : Type}

/-- The member lists that a request was planned against. -/
def StorageRequest.expectations : StorageRequest → List (Ident × List Ident)
  | commit c => c.expectations
  | member _ | members | saveMember _ | setStatus _ _ | team _ | teams | teamOf _ | createTeam _
  | deleteTeam _ | addMember _ _ | removeMember _ _ => []

/-- A write as a request. -/
def Write.request : Write → StorageRequest
  | save m => .saveMember m
  | form t => .createTeam t
  | commit c => .commit c

theorem Write.isRead_request (x : Write) : x.request.isRead = false := by
  cases x <;> rfl

namespace Command

section Remaining

/-- A dialogue that does no more than to tell mentors of events. -/
def Tells (d : Dialogue Ask Ask.Answer Answer) : Prop :=
  d.Keeps (fun q => ∃ event, q = .deliver event) fun _ => True

/-- What is left to do of a command after its preparation. -/
def finish : Except WorkflowError (Undertaking Answer) → Dialogue Ask Ask.Answer Answer
  | .ok u => u.carryOut.run.bind fun r => .done (Answer.ofResult r)
  | .error x => .done (.ofFailure x)

theorem answer_eq (c : Command) : c.answer = c.prepare.run.bind finish := by
  rw [answer, perform_eq]
  simp only [ExceptT.run_bind, Dialogue.bind_eq, Dialogue.bind_assoc]
  congr 1
  funext r
  cases r with
  | error x => rfl
  | ok u =>
      change u.carryOut.run.bind _ = u.carryOut.run.bind _
      congr 1
      funext r
      cases r <;> rfl

theorem tells_announce (events : List Event) (result : Answer) :
    Tells ((UseCase.announce events >>= fun _ => pure result : UseCase Answer).run.bind fun r =>
      .done (Answer.ofResult r)) := by
  have htold : (UseCase.announce events >>= fun _ => pure result : UseCase Answer).run.Keeps
      (fun q => ∃ event, q = .deliver event) fun _ => True := by
    apply Dialogue.Keeps.bind (UseCase.keeps_announce events)
    intro r _
    cases r <;> trivial
  exact htold.bind fun _ _ => trivial

/-- What is left to do first is the write, and after that mentors are told. -/
theorem finish_ok (u : Undertaking Answer) :
    ∃ next, finish (.ok u) = .ask (.storage u.write.request) next ∧ ∀ reply, Tells (next reply) := by
  obtain ⟨write, events, result⟩ := u
  cases write with
  | save m =>
      refine ⟨_, rfl, ?_⟩
      intro reply
      cases reply with
      | error x => trivial
      | ok done => exact tells_announce events result
  | form t =>
      refine ⟨_, rfl, ?_⟩
      intro reply
      cases reply with
      | error x => trivial
      | ok done => exact tells_announce events result
  | commit changes =>
      refine ⟨_, rfl, ?_⟩
      intro reply
      cases reply with
      | error x => trivial
      | ok done => exact tells_announce events result

end Remaining

/-- A write that a command came up with from what it read in stores that can be read, after `born` births,
where there were `ready` in the end. -/
inductive Offers (v : Surroundings τ) (born ready : Nat) : Command → Write → Prop
  | registers {name email : String} {status : Status} {m : Member}
      (named : m.id = (v.births born).id) (drawn : born < ready) :
      Offers v born ready (.registerMember name email status) (.save m)
  | forms {name : String} {t : Team} (named : t.id = (v.births born).id) (drawn : born < ready)
      (different : t.memberIds.Nodup) : Offers v born ready (.createTeam name t.memberIds) (.form t)
  | changes {c : Command} {states : Nat → Store} {core changes : ChangeSet}
      (legible : ∀ n, (states n).Legible) (drafted : c.Drafted states (v.births born) born ready core)
      (completes : c.Completes core changes) : Offers v born ready c (.commit changes)

variable {v : Surroundings τ} {states : Nat → Store} {w after : World Nat τ} {c : Command}
  {u : Undertaking Answer}

theorem shifting_freeMembers (hstates : ∀ n, (states n).Legible) {ids : List Ident} {ms : List Member}
    (h : (v.shifting states).Gives (UseCase.freeMembers ids) w ms after) :
    ms.map Member.id = ids ∧ after.born = w.born := by
  induction ids generalizing w ms with
  | nil =>
      obtain ⟨rfl, rfl⟩ := Setting.gives_pure.1 h
      exact ⟨rfl, rfl⟩
  | cons id ids ih =>
      simp only [UseCase.freeMembers, Setting.gives_bind, Surroundings.shifting_member,
        Setting.gives_pure] at h
      obtain ⟨_, _, hfree, m, _, ⟨hm, rfl⟩, rest, _, hrest, rfl, rfl⟩ := h
      have heq := Surroundings.shifting_requireFree hfree
      subst heq
      obtain ⟨rfl, hborn⟩ := ih hrest
      exact ⟨congrArg (· :: _) ((hstates _).keyed id m hm), hborn⟩

/-- What a command prepares is a write that it comes up with from what it read. -/
theorem offers_of_prepared (hstates : ∀ n, (states n).Legible)
    (hu : (v.shifting states).Gives c.prepare w u after) : c.Offers v w.born after.born u.write := by
  have hcommits (changes : ChangeSet) (hwrite : u.write = .commit changes) :
      c.Offers v w.born after.born u.write := by
    obtain ⟨core, hdrafted, hcompletes⟩ := Surroundings.drafted_of_prepared hstates hu hwrite
    rw [hwrite]
    exact .changes hstates hdrafted hcompletes
  cases c with
  | registerMember name email status =>
      simp only [prepare, Setting.gives_bind, Setting.gives_ofRule, Setting.gives_birth,
        Setting.gives_pure] at hu
      obtain ⟨_, _, ⟨-, rfl⟩, _, _, ⟨-, rfl⟩, _, _, ⟨rfl, rfl⟩, rfl, rfl⟩ := hu
      exact .registers rfl (Nat.lt_succ_self _)
  | createTeam name ids =>
      simp only [prepare, Setting.gives_bind, Setting.gives_ofRule, Setting.gives_birth,
        Setting.gives_pure] at hu
      obtain ⟨_, start, ⟨-, hstart⟩, ms, _, hms, draft, mid, ⟨hdraft, rfl⟩, _, _, ⟨rfl, rfl⟩, rfl, rfl⟩ :=
        hu
      rw [hstart] at hms
      obtain ⟨rfl, hborn⟩ := shifting_freeMembers hstates hms
      obtain ⟨-, rfl⟩ := Team.Draft.of_ofMembers hdraft
      have hnamed : (draft.form (v.births mid.born)).id = (v.births w.born).id := by
        rw [Team.Draft.form_id, hborn]
      have hdrawn : w.born < mid.born + 1 := by omega
      exact .forms hnamed hdrawn draft.nodup
  | addMember team member =>
      obtain ⟨p, -, rfl⟩ := Setting.gives_undertaking.1 hu
      exact hcommits _ rfl
  | removeMember team member =>
      obtain ⟨p, -, rfl⟩ := Setting.gives_undertaking.1 hu
      exact hcommits _ rfl
  | changeStatus member target =>
      obtain ⟨p, -, rfl⟩ := Setting.gives_undertaking.1 hu
      exact hcommits _ rfl
  | reassignMember member =>
      obtain ⟨m, mid, -, hrest⟩ := Setting.gives_bind.1 hu
      obtain ⟨p, -, rfl⟩ := Setting.gives_undertaking.1 hrest
      exact hcommits _ rfl

end Command

namespace Store

variable {s d after : Store}

/-- Every id that is in use afterwards was in use before, or is such a new one. -/
structure GrowsBy (s after : Store) (new : Ident → Prop) : Prop where
  members (id : Ident) (m : Member) : after.members.find? id = some m →
    (∃ x, s.members.find? id = some x) ∨ new id
  teams (id : Ident) (r : TeamRecord) : after.teams.find? id = some r →
    (∃ q, s.teams.find? id = some q) ∨ new id

theorem GrowsBy.same {new : Ident → Prop} (hteams : after.teams = s.teams)
    (hmembers : after.members = s.members) : s.GrowsBy after new := by
  constructor
  · intro id m hm
    exact .inl ⟨m, hmembers ▸ hm⟩
  · intro id r hr
    exact .inl ⟨r, hteams ▸ hr⟩

theorem GrowsBy.mono {new more : Ident → Prop} (h : s.GrowsBy after new)
    (hnew : ∀ id, new id → more id) : s.GrowsBy after more := by
  constructor
  · intro id m hm
    exact (h.members id m hm).imp_right (hnew id)
  · intro id r hr
    exact (h.teams id r hr).imp_right (hnew id)

/-- A write that fails leaves the stored teams and members alone. -/
theorem request_unchanged {x : Write} {failure : StorageError}
    (h : x.request.failure? (storage x.request s).1 = some failure) :
    (storage x.request s).2.teams = s.teams ∧ (storage x.request s).2.members = s.members := by
  have hwrite (hfails : (Storage.write storage x s).1 = .error failure) :
      (Storage.write storage x s).2.teams = s.teams ∧
        (Storage.write storage x s).2.members = s.members :=
    write_unchanged (Prod.ext hfails rfl)
  cases x with
  | save m => cases h
  | form t => exact hwrite (Failing.failure?_eq_some.1 h)
  | commit c => exact hwrite (Failing.failure?_eq_some.1 h)

end Store

namespace Command

variable {v : Surroundings τ} {c : Command} {x : Write} {s : Store} {born ready : Nat}

/-- What becomes of a sound store when the write of a command goes through. -/
structure Lands (v : Surroundings τ) (born ready : Nat) (c : Command) (x : Write) (s after : Store) :
    Prop where
  keyed : after.Keyed
  sound : after.Sound ↔ c.Timely s x.request.expectations
  grows : s.GrowsBy after fun id => born < ready ∧ (v.births born).id = id

theorem lands_of_save {name email : String} {status : Status} {m : Member} (hs : s.Sound)
    (hnamed : m.id = (v.births born).id) (hdrawn : born < ready)
    (hnew : s.members.find? (v.births born).id = none) :
    (registerMember name email status).Lands v born ready (.save m) s (s.saveMember m) := by
  have hsound : (s.saveMember m).Sound := hs.saveMember (hnamed ▸ hnew)
  refine ⟨hsound.keyed, iff_of_true hsound trivial, ?_, ?_⟩
  · intro id x hx
    change (s.members.insert m.id m).find? id = some x at hx
    rw [Directory.find?_insert] at hx
    by_cases hid : id = m.id
    · exact .inr ⟨hdrawn, (hid.trans hnamed).symm⟩
    · rw [if_neg hid] at hx
      exact .inl ⟨x, hx⟩
  · intro id r hr
    exact .inl ⟨r, hr⟩

theorem lands_of_form {name : String} {t : Team} {after : Store} (hs : s.Sound)
    (hnamed : t.id = (v.births born).id) (hdrawn : born < ready) (hdifferent : t.memberIds.Nodup)
    (hnew : s.teams.find? (v.births born).id = none) (happly : s.apply (.createTeam t) = .ok after) :
    (createTeam name t.memberIds).Lands v born ready (.form t) s after := by
  rw [← hnamed] at hnew
  obtain ⟨hsame, hfound⟩ := Store.find?_created hnew happly
  have hmembers (id : Ident) : after.members.find? id = s.members.find? id := by
    rw [hsame]
  have hroll : after.roll ~ t.memberIds ++ s.roll :=
    (Store.roll_created hnew happly).trans List.perm_append_comm
  refine ⟨?_, hs.joined_iff hdifferent hmembers hroll, ?_, ?_⟩
  · intro id m hm
    exact hs.keyed id m (hmembers id ▸ hm)
  · intro id m hm
    exact .inl ⟨m, hmembers id ▸ hm⟩
  · intro id r hr
    rw [hfound] at hr
    by_cases hid : id = t.id
    · exact .inr ⟨hdrawn, (hid.trans hnamed).symm⟩
    · rw [if_neg hid] at hr
      exact .inl ⟨r, hr⟩

theorem lands_of_commit {states : Nat → Store} {core changes : ChangeSet} {after : Store}
    (hstates : ∀ n, (states n).Legible)
    (hdrafted : c.Drafted states (v.births born) born ready core) (hcompletes : c.Completes core changes)
    (hs : s.Sound) (hnew : s.teams.find? (v.births born).id = none)
    (hcommit : s.commit changes = (.ok (), after)) : c.Lands v born ready (.commit changes) s after := by
  have hsound := hdrafted.sound_iff_timely hstates hcompletes hs hnew hcommit
  obtain ⟨d, reads, -, hgrounded, hteams, hfounded⟩ := hdrafted
  have hmembers := hcompletes.restates hteams hcommit
  have hrewritten := ((hcompletes.grounded hgrounded).rewritten hnew (congrArg Prod.fst hcommit)).2
  rw [hcommit] at hrewritten
  refine ⟨?_, hsound, ?_, ?_⟩
  · intro id m hm
    rw [hmembers] at hm
    obtain ⟨x, hx, rfl⟩ := Option.map_eq_some_iff.1 hm
    rw [restated_id]
    exact hs.keyed id x hx
  · intro id m hm
    rw [hmembers] at hm
    obtain ⟨x, hx, -⟩ := Option.map_eq_some_iff.1 hm
    exact .inl ⟨x, hx⟩
  · intro id r hr
    rcases hrewritten.find?_some hr with hbefore | ⟨u, hu, rfl⟩
    · exact .inl hbefore
    · obtain ⟨hid, hdrawn⟩ := hfounded u hu
      exact .inr ⟨hdrawn, hid.symm⟩

/-- The write that a command came up with goes through on a sound store where the id of its birth is not
in use: the store is sound afterwards exactly if the command is timely. -/
theorem Offers.lands (h : c.Offers v born ready x) (hs : s.Sound)
    (hmember : s.members.find? (v.births born).id = none)
    (hteam : s.teams.find? (v.births born).id = none)
    (hreply : x.request.failure? (Store.storage x.request s).1 = none) :
    c.Lands v born ready x s (Store.storage x.request s).2 := by
  cases h with
  | registers named drawn => exact lands_of_save hs named drawn hmember
  | @forms name t named drawn different =>
      refine lands_of_form hs named drawn different hteam ?_
      change s.apply (.createTeam t) = .ok (s.written (s.apply (.createTeam t))).2
      change Failing.failure? (s.written (s.apply (.createTeam t))).1 = none at hreply
      cases happly : s.apply (.createTeam t) with
      | ok after => rfl
      | error failure =>
          rw [happly] at hreply
          cases hreply
  | @changes c states core changes legible drafted completes =>
      refine lands_of_commit legible drafted completes hs hteam ?_
      change s.commit changes = (.ok (), (s.commit changes).2)
      change Failing.failure? (s.commit changes).1 = none at hreply
      cases hcommit : s.commit changes with
      | mk reply after =>
          cases reply with
          | ok done => rfl
          | error failure =>
              rw [hcommit] at hreply
              cases hreply

end Command

end TeamRoster
