import TeamRoster.Proofs.Store.TeamEdits
import TeamRoster.Proofs.Workflow.Recorded
import TeamRoster.Proofs.Workflow.Soundness

/-!
# How commands fail

Beside `Surroundings.Yields`, which says that a use case gives a value, `Surroundings.Fails` says that
it fails, and is taken apart along sequences in the same way. On a sound store reads fail only because
something is not stored, and a change set that the store `Accepts` is committed. Main statements:
`fails_perform` lists the ways in which a command can fail, and `saves_iff_prepares` leaves those that
remain where every write that is prepared goes through.
-/

namespace TeamRoster

variable {τ α β : Type}

namespace Surroundings

variable {v : Surroundings τ} {w : World Store τ} {x : WorkflowError}

/-- The use case fails like this. -/
def Fails (v : Surroundings τ) (u : UseCase α) (w : World Store τ) (x : WorkflowError) : Prop :=
  (v.setting.exec u w).1 = .error x

/-- A use case gives a value or fails. -/
theorem yields_or_fails (v : Surroundings τ) (u : UseCase α) (w : World Store τ) :
    (∃ a after, v.Yields u w a after) ∨ ∃ x, v.Fails u w x := by
  unfold Yields Fails
  cases hrun : v.setting.exec u w with
  | mk r after =>
      cases r with
      | ok a => exact .inl ⟨a, after, rfl⟩
      | error x => exact .inr ⟨x, rfl⟩

/-- A sequence fails as its first part does, or as the rest does after it. -/
theorem fails_bind {u : UseCase α} {f : α → UseCase β} :
    v.Fails (u >>= f) w x ↔
      v.Fails u w x ∨ ∃ a mid, v.Yields u w a mid ∧ v.Fails (f a) mid x := by
  unfold Fails Yields
  rw [Setting.exec_bind]
  cases hrun : v.setting.exec u w with
  | mk r mid =>
      cases r with
      | ok a => simp
      | error y => simp

theorem not_fails_pure {a : α} : ¬ v.Fails (pure a) w x := by
  simp [Fails]

theorem fails_ofRule {r : Except RuleError α} :
    v.Fails (UseCase.ofRule r) w x ↔ ∃ e, r = .error e ∧ x = .rule e := by
  cases r with
  | ok a => simp [UseCase.ofRule, Fails]
  | error e => simp [UseCase.ofRule, Fails, eq_comm]

/-- A read fails as the reply of the store does. -/
theorem fails_read (request : StorageRequest) (f : request.Reply → Except StorageError α) :
    v.Fails (UseCase.ofReply .storage (.ask (.storage request) fun reply => .done (f reply))) w x ↔
      ∃ e, f (Store.storage request w.storage).1 = .error e ∧ x = .storage e := by
  have hexec : (v.setting.exec
      (UseCase.ofReply .storage (.ask (.storage request) fun reply => .done (f reply))) w).1 =
        (f (Store.storage request w.storage).1).mapError .storage := rfl
  unfold Fails
  rw [hexec]
  cases f (Store.storage request w.storage).1 <;> simp [eq_comm]

theorem fails_member {id : Ident} :
    v.Fails (UseCase.member id) w x ↔
      w.storage.members.find? id = none ∧ x = .storage (.notFound .member id) := by
  have hread : v.Fails (UseCase.member id) w x ↔
      ∃ e, w.storage.member id = .error e ∧ x = .storage e :=
    fails_read (.member id) fun reply => reply
  rw [hread, Store.member]
  cases w.storage.members.find? id <;> simp

theorem fails_team {id : Ident} :
    v.Fails (UseCase.team id) w x ↔ ∃ e, w.storage.team id = .error e ∧ x = .storage e :=
  fails_read (.team id) fun reply => reply

theorem fails_teams :
    v.Fails UseCase.teams w x ↔ ∃ e, w.storage.allTeams = .error e ∧ x = .storage e :=
  fails_read .teams fun reply => reply

theorem fails_teamOf {member : Ident} :
    v.Fails (UseCase.teamOf member) w x ↔ ∃ e, w.storage.teamOf member = .error e ∧ x = .storage e :=
  fails_read (.teamOf member) fun reply => reply

theorem not_fails_settle {tie : TieBreak α} : ¬ v.Fails (UseCase.settle tie) w x := by
  cases tie with
  | settled a => exact not_fails_pure
  | among count next =>
      rintro ⟨⟩

theorem fails_undertaking {view : α → Answer} {plan : UseCase (Plan α)} :
    v.Fails (do return (← plan).undertaking view : UseCase (Undertaking Answer)) w x ↔
      v.Fails plan w x := by
  rw [fails_bind]
  constructor
  · rintro (hfails | ⟨p, mid, -, hfails⟩)
    · exact hfails
    · exact absurd hfails not_fails_pure
  · exact .inl

end Surroundings

namespace Store

variable {s d : Store} {c : ChangeSet}

section Reads

/-- In a sound store, the members of every record are stored. -/
theorem Sound.assemble (h : s.Sound) {id : Ident} {r : TeamRecord}
    (hr : s.teams.find? id = some r) : ∃ t, s.assemble id r = .ok t := by
  refine exists_assemble fun x hx => ?_
  -- Whoever is listed is on the roll, and so stored.
  obtain ⟨m, hm, -⟩ := h.active x (mem_roll.2 ⟨id, r, hr, hx⟩)
  exact ⟨m, hm⟩

/-- In a sound store, a team cannot be read only if it is not stored. -/
theorem Sound.team_eq_error (h : s.Sound) {id : Ident} {e : StorageError} :
    s.team id = .error e ↔ s.teams.find? id = none ∧ e = .notFound .team id := by
  unfold team
  cases hr : s.teams.find? id with
  | none => simp [eq_comm]
  | some r =>
      obtain ⟨t, ht⟩ := h.assemble hr
      simp [ht]

/-- All teams of a sound store can be read. -/
theorem Sound.allTeams (h : s.Sound) : ∃ roster, s.allTeams = .ok roster := by
  apply Failing.mapM_ok
  intro e he
  have hentry : (e.1, e.2) ∈ s.teams.entries := List.mem_mergeSort.1 he
  exact h.assemble (Directory.find?_eq_some.2 hentry)

/-- It can be read from a sound store which team a member is in. -/
theorem Sound.teamOf (h : s.Sound) (member : Ident) : ∃ found, s.teamOf member = .ok found := by
  rcases s.teamOf_cases member with ⟨hnone, -⟩ | ⟨id, r, hfound, hr, -⟩
  · exact ⟨none, hnone⟩
  · obtain ⟨t, ht⟩ := h.assemble hr
    exact ⟨some t, by rw [hfound, ht]; rfl⟩

end Reads

section Commits

/-- The expectations of a change set are met, and its edits can be carried out and change no
member. -/
structure Accepts (s : Store) (c : ChangeSet) : Prop where
  meets (e : Ident × List Ident) : e ∈ c.expectations → s.Meets e
  applies : ∃ d, s.applyAll c.edits = .ok d ∧ d.members = s.members

theorem accepts_empty (s : Store) : s.Accepts .empty := by
  refine ⟨?_, s, rfl, rfl⟩
  rintro e ⟨⟩

/-- A store is expected to hold a team that it holds. -/
theorem Holds.meets {t : Team} (h : s.Holds t) : s.Meets (t.id, t.memberIds) := by
  obtain ⟨place, hplace⟩ := h.record
  change (s.teams.find? t.id).map TeamRecord.memberIds = some t.memberIds
  rw [hplace]
  rfl

/-- A team is expected in addition to what was expected before. -/
theorem mem_expectations_expect {t : Team} {e : Ident × List Ident}
    (he : e ∈ (c.expect t).expectations) : e ∈ c.expectations ∨ e = (t.id, t.memberIds) := by
  unfold ChangeSet.expect at he
  split at he
  · exact .inl he
  · rcases List.mem_append.1 he with hbefore | hnew
    · exact .inl hbefore
    · exact .inr (List.mem_singleton.1 hnew)

/-- What is accepted is committed. -/
theorem Accepts.commits (h : s.Accepts c) : ∃ after, s.commit c = (.ok (), after) := by
  obtain ⟨d, happly, -⟩ := h.applies
  exact (exists_commit_iff h.meets).2 ⟨d, happly⟩

/-- What is accepted is also committed with a change of the status of a stored member. -/
theorem Accepts.commits_status (h : s.Accepts c) {id : Ident} {m : Member} {target : Status}
    (hm : s.members.find? id = some m) :
    ∃ after, s.commit (c.push (.setStatus id m.status target)) = (.ok (), after) := by
  obtain ⟨d, happly, hmembers⟩ := h.applies
  have hset : d.apply (.setStatus id m.status target) = .ok (d.restate id m target) := by
    rw [← hmembers] at hm
    exact apply_setStatus_eq_ok.2 ⟨m, hm, rfl, rfl⟩
  have hall : s.applyAll (c.edits ++ [.setStatus id m.status target]) =
      .ok (d.restate id m target) := by
    rw [applyAll_append, happly]
    simp [hset]
  exact (exists_commit_iff (c := c.push (.setStatus id m.status target)) h.meets).2 ⟨_, hall⟩

end Commits

end Store

namespace Command

variable {v : Surroundings τ} {w : World Store τ} {c : Command} {x : WorkflowError}

/-- What is carried out fails with a delivery or as its write does. -/
theorem fails_carryOut {u : Undertaking Answer} (h : v.Fails u.carryOut w x) :
    (∃ lost, x = .delivery lost) ∨
      ∃ e, (Storage.write Store.storage u.write w.storage).1 = .error e ∧ x = .storage e := by
  unfold Surroundings.Fails at h
  rw [Setting.exec_carryOut] at h
  cases hwritten : v.setting.storage.write u.write w.storage with
  | mk reply s =>
      rw [hwritten] at h
      cases reply with
      | error e => exact .inr ⟨e, congrArg Prod.fst hwritten, (Except.error.inj h).symm⟩
      | ok done =>
          cases htold : v.setting.tell u.events w.transport with
          | mk told after =>
              simp only [htold] at h
              cases told with
              | error lost => exact .inl ⟨lost, (Except.error.inj h).symm⟩
              | ok done => cases h

/-- A command fails with a delivery, or as its preparation does, or as the write that was
prepared. -/
theorem fails_perform (h : v.Fails c.perform w x) :
    (∃ lost, x = .delivery lost) ∨ v.Fails c.prepare w x ∨
      ∃ u ready e, v.Yields c.prepare w u ready ∧
        (Storage.write Store.storage u.write w.storage).1 = .error e ∧ x = .storage e := by
  rw [perform_eq, Surroundings.fails_bind] at h
  rcases h with hprepare | ⟨u, ready, hprepared, hfails⟩
  · exact .inr (.inl hprepare)
  · have hstorage : ready.storage = w.storage := (prepare_keeps hprepared).1
    rcases fails_carryOut hfails with hlost | ⟨e, hrefused, hx⟩
    · exact .inl hlost
    · rw [hstorage] at hrefused
      exact .inr (.inr ⟨u, ready, e, hprepared, hrefused, hx⟩)

/-- Where every write that is prepared goes through, a command goes through exactly if it can be
prepared. -/
theorem saves_iff_prepares (hwrites : ∀ u ready, v.Yields c.prepare w u ready →
      ∃ s, Storage.write Store.storage u.write w.storage = (.ok (), s)) :
    v.Saves c w ↔ ∃ u ready, v.Yields c.prepare w u ready := by
  rw [Surroundings.saves_iff]
  constructor
  · rintro ⟨u, ready, s, hsaved⟩
    exact ⟨u, ready, hsaved.prepared⟩
  · rintro ⟨u, ready, hprepared⟩
    obtain ⟨s, hwritten⟩ := hwrites u ready hprepared
    exact ⟨u, ready, s, hprepared, hwritten⟩

/-- Where every write that is prepared goes through, a command fails only with a delivery or as its
preparation does. -/
theorem fails_prepare (hwrites : ∀ u ready, v.Yields c.prepare w u ready →
      ∃ s, Storage.write Store.storage u.write w.storage = (.ok (), s))
    (h : v.Fails c.perform w x) : (∃ lost, x = .delivery lost) ∨ v.Fails c.prepare w x := by
  rcases fails_perform h with hlost | hprepare | ⟨u, ready, e, hprepared, hrefused, -⟩
  · exact .inl hlost
  · exact .inr hprepare
  · obtain ⟨s, hwritten⟩ := hwrites u ready hprepared
    rw [hwritten] at hrefused
    cases hrefused

end Command

end TeamRoster
