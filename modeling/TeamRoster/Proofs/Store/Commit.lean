import TeamRoster.Proofs.Store.Overlay

/-!
# Commits are atomic

A commit either carries out all its edits, with the same effect as carrying them out one after the
other, or it fails and leaves the stored teams and members alone. Main statement: `commit_serial`
says when it does which, and with which failure. The statuses are written after the teams were
published, when a failure would come too late; none can come there.
-/

namespace TeamRoster

namespace Store

/-- The team has exactly the members that are expected of it. -/
def Meets (s : Store) (e : Ident × List Ident) : Prop :=
  (s.teams.find? e.1).map TeamRecord.memberIds = some e.2

instance (s : Store) (e : Ident × List Ident) : Decidable (s.Meets e) :=
  inferInstanceAs (Decidable (_ = _))

/-- The plain form of a commit: look at the expectations in order, then carry out the edits one after
the other. -/
def serial (s : Store) (c : ChangeSet) : Except StorageError Store :=
  match c.expectations.find? fun e => !decide (s.Meets e) with
  | some e => .error (.conflict .team e.1)
  | none => s.applyAll c.edits

theorem checkExpectations_eq (s : Store) (es : List (Ident × List Ident)) :
    s.checkExpectations es =
      match es.find? fun e => !decide (s.Meets e) with
      | some e => .error (.conflict .team e.1)
      | none => .ok () := by
  induction es with
  | nil => rfl
  | cons e es ih =>
      have hunfold : s.checkExpectations (e :: es) =
          ((if s.Meets e then .ok () else .error (.conflict .team e.1)) >>= fun _ : Unit =>
            s.checkExpectations es) := rfl
      rw [hunfold]
      by_cases he : s.Meets e
      · simpa [he] using ih
      · simp [he]

/-- Edits fail as the first of them that cannot be carried out after those before it. -/
theorem applyAll_eq_error {s : Store} {es : List Edit} {failure : StorageError} :
    s.applyAll es = .error failure ↔
      ∃ before e rest d, es = before ++ e :: rest ∧ s.applyAll before = .ok d ∧
        d.apply e = .error failure := by
  induction es generalizing s with
  | nil => simp
  | cons e es ih =>
      constructor
      · intro h
        cases hd : s.apply e with
        | error other =>
            refine ⟨[], e, es, s, rfl, rfl, ?_⟩
            simpa [hd] using h
        | ok after =>
            rw [applyAll_cons, hd, Failing.ok_bind] at h
            obtain ⟨before, f, rest, d, rfl, hbefore, hf⟩ := ih.1 h
            exact ⟨e :: before, f, rest, d, rfl, by simp [hd, hbefore], hf⟩
      · rintro ⟨before, f, rest, d, hes, hbefore, hf⟩
        rw [hes, applyAll_append, hbefore]
        simp [hf]

theorem writeStatuses_append (s : Store) (es fs : List (Ident × Status)) {after : Store}
    (h : s.writeStatuses es = (.ok (), after)) :
    s.writeStatuses (es ++ fs) = after.writeStatuses fs := by
  induction es generalizing s with
  | nil =>
      have heq : s = after := congrArg Prod.snd h
      subst heq
      rfl
  | cons e es ih =>
      rw [List.cons_append]
      cases hs : s.setStatus e.1 e.2 with
      | error failure => simp [writeStatuses, hs] at h
      | ok t =>
          simp only [writeStatuses, hs] at h ⊢
          exact ih t h

/-- Statuses of stored members can all be written. Each member is left with the latest one. -/
theorem writeStatuses_reverse (s : Store) (es : List (Ident × Status))
    (known : ∀ e ∈ es, s.members.contains e.1 = true) :
    ∃ members, s.writeStatuses es.reverse = (.ok (), { s with members }) ∧
      ∀ id, members.find? id = (s.members.find? id).map (Staging.restate es id) := by
  induction es with
  | nil =>
      refine ⟨s.members, rfl, fun id => ?_⟩
      have hid : Staging.restate [] id = fun m => m := rfl
      rw [hid, Option.map_id']
  | cons e es ih =>
      obtain ⟨members, hwrite, hmembers⟩ := ih fun f hf => known f (List.mem_cons_of_mem e hf)
      have he := known e List.mem_cons_self
      obtain ⟨m, hm⟩ := Directory.contains_iff.1 he
      have hfound : members.find? e.1 = some (Staging.restate es e.1 m) := by
        rw [hmembers, hm, Option.map_some]
      refine ⟨members.insert e.1 { Staging.restate es e.1 m with status := e.2 }, ?_, ?_⟩
      · rw [List.reverse_cons, writeStatuses_append s es.reverse [e] hwrite]
        simp [writeStatuses, setStatus, hfound]
      · intro id
        by_cases hid : id = e.1
        · simp [hid, hm, Staging.restate_cons, Staging.restate_with_status]
        · have hrest : Staging.restate (e :: es) id = Staging.restate es id := by
            funext x
            simp [Staging.restate_cons, hid]
          simp [hid, hmembers, hrest]

/-- Once all edits are staged, the statuses can be written, and the outcome is the store on which the
edits were carried out. -/
theorem Overlay.publishes {s d : Store} {g : Staging} (h : Overlay s g d) :
    ∃ after, (s.publish g).writeStatuses g.statuses.reverse = (.ok (), after) ∧
      after.Agrees d := by
  obtain ⟨members, hwrite, hmembers⟩ := (s.publish g).writeStatuses_reverse g.statuses h.known
  refine ⟨_, hwrite, ?_, ?_, h.place⟩
  · intro id
    calc
      (s.publish g).teams.find? id = s.staged? g id := s.find?_publish g id
      _ = d.teams.find? id := h.records id
  · intro id
    calc
      members.find? id = (s.members.find? id).map (Staging.restate g.statuses id) := hmembers id
      _ = d.members.find? id := (h.members id).symm

/-- A commit does what its plain form does, or fails as that does and leaves teams and members
alone. -/
theorem commit_eq_serial (s : Store) (c : ChangeSet) :
    (∃ d, s.serial c = .ok d ∧ (s.commit c).1 = .ok () ∧ (s.commit c).2.Agrees d) ∨
      ∃ failure, s.serial c = .error failure ∧ (s.commit c).1 = .error failure ∧
        (s.commit c).2.teams = s.teams ∧ (s.commit c).2.members = s.members := by
  unfold commit serial
  rw [checkExpectations_eq]
  cases c.expectations.find? fun e => !decide (s.Meets e) with
  | some e => exact .inr ⟨_, rfl, rfl, rfl, rfl⟩
  | none =>
      rcases stageAll_applyAll (Overlay.refl s) c.edits with
        ⟨g, d, hstage, happly, hoverlay⟩ | ⟨failure, g, hstage, happly⟩
      · obtain ⟨after, hwrite, hagrees⟩ := hoverlay.publishes
        exact .inl ⟨d, happly, by simp [hstage, hwrite], by simpa [hstage, hwrite] using hagrees⟩
      · exact .inr ⟨failure, happly, by simp [hstage], by simp [hstage], by simp [hstage]⟩

theorem find?_unmet_eq_none {s : Store} {es : List (Ident × List Ident)} :
    (es.find? fun e => !decide (s.Meets e)) = none ↔ ∀ e ∈ es, s.Meets e := by
  simp

/-- The first expectation that is not met comes after some that are. -/
theorem find?_unmet_eq_some {s : Store} {es : List (Ident × List Ident)} {e : Ident × List Ident} :
    (es.find? fun e => !decide (s.Meets e)) = some e ↔
      ∃ met rest, es = met ++ e :: rest ∧ (∀ f ∈ met, s.Meets f) ∧ ¬ s.Meets e := by
  rw [List.find?_eq_some_iff_append]
  constructor
  · rintro ⟨he, met, rest, heq, hmet⟩
    exact ⟨met, rest, heq, fun f hf => by simpa using hmet f hf, by simpa using he⟩
  · rintro ⟨met, rest, heq, hmet, he⟩
    exact ⟨by simpa using he, met, rest, heq, fun f hf => by simpa using hmet f hf⟩

theorem serial_eq_ok {s d : Store} {c : ChangeSet} :
    s.serial c = .ok d ↔ (∀ e ∈ c.expectations, s.Meets e) ∧ s.applyAll c.edits = .ok d := by
  rw [← find?_unmet_eq_none]
  unfold serial
  cases c.expectations.find? fun e => !decide (s.Meets e) <;> simp

theorem serial_eq_error {s : Store} {c : ChangeSet} {failure : StorageError} :
    s.serial c = .error failure ↔
      (∃ met e rest, c.expectations = met ++ e :: rest ∧ (∀ f ∈ met, s.Meets f) ∧ ¬ s.Meets e ∧
        failure = .conflict .team e.1) ∨
      (∀ e ∈ c.expectations, s.Meets e) ∧ s.applyAll c.edits = .error failure := by
  have hfirst : s.serial c = .error failure ↔
      (∃ e, (c.expectations.find? fun e => !decide (s.Meets e)) = some e ∧
        failure = .conflict .team e.1) ∨
      (c.expectations.find? fun e => !decide (s.Meets e)) = none ∧
        s.applyAll c.edits = .error failure := by
    unfold serial
    cases c.expectations.find? fun e => !decide (s.Meets e) <;> simp [eq_comm]
  rw [hfirst, find?_unmet_eq_none]
  refine or_congr_left ⟨?_, ?_⟩
  · rintro ⟨e, he, hfailure⟩
    obtain ⟨met, rest, heq, hmet, hunmet⟩ := find?_unmet_eq_some.1 he
    exact ⟨met, e, rest, heq, hmet, hunmet, hfailure⟩
  · rintro ⟨met, e, rest, heq, hmet, hunmet, hfailure⟩
    exact ⟨e, find?_unmet_eq_some.2 ⟨met, rest, heq, hmet, hunmet⟩, hfailure⟩

theorem commit_eq_ok_iff {s : Store} {c : ChangeSet} :
    (s.commit c).1 = .ok () ↔ ∃ d, s.serial c = .ok d := by
  rcases s.commit_eq_serial c with ⟨d, hserial, hreply, -⟩ | ⟨failure, hserial, hreply, -⟩
  · simp [hserial, hreply]
  · simp [hserial, hreply]

theorem commit_eq_error_iff {s : Store} {c : ChangeSet} {failure : StorageError} :
    (s.commit c).1 = .error failure ↔ s.serial c = .error failure := by
  rcases s.commit_eq_serial c with ⟨d, hserial, hreply, -⟩ | ⟨other, hserial, hreply, -⟩
  · simp [hserial, hreply]
  · simp [hserial, hreply]

/-- A commit that goes through leaves the store as its plain form does. -/
theorem commit_agrees {s d : Store} {c : ChangeSet} (h : s.serial c = .ok d) :
    (s.commit c).2.Agrees d := by
  rcases s.commit_eq_serial c with ⟨other, hserial, -, hagrees⟩ | ⟨failure, hserial, -⟩
  · rw [h] at hserial
    cases hserial
    exact hagrees
  · rw [h] at hserial
    cases hserial

/-- A commit that fails leaves the stored teams and members alone. -/
theorem commit_unchanged {s : Store} {c : ChangeSet} {failure : StorageError}
    (h : (s.commit c).1 = .error failure) :
    (s.commit c).2.teams = s.teams ∧ (s.commit c).2.members = s.members := by
  rcases s.commit_eq_serial c with ⟨d, -, hreply, -⟩ | ⟨other, -, -, hteams, hmembers⟩
  · rw [h] at hreply
    cases hreply
  · exact ⟨hteams, hmembers⟩

/-- A commit succeeds exactly if all expectations are met and the edits can be carried out one after
the other, and has the same effect then: the same teams with their places and the same members.
Otherwise it fails with a conflict over the first expectation that is not met, or else as the first
edit that cannot be carried out, and leaves the stored teams and members alone. Once the edits are
staged, no status fails to be written. -/
theorem commit_serial (s : Store) (c : ChangeSet) :
    ((s.commit c).1 = .ok () ↔
      (∀ e ∈ c.expectations, s.Meets e) ∧ ∃ d, s.applyAll c.edits = .ok d) ∧
    (∀ d, (s.commit c).1 = .ok () → s.applyAll c.edits = .ok d → (s.commit c).2.Agrees d) ∧
    (∀ failure, (s.commit c).1 = .error failure ↔
      (∃ met e rest, c.expectations = met ++ e :: rest ∧ (∀ f ∈ met, s.Meets f) ∧ ¬ s.Meets e ∧
        failure = .conflict .team e.1) ∨
      (∀ e ∈ c.expectations, s.Meets e) ∧
        ∃ before e rest d, c.edits = before ++ e :: rest ∧ s.applyAll before = .ok d ∧
          d.apply e = .error failure) ∧
    ((s.commit c).1 ≠ .ok () →
      (s.commit c).2.teams = s.teams ∧ (s.commit c).2.members = s.members) ∧
    ∀ g, s.stageAll s.stage c.edits = (.ok (), g) →
      ((s.publish g).writeStatuses g.statuses.reverse).1 = .ok () := by
  refine ⟨?_, ?_, ?_, ?_, ?_⟩
  · rw [commit_eq_ok_iff]
    simp only [serial_eq_ok, exists_and_left]
  · intro d hcommit happly
    obtain ⟨after, hserial⟩ := commit_eq_ok_iff.1 hcommit
    exact commit_agrees (serial_eq_ok.2 ⟨(serial_eq_ok.1 hserial).1, happly⟩)
  · intro failure
    rw [commit_eq_error_iff, serial_eq_error, applyAll_eq_error]
  · intro hcommit
    cases hreply : (s.commit c).1 with
    | ok done => exact absurd hreply hcommit
    | error failure => exact commit_unchanged hreply
  · intro g hstage
    rcases stageAll_applyAll (Overlay.refl s) c.edits with
      ⟨k, d, hk, -, hoverlay⟩ | ⟨failure, k, hk, -⟩
    · rw [hstage] at hk
      cases hk
      obtain ⟨after, hwrite, -⟩ := hoverlay.publishes
      exact congrArg Prod.fst hwrite
    · rw [hstage] at hk
      cases hk

end Store

end TeamRoster
