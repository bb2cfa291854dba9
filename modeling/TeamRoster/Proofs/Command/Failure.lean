import TeamRoster.Proofs.Workflow.Runs

/-!
# Failures are told truthfully

A line is answered by a failure that says whether the changes were saved all the same. Main
statement: `failure_truthful`. Where the answer says that they were not saved, nothing that is stored
has changed and nobody was told of anything; where it says that they were, what is stored is what a
delivery of everything would have left.
-/

namespace TeamRoster

/-- Two stores that nobody can tell apart: the same members, and the same teams in the same order. -/
structure Store.Same (s t : Store) : Prop where
  members : s.members = t.members
  teams : s.teams = t.teams
  listed : s.allTeams = t.allTeams

/-- The same members and team records make the same list of teams. -/
theorem Store.Same.of_eq {s t : Store} (hmembers : s.members = t.members)
    (hteams : s.teams = t.teams) : s.Same t :=
  ⟨hmembers, hteams, allTeams_congr hteams hmembers⟩

/-- The same births and answers to ties, with another transport. -/
def Surroundings.via {τ τ' : Type} (v : Surroundings τ)
    (transport : Notification → τ' → Except DeliveryError Unit × τ') : Surroundings τ' :=
  ⟨transport, v.births, v.picks⟩

/-- The same world at the other end of another transport. -/
def World.via {σ τ τ' : Type} (w : World σ τ) (t : τ') : World σ τ' :=
  ⟨w.storage, t, w.born, w.picked⟩

/-- A transport that delivers everything. -/
def Delivers {τ : Type} (transport : Notification → τ → Except DeliveryError Unit × τ) : Prop :=
  ∀ notification t, (transport notification t).1 = .ok ()

theorem Setting.tell_eq_ok {σ τ : Type} {e : Setting σ τ} (h : Delivers e.transport)
    (events : List Event) (t : τ) : (e.tell events t).1 = .ok () := by
  induction events generalizing t with
  | nil => rfl
  | cons event events ih =>
      have hsent := h event.notification t
      rw [tell]
      cases hreply : e.transport event.notification t with
      | mk reply after =>
          rw [hreply] at hsent
          have heq : reply = .ok () := hsent
          subst heq
          exact ih after

namespace Command

variable {τ τ' : Type} (v : Surroundings τ) (c : Command) (w : World Store τ)

/-- A command whose answer says that nothing was saved has changed nothing and told nobody. -/
theorem unsaved {message : String}
    (h : (v.setting.run c.answer w).1 = .failure message false) :
    ((v.setting.run c.answer w).2.storage).Same w.storage ∧
      attemptsOf (v.setting.transcript c.answer w) = [] := by
  rw [run_answer] at h ⊢
  rw [transcript_answer]
  cases course v c w with
  | refused x after ends notDelivery teams members transport attempts commits =>
      rw [ends]
      exact ⟨.of_eq members teams, attempts⟩
  | saved u ready s prepared answers storage written ends attempts commits =>
      rw [ends] at h
      cases htold : (v.setting.tell u.events w.transport).1 with
      | error x =>
          rw [htold] at h
          cases h
      | ok done =>
          rw [htold] at h
          have hresult : u.result = .failure message false := h
          rw [hresult] at answers
          cases answers

/-- A command whose answer says that the changes were saved has left what it would have left if
everything had been delivered. -/
theorem saved {message : String} (h : (v.setting.run c.answer w).1 = .failure message true)
    {transport : Notification → τ' → Except DeliveryError Unit × τ'}
    (hdelivers : Delivers transport) (t : τ') :
    (((v.via transport).setting.run c.answer (w.via t)).1).isFailure = false ∧
      ((v.via transport).setting.run c.answer (w.via t)).2.storage =
        (v.setting.run c.answer w).2.storage := by
  rw [run_answer] at h ⊢
  rw [run_answer]
  cases course v c w with
  | refused x after ends notDelivery teams members transport attempts commits =>
      rw [ends] at h
      have hdelivery : x.isDelivery = true := (Answer.failure.inj h).2
      rw [notDelivery] at hdelivery
      cases hdelivery
  | saved u ready s prepared answers storage written ends attempts commits =>
      have halike : Surroundings.SameBut w (w.via t) := ⟨rfl, rfl, rfl⟩
      obtain ⟨hvalue, hready⟩ := v.exec_preparesIn_transport c.preparesIn_prepare
        (v.via transport) rfl rfl halike
      rw [prepared] at hvalue hready
      cases hprepare : (v.via transport).setting.exec c.prepare (w.via t) with
      | mk r ready' =>
          rw [hprepare] at hvalue hready
          have heq : r = .ok u := hvalue.symm
          subst heq
          have hwrite : (v.via transport).setting.storage.write u.write ready'.storage =
              (.ok (), s) := by
            rw [← hready.1, storage]
            exact written
          have htold := Setting.tell_eq_ok (e := (v.via transport).setting) hdelivers u.events
            ready'.transport
          rw [perform_eq, Setting.exec_bind, hprepare]
          simp only [Setting.exec_carryOut, hwrite]
          rw [← perform_eq, ends]
          cases htell : (v.via transport).setting.tell u.events ready'.transport with
          | mk told t' =>
              rw [htell] at htold
              have heq : told = .ok () := htold
              subst heq
              exact ⟨answers, rfl⟩

end Command

/-- Failures are told truthfully, in whatever words they are explained. A line whose answer is a failure
without a lost notification has left the stored members and teams as they were, and nobody was told of
anything. A line whose answer is a failure with a lost notification has left the stored members and teams
that it would have left with any transport that delivers everything, and with that one it would not have
failed. -/
theorem failure_truthful {τ : Type} (words : Wording) (v : Surroundings τ) (w : World Store τ)
    (line : String) :
    v.setting.run (handleLine words line) w =
        ((v.setting.run (answerLine words line) w).1.toText words.unencodable,
          (v.setting.run (answerLine words line) w).2) ∧
      (∀ message, (v.setting.run (answerLine words line) w).1 = .failure message false →
        ((v.setting.run (handleLine words line) w).2.storage).Same w.storage ∧
          attemptsOf (v.setting.transcript (handleLine words line) w) = []) ∧
      ∀ message, (v.setting.run (answerLine words line) w).1 = .failure message true →
        ∀ (τ' : Type) (transport : Notification → τ' → Except DeliveryError Unit × τ') (t : τ'),
          Delivers transport →
            ((v.via transport).setting.run (answerLine words line) (w.via t)).1.isFailure = false ∧
              (((v.via transport).setting.run (handleLine words line) (w.via t)).2.storage).Same
                (v.setting.run (handleLine words line) w).2.storage := by
  have hrun {τ : Type} (v : Surroundings τ) (w : World Store τ) :
      v.setting.run (handleLine words line) w =
        ((v.setting.run (answerLine words line) w).1.toText words.unencodable,
          (v.setting.run (answerLine words line) w).2) := by
    simp [handleLine, Setting.run]
  have htranscript : v.setting.transcript (handleLine words line) w =
      v.setting.transcript (answerLine words line) w := by
    simp [handleLine, Setting.transcript, Dialogue.transcript_bind, Dialogue.transcript]
  refine ⟨hrun v w, ?_⟩
  simp only [hrun, htranscript]
  cases hline : Command.ofText line with
  | ok c =>
      have hanswer : answerLine words line = c.answer := by
        rw [answerLine, hline]
      rw [hanswer]
      refine ⟨fun message h => c.unsaved v w h, fun message h τ' transport t hdelivers => ?_⟩
      obtain ⟨hanswer, hstorage⟩ := c.saved v w h hdelivers t
      exact ⟨hanswer, .of_eq (congrArg Store.members hstorage) (congrArg Store.teams hstorage)⟩
  | error x =>
      -- A line that does not decode is answered at once.
      have hanswer : answerLine words line =
          pure (.failure ("Invalid command: " ++ words.undecodable line x) false) := by
        rw [answerLine, hline]
      rw [hanswer]
      exact ⟨fun message _ => ⟨.of_eq rfl rfl, rfl⟩, fun message h => by cases h⟩

namespace Surroundings

/-- Surroundings in which nothing is delivered. -/
def offline : Surroundings Unit :=
  counting.via fun _ _ => (.error ⟨"offline"⟩, ())

/-- A line that asks for a team for the fifth member of the full world. -/
def fifthLine : String :=
  "\x7b\"command\":\"reassign_member\"," ++
    "\"member_id\":\"40000000-0000-4000-8000-000000000000\"\x7d"

/-- Few words for whatever fails. -/
def curt : Wording :=
  ⟨fun _ _ => "no command", fun _ => "no object"⟩

/-- The full team splits although nobody is told of it. -/
theorem failure_truthful_offline :
    (offline.setting.run (answerLine curt fifthLine) full).1 =
        .failure "Changes saved but notification failed: Notification delivery failed: offline"
          true ∧
      ((counting.setting.run (handleLine curt fifthLine) full).2.storage).Same
        (offline.setting.run (handleLine curt fifthLine) full).2.storage := by
  have htold : (offline.setting.run (answerLine curt fifthLine) full).1 =
      .failure "Changes saved but notification failed: Notification delivery failed: offline"
        true := by
    decide +kernel
  have hdelivers : Delivers counting.transport := fun _ _ => rfl
  have hsurroundings : offline.via counting.transport = counting := rfl
  have hworld : full.via () = full := rfl
  obtain ⟨-, -, hsaved⟩ := failure_truthful curt offline full fifthLine
  obtain ⟨-, hsame⟩ := hsaved _ htold Unit counting.transport () hdelivers
  rw [hsurroundings, hworld] at hsame
  exact ⟨htold, hsame⟩

end Surroundings

end TeamRoster
