import TeamRoster.Proofs.Workflow.Planning

/-!
# What commands put on record

The record of a command that goes through has three parts: what was asked to prepare it, its one
write, and the deliveries. `Told` describes the deliveries, which end with the first one that fails.
Main statement: `Command.recorded`. A command goes through or is refused, and the record of either
one is described here.
-/

namespace TeamRoster

/-- The writes that went through. -/
def writesOf (log : List (Dialogue.Exchange Ask Ask.Answer)) : List Write :=
  log.filterMap fun
    | ⟨.storage (.saveMember m), .ok ()⟩ => some (.save m)
    | ⟨.storage (.createTeam t), .ok ()⟩ => some (.form t)
    | ⟨.storage (.commit c), .ok ()⟩ => some (.commit c)
    | _ => none

/-- Events as they are told on record: one after the other, until all were delivered or one was
not. -/
inductive Told : List Event → List (Dialogue.Exchange Ask Ask.Answer) → Prop
  | all : Told [] []
  | delivered {event : Event} {events : List Event} {log : List (Dialogue.Exchange Ask Ask.Answer)}
      (rest : Told events log) : Told (event :: events) (⟨.deliver event, .ok ()⟩ :: log)
  | lost {event : Event} {events : List Event} (x : DeliveryError) :
      Told (event :: events) [⟨.deliver event, .error x⟩]

section Logs

variable {log more : List (Dialogue.Exchange Ask Ask.Answer)} {events : List Event}

theorem writesOf_append (log more : List (Dialogue.Exchange Ask Ask.Answer)) :
    writesOf (log ++ more) = writesOf log ++ writesOf more :=
  List.filterMap_append

theorem deliveriesOf_append (log more : List (Dialogue.Exchange Ask Ask.Answer)) :
    deliveriesOf (log ++ more) = deliveriesOf log ++ deliveriesOf more :=
  List.filterMap_append

/-- What was delivered was attempted, in the same order. -/
theorem deliveriesOf_sublist (log : List (Dialogue.Exchange Ask Ask.Answer)) :
    (deliveriesOf log).Sublist (attemptsOf log) := by
  induction log with
  | nil => exact List.Sublist.refl []
  | cons x log ih =>
      obtain ⟨q, reply⟩ := x
      cases q with
      | deliver event =>
          cases reply with
          | ok done => exact ih.cons_cons event
          | error x => exact ih.cons event
      | storage request => exact ih
      | birth => exact ih
      | pick count => exact ih

/-- Where two records together show no lost delivery, neither of them does. -/
theorem delivered_append (h : deliveriesOf (log ++ more) = attemptsOf (log ++ more)) :
    deliveriesOf log = attemptsOf log ∧ deliveriesOf more = attemptsOf more := by
  rw [deliveriesOf_append, attemptsOf_append] at h
  have hlength := congrArg List.length h
  simp only [List.length_append] at hlength
  have hlog := (deliveriesOf_sublist log).length_le
  have hmore := (deliveriesOf_sublist more).length_le
  exact ⟨(deliveriesOf_sublist log).eq_of_length (by omega),
    (deliveriesOf_sublist more).eq_of_length (by omega)⟩

/-- Nothing was written by questions of a preparation. -/
theorem writesOf_eq_nil (h : ∀ x ∈ log, x.1.isPreparation = true) : writesOf log = [] := by
  rw [writesOf, List.filterMap_eq_nil_iff]
  rintro ⟨q, reply⟩ hx
  have hq := h _ hx
  cases q with
  | storage request => cases request <;> first | rfl | cases hq
  | birth => rfl
  | pick count => rfl
  | deliver event => rfl

theorem writesOf_exchange_ok (write : Write) : writesOf [write.exchange (.ok ())] = [write] := by
  cases write <;> rfl

theorem writesOf_exchange_error (write : Write) (failure : StorageError) :
    writesOf [write.exchange (.error failure)] = [] := by
  cases write <;> rfl

theorem deliveriesOf_exchange (write : Write) (reply : Except StorageError Unit) :
    deliveriesOf [write.exchange reply] = [] := by
  cases write <;> rfl

/-- Where nothing was attempted, nothing was delivered. -/
theorem deliveriesOf_eq_nil (h : attemptsOf log = []) : deliveriesOf log = [] :=
  List.sublist_nil.1 (h ▸ deliveriesOf_sublist log)

/-- Where no delivery was lost, all events were delivered. -/
theorem Told.deliveries (h : Told events log) (hall : deliveriesOf log = attemptsOf log) :
    deliveriesOf log = events := by
  induction h with
  | all => rfl
  | @delivered event events log rest ih =>
      have hrest : event :: deliveriesOf log = event :: attemptsOf log := hall
      exact congrArg (List.cons event) (ih (List.cons.inj hrest).2)
  | lost x => cases hall

end Logs

namespace Setting

variable {σ τ : Type} (e : Setting σ τ)

/-- Announcing tells the events, and fails exactly if a delivery is lost, and as that does. -/
theorem told_announce (events : List Event) (w : World σ τ) :
    Told events (e.log (UseCase.announce events) w) ∧
      ((e.tell events w.transport).1 = .ok () ↔
        deliveriesOf (e.log (UseCase.announce events) w) =
          attemptsOf (e.log (UseCase.announce events) w)) ∧
      ∀ event x, (⟨.deliver event, .error x⟩ : Dialogue.Exchange Ask Ask.Answer) ∈
        e.log (UseCase.announce events) w → (e.tell events w.transport).1 = .error x := by
  induction events generalizing w with
  | nil => exact ⟨.all, iff_of_true rfl rfl, by rintro event x ⟨⟩⟩
  | cons event events ih =>
      have hdeliver : e.exec (UseCase.deliver event) w =
          ((e.transport event.notification w.transport).1.mapError .delivery,
            { w with transport := (e.transport event.notification w.transport).2 }) := rfl
      have hrecord : e.log (UseCase.deliver event) w =
          [⟨.deliver event, (e.transport event.notification w.transport).1⟩] := rfl
      rw [UseCase.announce, log_bind, hdeliver, hrecord, tell]
      cases hsent : e.transport event.notification w.transport with
      | mk reply after =>
          cases reply with
          | ok done =>
              obtain ⟨htold, hdelivered, hlost⟩ := ih { w with transport := after }
              refine ⟨.delivered htold, hdelivered.trans (List.cons_inj_right event).symm, ?_⟩
              intro other x hx
              rcases List.mem_cons.1 hx with heq | hx
              · cases heq
              · exact hlost other x hx
          | error x =>
              refine ⟨.lost x, iff_of_false (by rintro ⟨⟩) (by rintro ⟨⟩), ?_⟩
              intro other y hy
              cases List.mem_singleton.1 hy
              rfl

end Setting

namespace Command

variable {τ : Type} {v : Surroundings τ} {c : Command} {w ready : World Store τ}
  {u : Undertaking Answer} {s : Store}

/-- What the command prepares goes through, and leaves this store behind. -/
structure Saved (v : Surroundings τ) (c : Command) (w : World Store τ) (u : Undertaking Answer)
    (ready : World Store τ) (s : Store) : Prop where
  prepared : v.Yields c.prepare w u ready
  written : Storage.write Store.storage u.write w.storage = (.ok (), s)

/-- The command fails before anything is saved: nothing was written, nobody was told, and the stored
teams and members are as before. -/
structure Refused (v : Surroundings τ) (c : Command) (w : World Store τ) : Prop where
  failed : ∃ x, (v.setting.exec c.perform w).1 = .error x ∧ x.isDelivery = false
  teams : (v.setting.run c.answer w).2.storage.teams = w.storage.teams
  members : (v.setting.run c.answer w).2.storage.members = w.storage.members
  writes : writesOf (v.setting.transcript c.answer w) = []
  attempts : attemptsOf (v.setting.transcript c.answer w) = []

/-- A preparation leaves the store and the transport as they are. -/
theorem prepare_keeps (h : v.Yields c.prepare w u ready) :
    ready.storage = w.storage ∧ ready.transport = w.transport := by
  have hkept := v.exec_preparesIn c.preparesIn_prepare w
  have hprepared : v.setting.exec c.prepare w = (.ok u, ready) := h
  rwa [hprepared] at hkept

/-- A command that goes through leaves the written store behind, and fails only with a delivery. -/
theorem Saved.exec (h : Saved v c w u ready s) :
    v.setting.exec c.perform w =
      (match (v.setting.tell u.events w.transport).1 with
        | .error x => .error (.delivery x)
        | .ok () => .ok u.result,
      { ready with storage := s, transport := (v.setting.tell u.events w.transport).2 }) := by
  obtain ⟨hstorage, htransport⟩ := prepare_keeps h.prepared
  have hprepared : v.setting.exec c.prepare w = (.ok u, ready) := h.prepared
  have hwritten : v.setting.storage.write u.write ready.storage = (.ok (), s) := by
    rw [hstorage]
    exact h.written
  rw [perform_eq, Setting.exec_bind, hprepared]
  simp only [Setting.exec_carryOut, hwritten, htransport]
  cases v.setting.tell u.events w.transport with
  | mk told t => cases told <;> rfl

/-- What a command prepares is not answered by a failure. -/
theorem Saved.answers (h : Saved v c w u ready s) : u.result.isFailure = false := by
  rcases v.exec_preparesIn_value c.preparesIn_prepare w with
    ⟨u', after, hprepare, hanswers⟩ | ⟨x, after, hprepare, -⟩
  · have heq : (Except.ok u, ready) = (.ok u', after) := h.prepared.symm.trans hprepare
    cases heq
    exact hanswers
  · have heq : (Except.ok u, ready) = (.error x, after) := h.prepared.symm.trans hprepare
    cases heq

/-- A command that goes through puts its preparation, its write and its deliveries on record. -/
theorem Saved.log (h : Saved v c w u ready s) :
    v.setting.log c.perform w = v.setting.log c.prepare w ++ u.write.exchange (.ok ()) ::
      v.setting.log (UseCase.announce u.events) { ready with storage := s } := by
  have hprepared : v.setting.exec c.prepare w = (.ok u, ready) := h.prepared
  have hwritten : v.setting.storage.write u.write ready.storage = (.ok (), s) := by
    rw [(prepare_keeps h.prepared).1]
    exact h.written
  rw [perform_eq, Setting.log_bind, hprepared]
  simp only [Setting.log_carryOut, hwritten]

/-- The world after a command that goes through. -/
theorem Saved.run (h : Saved v c w u ready s) :
    (v.setting.run c.answer w).2 =
      { ready with storage := s, transport := (v.setting.tell u.events w.transport).2 } := by
  rw [run_answer, h.exec]

/-- Of a command that goes through, what was asked to prepare it is on record first, then its write,
and then the deliveries; it is answered by a failure exactly if one of these was lost, and by that
one. -/
theorem Saved.recorded (h : Saved v c w u ready s) :
    ∃ before told, v.setting.transcript c.answer w =
        before ++ u.write.exchange (.ok ()) :: told ∧
      (∀ x ∈ before, x.1.isPreparation = true) ∧ Told u.events told ∧
      ((v.setting.run c.answer w).1.isFailure = false ↔ deliveriesOf told = attemptsOf told) ∧
      ∀ event x, (⟨.deliver event, .error x⟩ : Dialogue.Exchange Ask Ask.Answer) ∈ told →
        (v.setting.run c.answer w).1 = .ofFailure (.delivery x) := by
  obtain ⟨htold, hdelivered, hlost⟩ := v.setting.told_announce u.events { ready with storage := s }
  refine ⟨_, _, (transcript_answer v.setting c w).trans h.log,
    v.isPreparation_of_mem_log c.preparesIn_prepare w, htold, ?_, ?_⟩
  · rw [← hdelivered, run_answer, h.exec, (prepare_keeps h.prepared).2]
    cases (v.setting.tell u.events w.transport).1 with
    | ok done => exact iff_of_true h.answers rfl
    | error x => exact iff_of_false (by rintro ⟨⟩) (by rintro ⟨⟩)
  · intro event x hx
    have hfails := hlost event x hx
    rw [(prepare_keeps h.prepared).2] at hfails
    rw [run_answer, h.exec, hfails]
    rfl

/-- Where no delivery of a command that goes through is lost, all its events are delivered. -/
theorem Saved.deliveries (h : Saved v c w u ready s)
    (hall : deliveriesOf (v.setting.transcript c.answer w) =
      attemptsOf (v.setting.transcript c.answer w)) :
    deliveriesOf (v.setting.transcript c.answer w) = u.events := by
  obtain ⟨before, told, hlog, hbefore, htold, -⟩ := h.recorded
  have hnone : deliveriesOf before = [] := deliveriesOf_eq_nil (attemptsOf_eq_nil hbefore)
  rw [hlog, ← List.singleton_append] at hall ⊢
  have htail := (delivered_append (delivered_append hall).2).2
  rw [deliveriesOf_append, deliveriesOf_append, deliveriesOf_exchange, hnone]
  exact htold.deliveries htail

/-- Either the write of a command goes through, or there is no write on record that did. -/
theorem saved_or_unwritten (v : Surroundings τ) (c : Command) (w : World Store τ) :
    (∃ u ready s, Saved v c w u ready s) ∨ writesOf (v.setting.log c.perform w) = [] := by
  have hprepare := writesOf_eq_nil (v.isPreparation_of_mem_log c.preparesIn_prepare w)
  rw [perform_eq, Setting.log_bind, writesOf_append, hprepare, List.nil_append]
  cases hprepared : v.setting.exec c.prepare w with
  | mk r ready =>
      cases r with
      | error x => exact .inr rfl
      | ok u =>
          have hstorage : ready.storage = w.storage := (prepare_keeps hprepared).1
          simp only [Setting.log_carryOut, hstorage]
          cases hwritten : v.setting.storage.write u.write w.storage with
          | mk reply s =>
              cases reply with
              | ok done => exact .inl ⟨u, ready, s, hprepared, hwritten⟩
              | error failure => exact .inr (writesOf_exchange_error u.write failure)

/-- Every command goes through or is refused. -/
theorem recorded (v : Surroundings τ) (c : Command) (w : World Store τ) :
    (∃ u ready s, Saved v c w u ready s) ∨ Refused v c w := by
  rcases saved_or_unwritten v c w with hsaved | hwrites
  · exact .inl hsaved
  · cases course v c w with
    | saved u ready s prepared answers storage written ends attempts commits =>
        exact .inl ⟨u, ready, s, prepared, written⟩
    | refused x after ends notDelivery teams members transport attempts commits =>
        refine .inr ⟨⟨x, congrArg Prod.fst ends, notDelivery⟩, ?_, ?_, ?_, ?_⟩
        · rw [run_answer, ends]
          exact teams
        · rw [run_answer, ends]
          exact members
        · rw [transcript_answer]
          exact hwrites
        · rw [transcript_answer]
          exact attempts

end Command

/-- A command goes through if a write of it is on record that did. -/
def Surroundings.Saves {τ : Type} (v : Surroundings τ) (c : Command) (w : World Store τ) : Prop :=
  writesOf (v.setting.transcript c.answer w) ≠ []

instance {τ : Type} (v : Surroundings τ) (c : Command) (w : World Store τ) :
    Decidable (v.Saves c w) :=
  inferInstanceAs (Decidable (¬ _ = []))

/-- A command goes through exactly if its write does. -/
theorem Surroundings.saves_iff {τ : Type} {v : Surroundings τ} {c : Command} {w : World Store τ} :
    v.Saves c w ↔ ∃ u ready s, c.Saved v w u ready s := by
  constructor
  · intro hsaves
    rcases c.recorded v w with hsaved | hrefused
    · exact hsaved
    · exact absurd hrefused.writes hsaves
  · rintro ⟨u, ready, s, hsaved⟩ hnone
    rw [Command.transcript_answer, hsaved.log, ← List.singleton_append, writesOf_append,
      writesOf_append, writesOf_exchange_ok] at hnone
    simp at hnone

theorem Command.Refused.not_saves {τ : Type} {v : Surroundings τ} {c : Command} {w : World Store τ}
    (h : c.Refused v w) : ¬ v.Saves c w :=
  not_not_intro h.writes

end TeamRoster
