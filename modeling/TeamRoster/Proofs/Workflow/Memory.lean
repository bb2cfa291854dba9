import TeamRoster.Proofs.Store.Commit
import TeamRoster.Proofs.Workflow.Execution

/-!
# Use cases over the store in memory

Reads leave the store as it is, so a whole preparation does, and it does not depend on the transport
either. A write that fails leaves the stored teams and members alone. `Command.course` puts this
together: it says what can become of a command.
-/

namespace TeamRoster

/-- Who answers beside the store in memory: any transport, births and answers to ties. -/
structure Surroundings (τ : Type) where
  transport : Notification → τ → Except DeliveryError Unit × τ
  births : Nat → Birth
  picks : Nat → Nat → Nat

/-- The setting with the store in memory and these surroundings. -/
def Surroundings.setting {τ : Type} (v : Surroundings τ) : Setting Store τ :=
  ⟨Store.storage, v.transport, v.births, v.picks⟩

/-- The change sets whose commit went through. -/
def committedOf (log : List (Dialogue.Exchange Ask Ask.Answer)) : List ChangeSet :=
  log.filterMap fun
    | ⟨.storage (.commit c), .ok ()⟩ => some c
    | _ => none

/-- The change set of a write that commits one. -/
def Write.changes? : Write → Option ChangeSet
  | commit c => some c
  | save _ | form _ => none

theorem committedOf_append (log more : List (Dialogue.Exchange Ask Ask.Answer)) :
    committedOf (log ++ more) = committedOf log ++ committedOf more :=
  List.filterMap_append

theorem attemptsOf_append (log more : List (Dialogue.Exchange Ask Ask.Answer)) :
    attemptsOf (log ++ more) = attemptsOf log ++ attemptsOf more :=
  List.filterMap_append

theorem attemptsOf_exchange (write : Write) (reply : Except StorageError Unit) :
    attemptsOf [write.exchange reply] = [] := by
  cases write <;> rfl

theorem committedOf_exchange_ok (write : Write) :
    committedOf [write.exchange (.ok ())] = write.changes?.toList := by
  cases write <;> rfl

theorem committedOf_exchange_error (write : Write) (failure : StorageError) :
    committedOf [write.exchange (.error failure)] = [] := by
  cases write <;> rfl

/-- No event is told of in a preparation. -/
theorem attemptsOf_eq_nil {log : List (Dialogue.Exchange Ask Ask.Answer)}
    (h : ∀ x ∈ log, x.1.isPreparation = true) : attemptsOf log = [] := by
  rw [attemptsOf, List.filterMap_eq_nil_iff]
  intro x hx
  have hq := h x hx
  obtain ⟨q, reply⟩ := x
  cases q with
  | deliver event => cases hq
  | storage request => rfl
  | birth => rfl
  | pick count => rfl

/-- Nothing is committed by questions that are no commits. -/
theorem committedOf_eq_nil {log : List (Dialogue.Exchange Ask Ask.Answer)}
    (h : ∀ x ∈ log, ∀ c, x.1 ≠ .storage (.commit c)) : committedOf log = [] := by
  rw [committedOf, List.filterMap_eq_nil_iff]
  rintro ⟨q, reply⟩ hx
  have hq := h _ hx
  cases q with
  | deliver event => rfl
  | birth => rfl
  | pick count => rfl
  | storage request =>
      cases request with
      | commit c => exact absurd rfl (hq c)
      | _ => rfl

namespace Store

theorem storage_of_isRead {request : StorageRequest} (h : request.isRead = true) (s : Store) :
    (storage request s).2 = s := by
  cases request <;> first | rfl | cases h

/-- A failed write leaves the stored teams and members alone. -/
theorem write_unchanged {x : Write} {s after : Store} {failure : StorageError}
    (h : Storage.write storage x s = (.error failure, after)) :
    after.teams = s.teams ∧ after.members = s.members := by
  cases x with
  | save m => cases h
  | form t =>
      change s.written (s.single fun g => s.stageCreate g t) = _ at h
      cases hsingle : s.single fun g => s.stageCreate g t with
      | ok stored =>
          rw [hsingle] at h
          cases h
      | error other =>
          rw [hsingle] at h
          cases h
          exact ⟨rfl, rfl⟩
  | commit c =>
      change s.commit c = _ at h
      have hreply : (s.commit c).1 = .error failure := by rw [h]
      simpa [h] using commit_unchanged hreply

/-- The list of all teams is read off the stored teams and members alone. -/
theorem allTeams_congr {s t : Store} (hteams : s.teams = t.teams) (hmembers : s.members = t.members) :
    s.allTeams = t.allTeams := by
  simp only [allTeams, orderedTeams, hteams]
  congr 1
  funext e
  simp only [assemble, hmembers]

end Store

namespace Surroundings

variable {τ τ' α : Type} {stop : α → Prop} {u : UseCase α} (v : Surroundings τ)

/-- How two worlds over the store may differ while use cases run alike: in the transport alone. -/
def SameBut (w : World Store τ) (w' : World Store τ') : Prop :=
  w.storage = w'.storage ∧ w.born = w'.born ∧ w.picked = w'.picked

/-- A preparation leaves the store and the transport as they are. -/
theorem exec_preparesIn (hu : UseCase.PreparesIn stop u) (w : World Store τ) :
    (v.setting.exec u w).2.storage = w.storage ∧
      (v.setting.exec u w).2.transport = w.transport := by
  let unchanged (after : World Store τ) : Prop :=
    after.storage = w.storage ∧ after.transport = w.transport
  have hstart : unchanged w := ⟨rfl, rfl⟩
  refine Dialogue.Keeps.run_invariant hu ?_ hstart
  intro q after hq hafter
  cases q with
  | storage request => exact ⟨(Store.storage_of_isRead hq after.storage).trans hafter.1, hafter.2⟩
  | birth => exact hafter
  | pick count => exact hafter
  | deliver event => cases hq

/-- A preparation ends in a value that it may end in, or fails, but not as a delivery does. -/
theorem exec_preparesIn_value (hu : UseCase.PreparesIn stop u) (w : World Store τ) :
    (∃ a after, v.setting.exec u w = (.ok a, after) ∧ stop a) ∨
      ∃ x after, v.setting.exec u w = (.error x, after) ∧ x.isDelivery = false := by
  have hvalue := Dialogue.Keeps.run hu v.setting.answer w
  cases hrun : v.setting.exec u w with
  | mk r after =>
      have hr : (Dialogue.run v.setting.answer u.run w).1 = r := congrArg Prod.fst hrun
      rw [hr] at hvalue
      cases r with
      | ok a => exact .inl ⟨a, after, rfl, hvalue⟩
      | error x => exact .inr ⟨x, after, rfl, hvalue⟩

/-- A preparation does the same whatever the transport is. -/
theorem exec_preparesIn_transport (hu : UseCase.PreparesIn stop u) (v' : Surroundings τ')
    (hbirths : v'.births = v.births) (hpicks : v'.picks = v.picks) {w : World Store τ}
    {w' : World Store τ'} (hw : SameBut w w') :
    (v.setting.exec u w).1 = (v'.setting.exec u w').1 ∧
      SameBut (v.setting.exec u w).2 (v'.setting.exec u w').2 := by
  refine Dialogue.Keeps.run_related hu ?_ hw
  rintro q x y hq ⟨hstorage, hborn, hpicked⟩
  cases q with
  | storage request =>
      simp only [setting, Setting.answer, hstorage]
      exact ⟨trivial, rfl, hborn, hpicked⟩
  | birth =>
      simp only [setting, Setting.answer, hbirths, hborn]
      exact ⟨trivial, hstorage, rfl, hpicked⟩
  | pick count =>
      simp only [setting, Setting.answer, hpicks, hpicked]
      exact ⟨trivial, hstorage, hborn, rfl⟩
  | deliver event => cases hq

/-- What a preparation puts on record is neither a write nor an event. -/
theorem isPreparation_of_mem_log (hu : UseCase.PreparesIn stop u) (w : World Store τ) :
    ∀ x ∈ v.setting.log u w, x.1.isPreparation = true :=
  Dialogue.Keeps.transcript hu v.setting.answer w

theorem attemptsOf_log_preparesIn (hu : UseCase.PreparesIn stop u) (w : World Store τ) :
    attemptsOf (v.setting.log u w) = [] :=
  attemptsOf_eq_nil (v.isPreparation_of_mem_log hu w)

theorem committedOf_log_preparesIn (hu : UseCase.PreparesIn stop u) (w : World Store τ) :
    committedOf (v.setting.log u w) = [] := by
  refine committedOf_eq_nil fun x hx c hc => ?_
  have hq := v.isPreparation_of_mem_log hu w x hx
  rw [hc] at hq
  cases hq

/-- Announcing commits nothing. -/
theorem committedOf_log_announce (events : List Event) (w : World Store τ) :
    committedOf (v.setting.log (UseCase.announce events) w) = [] := by
  refine committedOf_eq_nil fun x hx c hc => ?_
  obtain ⟨e, he⟩ := Dialogue.Keeps.transcript (UseCase.keeps_announce events) v.setting.answer w x hx
  cases hc.symm.trans he

end Surroundings

namespace Command

variable {τ : Type}

/-- What can become of a command. Either it fails with nothing saved and nobody told, or its one
write is made, and what can fail after that is a delivery. -/
inductive Course (e : Setting Store τ) (c : Command) (w : World Store τ) : Prop where
  | refused (x : WorkflowError) (after : World Store τ)
      (ends : e.exec c.perform w = (.error x, after))
      (notDelivery : x.isDelivery = false)
      (teams : after.storage.teams = w.storage.teams)
      (members : after.storage.members = w.storage.members)
      (transport : after.transport = w.transport)
      (attempts : attemptsOf (e.log c.perform w) = [])
      (commits : committedOf (e.log c.perform w) = [])
  | saved (u : Undertaking Answer) (ready : World Store τ) (s : Store)
      (prepared : e.exec c.prepare w = (.ok u, ready))
      (answers : u.result.isFailure = false)
      (storage : ready.storage = w.storage)
      (written : Storage.write Store.storage u.write w.storage = (.ok (), s))
      (ends : e.exec c.perform w =
        (match (e.tell u.events w.transport).1 with
          | .error x => .error (.delivery x)
          | .ok () => .ok u.result,
        { ready with storage := s, transport := (e.tell u.events w.transport).2 }))
      (attempts : attemptsOf (e.log c.perform w) =
        attemptsOf (e.log (UseCase.announce u.events) { ready with storage := s }))
      (commits : committedOf (e.log c.perform w) = u.write.changes?.toList)

/-- Every command takes one of these courses. -/
theorem course (v : Surroundings τ) (c : Command) (w : World Store τ) :
    Course v.setting c w := by
  have hkept := v.exec_preparesIn c.preparesIn_prepare w
  have hattempts := v.attemptsOf_log_preparesIn c.preparesIn_prepare w
  have hcommits := v.committedOf_log_preparesIn c.preparesIn_prepare w
  rcases v.exec_preparesIn_value c.preparesIn_prepare w with
    ⟨u, ready, hprepare, hanswers⟩ | ⟨x, after, hprepare, hx⟩
  · rw [hprepare] at hkept
    obtain ⟨hstorage, htransport⟩ := hkept
    have hwrite : v.setting.storage.write u.write ready.storage =
        Storage.write Store.storage u.write w.storage := by
      rw [hstorage]
      rfl
    have hends : v.setting.exec c.perform w = v.setting.exec u.carryOut ready := by
      rw [perform_eq, Setting.exec_bind, hprepare]
    have hlog : v.setting.log c.perform w =
        v.setting.log c.prepare w ++ v.setting.log u.carryOut ready := by
      rw [perform_eq, Setting.log_bind, hprepare]
    rw [Setting.exec_carryOut, hwrite] at hends
    rw [Setting.log_carryOut, hwrite] at hlog
    cases hwritten : Storage.write Store.storage u.write w.storage with
    | mk reply s =>
        rw [hwritten] at hends hlog
        cases reply with
        | error failure =>
            obtain ⟨hteams, hmembers⟩ := Store.write_unchanged hwritten
            refine .refused _ _ hends rfl hteams hmembers htransport ?_ ?_
            · rw [hlog, attemptsOf_append, hattempts, attemptsOf_exchange, List.append_nil]
            · rw [hlog, committedOf_append, hcommits, committedOf_exchange_error, List.append_nil]
        | ok done =>
            rw [← List.singleton_append] at hlog
            refine .saved u ready s hprepare hanswers hstorage hwritten ?_ ?_ ?_
            · rw [hends, htransport]
              cases v.setting.tell u.events w.transport with
              | mk told t => cases told <;> rfl
            · rw [hlog, attemptsOf_append, attemptsOf_append, hattempts, attemptsOf_exchange,
                List.nil_append, List.nil_append]
            · rw [hlog, committedOf_append, committedOf_append, hcommits, committedOf_exchange_ok,
                v.committedOf_log_announce, List.nil_append, List.append_nil]
  · rw [hprepare] at hkept
    have hlog : v.setting.log c.perform w = v.setting.log c.prepare w := by
      rw [perform_eq, Setting.log_bind, hprepare, List.append_nil]
    refine .refused x after ?_ hx ?_ ?_ hkept.2 (hlog ▸ hattempts) (hlog ▸ hcommits)
    · rw [perform_eq, Setting.exec_bind, hprepare]
    · exact congrArg Store.teams hkept.1
    · exact congrArg Store.members hkept.1

end Command

end TeamRoster
