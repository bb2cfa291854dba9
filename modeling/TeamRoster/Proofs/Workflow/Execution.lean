import TeamRoster.Proofs.Workflow.Undertaking
import TeamRoster.Workflow.World

/-!
# Running an undertaking

How a use case runs under a setting, part by part. A preparation leaves a storage alone that reads do
not change. After it there is one write, and only if it goes through the events are told, in order
and until a delivery fails.
-/

namespace TeamRoster

/-- The reply of a storage to a write, and its state after it. -/
def Storage.write {σ : Type} (answer : Storage σ) : Write → σ → Except StorageError Unit × σ
  | .save m, s => answer (.saveMember m) s
  | .form t, s => answer (.createTeam t) s
  | .commit c, s => answer (.commit c) s

/-- A write as it goes on record with its reply. -/
def Write.exchange (reply : Except StorageError Unit) : Write → Dialogue.Exchange Ask Ask.Answer
  | save m => ⟨.storage (.saveMember m), reply⟩
  | form t => ⟨.storage (.createTeam t), reply⟩
  | commit c => ⟨.storage (.commit c), reply⟩

namespace Setting

variable {σ τ α β : Type} (e : Setting σ τ) (w : World σ τ)

/-- Run a use case. -/
def exec (u : UseCase α) (w : World σ τ) : Except WorkflowError α × World σ τ :=
  e.run u.run w

/-- What a use case asks on its way, with the answers. -/
def log (u : UseCase α) (w : World σ τ) : List (Dialogue.Exchange Ask Ask.Answer) :=
  e.transcript u.run w

/-- Tell of events until a delivery fails. -/
def tell : List Event → τ → Except DeliveryError Unit × τ
  | [], t => (.ok (), t)
  | event :: events, t =>
    match e.transport event.notification t with
    | (.ok (), after) => tell events after
    | (.error x, after) => (.error x, after)

@[simp] theorem exec_pure (a : α) : e.exec (pure a) w = (.ok a, w) := rfl

@[simp] theorem exec_throw (x : WorkflowError) :
    e.exec (throw x : UseCase α) w = (.error x, w) := rfl

@[simp] theorem log_pure (a : α) : e.log (pure a) w = [] := rfl

/-- A sequence goes on after its first part only if that gives a value. -/
theorem exec_bind (u : UseCase α) (f : α → UseCase β) :
    e.exec (u >>= f) w =
      match e.exec u w with
      | (.ok a, after) => e.exec (f a) after
      | (.error x, after) => (.error x, after) := by
  simp only [exec, run, ExceptT.run_bind, Dialogue.bind_eq, Dialogue.run_bind]
  cases hrun : Dialogue.run e.answer u.run w with
  | mk r after =>
      cases r with
      | ok a => rfl
      | error x => rfl

theorem log_bind (u : UseCase α) (f : α → UseCase β) :
    e.log (u >>= f) w = e.log u w ++
      match e.exec u w with
      | (.ok a, after) => e.log (f a) after
      | (.error _, _) => [] := by
  simp only [log, exec, transcript, run, ExceptT.run_bind, Dialogue.bind_eq,
    Dialogue.transcript_bind]
  cases hrun : Dialogue.run e.answer u.run w with
  | mk r after =>
      cases r with
      | ok a => rfl
      | error x => rfl

@[simp] theorem exec_make (x : Write) :
    e.exec x.make w = ((e.storage.write x w.storage).1.mapError .storage,
      { w with storage := (e.storage.write x w.storage).2 }) := by
  cases x <;> rfl

@[simp] theorem log_make (x : Write) :
    e.log x.make w = [x.exchange (e.storage.write x w.storage).1] := by
  cases x <;> rfl

/-- Announcing changes nothing but the transport. -/
theorem exec_announce (events : List Event) :
    e.exec (UseCase.announce events) w = ((e.tell events w.transport).1.mapError .delivery,
      { w with transport := (e.tell events w.transport).2 }) := by
  induction events generalizing w with
  | nil => rfl
  | cons event events ih =>
      have hdeliver : e.exec (UseCase.deliver event) w =
          ((e.transport event.notification w.transport).1.mapError .delivery,
            { w with transport := (e.transport event.notification w.transport).2 }) := rfl
      rw [UseCase.announce, exec_bind, hdeliver, tell]
      cases hsent : e.transport event.notification w.transport with
      | mk r after =>
          cases r with
          | ok done => exact ih { w with transport := after }
          | error x => rfl

/-- How an undertaking ends: the write may fail, or a delivery after it, or neither. -/
theorem exec_carryOut (u : Undertaking α) :
    e.exec u.carryOut w =
      match e.storage.write u.write w.storage with
      | (.error x, s) => (.error (.storage x), { w with storage := s })
      | (.ok (), s) =>
        match e.tell u.events w.transport with
        | (.error x, t) => (.error (.delivery x), { w with storage := s, transport := t })
        | (.ok (), t) => (.ok u.result, { w with storage := s, transport := t }) := by
  rw [Undertaking.carryOut, exec_bind, exec_make]
  cases hwrite : e.storage.write u.write w.storage with
  | mk r s =>
      cases r with
      | error x => rfl
      | ok done =>
          simp only [Failing.mapError_ok, exec_bind, exec_announce, exec_pure]
          cases e.tell u.events w.transport with
          | mk r t => cases r <;> rfl

/-- What goes on record of an undertaking: the write, and the announcements if it went through. -/
theorem log_carryOut (u : Undertaking α) :
    e.log u.carryOut w = u.write.exchange (e.storage.write u.write w.storage).1 ::
      match e.storage.write u.write w.storage with
      | (.error _, _) => []
      | (.ok (), s) => e.log (UseCase.announce u.events) { w with storage := s } := by
  rw [Undertaking.carryOut, log_bind, log_make, exec_make]
  cases hwrite : e.storage.write u.write w.storage with
  | mk r s =>
      cases r with
      | error x => rfl
      | ok done =>
          simp only [Failing.mapError_ok, log_bind, exec_announce, List.singleton_append]
          cases e.tell u.events w.transport with
          | mk r t => cases r <;> simp

section Giving

variable {e : Setting σ τ} {w after : World σ τ}

/-- The use case gives this value and leaves this world behind. -/
def Gives (e : Setting σ τ) (u : UseCase α) (w : World σ τ) (a : α) (after : World σ τ) : Prop :=
  e.exec u w = (.ok a, after)

/-- A sequence gives a value exactly if its parts do. -/
theorem gives_bind {u : UseCase α} {f : α → UseCase β} {b : β} :
    e.Gives (u >>= f) w b after ↔ ∃ a mid, e.Gives u w a mid ∧ e.Gives (f a) mid b after := by
  unfold Gives
  rw [exec_bind]
  cases hrun : e.exec u w with
  | mk r mid =>
      cases r with
      | ok a => simp
      | error x => simp

theorem gives_pure {a b : α} : e.Gives (pure a) w b after ↔ b = a ∧ after = w := by
  simp [Gives, eq_comm]

theorem not_gives_throw {x : WorkflowError} {a : α} : ¬ e.Gives (throw x) w a after := by
  simp [Gives]

theorem gives_ofRule {r : Except RuleError α} {a : α} :
    e.Gives (UseCase.ofRule r) w a after ↔ r = .ok a ∧ after = w := by
  cases r with
  | ok b => simp [UseCase.ofRule, gives_pure, eq_comm]
  | error e => simp [UseCase.ofRule, not_gives_throw]

/-- A request gives what the storage replies and leaves the storage as it is then. -/
theorem gives_request (request : StorageRequest) (f : request.Reply → Except StorageError α) {a : α} :
    e.Gives (UseCase.ofReply .storage (.ask (.storage request) fun reply => .done (f reply))) w a
        after ↔
      f (e.storage request w.storage).1 = .ok a ∧
        after = { w with storage := (e.storage request w.storage).2 } := by
  have hexec : e.exec
      (UseCase.ofReply .storage (.ask (.storage request) fun reply => .done (f reply))) w =
        ((f (e.storage request w.storage).1).mapError .storage,
          { w with storage := (e.storage request w.storage).2 }) := rfl
  unfold Gives
  rw [hexec]
  cases f (e.storage request w.storage).1 <;> simp [eq_comm]

theorem gives_birth {b : Birth} :
    e.Gives UseCase.birth w b after ↔
      b = e.births w.born ∧ after = { w with born := w.born + 1 } := by
  have hexec : e.exec UseCase.birth w = (.ok (e.births w.born), { w with born := w.born + 1 }) := rfl
  unfold Gives
  rw [hexec]
  simp [eq_comm]

theorem gives_settle {tie : TieBreak α} {a : α} :
    e.Gives (UseCase.settle tie) w a after ↔
      a = tie.resolve (e.picks w.picked) ∧
        after = { w with picked := w.picked + tie.questions.length } := by
  cases tie with
  | settled b => exact gives_pure
  | among count next =>
      have hexec : e.exec (UseCase.settle (.among count next)) w =
          (.ok (next (e.picks w.picked count)), { w with picked := w.picked + 1 }) := rfl
      unfold Gives
      rw [hexec]
      simp [eq_comm, TieBreak.resolve, TieBreak.questions]

theorem gives_undertaking {view : α → Answer} {plan : UseCase (Plan α)} {u : Undertaking Answer} :
    e.Gives (do return (← plan).undertaking view : UseCase (Undertaking Answer)) w u after ↔
      ∃ p, e.Gives plan w p after ∧ u = p.undertaking view := by
  rw [gives_bind]
  simp only [gives_pure]
  constructor
  · rintro ⟨p, _, hp, rfl, rfl⟩
    exact ⟨p, hp, rfl⟩
  · rintro ⟨p, hp, rfl⟩
    exact ⟨p, after, hp, rfl, rfl⟩

/-- What a registration comes to is that a member is saved. -/
theorem write_of_registerMember {name email : String} {status : Status} {u : Undertaking Answer}
    (h : e.Gives (Command.registerMember name email status).prepare w u after) :
    ∃ m, u.write = .save m := by
  simp only [Command.prepare, gives_bind, gives_pure] at h
  obtain ⟨_, _, -, _, _, -, _, _, -, rfl, -⟩ := h
  exact ⟨_, rfl⟩

/-- What the creation of a team comes to is that a team is formed. -/
theorem write_of_createTeam {name : String} {ids : List Ident} {u : Undertaking Answer}
    (h : e.Gives (Command.createTeam name ids).prepare w u after) : ∃ t, u.write = .form t := by
  simp only [Command.prepare, gives_bind, gives_pure] at h
  obtain ⟨_, _, -, _, _, -, _, _, -, _, _, -, rfl, -⟩ := h
  exact ⟨_, rfl⟩

end Giving

end Setting

namespace Command

variable {σ τ : Type} (e : Setting σ τ) (c : Command) (w : World σ τ)

theorem run_answer :
    e.run c.answer w = (Answer.ofResult (e.exec c.perform w).1, (e.exec c.perform w).2) := by
  simp only [answer, Dialogue.bind_eq, Setting.run, Dialogue.run_bind, Setting.exec]
  cases hrun : Dialogue.run e.answer c.perform.run w with
  | mk r after => cases r <;> rfl

theorem transcript_answer : e.transcript c.answer w = e.log c.perform w := by
  simp only [answer, Dialogue.bind_eq, Setting.transcript, Dialogue.transcript_bind, Setting.log]
  cases hrun : Dialogue.run e.answer c.perform.run w with
  | mk r after => cases r <;> simp [Dialogue.transcript]

end Command

end TeamRoster
