import TeamRoster.Proofs.Workflow.Looking
import TeamRoster.Proofs.Workflow.Planning

/-!
# Carrying out a plan

What comes of a plan that is carried out: the commit is refused, or it goes through and the events are
told. Two plans of the same events that are committed both or refused both attempt the same
(`attemptsOf_carryOut_congr`), and a plan that edits teams is carried out alike whatever the status of a
member is (`exec_carryOut_restate`).
-/

namespace TeamRoster

variable {τ α β : Type}

namespace Surroundings

variable {v : Surroundings τ} {w x y : World Store τ} {m : Member} {target : Status}
  {p : Plan α} {s : Store}

/-- A plan whose commit is refused fails as the commit does. -/
theorem exec_carryOut_of_refused {e : StorageError}
    (hcommit : w.storage.commit p.changes = (.error e, s)) :
    v.setting.exec p.carryOut w = (.error (.storage e), { w with storage := s }) := by
  have hexec : v.setting.exec (UseCase.commit p.changes) w =
      ((w.storage.commit p.changes).1.mapError .storage,
        { w with storage := (w.storage.commit p.changes).2 }) := rfl
  rw [Plan.carryOut, Setting.exec_bind, hexec, hcommit]
  rfl

/-- A plan that is committed fails only if a delivery is lost. -/
theorem exec_carryOut_of_committed (hcommit : w.storage.commit p.changes = (.ok (), s)) :
    v.setting.exec p.carryOut w =
      (((v.setting.tell p.events w.transport).1.mapError .delivery).map fun _ => p.result,
        { w with storage := s, transport := (v.setting.tell p.events w.transport).2 }) := by
  have hexec : v.setting.exec (UseCase.commit p.changes) w =
      ((w.storage.commit p.changes).1.mapError .storage,
        { w with storage := (w.storage.commit p.changes).2 }) := rfl
  rw [Plan.carryOut, Setting.exec_bind, hexec, hcommit]
  simp only [Failing.mapError_ok, Setting.exec_bind, Setting.exec_announce, Setting.exec_pure]
  cases (v.setting.tell p.events w.transport).1 <;> rfl

/-- The store after a plan was carried out is the one after its commit. -/
theorem storage_carryOut (p : Plan α) :
    (v.setting.exec p.carryOut w).2.storage = (w.storage.commit p.changes).2 := by
  cases hcommit : w.storage.commit p.changes with
  | mk reply s =>
      cases reply with
      | error e => rw [exec_carryOut_of_refused hcommit]
      | ok done => rw [exec_carryOut_of_committed hcommit]

/-- What announcing puts on record depends on the transport alone. -/
theorem log_announce_congr (events : List Event) (htransport : x.transport = y.transport) :
    v.setting.log (UseCase.announce events) x = v.setting.log (UseCase.announce events) y := by
  induction events generalizing x y with
  | nil => rfl
  | cons event events ih =>
      have hexec (z : World Store τ) : v.setting.exec (UseCase.deliver event) z =
          ((v.transport event.notification z.transport).1.mapError .delivery,
            { z with transport := (v.transport event.notification z.transport).2 }) := rfl
      have hlog (z : World Store τ) : v.setting.log (UseCase.deliver event) z =
          [⟨.deliver event, (v.transport event.notification z.transport).1⟩] := rfl
      rw [UseCase.announce, Setting.log_bind, Setting.log_bind, hexec, hexec, hlog, hlog, htransport]
      congr 1
      cases (v.transport event.notification y.transport).1 with
      | error lost => rfl
      | ok done => exact ih rfl

/-- Nobody is told of a plan whose commit is refused. -/
theorem attemptsOf_carryOut (p : Plan α) :
    attemptsOf (v.setting.log p.carryOut w) =
      match (w.storage.commit p.changes).1 with
      | .error _ => []
      | .ok () => attemptsOf (v.setting.log (UseCase.announce p.events) w) := by
  have hlog := v.setting.log_carryOut w (p.undertaking id)
  have hwrite : v.setting.storage.write (p.undertaking id).write w.storage =
      w.storage.commit p.changes := rfl
  rw [hwrite] at hlog
  change v.setting.log p.carryOut w = _ at hlog
  rw [hlog]
  cases w.storage.commit p.changes with
  | mk reply s =>
      cases reply with
      | error e => rfl
      | ok done =>
          rw [← List.singleton_append, attemptsOf_append, attemptsOf_exchange, List.nil_append]
          exact congrArg attemptsOf (log_announce_congr p.events rfl)

/-- Plans of the same events that are both committed or both refused attempt the same. -/
theorem attemptsOf_carryOut_congr {q : Plan β} (hevents : p.events = q.events)
    (htransport : x.transport = y.transport)
    (hreply : (x.storage.commit p.changes).1 = (y.storage.commit q.changes).1) :
    attemptsOf (v.setting.log p.carryOut x) = attemptsOf (v.setting.log q.carryOut y) := by
  rw [attemptsOf_carryOut, attemptsOf_carryOut, hreply, hevents, log_announce_congr _ htransport]

/-- A plan that edits teams leaves the members alone. -/
theorem members_carryOut (hall : ∀ e ∈ p.changes.edits, e.isTeamEdit = true) :
    (v.setting.exec p.carryOut w).2.storage.members = w.storage.members := by
  rw [storage_carryOut]
  exact Store.commit_members hall

/-- A plan that edits teams is carried out alike whatever the status of a stored member is. -/
theorem exec_carryOut_restate {q : Plan β} (hall : ∀ e ∈ q.changes.edits, e.isTeamEdit = true)
    (hm : w.storage.members.find? m.id = some m) :
    v.setting.exec q.carryOut (w.restate m.id m target) =
      ((v.setting.exec q.carryOut w).1, (v.setting.exec q.carryOut w).2.restate m.id m target) := by
  have hrestate : (w.restate m.id m target).storage.commit q.changes = _ :=
    Store.commit_restate hall hm target
  cases hcommit : w.storage.commit q.changes with
  | mk reply s =>
      rw [hcommit] at hrestate
      cases reply with
      | error e =>
          rw [exec_carryOut_of_refused hcommit, exec_carryOut_of_refused hrestate]
          rfl
      | ok done =>
          rw [exec_carryOut_of_committed hcommit, exec_carryOut_of_committed hrestate]
          rfl

/-- Making a plan and carrying it out, as the plan is carried out. -/
theorem exec_of_plan {plan : UseCase (Plan α)} {ready : World Store τ}
    (hp : v.Yields plan w p ready) :
    v.setting.exec (plan >>= Plan.carryOut) w = v.setting.exec p.carryOut ready := by
  have hexec : v.setting.exec plan w = (.ok p, ready) := hp
  rw [Setting.exec_bind, hexec]

/-- Planning attempts nothing, so that what is attempted is what carrying out the plan attempts. -/
theorem attemptsOf_of_plan {plan : UseCase (Plan α)} (hplan : UseCase.Prepares plan) :
    attemptsOf (v.setting.log (plan >>= Plan.carryOut) w) =
      match v.setting.exec plan w with
      | (.ok p, ready) => attemptsOf (v.setting.log p.carryOut ready)
      | (.error _, _) => [] := by
  rw [Setting.log_bind, attemptsOf_append, v.attemptsOf_log_preparesIn hplan w, List.nil_append]
  rcases v.setting.exec plan w with ⟨_ | p, ready⟩ <;> rfl

theorem attemptsOf_of_yields {plan : UseCase (Plan α)} (hplan : UseCase.Prepares plan)
    {ready : World Store τ} (hp : v.Yields plan w p ready) :
    attemptsOf (v.setting.log (plan >>= Plan.carryOut) w) =
      attemptsOf (v.setting.log p.carryOut ready) := by
  have hexec : v.setting.exec plan w = (.ok p, ready) := hp
  rw [attemptsOf_of_plan hplan, hexec]

theorem storage_of_prepares {u : UseCase α} (hu : UseCase.Prepares u) {a : α} {ready : World Store τ}
    (h : v.Yields u w a ready) : ready.storage = w.storage := by
  have hkept := (v.exec_preparesIn hu w).1
  have hexec : v.setting.exec u w = (.ok a, ready) := h
  rwa [hexec] at hkept

end Surroundings

end TeamRoster
