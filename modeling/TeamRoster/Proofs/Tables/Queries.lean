import TeamRoster.Proofs.Dialogue
import TeamRoster.Proofs.Failing
import TeamRoster.Tables.Storage

/-!
# Queries on tables

What a query comes to on tables alone, with nothing in between that could fail: `Query.on`. A
connection is compared with this once, in both of its modes, so that nothing has to be said of
connections after that. Main statement: `Connection.Idle.storage`. An idle connection replies to
every request as the query does on its tables and is idle again, on the tables that the query
leaves; a request that fails inside its transaction leaves the tables as they were.
-/

namespace TeamRoster

/-- Carry out a call on tables. A statement that fails leaves them alone. -/
def Tables.answer : (call : Call) → Tables → call.Answer × Tables
  | .acquire, t => (.ok (), t)
  | .run s, t =>
    match t.execute s with
    | .error e => (.error (.server e), t)
    | .ok (result, after) => (.ok result, after)

/-- Whether a statement is about rows, and not about where a transaction begins or ends. -/
def Statement.isPlain : Statement → Bool
  | begin | commit => false
  | _ => true

/-- Whether a call sends a plain statement, or none. -/
def Call.isPlain : Call → Bool
  | acquire => true
  | run s => s.isPlain

namespace Query

variable {α β : Type}

/-- What a query comes to on tables, and the tables after it. -/
def on (q : Query α) (t : Tables) : Except StorageError α × Tables :=
  Dialogue.run Tables.answer q.run t

/-- What a query comes to if its writes are made all together or not at all. -/
def atomically (q : Query α) (t : Tables) : Except StorageError α × Tables :=
  match q.on t with
  | (.ok a, after) => (.ok a, after)
  | (.error e, _) => (.error e, t)

/-- A query that sends plain statements only. -/
def Plain (q : Query α) : Prop :=
  Dialogue.Keeps (fun call => call.isPlain = true) (fun _ => True) q.run

section On

variable (t : Tables)

@[simp] theorem on_pure (a : α) : (pure a : Query α).on t = (.ok a, t) := rfl

@[simp] theorem on_ofExcept (r : Except StorageError α) : (ofExcept r).on t = (r, t) := by
  cases r <;> rfl

/-- A sequence goes on after its first part only if that gives a value. -/
theorem on_bind (q : Query α) (f : α → Query β) :
    (q >>= f).on t =
      match q.on t with
      | (.ok a, after) => (f a).on after
      | (.error e, after) => (.error e, after) := by
  simp only [on, ExceptT.run_bind, Dialogue.bind_eq, Dialogue.run_bind]
  cases Dialogue.run Tables.answer q.run t with
  | mk r after => cases r <;> rfl

theorem on_callWith (explain : DatabaseFailure → StorageError) (s : Statement) :
    (callWith explain (send s)).on t =
      match t.execute s with
      | .error e => (.error (explain (.server e)), t)
      | .ok (result, after) => (.ok result, after) := by
  change ((t.answer (.run s)).1.mapError explain, (t.answer (.run s)).2) = _
  rw [Tables.answer]
  cases t.execute s <;> rfl

/-- A statement that cannot fail gives its result. -/
theorem on_statement {context : String} {s : Statement} {result : s.Result} {after : Tables}
    (h : t.execute s = .ok (result, after)) :
    (statement context s).on t = (.ok result, after) := by
  rw [statement, on_callWith, h]

/-- A query goes on after a statement that cannot fail. -/
theorem on_statement_bind {context : String} {s : Statement} {result : s.Result} {after : Tables}
    (h : t.execute s = .ok (result, after)) (f : s.Result → Query β) :
    (statement context s >>= f).on t = (f result).on after := by
  rw [on_bind, on_statement t h]

end On

section Plain

theorem plain_pure (a : α) : (pure a : Query α).Plain := trivial

theorem plain_throw (e : StorageError) : (throw e : Query α).Plain := trivial

theorem plain_ofExcept (r : Except StorageError α) : (ofExcept r).Plain := by
  cases r <;> trivial

theorem Plain.bind {q : Query α} {f : α → Query β} (hq : q.Plain) (hf : ∀ a, (f a).Plain) :
    (q >>= f).Plain := by
  apply Dialogue.Keeps.bind hq
  intro r _
  cases r with
  | ok a => exact hf a
  | error e => trivial

theorem plain_callWith (explain : DatabaseFailure → StorageError) {s : Statement}
    (hs : s.isPlain = true) : (callWith explain (send s)).Plain :=
  ⟨hs, fun _ => trivial⟩

theorem plain_statement (context : String) {s : Statement} (hs : s.isPlain = true) :
    (statement context s).Plain :=
  plain_callWith (failure context) hs

theorem plain_acquire : acquire.Plain :=
  ⟨rfl, fun _ => trivial⟩

/-- A count that is zero fails, any other does not. -/
theorem plain_unless {changed : Nat} (e : StorageError) :
    (if changed = 0 then throw e else pure () : Query Unit).Plain := by
  split
  · exact plain_throw e
  · exact plain_pure ()

theorem plain_member (id : Ident) : (member id).Plain := by
  refine (plain_statement _ rfl).bind fun found => ?_
  cases found with
  | none => exact plain_throw _
  | some row => exact plain_ofExcept _

theorem plain_team (id : Ident) : (team id).Plain := by
  refine (plain_statement _ rfl).bind fun found => ?_
  cases found with
  | none => exact plain_throw _
  | some row =>
      exact (plain_statement _ rfl).bind fun _ => (plain_ofExcept _).bind fun _ => plain_ofExcept _

theorem plain_teams : teams.Plain :=
  (plain_statement _ rfl).bind fun _ => (plain_statement _ rfl).bind fun _ =>
    (plain_ofExcept _).bind fun _ => plain_ofExcept _

theorem plain_teamOf (id : Ident) : (teamOf id).Plain := by
  refine (plain_statement _ rfl).bind fun found => ?_
  cases found with
  | none => exact plain_pure none
  | some team => exact (plain_team team).bind fun _ => plain_pure _

theorem plain_insertMembers (t : Team) (position : Nat) (ms : List Member) :
    (insertMembers t position ms).Plain := by
  induction ms generalizing position with
  | nil => exact plain_pure ()
  | cons m ms ih => exact (plain_callWith _ rfl).bind fun _ => ih (position + 1)

theorem plain_insertTeam (t : Team) : (insertTeam t).Plain :=
  (plain_callWith _ rfl).bind fun _ => (plain_statement _ rfl).bind fun _ =>
    plain_insertMembers t 0 t.members

theorem plain_deleteTeam (id : Ident) : (deleteTeam id).Plain :=
  (plain_statement _ rfl).bind fun _ => plain_unless _

theorem plain_appendMember (team member : Ident) : (appendMember team member).Plain :=
  plain_callWith _ rfl

theorem plain_removeMember (team member : Ident) : (removeMember team member).Plain :=
  (plain_statement _ rfl).bind fun _ => plain_unless _

theorem plain_checkExpectation (e : Ident × List Ident) : (checkExpectation e).Plain := by
  refine (plain_statement _ rfl).bind fun found => ?_
  cases found with
  | none => exact plain_throw _
  | some id =>
      refine (plain_statement _ rfl).bind fun ids => ?_
      by_cases hids : ids = e.2
      · simpa [hids] using plain_pure ()
      · simpa [hids] using plain_throw _

theorem plain_checkExpectations (es : List (Ident × List Ident)) :
    (checkExpectations es).Plain := by
  induction es with
  | nil => exact plain_pure ()
  | cons e es ih => exact (plain_checkExpectation e).bind fun _ => ih

theorem plain_edit (e : Edit) : (edit e).Plain := by
  cases e with
  | createTeam t => exact plain_insertTeam t
  | deleteTeam team => exact plain_deleteTeam team
  | addMember team member => exact plain_appendMember team member
  | removeMember team member => exact plain_removeMember team member
  | setStatus member before after => exact (plain_statement _ rfl).bind fun _ => plain_unless _

theorem plain_edits (es : List Edit) : (edits es).Plain := by
  induction es with
  | nil => exact plain_pure ()
  | cons e es ih => exact (plain_edit e).bind fun _ => ih

end Plain

/-- What a commit does between the beginning and the end of its transaction. -/
def change (c : ChangeSet) : Query Unit := do
  checkExpectations (lockOrder c.expectations)
  edits c.edits

theorem plain_change (c : ChangeSet) : (change c).Plain :=
  (plain_checkExpectations _).bind fun _ => plain_edits _

end Query

/-- The reply of tables to a request, and the tables after it. -/
def Tables.storage : Storage Tables
  | .createTeam team, t => (Query.insertTeam team).atomically t
  | .commit c, t => (Query.change c).atomically t
  | q, t => (Query.ofRequest q).run Tables.answer t

/-- A member is read from its row. -/
theorem Tables.storage_member {t : Tables} {id : Ident} {r : MemberRow} (h : t.member? id = some r) :
    (Tables.storage (.member id) t).1 = r.toMember := by
  have hsent : t.execute (.memberGet id) = .ok (t.member? id, t) := rfl
  change ((Query.member id).on t).1 = r.toMember
  rw [Query.member, Query.on_statement_bind t hsent, h, Query.on_ofExcept]

namespace Connection

variable {c : Connection} {base : Option Tables} {t : Tables} {α : Type}

/-- An open connection, with no statement that is going to fail, that works on these tables: at
once, or in a transaction that was begun on the tables in `base`. -/
structure Works (base : Option Tables) (c : Connection) (t : Tables) : Prop where
  opened : c.closed = false
  faultless : c.fault = none
  committed : c.committed = base.getD t
  pending : c.pending = base.map fun _ => t

/-- An open connection to these tables outside of any transaction. -/
abbrev Idle (c : Connection) (t : Tables) : Prop :=
  c.Works none t

theorem idle_ofTables (t : Tables) : (ofTables t).Idle t :=
  ⟨rfl, rfl, rfl, rfl⟩

theorem carryOut_of_isPlain {s : Statement} (hs : s.isPlain = true) (c : Connection) :
    c.carryOut s =
      match c.current.execute s with
      | .error e => (.error (.server e), c)
      | .ok (result, after) =>
        (.ok result,
          if c.pending.isSome then { c with pending := some after }
          else { c with committed := after }) := by
  cases s <;> first | rfl | cases hs

namespace Works

theorem current (h : c.Works base t) : c.current = t := by
  rw [Connection.current, h.pending, h.committed]
  cases base <;> rfl

/-- To note a statement changes nothing of what a connection works on. -/
theorem note (h : c.Works base t) (s : Statement) : (c.note s).Works base t :=
  ⟨h.opened, h.faultless, h.committed, h.pending⟩

/-- A connection that works sends every statement. -/
theorem answer_run (h : c.Works base t) (s : Statement) :
    c.answer (.run s) = (c.note s).carryOut s := by
  have hfault : (c.note s).fault = none := h.faultless
  simp [answer, h.opened, takeFault, hfault]

/-- A plain call is answered as on the tables alone, and the connection goes on in the same mode. -/
theorem answer (h : c.Works base t) {call : Call} (hcall : call.isPlain = true) :
    (c.answer call).1 = (t.answer call).1 ∧ (c.answer call).2.Works base (t.answer call).2 := by
  cases call with
  | acquire =>
      refine ⟨?_, h⟩
      simp [Connection.answer, h.opened, Tables.answer]
  | run s =>
      have hnoted := h.note s
      rw [h.answer_run, carryOut_of_isPlain hcall, hnoted.current, Tables.answer]
      cases t.execute s with
      | error e => exact ⟨rfl, hnoted⟩
      | ok done =>
          obtain ⟨result, after⟩ := done
          refine ⟨rfl, ?_⟩
          simp only [hnoted.pending]
          cases base with
          | none => exact ⟨hnoted.opened, hnoted.faultless, rfl, rfl⟩
          | some first => exact ⟨hnoted.opened, hnoted.faultless, hnoted.committed, rfl⟩

/-- A plain query comes to the same over a connection as on the tables alone. -/
theorem run (h : c.Works base t) {q : Query α} (hq : q.Plain) :
    (Dialogue.run Connection.answer q.run c).1 = (q.on t).1 ∧
      (Dialogue.run Connection.answer q.run c).2.Works base (q.on t).2 :=
  Dialogue.Keeps.run_related hq (fun _ _ _ hcall hworks => hworks.answer hcall) h

/-- A connection that gives up its transaction is back on the tables that this was begun on. -/
theorem rollback (h : c.Works base t) : c.rollback.Idle (base.getD t) :=
  ⟨h.opened, h.faultless, h.committed, rfl⟩

end Works

namespace Idle

/-- A transaction makes all writes of its body, or none. -/
theorem transaction (h : c.Idle t) (context : String) {body : Query Unit} (hbody : body.Plain) :
    (Dialogue.run answer (Query.transaction context body).run c).1 = (body.atomically t).1 ∧
      (Dialogue.run answer (Query.transaction context body).run c).2.rollback.Idle
        (body.atomically t).2 := by
  have hbegin : c.answer (.run .begin) = (.ok (), { c.note .begin with pending := some t }) := by
    rw [h.answer_run]
    simp only [carryOut, note, h.committed, Option.getD_none]
  have hbegun : Works (some t) { c.note .begin with pending := some t } t :=
    ⟨h.opened, h.faultless, h.committed, rfl⟩
  obtain ⟨hreply, hworks⟩ := hbegun.run hbody
  have hrun : Dialogue.run answer (Query.transaction context body).run c =
      Dialogue.run answer
        (body >>= fun _ => Query.statement context .commit : Query Unit).run
        { c.note .begin with pending := some t } := by
    simp only [Query.transaction, Query.statement, Query.callWith, Query.send, ExceptT.run_bind,
      ExceptT.run_mk, Dialogue.bind_eq, Dialogue.request, Dialogue.ask_bind, Dialogue.done_bind,
      Dialogue.run_ask, hbegin]
    rfl
  rw [hrun, ExceptT.run_bind, Dialogue.bind_eq, Dialogue.run_bind, hreply, Query.atomically]
  generalize hend : (Dialogue.run answer body.run { c.note .begin with pending := some t }).2 =
    open' at hworks
  cases hon : body.on t with
  | mk r after =>
      rw [hon] at hworks
      cases r with
      | error e => exact ⟨rfl, hworks.rollback⟩
      | ok done =>
          have hcommit : open'.answer (.run .commit) =
              (.ok (), { open'.note .commit with committed := after, pending := none }) := by
            rw [hworks.answer_run]
            simp only [carryOut, (hworks.note .commit).current]
          simp only [Query.statement, Query.callWith, Query.send, ExceptT.run_mk, Dialogue.request,
            Dialogue.ask_bind, Dialogue.done_bind, Dialogue.run_ask, Dialogue.run_done, hcommit]
          exact ⟨rfl, hworks.opened, hworks.faultless, rfl, rfl⟩

/-- A query outside of any transaction comes to the same as on the tables alone. -/
theorem plain (h : c.Idle t) {q : Query α} (hq : q.Plain) :
    (Dialogue.run answer q.run c).1 = (q.on t).1 ∧
      (Dialogue.run answer q.run c).2.rollback.Idle (q.on t).2 := by
  obtain ⟨hreply, hworks⟩ := h.run hq
  exact ⟨hreply, hworks.rollback⟩

/-- An idle connection replies to a request as its tables do, and is idle again after it. -/
theorem storage (h : c.Idle t) (q : StorageRequest) :
    (Connection.storage q c).1 = (Tables.storage q t).1 ∧
      (Connection.storage q c).2.Idle (Tables.storage q t).2 := by
  cases q with
  | member id => exact h.plain (Query.plain_member id)
  | members =>
      exact h.plain ((Query.plain_statement _ rfl).bind fun _ => Query.plain_ofExcept _)
  | saveMember m => exact h.plain (Query.plain_statement _ rfl)
  | setStatus id status =>
      exact h.plain ((Query.plain_statement _ rfl).bind fun _ => Query.plain_unless _)
  | team id => exact h.plain (Query.plain_team id)
  | teams => exact h.plain Query.plain_teams
  | teamOf member => exact h.plain (Query.plain_teamOf member)
  | createTeam team => exact h.transaction _ (Query.plain_insertTeam team)
  | deleteTeam id => exact h.plain (Query.plain_acquire.bind fun _ => Query.plain_deleteTeam id)
  | addMember team member =>
      exact h.plain (Query.plain_acquire.bind fun _ => Query.plain_appendMember team member)
  | removeMember team member =>
      exact h.plain (Query.plain_acquire.bind fun _ => Query.plain_removeMember team member)
  | commit changes => exact h.transaction _ (Query.plain_change changes)

end Idle

end Connection

end TeamRoster
