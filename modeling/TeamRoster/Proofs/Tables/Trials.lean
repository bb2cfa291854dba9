import TeamRoster.Proofs.Tables.Queries

/-!
# Requests with faults

A connection may be closed when a request is made, and a statement may fail in it (`Trial`). What is true
of tables is compared with what is true of a connection, whose transaction may be open
(`Connection.Satisfies`). Main statements: `Connection.Satisfies.answer`, for one statement, and
`Connection.Satisfies.after`. What every statement keeps true of tables is true after any trials.
-/

namespace TeamRoster

/-- A request, and what the connection is up against when it is made: whether it is closed, and the
statement that is going to fail, if there is one. -/
structure Trial where
  closed : Bool
  fault : Option Fault
  request : StorageRequest

namespace Connection

variable {c : Connection} {P : Tables → Prop}

/-- Make a request in a trial. -/
def meet (c : Connection) (trial : Trial) : trial.request.Reply × Connection :=
  storage trial.request { c with closed := trial.closed, fault := trial.fault }

/-- The connection after trials, one after the other. -/
def after (c : Connection) (trials : List Trial) : Connection :=
  trials.foldl (fun c trial => (c.meet trial).2) c

theorem after_append (c : Connection) (trials others : List Trial) :
    c.after (trials ++ others) = (c.after trials).after others :=
  List.foldl_append

/-- No transaction is left open. -/
theorem pending_after (h : c.pending = none) (trials : List Trial) :
    (c.after trials).pending = none := by
  induction trials generalizing c with
  | nil => exact h
  | cons trial trials ih => exact ih rfl

/-- A request that meets with no fault is replied to as the committed tables reply. -/
theorem meet_faultless (h : c.pending = none) (q : StorageRequest) :
    (c.meet ⟨false, none, q⟩).1 = (Tables.storage q c.committed).1 ∧
      (c.meet ⟨false, none, q⟩).2.Idle (Tables.storage q c.committed).2 := by
  have hidle : Idle { c with closed := false, fault := none } c.committed := ⟨rfl, rfl, rfl, h⟩
  exact hidle.storage q

/-- This is true of the committed tables and of those that an open transaction works on. -/
structure Satisfies (P : Tables → Prop) (c : Connection) : Prop where
  committed : P c.committed
  pending : ∀ t ∈ c.pending, P t

namespace Satisfies

theorem of_idle {t : Tables} (hidle : c.Idle t) (h : P t) : c.Satisfies P where
  committed := by
    rw [hidle.committed]
    exact h
  pending := by
    rw [hidle.pending]
    exact nofun

theorem mono (h : c.Satisfies P) {P' : Tables → Prop} (hP : ∀ t, P t → P' t) : c.Satisfies P' :=
  ⟨hP c.committed h.committed, fun t ht => hP t (h.pending t ht)⟩

theorem rollback (h : c.Satisfies P) : c.rollback.Satisfies P :=
  ⟨h.committed, nofun⟩

theorem current (h : c.Satisfies P) : P c.current := by
  rw [Connection.current]
  cases hpending : c.pending with
  | none => exact h.committed
  | some t => exact h.pending t hpending

/-- The fault that comes up is taken from the connection, and nothing else. -/
theorem takeFault (h : c.Satisfies P) (s : Statement) :
    ((c.note s).takeFault s).2.Satisfies P := by
  unfold Connection.takeFault
  repeat' split
  all_goals exact ⟨h.committed, h.pending⟩

section Statement

variable {s : Statement} {shows : s.Result → Prop}

theorem carryOut (h : c.Satisfies P)
    (hs : ∀ {t d result}, t.execute s = .ok (result, d) → P t → shows result ∧ P d) :
    (∀ result, (c.carryOut s).1 = .ok result → shows result) ∧ (c.carryOut s).2.Satisfies P := by
  cases hplain : s.isPlain with
  | true =>
      rw [carryOut_of_isPlain hplain]
      cases hrun : c.current.execute s with
      | error e => exact ⟨by simp, h⟩
      | ok done =>
          obtain ⟨result, after⟩ := done
          obtain ⟨hshows, hafter⟩ := hs hrun h.current
          constructor
          · rintro _ ⟨⟩
            exact hshows
          · dsimp only
            split
            · refine ⟨h.committed, ?_⟩
              rintro _ ⟨⟩
              exact hafter
            · exact ⟨hafter, h.pending⟩
  | false =>
      -- The two statements that frame a transaction have nothing to show, and only move tables.
      cases s with
      | begin =>
          refine ⟨fun _ _ => (hs rfl h.committed).1, h.committed, ?_⟩
          rintro _ ⟨⟩
          exact h.committed
      | commit => exact ⟨fun _ _ => (hs rfl h.committed).1, h.current, nofun⟩
      | _ => cases hplain

/-- A statement over a connection gives what it gives on tables, or fails. -/
theorem answer (h : c.Satisfies P)
    (hs : ∀ {t d result}, t.execute s = .ok (result, d) → P t → shows result ∧ P d) :
    (∀ result, (c.answer (.run s)).1 = .ok result → shows result) ∧
      (c.answer (.run s)).2.Satisfies P := by
  have htaken := h.takeFault s
  simp only [Connection.answer]
  split
  · exact ⟨by simp, h⟩
  · split
    · rename_i heq
      rw [heq] at htaken
      refine ⟨by simp, ?_⟩
      split
      · exact htaken.rollback
      · exact htaken
    · rename_i heq
      rw [heq] at htaken
      exact htaken.carryOut hs

end Statement

/-- What every statement keeps true is true after any trials. -/
theorem after (h : c.Satisfies P)
    (hkeeps : ∀ {s : Statement} {t d result}, t.execute s = .ok (result, d) → P t → P d)
    (trials : List Trial) : (c.after trials).Satisfies P := by
  have hcall (call : Call) (c : Connection) (hc : c.Satisfies P) : (c.answer call).2.Satisfies P := by
    cases call with
    | acquire => exact hc
    | run s =>
        have hanswer : (∀ result, (c.answer (.run s)).1 = .ok result → True) ∧
            (c.answer (.run s)).2.Satisfies P :=
          hc.answer fun hrun ht => ⟨trivial, hkeeps hrun ht⟩
        exact hanswer.2
  induction trials generalizing c with
  | nil => exact h
  | cons trial trials ih =>
      have hset : Satisfies P { c with closed := trial.closed, fault := trial.fault } :=
        ⟨h.committed, h.pending⟩
      have hrun := (Dialogue.keeps_any (Query.ofRequest trial.request)).run_invariant
        (fun call c _ hc => hcall call c hc) hset
      exact ih hrun.rollback

end Satisfies

end Connection

end TeamRoster
