import TeamRoster.Dialogue
import TeamRoster.Tables.Statement

/-!
# Connections

The one connection to the database. Outside a transaction each statement takes effect at once; what
a transaction wrote takes effect when it is committed. A connection keeps the statements that it was
sent, may be told to let one of them fail, and can be closed for good.
-/

namespace TeamRoster

/-- Why a statement has no result. -/
inductive DatabaseFailure where
  | server (cause : ServerError)
  /-- There is no connection to be had. -/
  | closed
deriving DecidableEq

/-- The wording of a database failure. -/
def DatabaseFailure.message : DatabaseFailure → String
  | server cause => "error returned from database: " ++ cause.message
  | closed => "attempted to acquire a connection on a closed pool"

/-- What a connection can be called for. -/
inductive Call where
  /-- Make sure that there is a connection. -/
  | acquire
  | run (statement : Statement)

/-- What a call gives. -/
abbrev Call.Answer : Call → Type
  | acquire => Except DatabaseFailure Unit
  | run statement => Except DatabaseFailure statement.Result

/-- A statement that is going to fail: the one of this label that comes up as the `countdown`-th. -/
structure Fault where
  label : String
  countdown : Nat
  error : ServerError
deriving DecidableEq

/-- The connection to the database. -/
structure Connection where
  committed : Tables
  /-- The tables as the open transaction leaves them. -/
  pending : Option Tables
  closed : Bool
  fault : Option Fault
  /-- The statements that were sent, in order. -/
  log : List Statement

namespace Connection

/-- An open connection to these tables. -/
def ofTables (t : Tables) : Connection :=
  ⟨t, none, false, none, []⟩

/-- The tables that a statement works on. -/
def current (c : Connection) : Tables :=
  c.pending.getD c.committed

/-- Give up the open transaction. -/
def rollback (c : Connection) : Connection :=
  { c with pending := none }

/-- Note a statement. -/
def note (c : Connection) (s : Statement) : Connection :=
  { c with log := c.log ++ [s] }

/-- The error with which a statement is going to fail, if it is its turn, and the connection without
that turn. -/
def takeFault (c : Connection) (s : Statement) : Option ServerError × Connection :=
  match c.fault with
  | some f =>
    if f.label = s.label then
      if f.countdown = 1 then (some f.error, { c with fault := none })
      else (none, { c with fault := some { f with countdown := f.countdown - 1 } })
    else (none, c)
  | none => (none, c)

/-- Carry out a statement. -/
def carryOut (c : Connection) (s : Statement) : Except DatabaseFailure s.Result × Connection :=
  match s with
  | .begin => (.ok (), { c with pending := some c.committed })
  | .commit => (.ok (), { c with committed := c.current, pending := none })
  | s =>
    match c.current.execute s with
    | .error e => (.error (.server e), c)
    | .ok (result, after) =>
      (.ok result,
        if c.pending.isSome then { c with pending := some after }
        else { c with committed := after })

/-- Answer a call. -/
def answer : (call : Call) → Connection → call.Answer × Connection
  | .acquire, c => (if c.closed then .error .closed else .ok (), c)
  | .run s, c =>
    if c.closed then (.error .closed, c)
    else
      match (c.note s).takeFault s with
      | (some e, c) => (.error (.server e), if s = .commit then c.rollback else c)
      | (none, c) => c.carryOut s

end Connection

end TeamRoster
