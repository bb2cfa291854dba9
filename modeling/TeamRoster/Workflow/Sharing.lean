import TeamRoster.Command.Line
import TeamRoster.Workflow.World

/-!
# Services that share a storage

Several services may work on one storage, each in a process of its own. Within a service commands are
carried out one at a time. Between services nothing is agreed: each question to the storage is answered
at once, and before the next one the others may go on.
-/

namespace TeamRoster

/-- What a service has to itself while it shares the storage, with the command that it is at and what is
left to do of it. -/
structure Desk (τ : Type) where
  transport : τ
  born : Nat
  picked : Nat
  task : Option (Command × Dialogue Ask Ask.Answer Answer)

/-- A storage, and the services that share it. -/
structure Shared (ι σ τ : Type) where
  storage : σ
  desks : ι → Desk τ

/-- What happens next. -/
inductive Turn (ι : Type) where
  /-- A service is given a command. -/
  | begin (service : ι) (command : Command)
  /-- A service does the next thing that it has to do. -/
  | move (service : ι)

namespace Shared

variable {ι σ τ : Type}

/-- The world as a service finds it. -/
def world (s : Shared ι σ τ) (service : ι) : World σ τ :=
  ⟨s.storage, (s.desks service).transport, (s.desks service).born, (s.desks service).picked⟩

variable [DecidableEq ι]

/-- A service leaves the world like this, with this left to do. -/
def put (s : Shared ι σ τ) (service : ι) (w : World σ τ)
    (task : Option (Command × Dialogue Ask Ask.Answer Answer)) : Shared ι σ τ where
  storage := w.storage
  desks other := if other = service then ⟨w.transport, w.born, w.picked, task⟩ else s.desks other

/-- One turn. A service that is at a command takes no other before it is done. -/
def turn (e : ι → Setting σ τ) (s : Shared ι σ τ) : Turn ι → Shared ι σ τ
  | .begin i c =>
    match (s.desks i).task with
    | none => s.put i (s.world i) (some (c, c.answer))
    | some _ => s
  | .move i =>
    match (s.desks i).task with
    | none => s
    | some (_, .done _) => s.put i (s.world i) none
    | some (c, .ask q next) =>
      let (reply, w) := (e i).answer q (s.world i)
      s.put i w (some (c, next reply))

/-- What turns lead to, one after the other. -/
def follow (e : ι → Setting σ τ) (turns : List (Turn ι)) (s : Shared ι σ τ) : Shared ι σ τ :=
  turns.foldl (turn e) s

/-- Services that are at rest, on a storage. -/
def fresh (s : σ) (transports : ι → τ) : Shared ι σ τ :=
  ⟨s, fun i => ⟨transports i, 0, 0, none⟩⟩

end Shared

end TeamRoster
