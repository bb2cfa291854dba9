import TeamRoster.Workflow.Ask

/-!
# Running use cases

A `Setting` answers the questions of use cases: with a storage, a transport, a sequence of births
and a sequence of answers to ties. A `World` is what changes as it does.
-/

namespace TeamRoster

/-- Who answers the questions of use cases. -/
structure Setting (σ τ : Type) where
  storage : Storage σ
  transport : Notification → τ → Except DeliveryError Unit × τ
  /-- The births, by how many were drawn before. -/
  births : Nat → Birth
  /-- The answers to ties, by how many were broken before and by the number of choices. -/
  picks : Nat → Nat → Nat

/-- What changes while use cases run. -/
structure World (σ τ : Type) where
  storage : σ
  transport : τ
  /-- How many births were drawn. -/
  born : Nat
  /-- How many ties were broken. -/
  picked : Nat
deriving DecidableEq

namespace Setting

variable {σ τ : Type}

/-- Answer one question. -/
def answer (e : Setting σ τ) : (q : Ask) → World σ τ → q.Answer × World σ τ
  | .storage request, w =>
    let (reply, after) := e.storage request w.storage
    (reply, { w with storage := after })
  | .birth, w => (e.births w.born, { w with born := w.born + 1 })
  | .pick count, w => (e.picks w.picked count, { w with picked := w.picked + 1 })
  | .deliver event, w =>
    let (reply, after) := e.transport event.notification w.transport
    (reply, { w with transport := after })

/-- Run a dialogue to its end. -/
def run {α : Type} (e : Setting σ τ) (d : Dialogue Ask Ask.Answer α) (w : World σ τ) :
    α × World σ τ :=
  d.run e.answer w

/-- What a dialogue asks on its way, with the answers. -/
def transcript {α : Type} (e : Setting σ τ) (d : Dialogue Ask Ask.Answer α) (w : World σ τ) :
    List (Dialogue.Exchange Ask Ask.Answer) :=
  d.transcript e.answer w

end Setting

/-- The change sets that were committed, successfully or not. -/
def commitsOf (log : List (Dialogue.Exchange Ask Ask.Answer)) : List ChangeSet :=
  log.filterMap fun
    | ⟨.storage (.commit c), _⟩ => some c
    | _ => none

/-- The numbers of choices that were offered. -/
def offersOf (log : List (Dialogue.Exchange Ask Ask.Answer)) : List Nat :=
  log.filterMap fun
    | ⟨.pick count, _⟩ => some count
    | _ => none

/-- The events that mentors were to be told of, delivered or not. -/
def attemptsOf (log : List (Dialogue.Exchange Ask Ask.Answer)) : List Event :=
  log.filterMap fun
    | ⟨.deliver event, _⟩ => some event
    | _ => none

/-- The events that mentors were told of. -/
def deliveriesOf (log : List (Dialogue.Exchange Ask Ask.Answer)) : List Event :=
  log.filterMap fun
    | ⟨.deliver event, .ok ()⟩ => some event
    | _ => none

end TeamRoster
