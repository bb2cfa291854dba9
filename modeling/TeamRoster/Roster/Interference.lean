import TeamRoster.Roster.Request

/-!
# Interference

A storage is shared: between the reads of a use case and its commit somebody else may write. A
`Contended` state carries such writes, which land just before the next commit.
-/

namespace TeamRoster

/-- A state, and what somebody else is going to do to it before the next commit. -/
structure Contended (σ : Type) where
  state : σ
  pending : Option (σ → σ)

/-- A storage whose pending writes land just before a commit. -/
def Storage.contended {σ : Type} (answer : Storage σ) : Storage (Contended σ)
  | .commit c, w =>
    let current := match w.pending with
      | some write => write w.state
      | none => w.state
    let (reply, after) := answer (.commit c) current
    (reply, ⟨after, none⟩)
  | q, w =>
    let (reply, after) := answer q w.state
    (reply, { w with state := after })

end TeamRoster
