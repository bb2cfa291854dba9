/-!
# Tie-breaks

Of several teams that are equally good one has to be picked, and who picks is not for the rules to
say. A `TieBreak` is a value that may need one such answer first: it asks at most once, and says
among how many. An answer beyond the last choice stands for the last choice.
-/

namespace TeamRoster

/-- A value, or a question among so many choices on whose answer the value depends. -/
inductive TieBreak (α : Type) where
  | settled (value : α)
  | among (count : Nat) (next : Nat → α)

namespace TieBreak

variable {α β : Type}

/-- Go on with the value. -/
def map (f : α → β) : TieBreak α → TieBreak β
  | settled value => settled (f value)
  | among count next => among count fun answer => f (next answer)

/-- The value, when questions are answered by a function of the number of choices. -/
def resolve (pick : Nat → Nat) : TieBreak α → α
  | settled value => value
  | among count next => next (pick count)

/-- The number of choices of each question, in order. -/
def questions : TieBreak α → List Nat
  | settled _ => []
  | among count _ => [count]

/-- Pick from a list. Nothing is asked where there is nothing to pick from. -/
def choose : List α → TieBreak (Option α)
  | [] => settled none
  | a :: as => among (as.length + 1) fun answer => (a :: as)[min answer as.length]?

@[simp] theorem resolve_map (f : α → β) (pick : Nat → Nat) (t : TieBreak α) :
    (t.map f).resolve pick = f (t.resolve pick) := by
  cases t <;> rfl

@[simp] theorem questions_map (f : α → β) (t : TieBreak α) :
    (t.map f).questions = t.questions := by
  cases t <;> rfl

end TieBreak

end TeamRoster
