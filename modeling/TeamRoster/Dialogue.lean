/-!
# Dialogues

A `Dialogue` is a computation that asks questions and goes on with the answers: to a storage, to a
database, to whoever breaks ties. It says nothing about who answers, so the same dialogue can be run
against different answerers, in steps, or beside another one. Main statements: dialogues are a
lawful monad, and running a sequence is running its parts one after the other.
-/

namespace TeamRoster

universe u

/-- A computation that asks questions from `Q`, each with answers of its own type. -/
inductive Dialogue (Q : Type) (A : Q → Type) (α : Type u) : Type u where
  | done (value : α)
  | ask (question : Q) (next : A question → Dialogue Q A α)

namespace Dialogue

variable {Q : Type} {A : Q → Type} {α β γ : Type} {σ : Type}

/-- Go on with the value of a dialogue. -/
protected def bind : Dialogue Q A α → (α → Dialogue Q A β) → Dialogue Q A β
  | done value, f => f value
  | ask question next, f => ask question fun answer => (next answer).bind f

instance : Monad (Dialogue Q A) where
  pure := done
  bind := Dialogue.bind

/-- Ask one question. -/
def request (question : Q) : Dialogue Q A (A question) :=
  ask question done

/-- Run a dialogue against an answerer with a state. -/
def run (answer : (q : Q) → σ → A q × σ) : Dialogue Q A α → σ → α × σ
  | done value, s => (value, s)
  | ask question next, s => (next (answer question s).1).run answer (answer question s).2

/-- A question with the answer that it got. -/
abbrev Exchange (Q : Type) (A : Q → Type) : Type :=
  (q : Q) × A q

/-- Run a dialogue and keep what was asked and answered, in order. -/
def transcript (answer : (q : Q) → σ → A q × σ) : Dialogue Q A α → σ → List (Exchange Q A)
  | done _, _ => []
  | ask question next, s =>
    ⟨question, (answer question s).1⟩ ::
      (next (answer question s).1).transcript answer (answer question s).2

@[simp] theorem pure_eq (value : α) : (pure value : Dialogue Q A α) = done value := rfl

@[simp] theorem bind_eq (d : Dialogue Q A α) (f : α → Dialogue Q A β) : d >>= f = d.bind f := rfl

@[simp] theorem done_bind (value : α) (f : α → Dialogue Q A β) :
    (done value : Dialogue Q A α).bind f = f value := rfl

@[simp] theorem ask_bind (q : Q) (next : A q → Dialogue Q A α) (f : α → Dialogue Q A β) :
    (ask q next).bind f = ask q fun answer => (next answer).bind f := rfl

theorem bind_done (d : Dialogue Q A α) : d.bind done = d := by
  induction d with
  | done value => rfl
  | ask q next ih => simp [ih]

theorem bind_assoc (d : Dialogue Q A α) (f : α → Dialogue Q A β) (g : β → Dialogue Q A γ) :
    (d.bind f).bind g = d.bind fun value => (f value).bind g := by
  induction d with
  | done value => rfl
  | ask q next ih => simp [ih]

instance : LawfulMonad (Dialogue Q A) :=
  LawfulMonad.mk' (Dialogue Q A)
    (fun d => bind_done d) (fun _ _ => rfl) (fun d f g => bind_assoc d f g)

@[simp] theorem run_done (answer : (q : Q) → σ → A q × σ) (value : α) (s : σ) :
    (done value : Dialogue Q A α).run answer s = (value, s) := rfl

@[simp] theorem run_ask (answer : (q : Q) → σ → A q × σ) (q : Q) (next : A q → Dialogue Q A α)
    (s : σ) : (ask q next).run answer s = (next (answer q s).1).run answer (answer q s).2 := rfl

/-- Running a sequence is running its parts one after the other. -/
@[simp] theorem run_bind (answer : (q : Q) → σ → A q × σ) (d : Dialogue Q A α)
    (f : α → Dialogue Q A β) (s : σ) :
    (d.bind f).run answer s = (f (d.run answer s).1).run answer (d.run answer s).2 := by
  induction d generalizing s with
  | done value => rfl
  | ask q next ih => simp [ih]

/-- The transcript of a sequence is that of its parts. -/
theorem transcript_bind (answer : (q : Q) → σ → A q × σ) (d : Dialogue Q A α)
    (f : α → Dialogue Q A β) (s : σ) :
    (d.bind f).transcript answer s =
      d.transcript answer s ++ (f (d.run answer s).1).transcript answer (d.run answer s).2 := by
  induction d generalizing s with
  | done value => rfl
  | ask q next ih => simp [transcript, ih]

end Dialogue

end TeamRoster
