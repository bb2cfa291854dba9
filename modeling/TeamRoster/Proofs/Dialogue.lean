import TeamRoster.Dialogue

/-!
# What a dialogue may ask and end in

`Dialogue.Keeps ask stop d` says of the dialogue `d` alone, whoever answers it, that all its
questions are in `ask` and all its values in `stop`. It is composed along sequences, and what it says
of a dialogue holds of every run.
-/

namespace TeamRoster

namespace Dialogue

variable {Q : Type} {A : Q → Type} {α β σ : Type} {ask : Q → Prop} {stop : α → Prop}

/-- All questions are in `ask` and all values in `stop`, whatever the answers are. -/
def Keeps (ask : Q → Prop) (stop : α → Prop) : Dialogue Q A α → Prop
  | done value => stop value
  | .ask question next => ask question ∧ ∀ answer, (next answer).Keeps ask stop

/-- Of any dialogue at all, no more can be said than that it asks and ends. -/
theorem keeps_any (d : Dialogue Q A α) : d.Keeps (fun _ => True) fun _ => True := by
  induction d with
  | done value => trivial
  | ask question next ih => exact ⟨trivial, ih⟩

/-- What is asked and ended in may be said of more. -/
theorem Keeps.mono {d : Dialogue Q A α} {stop' : α → Prop} (hd : d.Keeps ask stop)
    (hstop : ∀ value, stop value → stop' value) : d.Keeps ask stop' := by
  induction d with
  | done value => exact hstop value hd
  | ask question next ih => exact ⟨hd.1, fun answer => ih answer (hd.2 answer)⟩

theorem Keeps.bind {d : Dialogue Q A α} {f : α → Dialogue Q A β} {stop' : β → Prop}
    (hd : d.Keeps ask stop) (hf : ∀ value, stop value → (f value).Keeps ask stop') :
    (d.bind f).Keeps ask stop' := by
  induction d with
  | done value => exact hf value hd
  | ask question next ih => exact ⟨hd.1, fun answer => ih answer (hd.2 answer)⟩

/-- The value of a run is one that the dialogue may end in. -/
theorem Keeps.run {d : Dialogue Q A α} (hd : d.Keeps ask stop)
    (answer : (q : Q) → σ → A q × σ) (s : σ) : stop (d.run answer s).1 := by
  induction d generalizing s with
  | done value => exact hd
  | ask question next ih => exact ih _ (hd.2 _) _

/-- Only questions that the dialogue may ask are on record. -/
theorem Keeps.transcript {d : Dialogue Q A α} (hd : d.Keeps ask stop)
    (answer : (q : Q) → σ → A q × σ) (s : σ) :
    ∀ x ∈ d.transcript answer s, ask x.1 := by
  induction d generalizing s with
  | done value => simp [Dialogue.transcript]
  | ask question next ih =>
      intro x hx
      rcases List.mem_cons.1 hx with rfl | hx
      · exact hd.1
      · exact ih _ (hd.2 _) _ x hx

/-- Two runs whose answerers reply alike to what the dialogue may ask, from states that are related
and stay so, end in the same value and in related states. -/
theorem Keeps.run_related {d : Dialogue Q A α} {τ : Type} (hd : d.Keeps ask stop)
    {answer : (q : Q) → σ → A q × σ} {answer' : (q : Q) → τ → A q × τ} {R : σ → τ → Prop}
    (halike : ∀ q s t, ask q → R s t →
      (answer q s).1 = (answer' q t).1 ∧ R (answer q s).2 (answer' q t).2)
    {s : σ} {t : τ} (hR : R s t) :
    (d.run answer s).1 = (d.run answer' t).1 ∧ R (d.run answer s).2 (d.run answer' t).2 := by
  induction d generalizing s t with
  | done value => exact ⟨rfl, hR⟩
  | ask question next ih =>
      obtain ⟨hreply, hafter⟩ := halike question s t hd.1 hR
      rw [run_ask, run_ask, ← hreply]
      exact ih _ (hd.2 _) hafter

/-- What every question that may be asked leaves true of the state is true after the run. -/
theorem Keeps.run_invariant {d : Dialogue Q A α} (hd : d.Keeps ask stop)
    {answer : (q : Q) → σ → A q × σ} {I : σ → Prop}
    (hstep : ∀ q s, ask q → I s → I (answer q s).2) {s : σ} (hs : I s) :
    I (d.run answer s).2 := by
  induction d generalizing s with
  | done value => exact hs
  | ask question next ih => exact ih _ (hd.2 _) (hstep _ _ hd.1 hs)

end Dialogue

end TeamRoster
