import TeamRoster.Proofs.Workflow.Runs

/-!
# What is stored is what was decided

The rules compute whole teams, and what is committed is a list of single additions and removals.
Main statement: `stored_as_decided`. After every commit the teams that were decided are stored just
as they were decided, members and their order included, and nothing else has changed but the status
that the command is about.
-/

namespace TeamRoster

namespace Decision

/-- The composition that was decided, if there is one. -/
def composition? : Decision → Option Composition
  | joined _ c => some c
  | left r => some r.composition
  | untouched => none

/-- Whether the last member left the team. -/
def isEmptied : Decision → Bool
  | left r => r.isEmptied
  | joined _ _ | untouched => false

/-- The teams of the decision are stored as they were decided, those that were to go are gone, and
all other teams are as before. -/
structure Stored (d : Decision) (before after : Store) : Prop where
  kept (k : Composition) : d.composition? = some k → d.isEmptied = false →
    after.team k.team.id = .ok k.team
  emptied (k : Composition) : d.composition? = some k → d.isEmptied = true →
    after.teams.find? k.team.id = none
  founded (k : Composition) (t : Team) : d.composition? = some k → k.new? = some t →
    after.team t.id = .ok t
  dissolved (k : Composition) (t : Team) : d.composition? = some k → k.dissolved? = some t →
    after.teams.find? t.id = none
  others (id : Ident) :
    (∀ k, d.composition? = some k → id ≠ k.team.id ∧ (∀ t ∈ k.new?, id ≠ t.id) ∧
      ∀ t ∈ k.dissolved?, id ≠ t.id) →
    after.teams.find? id = before.teams.find? id

end Decision

namespace Composition

/-- All teams of a composition are put into the store or taken out of it. -/
theorem mem_touched {k : Composition} {id : Ident} (hid : id ∈ k.rewrite.touched) :
    id = k.team.id ∨ (∃ t ∈ k.new?, id = t.id) ∨ ∃ t ∈ k.dissolved?, id = t.id := by
  cases k with
  | unchanged team => exact .inl (List.mem_singleton.1 hid)
  | split kept new moved =>
      rcases List.mem_cons.1 hid with hid | hid
      · exact .inl hid
      · exact .inr (.inl ⟨new, rfl, List.mem_singleton.1 hid⟩)
  | merge destination dissolved moved =>
      rcases List.mem_cons.1 hid with hid | hid
      · exact .inl hid
      · exact .inr (.inr ⟨dissolved, rfl, List.mem_singleton.1 hid⟩)

end Composition

namespace Command

variable {c : Command} {d : Decision} {before after : Store}

/-- Where all teams that were put into the store are held, a composition is stored as decided. -/
theorem CarriedOut.stored_composition (h : c.CarriedOut d before after) (hkeyed : after.Keyed)
    {k : Composition} (hk : d.composition? = some k) (hrewrite : d.rewrite = k.rewrite)
    (hemptied : d.isEmptied = false) : d.Stored before after := by
  have hheld (t : Team) (ht : t ∈ k.rewrite.relisted ++ k.rewrite.founded) :
      after.team t.id = .ok t :=
    (h.held t (hrewrite ▸ ht)).team hkeyed
  constructor
  · intro j hj _
    have heq := Option.some.inj (hk.symm.trans hj)
    subst heq
    cases k <;> exact hheld _ List.mem_cons_self
  · intro j _ htrue
    rw [hemptied] at htrue
    cases htrue
  · intro j t hj ht
    have heq := Option.some.inj (hk.symm.trans hj)
    subst heq
    cases k with
    | split kept new moved =>
        cases ht
        exact hheld _ (List.mem_cons_of_mem _ List.mem_cons_self)
    | unchanged team => cases ht
    | merge destination dissolved moved => cases ht
  · intro j t hj ht
    have heq := Option.some.inj (hk.symm.trans hj)
    subst heq
    cases k with
    | merge destination dissolved moved =>
        cases ht
        apply h.teams.dropped _
        rw [hrewrite]
        exact List.mem_cons_self
    | unchanged team => cases ht
    | split kept new moved => cases ht
  · intro id hid
    obtain ⟨hteam, hnew, hdissolved⟩ := hid k hk
    apply h.teams.kept id
    rw [hrewrite]
    intro htouched
    rcases Composition.mem_touched htouched with heq | ⟨t, ht, heq⟩ | ⟨t, ht, heq⟩
    · exact hteam heq
    · exact hnew t ht heq
    · exact hdissolved t ht heq

/-- What was carried out is stored as it was decided. -/
theorem CarriedOut.stored (h : c.CarriedOut d before after) (hkeyed : after.Keyed)
    (hshape : ∀ r, d = .left r → r.isEmptied = true → ∃ t, r.composition = .unchanged t) :
    d.Stored before after := by
  cases d with
  | joined member k => exact h.stored_composition hkeyed rfl rfl rfl
  | untouched =>
      constructor
      · rintro k ⟨⟩
      · rintro k ⟨⟩
      · rintro k t ⟨⟩
      · rintro k t ⟨⟩
      · intro id _
        exact h.teams.kept id List.not_mem_nil
  | left r =>
      cases hemptied : r.isEmptied with
      | false =>
          have hrewrite : (Decision.left r).rewrite = r.composition.rewrite := by
            rw [Decision.rewrite, Redistribution.rewrite, hemptied]
            rfl
          exact h.stored_composition hkeyed rfl hrewrite hemptied
      | true =>
          obtain ⟨t, ht⟩ := hshape r rfl hemptied
          have hrewrite : (Decision.left r).rewrite = ⟨[], [], [t.id]⟩ := by
            rw [Decision.rewrite, Redistribution.rewrite, hemptied, ht]
            rfl
          have hcomposition (k : Composition)
              (hk : (Decision.left r).composition? = some k) : k = .unchanged t :=
            (Option.some.inj hk).symm.trans ht
          constructor
          · intro k _ hfalse
            change r.isEmptied = false at hfalse
            rw [hemptied] at hfalse
            cases hfalse
          · intro k hk _
            have heq := hcomposition k hk
            subst heq
            apply h.teams.dropped t.id
            rw [hrewrite]
            exact List.mem_cons_self
          · intro k u hk hu
            have heq := hcomposition k hk
            subst heq
            cases hu
          · intro k u hk hu
            have heq := hcomposition k hk
            subst heq
            cases hu
          · intro id hid
            obtain ⟨hteam, -⟩ := hid r.composition rfl
            rw [ht] at hteam
            apply h.teams.kept id
            rw [hrewrite]
            intro htouched
            exact hteam (List.mem_singleton.1 htouched)

end Command

namespace Surroundings

variable {τ : Type} {v : Surroundings τ} {w : World Store τ}

/-- What is stored is what was decided. After a commit of a command on a reachable world, the teams
of the decision are stored as they were decided, those that were to go are gone, and all other teams
are as before; no member has changed but for the status that the command is about; and the answer
shows the team of the decision, unless it tells of a delivery that failed. -/
theorem stored_as_decided (hw : v.Reachable w) (c : Command)
    (hbirths : v.DistinctBirths (v.setting.run c.answer w).2.born)
    (hcommit : committedOf (v.setting.transcript c.answer w) ≠ []) :
    ∃ d, c.decision v w = some d ∧
      d.Stored w.storage (v.setting.run c.answer w).2.storage ∧
      (∀ id, (v.setting.run c.answer w).2.storage.members.find? id =
        (w.storage.members.find? id).map (c.restated id)) ∧
      (((v.setting.run c.answer w).1.isFailure = false ∧
          (v.setting.run c.answer w).1.team? =
            (d.composition?.map Composition.team).map TeamView.ofTeam) ∨
        ∃ message, (v.setting.run c.answer w).1 = .failure message true) := by
  rw [Command.transcript_answer] at hcommit
  rw [Command.run_answer] at hbirths ⊢
  have hborn := v.setting.born_le c.perform w
  have hsound := hw.sound (hbirths.mono hborn)
  cases Command.course v c w with
  | refused x after ends notDelivery teams members transport attempts commits =>
      exact absurd commits hcommit
  | saved u ready s prepared answers storage written ends attempts commits =>
      rw [ends] at hbirths ⊢
      have hready : v.DistinctBirths ready.born := hbirths
      obtain ⟨changes, hchanges⟩ : ∃ changes, u.write = .commit changes := by
        rw [commits] at hcommit
        cases hwrite : u.write with
        | commit changes => exact ⟨changes, rfl⟩
        | save m =>
            rw [hwrite] at hcommit
            exact absurd rfl hcommit
        | form t =>
            rw [hwrite] at hcommit
            exact absurd rfl hcommit
      obtain ⟨d, hprepared⟩ := Command.prepared_of_commit hsound hready prepared hchanges
      obtain ⟨newcomer, edits, hplanned, hproduces⟩ := hprepared.planned
      rw [hchanges] at written
      have hcarried := hplanned.carriedOut (hproduces s written)
      have hkeyed := (hplanned.sound hsound.store hcarried).keyed
      refine ⟨d, hprepared.decided, hcarried.stored hkeyed hplanned.rests.emptied,
        hcarried.members, ?_⟩
      have hteam : d.team? = d.composition?.map Composition.team := by
        cases d <;> rfl
      cases htold : (v.setting.tell u.events w.transport).1 with
      | error x => exact .inr ⟨_, rfl⟩
      | ok done =>
          refine .inl ⟨answers, ?_⟩
          rw [← hteam]
          exact hprepared.shown

/-- A fifth member joins the full team, which splits. -/
theorem stored_as_decided_full :
    ∃ d, (Command.reassignMember (.ofRandom 4)).decision counting full = some d ∧
      (d.composition?.any Composition.isSplit) = true ∧
      d.Stored full.storage
        (counting.setting.run (Command.reassignMember (.ofRandom 4)).answer full).2.storage := by
  obtain ⟨d, hd, hstored, -⟩ := stored_as_decided reachable_full
    (.reassignMember (.ofRandom 4)) (by decide +kernel) (by decide +kernel)
  have hsplit : ((Command.reassignMember (.ofRandom 4)).decision counting full).any
      (fun d => d.composition?.any Composition.isSplit) = true := by
    decide +kernel
  rw [hd] at hsplit
  exact ⟨d, hd, hsplit, hstored⟩

end Surroundings

end TeamRoster
