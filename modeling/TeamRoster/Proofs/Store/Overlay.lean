import TeamRoster.Proofs.Store.Serial

/-!
# A staging as an overlay

Staging edits beside a store and carrying them out at once go together: after each edit the staging
reads as the store does on which the edits were carried out, and where one of the two fails, the
other one fails in the same way.
-/

namespace TeamRoster

/-- The member of this id as a list of staged statuses, the latest first, leaves it. -/
def Staging.restate (statuses : List (Ident × Status)) (id : Ident) (m : Member) : Member :=
  match statuses.find? fun e => e.1 == id with
  | some e => { m with status := e.2 }
  | none => m

theorem Staging.restate_cons (e : Ident × Status) (statuses : List (Ident × Status)) (id : Ident)
    (m : Member) :
    restate (e :: statuses) id m =
      if id = e.1 then { m with status := e.2 } else restate statuses id m := by
  by_cases h : id = e.1
  · simp [restate, h]
  · simp [restate, h, Ne.symm h]

/-- Nothing but the status of a member is staged. -/
theorem Staging.restate_with_status (statuses : List (Ident × Status)) (id : Ident) (m : Member)
    (status : Status) : { restate statuses id m with status } = { m with status } := by
  unfold restate
  split <;> rfl

namespace Store

open Failing

/-- The staging `g` beside the store `s` reads as the store `d` does. -/
structure Overlay (s : Store) (g : Staging) (d : Store) : Prop where
  records (id : Ident) : s.staged? g id = d.teams.find? id
  members (id : Ident) :
    d.members.find? id = (s.members.find? id).map (Staging.restate g.statuses id)
  /-- Statuses are staged for stored members only. -/
  known (e : Ident × Status) : e ∈ g.statuses → s.members.contains e.1 = true
  place : g.nextPlace = d.nextPlace

namespace Overlay

variable {s d : Store} {g k : Staging}

/-- A store overlaid by nothing. -/
theorem refl (s : Store) : Overlay s s.stage s where
  records id := rfl
  members id := by
    have hid : Staging.restate s.stage.statuses id = fun m => m := rfl
    rw [hid, Option.map_id']
  known e he := by simp [stage] at he
  place := rfl

theorem contains_eq (h : Overlay s g d) : d.members.contains = s.members.contains := by
  funext id
  simp [Directory.contains, h.members id]

theorem nameTaken_eq (h : Overlay s g d) (id : Ident) (name : TeamName) :
    s.nameTaken g id name = d.nameTaken d.stage id name := by
  rw [Bool.eq_iff_iff, nameTaken_iff, nameTaken_iff]
  simp only [h.records, staged?_stage]

/-- A write staged here and published there keeps the overlay, if it reads the same in both. -/
theorem publish (h : Overlay s g d) {written : Staging}
    (hrecords : ∀ id, s.staged? written id = d.staged? k id)
    (hstatuses : written.statuses = g.statuses) (hplace : written.nextPlace = k.nextPlace) :
    Overlay s written (d.publish k) where
  records id := by rw [hrecords, find?_publish]
  members id := by rw [hstatuses]; exact h.members id
  known e he := h.known e (hstatuses ▸ he)
  place := hplace

/-- A record written here and published there keeps the overlay. -/
theorem write (h : Overlay s g d) (team : Ident) (record : Option TeamRecord) :
    Overlay s (g.write team record) (d.publish (d.stage.write team record)) := by
  refine h.publish ?_ rfl h.place
  intro id
  rw [staged?_write, staged?_write, staged?_stage, h.records]

/-- A team entered here and published there keeps the overlay. -/
theorem enter (h : Overlay s g d) (t : Team) :
    Overlay s (s.enter g t) (d.publish (d.enter d.stage t)) := by
  apply h.publish
  · intro id
    rw [staged?_enter, staged?_enter, staged?_stage, staged?_stage, h.records, h.records]
    have hplace : g.nextPlace = d.stage.nextPlace := h.place
    rw [hplace]
  · exact s.enter_statuses g t
  · rw [enter_nextPlace, enter_nextPlace, staged?_stage, h.records]
    exact congrArg (fun n => if (d.teams.find? t.id).isSome then n else n + 1) h.place

theorem stageCreate (h : Overlay s g d) (t : Team) :
    Parallel (Overlay s) (s.stageCreate g t) (d.single fun k => d.stageCreate k t) := by
  simp only [single, stageCreate_eq, h.nameTaken_eq, h.contains_eq]
  by_cases hname : d.nameTaken d.stage t.id t.name
  · simpa [hname] using Parallel.error _
  · cases hm : t.memberIds.find? fun id => !s.members.contains id with
    | some id => simpa [hname] using Parallel.error _
    | none => simpa [hname] using Parallel.ok (h.enter t)

theorem stageDelete (h : Overlay s g d) (team : Ident) :
    Parallel (Overlay s) (s.stageDelete g team) (d.single fun k => d.stageDelete k team) := by
  simp only [single, stageDelete_eq, h.records, staged?_stage]
  cases d.teams.find? team with
  | none => exact Parallel.error _
  | some r => exact Parallel.ok (h.write team none)

theorem stageAdd (h : Overlay s g d) (team member : Ident) :
    Parallel (Overlay s) (s.stageAdd g team member)
      (d.single fun k => d.stageAdd k team member) := by
  simp only [single, stageAdd_eq, h.records, staged?_stage, h.contains_eq]
  by_cases hm : s.members.contains member
  · cases d.teams.find? team with
    | none => simpa [hm] using Parallel.error _
    | some r => simpa [hm] using Parallel.ok (h.write team (some (r.join member)))
  · simpa [hm] using Parallel.error _

theorem stageRemove (h : Overlay s g d) (team member : Ident) :
    Parallel (Overlay s) (s.stageRemove g team member)
      (d.single fun k => d.stageRemove k team member) := by
  simp only [single, stageRemove_eq, h.records, staged?_stage]
  cases d.teams.find? team with
  | none => exact Parallel.error _
  | some r =>
      by_cases hm : member ∈ r.memberIds
      · simpa [hm] using Parallel.ok (h.write team (some (r.leave member)))
      · simpa [hm] using Parallel.error _

/-- A status read while staging is the status of the member there. -/
theorem stagedStatus?_eq (h : Overlay s g d) (id : Ident) :
    s.stagedStatus? g id = (d.members.find? id).map Member.status := by
  rw [h.members]
  cases he : g.statuses.find? fun e => e.1 == id with
  | none => simp [stagedStatus?, he, Staging.restate, Function.comp_def]
  | some e =>
      have hid : e.1 = id := by simpa using List.find?_some he
      have hknown := h.known e (List.mem_of_find?_eq_some he)
      rw [hid] at hknown
      obtain ⟨m, hm⟩ := Directory.contains_iff.1 hknown
      simp [stagedStatus?, he, hm, Staging.restate]

theorem stageStatus (h : Overlay s g d) (member : Ident) (before after : Status) :
    Parallel (Overlay s) (s.stageStatus g member before after)
      (d.exchangeStatus member before after) := by
  simp only [Store.stageStatus, h.stagedStatus?_eq, exchangeStatus]
  cases hm : d.members.find? member with
  | none => exact Parallel.error _
  | some m =>
      by_cases hbefore : m.status = before
      · simp only [Option.map_some, hbefore, if_true, setStatus, hm]
        have hold : (s.members.find? member).map (Staging.restate g.statuses member) = some m :=
          (h.members member).symm.trans hm
        obtain ⟨m₀, hm₀, hrestate⟩ := Option.map_eq_some_iff.1 hold
        refine Parallel.ok ⟨h.records, ?_, ?_, h.place⟩
        · intro id
          by_cases hid : id = member
          · simp [hid, hm₀, Staging.restate_cons, ← hrestate, Staging.restate_with_status]
          · have hrest : Staging.restate ((member, after) :: g.statuses) id =
                Staging.restate g.statuses id := by
              funext x
              simp [Staging.restate_cons, hid]
            simp [hid, h.members, hrest]
        · intro e he
          rcases List.mem_cons.1 he with rfl | he
          · exact Directory.contains_iff.2 ⟨m₀, hm₀⟩
          · exact h.known e he
      · simpa [hbefore] using Parallel.error _

/-- One edit, staged here and carried out there. -/
theorem stageEdit (h : Overlay s g d) (e : Edit) :
    Parallel (Overlay s) (s.stageEdit g e) (d.apply e) := by
  cases e with
  | createTeam t => exact h.stageCreate t
  | deleteTeam team => exact h.stageDelete team
  | addMember team member => exact h.stageAdd team member
  | removeMember team member => exact h.stageRemove team member
  | setStatus member before after => exact h.stageStatus member before after

end Overlay

/-- All edits, staged here and carried out one after the other there: either both go through and the
staging is left reading as the store is, or both stop with the same failure. -/
theorem stageAll_applyAll {s d : Store} {g : Staging} (h : Overlay s g d) (es : List Edit) :
    (∃ k after, s.stageAll g es = (.ok (), k) ∧ d.applyAll es = .ok after ∧ Overlay s k after) ∨
      ∃ failure k, s.stageAll g es = (.error failure, k) ∧ d.applyAll es = .error failure := by
  induction es generalizing g d with
  | nil => exact .inl ⟨g, d, rfl, rfl, h⟩
  | cons e es ih =>
      have hstep := h.stageEdit e
      cases hg : s.stageEdit g e with
      | error failure =>
          rw [hg] at hstep
          generalize hd : d.apply e = direct at hstep
          cases hstep
          exact .inr ⟨failure, g, by simp [stageAll, hg], by simp [hd]⟩
      | ok k =>
          rw [hg] at hstep
          generalize hd : d.apply e = direct at hstep
          cases hstep with
          | ok related => simpa [stageAll, hg, hd] using ih related

end Store

end TeamRoster
