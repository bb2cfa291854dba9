import TeamRoster.Proofs.Failing
import TeamRoster.Team.Mutation

/-!
# Steps carried out in place

What a step of a family leaves when it is carried out in place, with one check and one write after the
other. Main statements: `Family.on_split` and `Family.on_absorb`. Both come to the same as working the
step out first and replacing the family then, so that a step which is refused has written nothing, and
`Family.perform_eq` says so of all steps.
-/

namespace TeamRoster

namespace Mutation

variable {α β : Type} (f : Family)

@[simp] theorem on_pure (a : α) : (pure a : Mutation α).on f = (.ok a, f) := rfl

@[simp] theorem on_write (n : Nat) (t : Team) : (write n t).on f = (.ok (), f.put n t) := rfl

@[simp] theorem on_check (r : Except RuleError α) : (check r).on f = (r, f) := by
  cases r <;> rfl

/-- What follows a change starts from the family as that leaves it, if it was not refused. -/
theorem on_bind (change : Mutation α) (next : α → Mutation β) :
    (change >>= next).on f =
      match change.on f with
      | (.ok a, g) => (next a).on g
      | (.error e, g) => (.error e, g) := by
  change (ExceptT.run change >>= ExceptT.bindCont next).run f = _
  rw [StateT.run_bind]
  change (ExceptT.bindCont next (change.on f).1).run (change.on f).2 = _
  cases change.on f with
  | mk r g => cases r <;> rfl

/-- What follows a check starts from the family as it is. -/
theorem on_check_bind (r : Except RuleError α) (next : α → Mutation β) :
    (check r >>= next).on f =
      match r with
      | .ok a => (next a).on f
      | .error e => (.error e, f) := by
  rw [on_bind, on_check]
  cases r <;> rfl

theorem on_write_bind (n : Nat) (t : Team) (next : Unit → Mutation β) :
    (write n t >>= next).on f = (next ()).on (f.put n t) := by
  rw [on_bind, on_write]

/-- Checks that are made one after the other write nothing. -/
theorem on_forM_check (rule : Member → Except RuleError Unit) (ms : List Member) :
    (ms.forM fun m => check (rule m)).on f = (ms.forM rule, f) := by
  induction ms with
  | nil => rfl
  | cons m ms ih =>
      change (check (rule m) >>= fun _ => ms.forM fun m => check (rule m)).on f =
        (rule m >>= fun _ => ms.forM rule, f)
      rw [on_check_bind]
      cases rule m with
      | error e => rfl
      | ok done => exact ih

end Mutation

namespace Family

variable {f g : Family} {effect : Effect} {n k : Nat}

/-- What a computation gives, and the family after it: that from which it started, if it fails. -/
def outcome (f : Family) : Except RuleError (Effect × Family) → Except RuleError Effect × Family
  | .ok (effect, g) => (.ok effect, g)
  | .error e => (.error e, f)

theorem outcome_eq_ok {r : Except RuleError (Effect × Family)} :
    f.outcome r = (.ok effect, g) ↔ r = .ok (effect, g) := by
  cases r with
  | ok done => simp [outcome, Prod.ext_iff]
  | error e => simp [outcome]

theorem outcome_eq_error {r : Except RuleError (Effect × Family)} {e : RuleError}
    (h : f.outcome r = (.error e, g)) : g = f := by
  cases r with
  | ok done => simp [outcome] at h
  | error e => exact (Prod.mk.inj h).2.symm

/-- Two teams that are overwritten may be overwritten in either order. -/
theorem put_comm (hne : n ≠ k) (f : Family) (t u : Team) :
    (f.put n t).put k u = (f.put k u).put n t :=
  congrArg Family.mk (List.set_comm t u hne)

theorem on_add (f : Family) (n : Nat) (t : Team) (m : Member) :
    (Mutation.add n t m).on f = f.outcome ((t.add m).map fun u => (.joined, f.put n u)) := by
  rw [Mutation.add, Mutation.on_check_bind, Team.add]
  cases t.checkJoin m <;> rfl

theorem on_remove (f : Family) (n : Nat) (t : Team) (id : Ident) :
    (Mutation.remove n t id).on f =
      f.outcome ((t.remove id).map fun taken => (.left taken.1, f.put n taken.2)) := by
  rw [Mutation.remove, Team.remove]
  cases t.members.find? fun m => m.id == id <;> rfl

/-- All that a split could be refused for is checked before anything is written. -/
theorem on_split (f : Family) (n : Nat) (t : Team) (birth : Birth) :
    (Mutation.split n t birth).on f = f.outcome (t.split.map fun parts =>
      match parts with
      | some (kept, draft) =>
        (.parted (some (draft.form birth)), (f.put n kept).push (draft.form birth))
      | none => (.parted none, f)) := by
  rw [Mutation.split, Team.split]
  split
  · rw [Mutation.on_check_bind]
    cases t.name.split with
    | error e => rfl
    | ok name =>
        simp only [Mutation.on_check_bind, Failing.ok_bind]
        cases Team.Draft.ofMembers name (t.members.drop (t.size / 2)) <;> rfl
  · rfl

/-- All members of the source are checked before the first of them moves. -/
theorem on_absorb (hne : n ≠ k) (f : Family) (destination source : Team) :
    (Mutation.absorb n k destination source).on f =
      f.outcome ((destination.absorb source).map fun after =>
        (.moved after.moved, (f.put n after.destination).put k after.source)) := by
  rw [Mutation.absorb, Mutation.on_bind, Mutation.on_forM_check, Team.absorb]
  cases source.members.forM destination.checkJoin with
  | error e => rfl
  | ok done =>
      simp only [Mutation.on_write_bind, Mutation.on_pure, ← put_comm hne]
      rfl

/-- A step that is carried out in place comes to the same as one that is worked out first and then
replaces the family. -/
theorem perform_eq (f : Family) (s : Step) : f.perform s = (f.step s).map f.outcome := by
  cases s with
  | add n m =>
      simp only [perform, step, on_add]
      cases f.team? n with
      | none => rfl
      | some t => cases h : t.add m <;> simp [h, Except.map]
  | remove n id =>
      simp only [perform, step, on_remove]
      cases f.team? n with
      | none => rfl
      | some t => cases h : t.remove id <;> simp [h, Except.map]
  | split n birth =>
      simp only [perform, step, on_split]
      cases f.team? n with
      | none => rfl
      | some t =>
          cases h : t.split with
          | error e => simp [h, Except.map]
          | ok parts => cases parts <;> simp [h, Except.map]
  | absorb n k =>
      simp only [perform, step]
      cases f.team? n with
      | none => rfl
      | some destination =>
          cases f.team? k with
          | none => rfl
          | some source =>
              by_cases hne : n = k
              · simp [hne]
              · simp only [Option.bind_eq_bind, Option.bind_some, if_neg hne, on_absorb hne]
                cases destination.absorb source <;> simp [Except.map]

end Family

end TeamRoster
