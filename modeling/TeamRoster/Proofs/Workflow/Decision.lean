import TeamRoster.Proofs.Roster.Rewriting
import TeamRoster.Proofs.Workflow.Planning

/-!
# Decisions of the rules

A `Decision` is what the rules of placement decide on what is stored, before anything is written: a
composition that a member joins, a redistribution that a member leaves, or that no team is concerned.
`Decision.Effects` says that edits do to a store what was decided; the edits of each plan do, on every
store where nobody is listed twice.
-/

namespace TeamRoster

open scoped List

/-- What the rules decide for a command. -/
inductive Decision where
  /-- A member joins a team. -/
  | joined (member : Ident) (composition : Composition)
  /-- A member leaves a team. -/
  | left (redistribution : Redistribution)
  /-- No team is concerned. -/
  | untouched

namespace Decision

/-- What the decision makes of the stored teams. -/
def rewrite : Decision → Rewrite
  | joined _ c => c.rewrite
  | left r => r.rewrite
  | untouched => ⟨[], [], []⟩

/-- The team to go on with, as it is returned. -/
def team? : Decision → Option Team
  | joined _ c => some c.team
  | left r => some r.composition.team
  | untouched => none

/-- How the decision changes the roll: by the one member and nobody else. -/
def Moves (before after : List Ident) : Decision → Prop
  | joined member _ => after ~ member :: before
  | left r => before ~ r.removed.id :: after
  | untouched => after ~ before

/-- The id of the member who joins. -/
def newcomer? : Decision → Option Ident
  | joined member _ => some member
  | left _ | untouched => none

theorem Moves.mem {d : Decision} {before after : List Ident} (h : d.Moves before after) {id : Ident}
    (hid : id ∈ after) : id ∈ before ∨ d.newcomer? = some id := by
  cases d with
  | joined member c =>
      rcases List.mem_cons.1 (h.mem_iff.1 hid) with rfl | hid
      · exact .inr rfl
      · exact .inl hid
  | left r => exact .inl (h.mem_iff.2 (List.mem_cons_of_mem _ hid))
  | untouched => exact .inl (h.mem_iff.1 hid)

/-- Where the newcomer was not listed, nobody is listed twice who was not before. -/
theorem Moves.nodup {d : Decision} {before after : List Ident} (h : d.Moves before after)
    (hbefore : before.Nodup) (hnew : ∀ id, d.newcomer? = some id → id ∉ before) : after.Nodup := by
  cases d with
  | joined member c => exact h.nodup_iff.2 (List.nodup_cons.2 ⟨hnew member rfl, hbefore⟩)
  | left r => exact (List.nodup_cons.1 (h.nodup_iff.1 hbefore)).2
  | untouched => exact h.nodup_iff.2 hbefore

/-- The edits carry the decision out: where they go through, the teams are as decided, the roll has
changed by the one member, and no member has changed. -/
def Effects (d : Decision) (s : Store) (edits : List Edit) : Prop :=
  ∀ after, s.applyAll edits = .ok after →
    s.Rewritten after d.rewrite ∧ after.members = s.members ∧ d.Moves s.roll after.roll

/-- The teams of the decision are made of stored ones: those with another list of members have the
names and times that are stored, and everybody in them is stored just so and listed, but for the
newcomer. A team that is emptied is the only one. -/
structure Rests (d : Decision) (s : Store) (newcomer : Option Member) : Prop where
  relisted (u : Team) : u ∈ d.rewrite.relisted → ∃ t, s.Holds t ∧ u = t.relist u.members
  members (u : Team) : u ∈ d.rewrite.relisted ++ d.rewrite.founded →
    ∀ x ∈ u.members, some x = newcomer ∨ s.members.find? x.id = some x ∧ x.id ∈ s.roll
  emptied (r : Redistribution) : d = .left r → r.isEmptied = true →
    ∃ t, r.composition = .unchanged t

/-- Where no team is concerned, no edits are needed. -/
theorem effects_untouched (s : Store) : untouched.Effects s [] := by
  intro after happly
  cases happly
  exact ⟨Store.rewritten_nothing fun _ => rfl, rfl, List.Perm.refl _⟩

theorem rests_untouched (s : Store) : untouched.Rests s none := by
  constructor
  · intro u hu
    cases hu
  · intro u hu
    cases hu
  · rintro r ⟨⟩

end Decision

theorem Store.Holds.listOf {s : Store} {t : Team} (h : s.Holds t) : s.listOf t.id = t.memberIds := by
  obtain ⟨⟨place, hplace⟩, -⟩ := h
  exact listOf_of_find? hplace

theorem Store.Holds.nodup {s : Store} {t : Team} (h : s.Holds t) (hs : s.roll.Nodup) :
    t.memberIds.Nodup := by
  obtain ⟨⟨place, hplace⟩, -⟩ := h
  exact roll_nodup_list hs hplace

/-- The members of a team that is held are stored as they are in it, and listed. -/
theorem Store.Holds.listed {s : Store} {t : Team} (h : s.Holds t) {m : Member}
    (hm : m ∈ t.members) : s.members.find? m.id = some m ∧ m.id ∈ s.roll := by
  obtain ⟨⟨place, hplace⟩, hmembers⟩ := h
  exact ⟨hmembers m hm, Store.mem_roll.2 ⟨t.id, _, hplace, Team.mem_memberIds_of_mem hm⟩⟩

namespace Arrival

variable {s : Store} {t : Team} {m : Member} {i : Intake} {birth : Birth}

/-- The edits of an addition to a stored team carry it out. -/
theorem effects (h : Arrival t m i) (hs : s.roll.Nodup) (ht : s.Holds t)
    (habsent : m.id ∉ t.memberIds)
    (hfresh : i.needsBirth = true → s.teams.find? birth.id = none) :
    (Decision.joined m.id (i.compose birth)).Effects s
      ((i.compose birth).edits t.memberIds m.id) := by
  intro after happly
  obtain ⟨hrewritten, hmembers⟩ :=
    h.rewritten habsent (ht.nodup hs) ht.listOf hfresh happly
  refine ⟨hrewritten, hmembers, h.roll ht.listOf ?_ hrewritten⟩
  intro hneeds
  refine ⟨hfresh hneeds, ?_⟩
  intro heq
  obtain ⟨place, hplace⟩ := ht.record
  rw [← heq, hfresh hneeds] at hplace
  cases hplace

/-- The teams of an addition to a stored team are made of it and of the newcomer. -/
theorem rests (h : Arrival t m i) (ht : s.Holds t) :
    (Decision.joined m.id (i.compose birth)).Rests s (some m) := by
  have hmembers (x : Member) (hx : x ∈ t.members ++ [m]) :
      some x = some m ∨ s.members.find? x.id = some x ∧ x.id ∈ s.roll := by
    rcases List.mem_append.1 hx with hx | hx
    · exact .inr (ht.listed hx)
    · exact .inl (congrArg some (List.mem_singleton.1 hx))
  cases h with
  | fits room =>
      refine ⟨?_, ?_, by rintro r ⟨⟩⟩
      · intro u hu
        have heq := List.mem_singleton.1 hu
        subst heq
        exact ⟨t, ht, rfl⟩
      · intro u hu x hx
        have heq := List.mem_singleton.1 hu
        subst heq
        exact hmembers x hx
  | overflows draft full members name =>
      refine ⟨?_, ?_, by rintro r ⟨⟩⟩
      · intro u hu
        have heq := List.mem_singleton.1 hu
        subst heq
        exact ⟨t, ht, rfl⟩
      · intro u hu x hx
        apply hmembers
        rcases List.mem_cons.1 hu with rfl | hu
        · exact List.mem_append_left _ (List.mem_of_mem_take hx)
        · have heq := List.mem_singleton.1 hu
          subst heq
          rw [Team.Draft.form_members, members] at hx
          rcases List.mem_append.1 hx with hx | hx
          · exact List.mem_append_left _ (List.mem_of_mem_drop hx)
          · exact List.mem_append_right _ hx

end Arrival

namespace Departure

variable {s : Store} {team shrunken : Team} {roster : List Team} {removed : Member}
  {r : Redistribution} {member : Ident}

theorem removed_eq {left : List Member} (h : Departure team roster removed left r) :
    r.removed = removed := by
  cases h <;> rfl

/-- Only a team that stays the only one is emptied. -/
theorem unchanged_of_isEmptied {left : List Member} (h : Departure team roster removed left r)
    (hr : r.isEmptied = true) : ∃ t, r.composition = .unchanged t := by
  cases h with
  | moved last home homes active absent => cases hr
  | emptied => exact ⟨_, rfl⟩
  | stranded last alone => exact ⟨_, rfl⟩
  | small two => exact ⟨_, rfl⟩
  | normal more => exact ⟨_, rfl⟩

/-- No team is new after a removal. -/
theorem founded_eq_nil {left : List Member} (h : Departure team roster removed left r) :
    (Decision.left r).rewrite.founded = [] := by
  cases h <;> rfl

/-- The edits of a removal from a stored team carry it out. -/
theorem effects (h : Departure team roster removed shrunken.members r)
    (hremove : team.remove member = .ok (removed, shrunken)) (ht : s.Holds team)
    (hroster : ∀ t ∈ roster, s.Holds t) :
    (Decision.left r).Effects s (r.edits team.id member) := by
  obtain ⟨hid, hmem, -, hleft, -⟩ := Team.remove_spec hremove
  have hlisted : member ∈ team.memberIds := hid ▸ Team.mem_memberIds_of_mem hmem
  have hhomes : ∀ home ∈ roster, s.listOf home.id = home.memberIds := by
    intro home hhome
    exact (hroster home hhome).listOf
  intro after happly
  obtain ⟨hrewritten, hmembers⟩ := h.rewritten ht.listOf hleft hhomes happly
  refine ⟨hrewritten, hmembers, ?_⟩
  change s.roll ~ r.removed.id :: after.roll
  rw [h.removed_eq, hid]
  exact h.roll hlisted ht.listOf hleft hhomes hrewritten

/-- The teams of a removal are made of stored ones. -/
theorem rests (h : Departure team roster removed shrunken.members r)
    (hremove : team.remove member = .ok (removed, shrunken)) (ht : s.Holds team)
    (hroster : ∀ t ∈ roster, s.Holds t) : (Decision.left r).Rests s none := by
  obtain ⟨-, -, -, -, hsub⟩ := Team.remove_spec hremove
  have hstored : ∀ x ∈ shrunken.members, s.members.find? x.id = some x ∧ x.id ∈ s.roll := by
    intro x hx
    exact ht.listed (hsub x hx)
  have hemptied (q : Redistribution) (hq : Decision.left r = .left q) (hempty : q.isEmptied = true) :
      ∃ t, q.composition = .unchanged t := by
    have heq := Decision.left.inj hq
    subst heq
    exact h.unchanged_of_isEmptied hempty
  have hstays (hr : (Decision.left r).rewrite = ⟨[team.relist shrunken.members], [], []⟩) :
      (Decision.left r).Rests s none := by
    refine ⟨?_, ?_, hemptied⟩
    · intro u hu
      rw [hr] at hu
      have heq := List.mem_singleton.1 hu
      subst heq
      exact ⟨team, ht, rfl⟩
    · intro u hu x hx
      rw [hr] at hu
      have heq := List.mem_singleton.1 hu
      subst heq
      exact .inr (hstored x hx)
  generalize hleft : shrunken.members = left at h hstored hstays
  cases h with
  | stranded last alone => exact hstays rfl
  | small two => exact hstays rfl
  | normal more => exact hstays rfl
  | emptied =>
      refine ⟨?_, ?_, hemptied⟩
      · intro u hu
        cases hu
      · intro u hu
        cases hu
  | moved last home homes active absent =>
      have hhome := hroster home (mem_otherHomes.1 homes).1
      refine ⟨?_, ?_, hemptied⟩
      · intro u hu
        have heq := List.mem_singleton.1 hu
        subst heq
        exact ⟨home, hhome, rfl⟩
      · intro u hu x hx
        have heq := List.mem_singleton.1 hu
        subst heq
        rcases List.mem_append.1 hx with hx | hx
        · exact .inr (hhome.listed hx)
        · exact .inr (hstored x hx)

end Departure

section Deciding

variable {τ : Type}

namespace Surroundings

/-- What the rules decide for an addition. -/
def decideAddition (v : Surroundings τ) (w : World Store τ) (team member : Ident) :
    Option Decision := do
  let t ← (w.storage.team team).toOption
  let m ← w.storage.members.find? member
  let i ← (t.intake m).toOption
  return .joined member (i.compose (v.births w.born))

/-- What the rules decide for an assignment. -/
def decideAssignment (v : Surroundings τ) (w : World Store τ) (m : Member) : Option Decision := do
  let roster ← w.storage.allTeams.toOption
  let i ← ((assign m roster).resolve (v.picks w.picked)).toOption
  return .joined m.id (i.compose (v.births w.born))

/-- What the rules decide for a removal. -/
def decideRemoval (v : Surroundings τ) (w : World Store τ) (team member : Ident) :
    Option Decision := do
  let t ← (w.storage.team team).toOption
  let roster ← w.storage.allTeams.toOption
  let r ← ((redistribute t member roster).resolve (v.picks w.picked)).toOption
  return .left r

end Surroundings

/-- What the rules decide for a command, on what is stored. -/
def Command.decision (v : Surroundings τ) (w : World Store τ) : Command → Option Decision
  | registerMember _ _ _ | createTeam _ _ => none
  | addMember team member => v.decideAddition w team member
  | removeMember team member => v.decideRemoval w team member
  | reassignMember member => do v.decideAssignment w (← w.storage.members.find? member)
  | changeStatus member target => do
    let m ← w.storage.members.find? member
    if m.status = .active then
      match ← (w.storage.teamOf member).toOption with
      | some t => v.decideRemoval w t.id member
      | none => return .untouched
    else if target = .active then v.decideAssignment w { m with status := target }
    else return .untouched

end Deciding

end TeamRoster
