import TeamRoster.Notice.Event
import TeamRoster.Proofs.Failing
import TeamRoster.Workflow.Plan

/-!
# Times do not matter

A storage may keep times less exactly than another one, so the members and teams that the two read
may differ in the times of their creation. `timeless` takes these out. Every rule of placement
commutes with it, one lemma for each: what it decides of timeless teams is the timeless form of what
it decides of the teams themselves. Only a team that is founded has its own time stored, so this is
kept (`Team.dated`).
-/

namespace TeamRoster

/-- A member without the time of registration. -/
def Member.timeless (m : Member) : Member :=
  { m with createdAt := .ofSeconds 0 }

namespace Member

@[simp] theorem timeless_id (m : Member) : m.timeless.id = m.id := rfl

@[simp] theorem timeless_status (m : Member) : m.timeless.status = m.status := rfl

@[simp] theorem canJoin_timeless (m : Member) : m.timeless.canJoin = m.canJoin := rfl

theorem transition_timeless (m : Member) (target : Status) :
    m.timeless.transition target = (m.transition target).map timeless := by
  by_cases hallowed : m.status.canBecome target = true
  · simp [transition, hallowed, timeless, Except.map]
  · simp [transition, hallowed, Except.map]

end Member

namespace Team

/-- A team without times. -/
def timeless (t : Team) : Team :=
  { t with members := t.members.map Member.timeless, createdAt := .ofSeconds 0 }

/-- A team whose members are without times. -/
def dated (t : Team) : Team :=
  { t with members := t.members.map Member.timeless }

@[simp] theorem timeless_id (t : Team) : t.timeless.id = t.id := rfl

@[simp] theorem timeless_members (t : Team) :
    t.timeless.members = t.members.map Member.timeless := rfl

@[simp] theorem timeless_name (t : Team) : t.timeless.name = t.name := rfl

@[simp] theorem size_timeless (t : Team) : t.timeless.size = t.size := by
  simp [size]

@[simp] theorem isEmpty_timeless (t : Team) : t.timeless.isEmpty = t.isEmpty := by
  simp [isEmpty]

@[simp] theorem acceptsMember_timeless (t : Team) : t.timeless.acceptsMember = t.acceptsMember := by
  simp [acceptsMember]

@[simp] theorem needsMonitoring_timeless (t : Team) :
    t.timeless.needsMonitoring = t.needsMonitoring := by
  simp [needsMonitoring]

@[simp] theorem needsSplitting_timeless (t : Team) :
    t.timeless.needsSplitting = t.needsSplitting := by
  simp [needsSplitting]

@[simp] theorem memberIds_timeless (t : Team) : t.timeless.memberIds = t.memberIds := by
  simp [memberIds]

@[simp] theorem contains_timeless (t : Team) (id : Ident) :
    t.timeless.contains id = t.contains id := by
  simp [contains, Function.comp_def]

@[simp] theorem firstProblem?_timeless (seen : List Ident) (ms : List Member) :
    firstProblem? seen (ms.map Member.timeless) = firstProblem? seen ms := by
  induction ms generalizing seen with
  | nil => rfl
  | cons m ms ih => simp [firstProblem?, ih]

/-- A draft without times. -/
def Draft.timeless (d : Draft) : Draft where
  name := d.name
  members := d.members.map Member.timeless
  two_le := by simpa using d.two_le
  le_four := by simpa using d.le_four
  joinable := by simpa using d.joinable

theorem Draft.ofMembers_timeless (name : TeamName) (ms : List Member) :
    ofMembers name (ms.map Member.timeless) = (ofMembers name ms).map timeless := by
  unfold ofMembers
  simp only [List.length_map]
  by_cases hsize : 2 ≤ ms.length ∧ ms.length ≤ 4
  · simp only [dif_pos hsize]
    split
    · split
      · rfl
      · rename_i hnone _ hsome
        rw [firstProblem?_timeless, hsome] at hnone
        cases hnone
    · split
      · rename_i _ hsome hnone
        rw [firstProblem?_timeless, hnone] at hsome
        cases hsome
      · rename_i _ hproblem _ hsame
        rw [firstProblem?_timeless, hsame] at hproblem
        cases hproblem
        rfl
  · simp only [dif_neg hsize, Except.map]

theorem Draft.form_timeless (d : Draft) (birth : Birth) :
    d.timeless.form birth = (d.form birth).dated := rfl

@[simp] theorem checkJoin_timeless (t : Team) (m : Member) :
    t.timeless.checkJoin m.timeless = t.checkJoin m := by
  simp [checkJoin]

theorem add_timeless (t : Team) (m : Member) :
    t.timeless.add m.timeless = (t.add m).map timeless := by
  simp only [add, checkJoin_timeless]
  cases t.checkJoin m with
  | error e => rfl
  | ok done => simp [timeless, Except.map]

theorem eraseP_timeless (ms : List Member) (id : Ident) :
    (ms.map Member.timeless).eraseP (fun m => m.id == id) =
      (ms.eraseP fun m => m.id == id).map Member.timeless := by
  rw [List.eraseP_map]
  rfl

theorem remove_timeless (t : Team) (id : Ident) :
    t.timeless.remove id = (t.remove id).map (Prod.map Member.timeless timeless) := by
  have hfind : (t.members.map Member.timeless).find? (fun m => m.id == id) =
      (t.members.find? fun m => m.id == id).map Member.timeless := by
    rw [List.find?_map]
    rfl
  simp only [remove, timeless_members, hfind, eraseP_timeless]
  cases t.members.find? fun m => m.id == id <;> rfl

theorem split_timeless (t : Team) :
    t.timeless.split = t.split.map (Option.map (Prod.map timeless Draft.timeless)) := by
  simp only [split, needsSplitting_timeless, size_timeless, timeless_name, timeless_members,
    ← List.map_drop, ← List.map_take, Draft.ofMembers_timeless]
  split
  · cases t.name.split with
    | error e => rfl
    | ok name =>
        simp only [Failing.ok_bind]
        cases Draft.ofMembers name (t.members.drop (t.size / 2)) with
        | error e => rfl
        | ok draft => rfl
  · rfl

/-- Two teams without times. -/
def Absorbed.timeless (a : Absorbed) : Absorbed :=
  ⟨a.destination.timeless, a.source.timeless, a.moved.map Member.timeless⟩

theorem absorb_timeless (destination source : Team) :
    destination.timeless.absorb source.timeless =
      (destination.absorb source).map Absorbed.timeless := by
  have hcheck : (source.members.map Member.timeless).forM destination.timeless.checkJoin =
      source.members.forM destination.checkJoin := by
    simp [List.forM_eq_forM, List.forM_map]
  simp only [absorb, timeless_members, hcheck]
  cases source.members.forM destination.checkJoin with
  | error e => rfl
  | ok done => simp [Absorbed.timeless, timeless, Except.map]

end Team

namespace Intake

/-- An intake without times. -/
def timeless : Intake → Intake
  | fits team => .fits team.timeless
  | overflows kept draft => .overflows kept.timeless draft.timeless

end Intake

/-- A composition without times, but for that of a team that split off. -/
def Composition.timeless : Composition → Composition
  | unchanged team => .unchanged team.timeless
  | split kept new moved => .split kept.timeless new.dated (moved.map Member.timeless)
  | merge destination dissolved moved =>
    .merge destination.timeless dissolved.timeless (moved.map Member.timeless)

/-- An outcome without times. -/
def Outcome.timeless : Outcome → Outcome
  | unchanged => .unchanged
  | merged => .merged
  | stranded member => .stranded member.timeless
  | emptied => .emptied

/-- A redistribution without times. -/
def Redistribution.timeless (r : Redistribution) : Redistribution :=
  ⟨r.composition.timeless, r.removed.timeless, r.monitoring, r.outcome.timeless⟩

/-- An event without times, but for that of a team that split off. -/
def Event.timeless : Event → Event
  | teamSplit kept new trigger => .teamSplit kept.timeless new.dated trigger.timeless
  | teamMerge destination moved => .teamMerge destination.timeless moved.timeless
  | teamMonitoring team removed => .teamMonitoring team.timeless removed.timeless
  | mergeFailure team stranded => .mergeFailure team.timeless stranded.timeless

/-- An edit in which members are without times. A team that is created keeps its own. -/
def Edit.dated : Edit → Edit
  | createTeam t => .createTeam t.dated
  | e => e

/-- A change set in which members are without times. -/
def ChangeSet.dated (c : ChangeSet) : ChangeSet :=
  { c with edits := c.edits.map Edit.dated }

section Placement

theorem Intake.compose_timeless (birth : Birth) (i : Intake) :
    i.timeless.compose birth = (i.compose birth).timeless := by
  cases i <;> rfl

theorem Team.intake_timeless (t : Team) (m : Member) :
    t.timeless.intake m.timeless = (t.intake m).map Intake.timeless := by
  simp only [intake, add_timeless]
  cases t.add m with
  | error e => rfl
  | ok grown =>
      simp only [Except.map, Failing.ok_bind, split_timeless]
      cases grown.split with
      | error e => rfl
      | ok halves => cases halves <;> rfl

theorem TieBreak.choose_map {α β : Type} (f : α → β) (as : List α) :
    choose (as.map f) = (choose as).map (Option.map f) := by
  cases as with
  | nil => rfl
  | cons a as =>
      simp only [choose, List.map_cons, TieBreak.map, List.length_map]
      congr 1
      funext answer
      rw [← List.map_cons, List.getElem?_map]

theorem filter_timeless {p : Team → Bool} (hp : ∀ t, p t.timeless = p t) (teams : List Team) :
    (teams.map Team.timeless).filter p = (teams.filter p).map Team.timeless := by
  rw [List.filter_map]
  congr 2
  funext t
  exact hp t

theorem smallest_timeless (teams : List Team) :
    smallest (teams.map Team.timeless) = (smallest teams).map Team.timeless := by
  have hsizes : (teams.map Team.timeless).map Team.size = teams.map Team.size := by
    simp
  simp only [smallest, hsizes]
  cases (teams.map Team.size).min? with
  | none => rfl
  | some least => exact filter_timeless (fun t => by rw [Team.size_timeless]) teams

theorem pickSmallest_timeless (teams : List Team) :
    pickSmallest (teams.map Team.timeless) =
      (pickSmallest teams).map (Option.map Team.timeless) := by
  rw [pickSmallest, smallest_timeless, TieBreak.choose_map]
  rfl

theorem assignable_timeless (roster : List Team) :
    assignable (roster.map Team.timeless) = (assignable roster).map Team.timeless := by
  have hroom := filter_timeless Team.acceptsMember_timeless roster
  have hfilled := filter_timeless (p := fun t => !t.isEmpty) (fun t => by simp) roster
  simp only [assignable, hroom, hfilled, List.isEmpty_map]
  split <;> rfl

theorem TieBreak.map_map {α β γ : Type} (f : α → β) (g : β → γ) (tie : TieBreak α) :
    (tie.map f).map g = tie.map (g ∘ f) := by
  cases tie <;> rfl

theorem assign_timeless (m : Member) (roster : List Team) :
    assign m.timeless (roster.map Team.timeless) =
      (assign m roster).map (Except.map Intake.timeless) := by
  rw [assign, assignable_timeless, pickSmallest_timeless, assign, TieBreak.map_map,
    TieBreak.map_map]
  congr 1
  funext found
  cases found with
  | none => rfl
  | some t => exact t.intake_timeless m

theorem otherHomes_timeless (team : Team) (roster : List Team) :
    otherHomes team.timeless (roster.map Team.timeless) =
      (otherHomes team roster).map Team.timeless :=
  filter_timeless (fun t => by simp) roster

theorem rehome_timeless (shrunken : Team) (removed last : Member) (home : Option Team) :
    rehome shrunken.timeless removed.timeless last.timeless (home.map Team.timeless) =
      (rehome shrunken removed last home).map Redistribution.timeless := by
  cases home with
  | none =>
      simp only [rehome, Option.map_none, Team.needsMonitoring_timeless]
      rfl
  | some destination =>
      simp only [rehome, Option.map_some, Team.absorb_timeless, Team.needsMonitoring_timeless]
      cases destination.absorb shrunken with
      | error e => rfl
      | ok after => cases shrunken.needsMonitoring <;> rfl

theorem redistribute_timeless (team : Team) (member : Ident) (roster : List Team) :
    redistribute team.timeless member (roster.map Team.timeless) =
      (redistribute team member roster).map (Except.map Redistribution.timeless) := by
  simp only [redistribute, Team.remove_timeless]
  cases team.remove member with
  | error e => rfl
  | ok parts =>
      obtain ⟨removed, shrunken⟩ := parts
      simp only [Except.map, Prod.map, Team.timeless_members]
      cases hleft : shrunken.members with
      | nil => rfl
      | cons last rest =>
          cases rest with
          | nil =>
              simp only [List.map_cons, List.map_nil, otherHomes_timeless, pickSmallest_timeless,
                TieBreak.map_map]
              congr 1
              funext home
              exact rehome_timeless shrunken removed last home
          | cons next rest =>
              simp only [List.map_cons, Team.needsMonitoring_timeless]
              cases shrunken.needsMonitoring <;> rfl

end Placement

section Plans

namespace Event

theorem describe_timeless (m : Member) : describe m.timeless = describe m := rfl

theorem rosterLines_timeless (t : Team) : rosterLines t.timeless = rosterLines t := by
  simp only [rosterLines, Team.timeless_members, List.map_map]
  rfl

theorem rosterLines_dated (t : Team) : rosterLines t.dated = rosterLines t :=
  rosterLines_timeless t

/-- Mentors are not told of times. -/
@[simp] theorem notification_timeless (e : Event) : e.timeless.notification = e.notification := by
  cases e with
  | teamSplit kept new trigger =>
      have hsize : new.dated.size = new.size := new.size_timeless
      simp [notification, body, lines, teams, subject, headline, timeless, kind, team, member,
        rosterLines_timeless, rosterLines_dated, describe_timeless, hsize]
      simp [label]
  | teamMerge destination moved =>
      simp [notification, body, lines, teams, subject, headline, timeless, kind, team, member,
        rosterLines_timeless, describe_timeless]
      simp [label, Member.timeless]
  | teamMonitoring team removed =>
      simp [notification, body, lines, teams, subject, headline, timeless, kind, Event.team, member,
        rosterLines_timeless, describe_timeless]
      simp [label]
  | mergeFailure team stranded =>
      simp [notification, body, lines, teams, subject, headline, timeless, kind, Event.team, member,
        rosterLines_timeless, describe_timeless]
      simp [label]

end Event

namespace Composition

theorem team_timeless (c : Composition) : c.timeless.team = c.team.timeless := by
  cases c <;> rfl

theorem edits_timeless (c : Composition) (persisted : List Ident) (member : Ident) :
    c.timeless.edits persisted member = (c.edits persisted member).map Edit.dated := by
  cases c with
  | unchanged team => rfl
  | merge destination dissolved moved => rfl
  | split kept new moved =>
      simp only [timeless, edits, Team.contains_timeless, Team.timeless_id, List.map_cons,
        List.map_append, List.map_map]
      split <;> rfl

theorem events_timeless (c : Composition) (m : Member) :
    c.timeless.events m.timeless = (c.events m).map Event.timeless := by
  cases c <;> rfl

end Composition

namespace Redistribution

theorem isEmptied_timeless (r : Redistribution) : r.timeless.isEmptied = r.isEmptied := by
  obtain ⟨composition, removed, monitoring, outcome⟩ := r
  cases outcome <;> rfl

theorem edits_timeless (r : Redistribution) (team member : Ident) :
    r.timeless.edits team member = (r.edits team member).map Edit.dated := by
  have hemptied := r.isEmptied_timeless
  obtain ⟨composition, removed, monitoring, outcome⟩ := r
  cases composition with
  | merge destination dissolved moved =>
      simp [edits, timeless, Composition.timeless, Edit.dated, Function.comp_def]
  | unchanged t | split kept new moved =>
      simp only [edits, hemptied]
      simp only [timeless, Composition.timeless]
      split <;> rfl

theorem stranded?_timeless (r : Redistribution) :
    r.timeless.stranded? = r.stranded?.map Member.timeless := by
  obtain ⟨composition, removed, monitoring, outcome⟩ := r
  cases outcome <;> rfl

theorem events_timeless (r : Redistribution) : r.timeless.events = r.events.map Event.timeless := by
  simp only [events, isEmptied_timeless, stranded?_timeless]
  by_cases hemptied : r.isEmptied = true
  · simp [hemptied]
  · simp only [if_neg hemptied, List.map_append]
    congr 1
    · obtain ⟨composition, removed, monitoring, outcome⟩ := r
      cases composition with
      | merge destination dissolved moved =>
          simp only [timeless, Composition.timeless, Composition.dissolved?, Composition.moved,
            Composition.team, List.map_map]
          rfl
      | unchanged t | split kept new moved => cases monitoring <;> rfl
    · have hteam : r.timeless.composition.team = r.composition.team.timeless :=
        r.composition.team_timeless
      cases r.stranded? with
      | none => rfl
      | some m => simp [hteam, Event.timeless]

end Redistribution

end Plans

end TeamRoster
