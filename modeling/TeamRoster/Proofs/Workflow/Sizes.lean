import TeamRoster.Proofs.Workflow.Deeds

/-!
# How large teams are

Teams have one to four members, and a team of one is there only because mentors were told that its
last member has nowhere to go. Main statement: `team_sizes`. Both follow from what a rewriting of the
teams leaves, `Rewrite.Sized`: the teams that it puts into the store have the right size, and where
one of them has a single member, its events say so.
-/

namespace TeamRoster

variable {τ : Type}

/-- Every stored team has one to four members. -/
def Store.Bounded (s : Store) : Prop :=
  ∀ team r, s.teams.find? team = some r → 1 ≤ r.memberIds.length ∧ r.memberIds.length ≤ 4

/-- The event tells that this member is left alone in this team. -/
def Event.Strands (e : Event) (team member : Ident) : Prop :=
  e.notification.kind = .mergeFailure ∧ e.notification.team = team ∧ e.notification.member = member

/-- Of every stored team with a single member it was told that the member is left alone. -/
def Store.Reported (s : Store) (told : List Event) : Prop :=
  ∀ team member r, s.teams.find? team = some r → r.memberIds = [member] →
    ∃ e ∈ told, e.Strands team member

/-- The teams that have another list of members or are new have one to four members, and the events
tell of those that have a single one. -/
def Rewrite.Sized (x : Rewrite) (events : List Event) : Prop :=
  ∀ t ∈ x.relisted ++ x.founded, 1 ≤ t.size ∧ t.size ≤ 4 ∧
    ∀ last, t.members = [last] → .mergeFailure t last ∈ events

namespace Store

variable {s after : Store} {x : Rewrite} {told events : List Event}

theorem Bounded.size (h : s.Bounded) {t : Team} (ht : s.Holds t) : 1 ≤ t.size ∧ t.size ≤ 4 := by
  obtain ⟨place, hplace⟩ := ht.record
  simpa [Team.record] using h t.id _ hplace

/-- A rewriting to teams of the right size leaves all teams with the right size. -/
theorem Bounded.rewritten (h : s.Bounded) (hrewritten : s.Rewritten after x)
    (hsized : x.Sized events) : after.Bounded := by
  intro team r hr
  rcases hrewritten.find?_cases hr with hkept | ⟨t, ht, -, hids, -⟩ | ⟨t, ht, -, hids⟩
  · exact h team r hkept
  · obtain ⟨hone, hfour, -⟩ := hsized t (List.mem_append_left _ ht)
    rw [hids, Team.length_memberIds]
    exact ⟨hone, hfour⟩
  · obtain ⟨hone, hfour, -⟩ := hsized t (List.mem_append_right _ ht)
    rw [hids, Team.length_memberIds]
    exact ⟨hone, hfour⟩

/-- If the events of a rewriting are told as well, it was told of all teams with a single member. -/
theorem Reported.rewritten (h : s.Reported told) (hrewritten : s.Rewritten after x)
    (hsized : x.Sized events) : after.Reported (told ++ events) := by
  intro team member r hr hids
  have hnew (t : Team) (ht : t ∈ x.relisted ++ x.founded) (hteam : t.id = team)
      (hlist : r.memberIds = t.memberIds) : ∃ e ∈ told ++ events, e.Strands team member := by
    obtain ⟨last, hlast, hmember⟩ := List.map_eq_singleton_iff.1 (hlist.symm.trans hids)
    obtain ⟨-, -, hevents⟩ := hsized t ht
    exact ⟨_, List.mem_append_right _ (hevents last hlast), rfl, hteam, hmember⟩
  rcases hrewritten.find?_cases hr with hkept | ⟨t, ht, hteam, hlist, -⟩ | ⟨t, ht, hteam, hlist⟩
  · obtain ⟨e, he, hstrands⟩ := h team member r hkept hids
    exact ⟨e, List.mem_append_left _ he, hstrands⟩
  · exact hnew t (List.mem_append_left _ ht) hteam hlist
  · exact hnew t (List.mem_append_right _ ht) hteam hlist

theorem bounded_empty : empty.Bounded := by
  intro team r hr
  cases hr

theorem reported_empty : empty.Reported [] := by
  intro team member r hr
  cases hr

end Store

theorem Rewrite.sized_nothing (events : List Event) : Rewrite.Sized ⟨[], [], []⟩ events := by
  intro t ht
  cases ht

/-- A team of two to four members has the right size and needs no event. -/
theorem Rewrite.sized_of_two_le {x : Rewrite} {events : List Event}
    (h : ∀ t ∈ x.relisted ++ x.founded, 2 ≤ t.size ∧ t.size ≤ 4) : x.Sized events := by
  intro t ht
  obtain ⟨htwo, hfour⟩ := h t ht
  refine ⟨by omega, hfour, ?_⟩
  intro last hlast
  have hone : t.size = 1 := congrArg List.length hlast
  omega

/-- The same of a single team that has another list of members. -/
theorem Rewrite.sized_relisted {t : Team} {dropped : List Ident} {events : List Event}
    (h : 2 ≤ t.size ∧ t.size ≤ 4) : Rewrite.Sized ⟨[t], [], dropped⟩ events := by
  apply sized_of_two_le
  intro u hu
  have heq := List.mem_singleton.1 hu
  subst heq
  exact h

/-- Whoever joins a team of one to four members leaves teams of the right size. -/
theorem Arrival.sized {t : Team} {m : Member} {i : Intake} {birth : Birth} {events : List Event}
    (h : Arrival t m i) (hsize : 1 ≤ t.size ∧ t.size ≤ 4) :
    (i.compose birth).rewrite.Sized events := by
  have hlength : t.members.length = t.size := rfl
  cases h with
  | fits room =>
      have hgrown : (t.relist (t.members ++ [m])).size = t.size + 1 := by
        simp [Team.size]
      exact Rewrite.sized_relisted (by omega)
  | overflows draft full members name =>
      apply Rewrite.sized_of_two_le
      intro u hu
      rcases List.mem_cons.1 hu with rfl | hu
      · have hkept : (t.relist (t.members.take ((t.size + 1) / 2))).size = 2 := by
          simp only [Team.size, Team.relist_members, List.length_take]
          omega
        omega
      · have heq := List.mem_singleton.1 hu
        subst heq
        exact ⟨draft.two_le, draft.le_four⟩

/-- Whoever leaves a team of one to four members leaves teams of the right size, and the events tell
of a member who is left alone. -/
theorem Departure.sized {team : Team} {roster : List Team} {removed : Member} {left : List Member}
    {r : Redistribution} (h : Departure team roster removed left r) (hleft : left.length ≤ 3) :
    r.rewrite.Sized r.events := by
  cases h with
  | emptied =>
      intro u hu
      cases hu
  | stranded last alone =>
      intro u hu
      have heq := List.mem_singleton.1 hu
      subst heq
      have hsize : (team.relist [last]).size = 1 := rfl
      refine ⟨by omega, by omega, ?_⟩
      intro other hother
      have hlast : last = other := by simpa using hother
      subst hlast
      exact List.mem_append_right _ List.mem_cons_self
  | moved last home homes active absent =>
      obtain ⟨-, -, haccepts⟩ := mem_otherHomes.1 homes
      have hroom := Team.acceptsMember_iff.1 haccepts
      have hgrown : (home.relist (home.members ++ [last])).size = home.size + 1 := by
        simp [Team.size]
      exact Rewrite.sized_relisted (by omega)
  | small two =>
      have hsize : (team.relist left).size = left.length := rfl
      exact Rewrite.sized_relisted (by omega)
  | normal more =>
      have hsize : (team.relist left).size = left.length := rfl
      exact Rewrite.sized_relisted (by omega)

namespace Surroundings

variable {v : Surroundings τ} {w : World Store τ} {t : Team} {m : Member} {roster : List Team}
  {left : List Member} {r : Redistribution}

/-- One member fewer is left in a team than there were. -/
theorem Parting.size_left (h : Parting w t m roster left r) : left.length + 1 = t.size := by
  obtain ⟨-, hlisted, -, hids, -⟩ := Team.remove_spec h.removed
  have hlength := congrArg List.length hids
  rw [List.length_erase_of_mem (Team.mem_memberIds_of_mem hlisted), Team.length_memberIds,
    Team.length_memberIds] at hlength
  have hpos : 0 < t.size := List.length_pos_of_mem hlisted
  change left.length = t.size - 1 at hlength
  omega

end Surroundings

namespace Command

variable {v : Surroundings τ} {w : World Store τ} {c : Command} {s : Store} {events : List Event}

/-- Whatever a command can do, the teams are rewritten to teams of the right size. -/
theorem Deed.sized (h : c.Deed v w s events) (hbounded : w.storage.Bounded) :
    ∃ x, w.storage.Rewritten s x ∧ x.Sized events := by
  cases h with
  | registered name email m command fresh stored =>
      rw [stored]
      exact ⟨_, Store.rewritten_nothing fun _ => rfl, Rewrite.sized_nothing []⟩
  | formed name t command two four fresh different free applied =>
      refine ⟨_, Store.rewritten_created fresh applied, Rewrite.sized_of_two_le ?_⟩
      intro u hu
      have heq := List.mem_singleton.1 hu
      subst heq
      exact ⟨two, four⟩
  | joined t m i admits joining carried =>
      exact ⟨_, carried.teams, joining.arrival.sized (hbounded.size joining.held)⟩
  | left t m roster rest r releases parting carried =>
      have hsize := hbounded.size parting.held
      have hrest := parting.size_left
      exact ⟨_, carried.teams, parting.departure.sized (by omega)⟩
  | untouched m target command stored away absent carried =>
      exact ⟨_, carried.teams, Rewrite.sized_nothing _⟩

end Command

namespace Surroundings

variable {v : Surroundings τ} {w : World Store τ} {told : List Event}

/-- What is asked and answered in the course of commands, one after the other. -/
def chronicle (v : Surroundings τ) :
    List Command → World Store τ → List (Dialogue.Exchange Ask Ask.Answer)
  | [], _ => []
  | c :: cs, w => v.setting.transcript c.answer w ++ v.chronicle cs (v.setting.run c.answer w).2

/-- One more command rewrites the teams to teams of the right size, and if no delivery is lost, its
events are delivered. -/
theorem Sound.rewrites (hs : v.Sound w) (c : Command)
    (hbirths : v.DistinctBirths (v.setting.run c.answer w).2.born) (hbounded : w.storage.Bounded) :
    ∃ x events, w.storage.Rewritten (v.setting.run c.answer w).2.storage x ∧ x.Sized events ∧
      (deliveriesOf (v.setting.transcript c.answer w) =
          attemptsOf (v.setting.transcript c.answer w) →
        deliveriesOf (v.setting.transcript c.answer w) = events) := by
  rcases hs.turn c hbirths with hrefused | ⟨u, ready, hsaved, hdeed⟩
  · refine ⟨⟨[], [], []⟩, [], Store.rewritten_nothing ?_, Rewrite.sized_nothing [], ?_⟩
    · intro id
      rw [hrefused.teams]
    · intro _
      exact deliveriesOf_eq_nil hrefused.attempts
  · obtain ⟨x, hrewritten, hsized⟩ := hdeed.sized hbounded
    exact ⟨x, u.events, hrewritten, hsized, hsaved.deliveries⟩

/-- Wherever commands lead to from an empty store, teams have the right size. -/
theorem Reachable.bounded (hw : v.Reachable w) (hbirths : v.DistinctBirths w.born) :
    w.storage.Bounded := by
  induction hw with
  | start t => exact Store.bounded_empty
  | @step w c before ih =>
      have hnow : v.DistinctBirths w.born := hbirths.mono (v.born_le_follow [c] w)
      obtain ⟨x, events, hrewritten, hsized, -⟩ :=
        (before.sound hnow).rewrites c hbirths (ih hnow)
      exact (ih hnow).rewritten hrewritten hsized

/-- All further commands, if all their events are delivered, leave it told of all teams with a single
member. -/
theorem reported_follow (hw : v.Reachable w) (cs : List Command)
    (hbirths : v.DistinctBirths (v.follow cs w).born) (hreported : w.storage.Reported told)
    (hall : deliveriesOf (v.chronicle cs w) = attemptsOf (v.chronicle cs w)) :
    (v.follow cs w).storage.Reported (told ++ deliveriesOf (v.chronicle cs w)) := by
  induction cs generalizing w told with
  | nil =>
      have hnone : told ++ deliveriesOf (v.chronicle [] w) = told := List.append_nil told
      rw [hnone]
      exact hreported
  | cons c cs ih =>
      have hnext : v.DistinctBirths (v.setting.run c.answer w).2.born :=
        hbirths.mono (v.born_le_follow cs _)
      have hnow : v.DistinctBirths w.born := hbirths.mono (v.born_le_follow (c :: cs) w)
      obtain ⟨hfirst, hrest⟩ := delivered_append hall
      obtain ⟨x, events, hrewritten, hsized, hdelivered⟩ :=
        (hw.sound hnow).rewrites c hnext (hw.bounded hnow)
      -- What was told before still counts for the teams that this command leaves alone.
      have hstep := hreported.rewritten hrewritten hsized
      rw [← hdelivered hfirst] at hstep
      rw [chronicle, deliveriesOf_append, ← List.append_assoc]
      exact ih (hw.step c) hbirths hstep hrest

/-- Team sizes stay in bounds. After any commands on an empty store, every team has one to four
members, whichever deliveries failed; and if none failed, a notification was delivered for every team
with a single member that this member is left in it and could not be merged. -/
theorem team_sizes (v : Surroundings τ) (t : τ) (cs : List Command)
    (hbirths : v.DistinctBirths (v.follow cs ⟨Store.empty, t, 0, 0⟩).born) :
    (∀ team r, (v.follow cs ⟨Store.empty, t, 0, 0⟩).storage.teams.find? team = some r →
        1 ≤ r.memberIds.length ∧ r.memberIds.length ≤ 4) ∧
      (deliveriesOf (v.chronicle cs ⟨Store.empty, t, 0, 0⟩) =
          attemptsOf (v.chronicle cs ⟨Store.empty, t, 0, 0⟩) →
        ∀ team member r,
          (v.follow cs ⟨Store.empty, t, 0, 0⟩).storage.teams.find? team = some r →
          r.memberIds = [member] →
          ∃ e ∈ deliveriesOf (v.chronicle cs ⟨Store.empty, t, 0, 0⟩),
            e.notification.kind = .mergeFailure ∧ e.notification.team = team ∧
              e.notification.member = member) := by
  have hstart := Reachable.start (v := v) t
  constructor
  · exact (hstart.follow cs).bounded hbirths
  · intro hall
    exact reported_follow hstart cs hbirths Store.reported_empty hall

/-- Commands by which a team of two loses one of its members, with no other team there. -/
def lonely : List Command :=
  List.replicate 2 (.registerMember "Kim" "kim@example.org" .active) ++
    [.createTeam "Owls" [.ofRandom 0, .ofRandom 1], .removeMember (.ofRandom 2) (.ofRandom 0)]

/-- The member who is left alone was told of. -/
theorem team_sizes_lonely :
    (counting.follow lonely ⟨Store.empty, (), 0, 0⟩).storage.roll = [.ofRandom 1] ∧
      ∃ e ∈ deliveriesOf (counting.chronicle lonely ⟨Store.empty, (), 0, 0⟩),
        e.notification.kind = .mergeFailure ∧ e.notification.team = .ofRandom 2 ∧
          e.notification.member = .ofRandom 1 := by
  have hfound : ((counting.follow lonely ⟨Store.empty, (), 0, 0⟩).storage.teams.find?
      (.ofRandom 2)).map TeamRecord.memberIds = some [.ofRandom 1] := by
    decide +kernel
  obtain ⟨r, hr, hids⟩ := Option.map_eq_some_iff.1 hfound
  obtain ⟨-, hreported⟩ := team_sizes counting () lonely (by decide +kernel)
  exact ⟨by decide +kernel, hreported (by decide +kernel) (.ofRandom 2) (.ofRandom 1) r hr hids⟩

end Surroundings

end TeamRoster
