import TeamRoster.Proofs.Workflow.Sizes

/-!
# What mentors are told of a command

`Command.Calls` lists the events that each command calls for, by the teams that were stored before it
and are stored after it. Main statement: `told_after_commit`. A command that goes through tells just
these events, after its write and in order, until one is not delivered; a command that does not go
through tells nothing.
-/

namespace TeamRoster

variable {τ : Type}

/-- The events that the member `m` calls for who joins the team `t`, as the member is afterwards: that
a team of four has split into what remains of it and a new team. -/
inductive JoinCalls (before after : Store) (t : Team) (m : Member) : List Event → Prop
  | room (space : t.size < 4) (grown : after.team t.id = .ok (t.relist (t.members ++ [m]))) :
      JoinCalls before after t m []
  | split {kept new : Team} (full : t.size = 4) (remains : after.team t.id = .ok kept)
      (fresh : before.teams.find? new.id = none) (founded : after.team new.id = .ok new)
      (halves : kept.members ++ new.members = t.members ++ [m]) :
      JoinCalls before after t m [.teamSplit kept new m]

/-- The events that the member `m` calls for who leaves the team `t`: that a team of three or two has
shrunk, that the last member of a team of two has moved to another team with room, or that there is
no such team. -/
inductive LeaveCalls (before after : Store) (t : Team) (m : Member) : List Event → Prop
  | four (size : t.size = 4) : LeaveCalls before after t m []
  | three {shrunken : Team} (size : t.size = 3) (shrinks : after.team t.id = .ok shrunken)
      (others : shrunken.memberIds = t.memberIds.erase m.id) :
      LeaveCalls before after t m [.teamMonitoring shrunken m]
  | merged {last : Member} {home destination : Team} (size : t.size = 2)
      (other : t.memberIds.erase m.id = [last.id]) (elsewhere : home.id ≠ t.id)
      (stored : before.team home.id = .ok home) (space : 1 ≤ home.size ∧ home.size ≤ 3)
      (moves : after.team home.id = .ok destination)
      (together : destination.members = home.members ++ [last]) :
      LeaveCalls before after t m [.teamMerge destination last]
  | stranded {last : Member} {shrunken : Team} (size : t.size = 2)
      (other : t.memberIds.erase m.id = [last.id])
      (nowhere : ∀ home, before.team home.id = .ok home → home.id ≠ t.id →
        ¬ (1 ≤ home.size ∧ home.size ≤ 3))
      (shrinks : after.team t.id = .ok shrunken) (alone : shrunken.members = [last]) :
      LeaveCalls before after t m [.teamMonitoring shrunken m, .mergeFailure shrunken last]
  | one (size : t.size = 1) : LeaveCalls before after t m []

/-- The events that a command calls for that goes through, by what was stored before and is stored
afterwards. -/
inductive Command.Calls (before after : Store) : Command → List Event → Prop
  | registered (name email : String) (status : Status) :
      Calls before after (.registerMember name email status) []
  | formed (name : String) (members : List Ident) : Calls before after (.createTeam name members) []
  | joined {c : Command} {t : Team} {m : Member} {events : List Event}
      (admits : Admits before t c m) (stored : before.team t.id = .ok t)
      (calls : JoinCalls before after t m events) : Calls before after c events
  | left {c : Command} {t : Team} {m : Member} {events : List Event} (releases : Releases t m c)
      (stored : before.team t.id = .ok t) (listed : m ∈ t.members) (active : m.status = .active)
      (calls : LeaveCalls before after t m events) : Calls before after c events
  | untouched {m : Member} {target : Status} (stored : before.members.find? m.id = some m)
      (away : target ≠ .active) (absent : before.teamOf m.id = .ok none) :
      Calls before after (.changeStatus m.id target) []

namespace Surroundings

variable {v : Surroundings τ} {w : World Store τ} {c : Command} {t : Team} {m : Member} {s : Store}

/-- What was decided for a member who joins, carried out, as the events that it calls for. -/
theorem Joining.calls {i : Intake} (h : v.Joining w t m i) (hs : s.Keyed)
    (hbounded : w.storage.Bounded)
    (hcarried : c.CarriedOut (.joined m.id (i.compose (v.births w.born))) w.storage s) :
    JoinCalls w.storage s t m ((i.compose (v.births w.born)).events m) := by
  have hsize := hbounded.size h.held
  have hfresh := h.fresh
  have hread (u : Team) (hu : u ∈ (i.compose (v.births w.born)).rewrite.relisted ++
      (i.compose (v.births w.born)).rewrite.founded) : s.team u.id = .ok u :=
    (hcarried.held u hu).team hs
  cases h.arrival with
  | fits room => exact .room room (hread _ List.mem_cons_self)
  | overflows draft full members name =>
      refine .split (by omega) (hread _ List.mem_cons_self) (hfresh rfl)
        (hread _ (List.mem_cons_of_mem _ List.mem_cons_self)) ?_
      calc
        t.members.take ((t.size + 1) / 2) ++ draft.members =
            t.members.take ((t.size + 1) / 2) ++
              (t.members.drop ((t.size + 1) / 2) ++ [m]) := by rw [members]
        _ = t.members ++ [m] := by rw [← List.append_assoc, List.take_append_drop]

/-- What was decided for a member who leaves, carried out, as the events that it calls for. -/
theorem Parting.calls {roster : List Team} {left : List Member} {r : Redistribution}
    (h : Parting w t m roster left r) (hbefore : w.storage.Keyed) (hs : s.Keyed)
    (hbounded : w.storage.Bounded) (hcarried : c.CarriedOut (.left r) w.storage s) :
    LeaveCalls w.storage s t m r.events := by
  have hsize := hbounded.size h.held
  have hleft := h.size_left
  obtain ⟨-, -, -, hids, -⟩ := Team.remove_spec h.removed
  change left.map Member.id = t.memberIds.erase m.id at hids
  have hread (u : Team) (hu : u ∈ r.rewrite.relisted ++ r.rewrite.founded) : s.team u.id = .ok u :=
    (hcarried.held u hu).team hs
  cases h.departure with
  | emptied => exact .one hleft.symm
  | normal more => exact .four (by omega)
  | small two => exact .three (by omega) (hread _ List.mem_cons_self) hids
  | moved last home homes active absent =>
      obtain ⟨hmem, hother, haccepts⟩ := mem_otherHomes.1 homes
      have hheld := (Store.mem_allTeams hbefore h.read home).1 hmem
      exact .merged hleft.symm hids.symm hother (hheld.team hbefore)
        (Team.acceptsMember_iff.1 haccepts) (hread _ List.mem_cons_self) rfl
  | stranded last alone =>
      refine .stranded hleft.symm hids.symm ?_ (hread _ List.mem_cons_self) rfl
      intro home hstored hother hspace
      obtain ⟨-, hheld⟩ := (Store.team_eq_ok hbefore).1 hstored
      have hmem := (Store.mem_allTeams hbefore h.read home).2 hheld
      -- A team with room would have been among the homes that were looked at.
      have hhome : home ∈ otherHomes t roster :=
        mem_otherHomes.2 ⟨hmem, hother, Team.acceptsMember_iff.2 hspace⟩
      rw [alone] at hhome
      cases hhome

end Surroundings

section Stored

variable {before after : Store} {t : Team} {m : Member} {events : List Event}

/-- What is read under an id is read under the id of the team as well. -/
theorem Store.team_of_team {s : Store} (hs : s.Keyed) {id : Ident} (h : s.team id = .ok t) :
    s.team t.id = .ok t := by
  obtain ⟨-, hheld⟩ := (team_eq_ok hs).1 h
  exact hheld.team hs

/-- The events of a member who joins show teams as they are stored. -/
theorem JoinCalls.stored (h : JoinCalls before after t m events) (hs : after.Keyed) :
    ∀ e ∈ events, ∀ u ∈ e.teams, after.team u.id = .ok u := by
  cases h with
  | room space grown => simp
  | split full remains fresh founded halves =>
      simpa [Event.teams] using ⟨Store.team_of_team hs remains, founded⟩

/-- The events of a member who leaves show teams as they are stored. -/
theorem LeaveCalls.stored (h : LeaveCalls before after t m events) (hs : after.Keyed) :
    ∀ e ∈ events, ∀ u ∈ e.teams, after.team u.id = .ok u := by
  cases h with
  | four size => simp
  | one size => simp
  | three size shrinks others =>
      simpa [Event.teams, Event.team] using Store.team_of_team hs shrinks
  | merged size other elsewhere stored space moves together =>
      simpa [Event.teams, Event.team] using Store.team_of_team hs moves
  | stranded size other nowhere shrinks alone =>
      simpa [Event.teams, Event.team] using Store.team_of_team hs shrinks

namespace Command

variable {c : Command}

/-- All events that a command calls for show teams as they are stored. -/
theorem Calls.stored (h : c.Calls before after events) (hs : after.Keyed) :
    ∀ e ∈ events, ∀ u ∈ e.teams, after.team u.id = .ok u := by
  cases h with
  | registered name email status => simp
  | formed name members => simp
  | untouched stored away absent => simp
  | joined admits stored calls => exact calls.stored hs
  | left releases stored listed active calls => exact calls.stored hs

/-- The events of a deed are those that the command calls for. -/
theorem Deed.calls {v : Surroundings τ} {w : World Store τ} (h : c.Deed v w after events)
    (hbefore : w.storage.Sound) (hafter : after.Keyed) (hbounded : w.storage.Bounded) :
    c.Calls w.storage after events := by
  cases h with
  | registered name email m command fresh stored =>
      rw [command]
      exact .registered name email m.status
  | formed name t command two four fresh different free applied =>
      rw [command]
      exact .formed name t.memberIds
  | joined t m i admits joining carried =>
      exact .joined admits (joining.held.team hbefore.keyed) (joining.calls hafter hbounded carried)
  | left t m roster rest r releases parting carried =>
      have hstored := parting.held.team hbefore.keyed
      have hactive := hbefore.active_of_mem parting.held parting.listed
      exact .left releases hstored parting.listed hactive
        (parting.calls hbefore.keyed hafter hbounded carried)
  | untouched m target command stored away absent carried =>
      rw [command]
      refine .untouched stored away (Store.teamOf_eq_none.2 ?_)
      intro team r hr hmem
      exact absent (Store.mem_roll.2 ⟨team, r, hr, hmem⟩)

end Command

end Stored

namespace Surroundings

variable {v : Surroundings τ} {w : World Store τ}

/-- Exactly the right notifications, after the write and in order. On a reachable world, a command
that does not go through attempts no notification. Of a command that goes through, what was asked to
prepare it is on record first, then its one write, and then the deliveries of the events that it calls
for, one after the other and none after the first that fails. These events show teams as they are
stored after the write; and the answer is a failure exactly if a delivery failed, namely the failure
of that delivery. -/
theorem told_after_commit (hw : v.Reachable w) (c : Command)
    (hbirths : v.DistinctBirths (v.setting.run c.answer w).2.born) :
    (¬ v.Saves c w → attemptsOf (v.setting.transcript c.answer w) = []) ∧
      (v.Saves c w → ∃ events before write told,
        v.setting.transcript c.answer w = before ++ Write.exchange (.ok ()) write :: told ∧
          (∀ x ∈ before, x.1.isPreparation = true) ∧ Told events told ∧
          c.Calls w.storage (v.setting.run c.answer w).2.storage events ∧
          (∀ e ∈ events, ∀ t ∈ e.teams,
            (v.setting.run c.answer w).2.storage.team t.id = .ok t) ∧
          ((v.setting.run c.answer w).1.isFailure = false ↔ deliveriesOf told = attemptsOf told) ∧
          ∀ event x, (⟨.deliver event, .error x⟩ : Dialogue.Exchange Ask Ask.Answer) ∈ told →
            (v.setting.run c.answer w).1 = .ofFailure (.delivery x)) := by
  have hnow : v.DistinctBirths w.born := hbirths.mono (v.born_le_follow [c] w)
  have hsound := hw.sound hnow
  have hkeyed := (hsound.step c hbirths).store.keyed
  constructor
  · intro hunsaved
    rcases c.recorded v w with hsaved | hrefused
    · exact absurd (saves_iff.2 hsaved) hunsaved
    · exact hrefused.attempts
  · intro hsaves
    rcases hsound.turn c hbirths with hrefused | ⟨u, ready, hsaved, hdeed⟩
    · exact absurd hsaves hrefused.not_saves
    · obtain ⟨before, told, hlog, hbefore, htold, hanswer, hlost⟩ := hsaved.recorded
      have hcalls := hdeed.calls hsound.store hkeyed (hw.bounded hnow)
      exact ⟨u.events, before, u.write, told, hlog, hbefore, htold, hcalls, hcalls.stored hkeyed,
        hanswer, hlost⟩

/-- The fifth member joins the full team, and mentors are told of the split. -/
theorem told_after_commit_full :
    (attemptsOf (counting.setting.transcript (Command.reassignMember (.ofRandom 4)).answer
        full)).map Event.kind = [.teamSplit] ∧
      ∃ events,
        (Command.reassignMember (.ofRandom 4)).Calls full.storage
            (counting.setting.run (Command.reassignMember (.ofRandom 4)).answer full).2.storage
            events ∧
          ∀ e ∈ events, ∀ t ∈ e.teams,
            (counting.setting.run (Command.reassignMember (.ofRandom 4)).answer
              full).2.storage.team t.id = .ok t := by
  obtain ⟨-, htold⟩ := told_after_commit reachable_full (.reassignMember (.ofRandom 4))
    (by decide +kernel)
  obtain ⟨events, -, -, -, -, -, -, hcalls, hstored, -⟩ := htold (by decide +kernel)
  exact ⟨by decide +kernel, events, hcalls, hstored⟩

end Surroundings

end TeamRoster
