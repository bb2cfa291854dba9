import TeamRoster.Proofs.Workflow.Deeds

/-!
# Commands that are given again

A command that went through once does nothing when it is given again. Main statement:
`again_refused`. What a command did leaves the store so that the same command can no longer be
prepared, which `Command.Spent` says: whoever was to join is in a team, whoever was to leave is in none,
and a status that was to be set is there already.
-/

namespace TeamRoster

variable {τ τ' : Type}

namespace Command

/-- What the command asks for is done already: whoever is to join is in a team, or is somebody of whom
a team is to be formed, whoever is to leave is in none, or the status is the one that is to be set. -/
def Spent (s : Store) : Command → Prop
  | registerMember _ _ _ => False
  | createTeam _ ids => ∃ id ∈ ids, id ∈ s.roll
  | addMember _ member => member ∈ s.roll
  | removeMember _ member => member ∉ s.roll
  | changeStatus member target => ∃ m, s.members.find? member = some m ∧ m.status = target
  | reassignMember member => member ∈ s.roll

section Doing

variable {v : Surroundings τ} {w : World Store τ} {c : Command} {s after : Store} {d : Decision}
  {m : Member} {events : List Event}

/-- After a change of status, the member has the status that was to be set. -/
theorem CarriedOut.spent_status {target : Status}
    (h : (changeStatus m.id target).CarriedOut d s after) (hm : s.members.find? m.id = some m) :
    (changeStatus m.id target).Spent after := by
  refine ⟨{ m with status := target }, ?_, rfl⟩
  rw [h.members, hm, Option.map_some]
  simp [restated]

/-- After a team was formed, everybody in it is listed. -/
theorem spent_of_formed {t : Team} {name : String} (htwo : 2 ≤ t.size)
    (hnew : s.teams.find? t.id = none) (happly : s.apply (.createTeam t) = .ok after) :
    (createTeam name t.memberIds).Spent after := by
  obtain ⟨-, hfound⟩ := Store.find?_created hnew happly
  have hrecord : after.teams.find? t.id = some (t.record s.nextPlace) := by
    rw [hfound, if_pos rfl]
  have hmember : t.members ≠ [] := by
    apply List.ne_nil_of_length_pos
    exact Nat.lt_of_lt_of_le Nat.zero_lt_two htwo
  obtain ⟨x, hx⟩ := List.exists_mem_of_ne_nil t.members hmember
  have hid : x.id ∈ t.memberIds := Team.mem_memberIds_of_mem hx
  exact ⟨x.id, hid, Store.mem_roll.2 ⟨t.id, _, hrecord, hid⟩⟩

/-- Whatever a command did, it is spent after that, unless it registered a member. -/
theorem Deed.spent (h : c.Deed v w s events) (hw : v.Sound w)
    (hkind : ∀ name email status, c ≠ .registerMember name email status) : c.Spent s := by
  cases h with
  | registered name email m command fresh stored => exact absurd command (hkind name email m.status)
  | formed name t command two four fresh different free applied =>
      subst command
      exact spent_of_formed two fresh applied
  | joined t m i admits joining carried =>
      have hlisted : m.id ∈ s.roll := by
        apply carried.moves.mem_iff.2
        exact List.mem_cons_self
      cases admits with
      | added stored => exact hlisted
      | reassigned stored => exact hlisted
      | returned stored away => exact carried.spent_status stored
  | left t m roster rest r releases parting carried =>
      have hstored := (parting.held.listed parting.listed).1
      cases releases with
      | paused away => exact carried.spent_status hstored
      | removed =>
          have hmoves : w.storage.roll.Perm (r.removed.id :: s.roll) := carried.moves
          have honce := hmoves.nodup_iff.1 hw.store.once
          rw [parting.departure.removed_eq] at honce
          exact (List.nodup_cons.1 honce).1
  | untouched m target command stored away absent carried =>
      subst command
      exact carried.spent_status stored

end Doing

section Asking

variable {v : Surroundings τ} {w ready : World Store τ} {c : Command} {u : Undertaking Answer}

/-- A command that is spent cannot be prepared, whatever is asked otherwise. -/
theorem Spent.not_prepared (hspent : c.Spent w.storage) (hkeyed : w.storage.Keyed) :
    ¬ v.Yields c.prepare w u ready := by
  intro hu
  cases c with
  | registerMember name email status => exact hspent
  | createTeam name ids =>
      obtain ⟨id, hid, hlisted⟩ := hspent
      obtain ⟨_, ms, draft, -, hfree, -⟩ := Surroundings.yields_createTeam.1 hu
      obtain ⟨m, hnone, -⟩ := Failing.exists_of_forall₂ hfree.flip hid
      exact Surroundings.not_mem_roll hnone hlisted
  | addMember team member =>
      obtain ⟨p, hp, -⟩ := yields_undertaking.1 hu
      obtain ⟨t, m, i, ht, hm, hfree, hi, -⟩ := Surroundings.yields_addition.1 hp
      obtain ⟨rfl, hheld⟩ := (Store.team_eq_ok hkeyed).1 ht
      have heq := hkeyed member m hm
      subst heq
      have habsent := (Team.intake_eq_ok hi).2.1
      exact Surroundings.not_mem_roll_of_freeFor hkeyed hheld hfree habsent hspent
  | removeMember team member =>
      obtain ⟨p, hp, -⟩ := yields_undertaking.1 hu
      obtain ⟨t, roster, r, ht, -, hr, -⟩ := Surroundings.yields_removal.1 hp
      obtain ⟨-, hheld⟩ := (Store.team_eq_ok hkeyed).1 ht
      obtain ⟨m, shrunken, hremove, -⟩ := redistribute_eq_ok hr
      obtain ⟨rfl, hlisted, -⟩ := Team.remove_spec hremove
      exact hspent (hheld.listed hlisted).2
  | changeStatus member target =>
      obtain ⟨m, hm, rfl⟩ := hspent
      obtain ⟨p, hp, -⟩ := yields_undertaking.1 hu
      obtain ⟨x, q, hx, hallowed, -⟩ := Surroundings.yields_statusChange.1 hp
      rw [hm] at hx
      cases hx
      rw [Status.canBecome_self] at hallowed
      cases hallowed
  | reassignMember member =>
      obtain ⟨m, mid, hm, hrest⟩ := Surroundings.yields_bind.1 hu
      obtain ⟨hm, rfl⟩ := Surroundings.yields_member.1 hm
      obtain ⟨p, hp, -⟩ := yields_undertaking.1 hrest
      obtain ⟨roster, i, hfree, -⟩ := Surroundings.yields_assignment.1 hp
      rw [hkeyed member m hm] at hfree
      exact Surroundings.not_mem_roll hfree hspent

/-- A command that is spent is refused. -/
theorem Spent.refused (hspent : c.Spent w.storage) (hkeyed : w.storage.Keyed) : c.Refused v w := by
  rcases c.recorded v w with ⟨u, ready, s, hsaved⟩ | hrefused
  · exact absurd hsaved.prepared (hspent.not_prepared hkeyed)
  · exact hrefused

end Asking

end Command

namespace Surroundings

variable {v : Surroundings τ} {w : World Store τ} {c : Command}

/-- Giving a command again does no harm. Where a command other than a registration went through on a
reachable world, whether or not a delivery was lost then, the same command is refused on the store that
it left, whoever breaks ties and delivers the second time: it fails, but not over a delivery, the stored
teams and members stay as they are, nothing is written and nobody is to be told. -/
theorem again_refused (hw : v.Reachable w)
    (hbirths : v.DistinctBirths (v.setting.run c.answer w).2.born)
    (hkind : ∀ name email status, c ≠ .registerMember name email status) (hsaves : v.Saves c w)
    (v' : Surroundings τ') (w' : World Store τ')
    (hstore : w'.storage = (v.setting.run c.answer w).2.storage) : c.Refused v' w' := by
  have hborn : w.born ≤ (v.setting.run c.answer w).2.born := by
    rw [Command.run_answer]
    exact v.setting.born_le c.perform w
  have hsound := hw.sound (hbirths.mono hborn)
  have hafter := hsound.step c hbirths
  rcases hsound.turn c hbirths with hrefused | ⟨u, ready, -, hdeed⟩
  · exact absurd hsaves hrefused.not_saves
  · apply Command.Spent.refused
    · rw [hstore]
      exact hdeed.spent hsound hkind
    · rw [hstore]
      exact hafter.store.keyed

/-- The fifth member, once assigned to the full team, is not assigned again. -/
theorem again_refused_full :
    counting.Saves (.reassignMember (.ofRandom 4)) full ∧
      (Command.reassignMember (.ofRandom 4)).Refused counting
        (counting.setting.run (Command.reassignMember (.ofRandom 4)).answer full).2 := by
  have hsaves : counting.Saves (.reassignMember (.ofRandom 4)) full := by
    decide +kernel
  refine ⟨hsaves, again_refused reachable_full (by decide +kernel) ?_ hsaves counting _ rfl⟩
  rintro name email status ⟨⟩

end Surroundings

end TeamRoster
