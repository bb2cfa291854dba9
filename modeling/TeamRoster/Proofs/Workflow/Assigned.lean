import TeamRoster.Proofs.Workflow.Deeds

/-!
# Who is assigned to a team

Commands that go through say themselves whom they assign to a team and whom they take off one:
`Surroundings.assigned` keeps account of this and looks at no team. Main statement:
`roll_perm_assigned`. Whatever splits, merges and deletions the commands have led to, the teams list
just those who are assigned, each of them once.
-/

namespace TeamRoster

open scoped List

variable {τ : Type}

/-- Who is assigned to a team after a command that went through, where those in `assigned` were
before. A change of status concerns the member it is about: whoever becomes active is assigned, and
whoever was active no longer is. -/
def Command.assigns (s : Store) (assigned : Finset Ident) : Command → Finset Ident
  | registerMember _ _ _ => assigned
  | createTeam _ members => assigned ∪ members.toFinset
  | addMember _ member => insert member assigned
  | reassignMember member => insert member assigned
  | removeMember _ member => assigned.erase member
  | changeStatus member target =>
    if target = .active then insert member assigned
    else if (s.members.find? member).map Member.status = some .active then assigned.erase member
    else assigned

/-- Who is assigned to a team after commands, one after the other, where those in `assigned` were
before. Commands that do not go through do not count. -/
def Surroundings.assigned (v : Surroundings τ) :
    List Command → World Store τ → Finset Ident → Finset Ident
  | [], _, assigned => assigned
  | c :: cs, w, assigned =>
    v.assigned cs (v.setting.run c.answer w).2
      (if v.Saves c w then c.assigns w.storage assigned else assigned)

section Accounts

variable {before after ids : List Ident} {assigned : Finset Ident} {member : Ident}

/-- An account of whoever is listed: a list of just those in a set, each of them once. -/
def Accounts (assigned : Finset Ident) (listed : List Ident) : Prop :=
  (listed : Multiset Ident) = assigned.val

theorem Accounts.mem_iff (h : Accounts assigned before) : member ∈ assigned ↔ member ∈ before := by
  rw [← Finset.mem_val, ← h, Multiset.mem_coe]

theorem Accounts.congr (h : Accounts assigned before) (hperm : after ~ before) :
    Accounts assigned after :=
  (Multiset.coe_eq_coe.2 hperm).trans h

/-- One more is listed who was not. -/
theorem Accounts.insert (h : Accounts assigned before) (hnew : member ∉ before)
    (hperm : after ~ member :: before) : Accounts (insert member assigned) after := by
  have habsent : member ∉ assigned := fun hmem => hnew (h.mem_iff.1 hmem)
  calc
    (after : Multiset Ident) = member ::ₘ before := Multiset.coe_eq_coe.2 hperm
    _ = member ::ₘ assigned.val := congrArg (Multiset.cons member) h
    _ = (Insert.insert member assigned).val := (Finset.insert_val_of_notMem habsent).symm

/-- One is no longer listed. -/
theorem Accounts.erase (h : Accounts assigned before) (hperm : before ~ member :: after) :
    Accounts (assigned.erase member) after := by
  calc
    (after : Multiset Ident) = (member ::ₘ (after : Multiset Ident)).erase member :=
      (Multiset.erase_cons_head member _).symm
    _ = (before : Multiset Ident).erase member :=
      congrArg (fun listed => listed.erase member) (Multiset.coe_eq_coe.2 hperm).symm
    _ = (assigned.erase member).val := by rw [h, Finset.erase_val]

/-- Several more are listed who were not. -/
theorem Accounts.union (h : Accounts assigned before) (hids : ids.Nodup)
    (hnew : ∀ id ∈ ids, id ∉ before) (hperm : after ~ before ++ ids) :
    Accounts (assigned ∪ ids.toFinset) after := by
  have hdisjoint : Disjoint assigned ids.toFinset := by
    rw [Finset.disjoint_right]
    intro id hid hmem
    exact hnew id (List.mem_toFinset.1 hid) (h.mem_iff.1 hmem)
  calc
    (after : Multiset Ident) = before + ids := Multiset.coe_eq_coe.2 hperm
    _ = assigned.val + ids.toFinset.val := by rw [h, List.toFinset_val, hids.dedup]
    _ = (assigned.disjUnion ids.toFinset hdisjoint).val := rfl
    _ = (assigned ∪ ids.toFinset).val := by rw [Finset.disjUnion_eq_union]

end Accounts

namespace Command

variable {v : Surroundings τ} {w : World Store τ} {c : Command} {s : Store} {events : List Event}
  {assigned : Finset Ident}

/-- The account is kept by everything that a command can do. -/
theorem Deed.accounts (h : c.Deed v w s events) (hs : w.storage.Sound)
    (hroll : Accounts assigned w.storage.roll) :
    Accounts (c.assigns w.storage assigned) s.roll := by
  cases h with
  | registered name email m command fresh stored =>
      subst command stored
      exact hroll
  | formed name t command two four fresh different free applied =>
      subst command
      exact hroll.union different free (Store.roll_created fresh applied)
  | joined t m i admits joining carried =>
      have hjoined := hroll.insert joining.absent carried.moves
      cases admits with
      | added stored => exact hjoined
      | reassigned stored => exact hjoined
      | returned stored away => exact hjoined
  | left t m roster rest r releases parting carried =>
      have hmoves : w.storage.roll ~ r.removed.id :: s.roll := carried.moves
      rw [parting.departure.removed_eq] at hmoves
      have hleft := hroll.erase hmoves
      cases releases with
      | removed => exact hleft
      | paused away =>
          obtain ⟨hstored, -⟩ := parting.held.listed parting.listed
          have hactive := hs.active_of_mem parting.held parting.listed
          simpa [assigns, away, hstored, hactive] using hleft
  | untouched m target command stored away absent carried =>
      subst command
      have hkept := hroll.congr carried.moves
      have habsent : m.id ∉ assigned := fun hmem => absent (hroll.mem_iff.1 hmem)
      by_cases hactive : m.status = .active
      · simpa [assigns, away, stored, hactive, Finset.erase_eq_of_notMem habsent] using hkept
      · simpa [assigns, away, stored, hactive] using hkept

end Command

namespace Surroundings

variable {v : Surroundings τ} {w : World Store τ} {assigned : Finset Ident}

/-- One more command keeps the account. -/
theorem accounts_step (hs : v.Sound w) (c : Command)
    (hbirths : v.DistinctBirths (v.setting.run c.answer w).2.born)
    (hroll : Accounts assigned w.storage.roll) :
    Accounts (if v.Saves c w then c.assigns w.storage assigned else assigned)
      (v.setting.run c.answer w).2.storage.roll := by
  rcases hs.turn c hbirths with hrefused | ⟨u, ready, hsaved, hdeed⟩
  · rw [if_neg hrefused.not_saves]
    apply hroll.congr
    apply Store.roll_congr
    intro id
    rw [hrefused.teams]
  · rw [if_pos (saves_iff.2 ⟨u, ready, _, hsaved⟩)]
    exact hdeed.accounts hs.store hroll

/-- All further commands keep the account. -/
theorem accounts_follow (hw : v.Reachable w) (cs : List Command)
    (hbirths : v.DistinctBirths (v.follow cs w).born) (hroll : Accounts assigned w.storage.roll) :
    Accounts (v.assigned cs w assigned) (v.follow cs w).storage.roll := by
  induction cs generalizing w assigned with
  | nil => exact hroll
  | cons c cs ih =>
      -- The births of all further commands include those of this one.
      have hnext : v.DistinctBirths (v.setting.run c.answer w).2.born :=
        hbirths.mono (v.born_le_follow cs _)
      have hnow : v.DistinctBirths w.born := hbirths.mono (v.born_le_follow (c :: cs) w)
      exact ih (hw.step c) hbirths (accounts_step (hw.sound hnow) c hnext hroll)

/-- Nobody is lost and nobody is listed twice. After any commands on an empty store, the member lists
of all teams together are a permutation of those who are assigned: who was given to a team that was
formed, was added, was reassigned or became active, and was not removed since and did not stop being
active. -/
theorem roll_perm_assigned (v : Surroundings τ) (t : τ) (cs : List Command)
    (hbirths : v.DistinctBirths (v.follow cs ⟨Store.empty, t, 0, 0⟩).born) :
    (v.follow cs ⟨Store.empty, t, 0, 0⟩).storage.roll ~
      (v.assigned cs ⟨Store.empty, t, 0, 0⟩ ∅).toList := by
  have hempty : Accounts ∅ (Store.empty.roll) := rfl
  have haccounts := accounts_follow (Reachable.start t) cs hbirths hempty
  rw [← Multiset.coe_eq_coe, Finset.coe_toList]
  exact haccounts

/-- Commands by which a member is removed from a full team, two others take the place, one of them
after a leave, and the team splits as another one joins. -/
def eventful : List Command :=
  List.replicate 6 (.registerMember "Kim" "kim@example.org" .active) ++
    [.createTeam "Owls" [.ofRandom 0, .ofRandom 1, .ofRandom 2, .ofRandom 3],
      .removeMember (.ofRandom 6) (.ofRandom 0), .reassignMember (.ofRandom 4),
      .changeStatus (.ofRandom 1) .onLeave, .changeStatus (.ofRandom 1) .active,
      .addMember (.ofRandom 6) (.ofRandom 5)]

/-- All are assigned in the end but the one who was removed. -/
theorem roll_perm_assigned_eventful :
    counting.assigned eventful ⟨Store.empty, (), 0, 0⟩ ∅ =
        {.ofRandom 1, .ofRandom 2, .ofRandom 3, .ofRandom 4, .ofRandom 5} ∧
      (counting.follow eventful ⟨Store.empty, (), 0, 0⟩).storage.roll ~
        (counting.assigned eventful ⟨Store.empty, (), 0, 0⟩ ∅).toList :=
  ⟨by decide +kernel, roll_perm_assigned counting () eventful (by decide +kernel)⟩

end Surroundings

end TeamRoster
