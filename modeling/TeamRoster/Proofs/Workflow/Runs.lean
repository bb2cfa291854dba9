import TeamRoster.Ident.Random
import TeamRoster.Proofs.Workflow.Settlement

/-!
# Runs of commands

A world is reachable if it comes of commands, one after the other, on an empty store. Main statement:
`one_team_each`. Whatever the commands are, however ties are broken and whichever deliveries fail,
nobody is in two teams or twice in one, and everybody in a team is stored and active. The one thing
that is asked for is that no two births had the same id.
-/

namespace TeamRoster

open scoped List

variable {τ : Type}

/-- Births are drawn one after the other and never put back. -/
theorem Setting.born_le (e : Setting Store τ) {α : Type} (u : UseCase α) (w : World Store τ) :
    w.born ≤ (e.exec u w).2.born := by
  let later (after : World Store τ) : Prop := w.born ≤ after.born
  have hstart : later w := Nat.le_refl w.born
  refine Dialogue.Keeps.run_invariant (Dialogue.keeps_any u.run) ?_ hstart
  intro q after _ hafter
  cases q with
  | birth => exact Nat.le_succ_of_le hafter
  | storage request => exact hafter
  | pick count => exact hafter
  | deliver event => exact hafter

namespace Command

variable {v : Surroundings τ} {w ready : World Store τ} {c : Command} {u : Undertaking Answer}

/-- A command saves a member with the id of a new birth, or forms a team with such an id of two to
four different active members who are in no team, or commits changes. Only a commit is told of. -/
theorem write_cases (hs : w.storage.Keyed) (hu : v.Yields c.prepare w u ready) :
    (∃ name email m, c = .registerMember name email m.status ∧ u.write = .save m ∧ u.events = [] ∧
        m.id = (v.births w.born).id ∧ ready.born = w.born + 1) ∨
      (∃ name t, c = .createTeam name t.memberIds ∧ u.write = .form t ∧ u.events = [] ∧
        t.id = (v.births w.born).id ∧ ready.born = w.born + 1 ∧ 2 ≤ t.size ∧ t.size ≤ 4 ∧
        t.memberIds.Nodup ∧ ∀ m ∈ t.members, m.id ∉ w.storage.roll ∧
          w.storage.members.find? m.id = some m ∧ m.status = .active) ∨
      ∃ changes, u.write = .commit changes := by
  cases c with
  | registerMember name email status =>
      simp only [prepare, Surroundings.yields_bind, Surroundings.yields_ofRule,
        Surroundings.yields_birth, Surroundings.yields_pure] at hu
      obtain ⟨_, _, ⟨-, rfl⟩, _, _, ⟨-, rfl⟩, _, _, ⟨rfl, rfl⟩, rfl, rfl⟩ := hu
      exact .inl ⟨name, email, _, rfl, rfl, rfl, rfl, rfl⟩
  | createTeam name members =>
      obtain ⟨_, ms, draft, -, hfree, hdraft, rfl, rfl⟩ := Surroundings.yields_createTeam.1 hu
      obtain ⟨-, hmembers⟩ := Team.Draft.of_ofMembers hdraft
      obtain ⟨hids, hfound⟩ := (Store.forall₂_find?_iff hs).1 (hfree.imp fun _ _ h => h.2)
      rw [← hmembers] at hids hfound hfree
      refine .inr (.inl ⟨name, draft.form _, congrArg _ hids, rfl, rfl, rfl, rfl, draft.two_le,
        draft.le_four, draft.nodup, ?_⟩)
      intro m hm
      obtain ⟨id, hnone, hstored⟩ := Failing.exists_of_forall₂ hfree hm
      have heq := hs id m hstored
      subst heq
      exact ⟨Surroundings.not_mem_roll hnone, hfound m hm, draft.active m hm⟩
  | addMember team member =>
      obtain ⟨p, -, rfl⟩ := yields_undertaking.1 hu
      exact .inr (.inr ⟨p.changes, rfl⟩)
  | removeMember team member =>
      obtain ⟨p, -, rfl⟩ := yields_undertaking.1 hu
      exact .inr (.inr ⟨p.changes, rfl⟩)
  | changeStatus member target =>
      obtain ⟨p, -, rfl⟩ := yields_undertaking.1 hu
      exact .inr (.inr ⟨p.changes, rfl⟩)
  | reassignMember member =>
      obtain ⟨m, mid, -, hrest⟩ := Surroundings.yields_bind.1 hu
      obtain ⟨p, -, rfl⟩ := yields_undertaking.1 hrest
      exact .inr (.inr ⟨p.changes, rfl⟩)

end Command

/-- A team whose storing went through was created. -/
theorem Store.apply_of_written {s after : Store} {t : Team}
    (h : Storage.write Store.storage (.form t) s = (.ok (), after)) :
    s.apply (.createTeam t) = .ok after := by
  change s.written (s.apply (.createTeam t)) = (.ok (), after) at h
  cases hdone : s.apply (.createTeam t) with
  | ok stored =>
      rw [hdone] at h
      exact congrArg Except.ok (congrArg Prod.snd h)
  | error failure =>
      rw [hdone] at h
      cases h

/-- A team whose storing was refused could not be created. -/
theorem Store.apply_of_not_written {s : Store} {t : Team} {x : StorageError}
    (h : (Storage.write Store.storage (.form t) s).1 = .error x) :
    s.apply (.createTeam t) = .error x := by
  change (s.written (s.apply (.createTeam t))).1 = .error x at h
  cases hdone : s.apply (.createTeam t) with
  | ok stored =>
      rw [hdone] at h
      cases h
  | error failure =>
      rw [hdone] at h
      cases h
      rfl

/-- Nobody is listed twice in a team, no two teams list the same member, and everybody who is listed
is stored and active. -/
structure Store.OneTeamEach (s : Store) : Prop where
  once (team : Ident) (r : TeamRecord) : s.teams.find? team = some r → r.memberIds.Nodup
  apart (team other : Ident) (r q : TeamRecord) : s.teams.find? team = some r →
    s.teams.find? other = some q → team ≠ other → r.memberIds.Disjoint q.memberIds
  active (team : Ident) (r : TeamRecord) : s.teams.find? team = some r → ∀ id ∈ r.memberIds,
    ∃ m, s.members.find? id = some m ∧ m.id = id ∧ m.status = .active

namespace Surroundings

variable {v : Surroundings τ} {w ready : World Store τ} {c : Command} {u : Undertaking Answer}
  {s : Store}

/-- Births that come later do no harm. -/
theorem Sound.later (h : v.Sound w) {after : World Store τ} (hsound : after.storage.Sound)
    (hborn : w.born ≤ after.born)
    (hmembers : ∀ id m, after.storage.members.find? id = some m →
      (∃ x, w.storage.members.find? id = some x) ∨ ∃ n < after.born, (v.births n).id = id)
    (hteams : ∀ id r, after.storage.teams.find? id = some r →
      (∃ q, w.storage.teams.find? id = some q) ∨ ∃ n < after.born, (v.births n).id = id) :
    v.Sound after := by
  refine ⟨hsound, ?_, ?_⟩
  · intro id m hm
    rcases hmembers id m hm with ⟨x, hx⟩ | hnew
    · obtain ⟨n, hn, hid⟩ := h.members id x hx
      exact ⟨n, by omega, hid⟩
    · exact hnew
  · intro id r hr
    rcases hteams id r hr with ⟨q, hq⟩ | hnew
    · obtain ⟨n, hn, hid⟩ := h.teams id q hq
      exact ⟨n, by omega, hid⟩
    · exact hnew

/-- Whatever is found after an entry was made with the id of a new birth was there before, or has
an id that was born. -/
theorem before_or_born {α : Type} {key id : Ident} {entry x : α} {former : Option α}
    (hkey : key = (v.births w.born).id) (hnext : ready.born = w.born + 1)
    (hx : (if id = key then some entry else former) = some x) :
    (∃ y, former = some y) ∨ ∃ n < ready.born, (v.births n).id = id := by
  by_cases hid : id = key
  · have hlast : w.born < ready.born := by omega
    exact .inr ⟨w.born, hlast, (hid.trans hkey).symm⟩
  · rw [if_neg hid] at hx
    exact .inl ⟨x, hx⟩

/-- Saving a member with the id of a new birth leaves everything sound. -/
theorem Sound.saved (h : v.Sound w) (hbirths : v.DistinctBirths ready.born) {m : Member}
    (hid : m.id = (v.births w.born).id) (hnext : ready.born = w.born + 1) :
    v.Sound { ready with storage := w.storage.saveMember m } := by
  rw [hnext] at hbirths
  have hnew : w.storage.members.find? m.id = none := by
    rw [hid]
    exact h.fresh_member hbirths
  have hborn : w.born ≤ ready.born := by omega
  refine h.later (h.store.saveMember hnew) hborn ?_ ?_
  · intro id x hx
    change (w.storage.members.insert m.id m).find? id = some x at hx
    rw [Directory.find?_insert] at hx
    exact before_or_born hid hnext hx
  · intro id r hr
    exact .inl ⟨r, hr⟩

/-- Forming a team with the id of a new birth leaves everything sound, if its members are active and
in no team yet. -/
theorem Sound.formed (h : v.Sound w) (hbirths : v.DistinctBirths ready.born) {t : Team}
    (hid : t.id = (v.births w.born).id) (hnext : ready.born = w.born + 1)
    (hnodup : t.memberIds.Nodup)
    (hmembers : ∀ m ∈ t.members, m.id ∉ w.storage.roll ∧
      w.storage.members.find? m.id = some m ∧ m.status = .active)
    (happly : w.storage.apply (.createTeam t) = .ok s) : v.Sound { ready with storage := s } := by
  rw [hnext] at hbirths
  have hnew : w.storage.teams.find? t.id = none := by
    rw [hid]
    exact h.fresh_team hbirths
  obtain ⟨hsame, hfound⟩ := Store.find?_created hnew happly
  have hborn : w.born ≤ ready.born := by omega
  refine h.later (h.store.createTeam hnew hnodup hmembers happly) hborn ?_ ?_
  · intro id x hx
    exact .inl ⟨x, hsame ▸ hx⟩
  · intro id r hr
    exact before_or_born hid hnext ((hfound id).symm.trans hr)

/-- A commit of what a command prepared leaves everything sound. -/
theorem Sound.committed (h : v.Sound w) (hbirths : v.DistinctBirths ready.born)
    (hu : v.Yields c.prepare w u ready) (hborn : w.born ≤ ready.born) {changes : ChangeSet}
    (hchanges : u.write = .commit changes) (hcommit : w.storage.commit changes = (.ok (), s)) :
    v.Sound { ready with storage := s } := by
  obtain ⟨d, hprepared⟩ := Command.prepared_of_commit h hbirths hu hchanges
  obtain ⟨newcomer, edits, hplanned, hproduces⟩ := hprepared.planned
  have hcarried := hplanned.carriedOut (hproduces s hcommit)
  refine h.later (hplanned.sound h.store hcarried) hborn ?_ ?_
  · intro id m hm
    change s.members.find? id = some m at hm
    rw [hcarried.members] at hm
    obtain ⟨x, hx, -⟩ := Option.map_eq_some_iff.1 hm
    exact .inl ⟨x, hx⟩
  · intro id r hr
    rcases hcarried.teams.find?_some hr with hbefore | ⟨t, ht, rfl⟩
    · exact .inl hbefore
    · exact .inr (hprepared.founded t ht)

/-- A write that goes through leaves everything sound. -/
theorem Sound.written (h : v.Sound w) (hbirths : v.DistinctBirths ready.born)
    (hu : v.Yields c.prepare w u ready) (hborn : w.born ≤ ready.born)
    (hwritten : Storage.write Store.storage u.write w.storage = (.ok (), s)) :
    v.Sound { ready with storage := s } := by
  rcases Command.write_cases h.store.keyed hu with
    ⟨-, -, m, -, hm, -, hid, hnext⟩ |
      ⟨-, t, -, ht, -, hid, hnext, -, -, hnodup, hmembers⟩ | ⟨changes, hchanges⟩
  · rw [hm] at hwritten
    have heq : w.storage.saveMember m = s := congrArg Prod.snd hwritten
    subst heq
    exact h.saved hbirths hid hnext
  · rw [ht] at hwritten
    exact h.formed hbirths hid hnext hnodup hmembers (Store.apply_of_written hwritten)
  · rw [hchanges] at hwritten
    exact h.committed hbirths hu hborn hchanges hwritten

/-- Every command leaves what is sound sound. -/
theorem Sound.step (h : v.Sound w) (c : Command)
    (hbirths : v.DistinctBirths (v.setting.run c.answer w).2.born) :
    v.Sound (v.setting.run c.answer w).2 := by
  rw [Command.run_answer] at hbirths ⊢
  cases Command.course v c w with
  | refused x after ends notDelivery teams members transport attempts commits =>
      have hborn := v.setting.born_le c.perform w
      rw [ends] at hborn ⊢
      apply h.later (h.store.congr teams members) hborn
      · intro id m hm
        exact .inl ⟨m, members ▸ hm⟩
      · intro id r hr
        exact .inl ⟨r, teams ▸ hr⟩
  | saved u ready s prepared answers storage written ends attempts commits =>
      have hborn := v.setting.born_le c.prepare w
      rw [ends] at hbirths ⊢
      rw [prepared] at hborn
      have hready : v.DistinctBirths ready.born := hbirths
      have hsound := h.written hready prepared hborn written
      exact ⟨hsound.store, hsound.members, hsound.teams⟩

/-- The worlds that commands lead to from an empty store. -/
inductive Reachable (v : Surroundings τ) : World Store τ → Prop
  | start (t : τ) : Reachable v ⟨Store.empty, t, 0, 0⟩
  | step {w : World Store τ} (c : Command) (before : Reachable v w) :
      Reachable v (v.setting.run c.answer w).2

/-- What commands lead to, one after the other. -/
def follow (v : Surroundings τ) (cs : List Command) (w : World Store τ) : World Store τ :=
  cs.foldl (fun w c => (v.setting.run c.answer w).2) w

theorem Reachable.follow (hw : v.Reachable w) (cs : List Command) : v.Reachable (v.follow cs w) := by
  induction cs generalizing w with
  | nil => exact hw
  | cons c cs ih => exact ih (hw.step c)

/-- Commands draw births and never put them back. -/
theorem born_le_follow (v : Surroundings τ) (cs : List Command) (w : World Store τ) :
    w.born ≤ (v.follow cs w).born := by
  induction cs generalizing w with
  | nil => exact Nat.le_refl w.born
  | cons c cs ih =>
      calc
        w.born ≤ (v.setting.run c.answer w).2.born := by
          rw [Command.run_answer]
          exact v.setting.born_le c.perform w
        _ ≤ (v.follow (c :: cs) w).born := ih _

/-- The reachable worlds are those that lists of commands lead to from an empty store. -/
theorem reachable_iff : v.Reachable w ↔ ∃ t cs, w = v.follow cs ⟨Store.empty, t, 0, 0⟩ := by
  constructor
  · intro hw
    induction hw with
    | start t => exact ⟨t, [], rfl⟩
    | step c before ih =>
        obtain ⟨t, cs, rfl⟩ := ih
        exact ⟨t, cs ++ [c], by simp [Surroundings.follow]⟩
  · rintro ⟨t, cs, rfl⟩
    exact (Reachable.start t).follow cs

/-- Everything reachable is sound. -/
theorem Reachable.sound (hw : v.Reachable w) (hbirths : v.DistinctBirths w.born) : v.Sound w := by
  induction hw with
  | start t =>
      refine ⟨⟨?_, List.nodup_nil, ?_⟩, ?_, ?_⟩
      · intro id m hm
        cases hm
      · intro id hid
        cases hid
      · intro id m hm
        cases hm
      · intro id r hr
        cases hr
  | @step w c before ih =>
      have hborn : w.born ≤ (v.setting.run c.answer w).2.born := by
        rw [Command.run_answer]
        exact v.setting.born_le c.perform w
      exact (ih (hbirths.mono hborn)).step c hbirths

/-- At most one team each. Wherever commands lead to from an empty store, no member is listed in two
teams or twice in one, and everybody who is listed is stored and active. -/
theorem one_team_each (hw : v.Reachable w) (hbirths : v.DistinctBirths w.born) :
    w.storage.OneTeamEach := by
  have hsound := (hw.sound hbirths).store
  constructor
  · intro team r hr
    exact Store.roll_nodup_list hsound.once hr
  · intro team other r q hr hq hne id hidr hidq
    exact hne (Store.roll_nodup_team hsound.once hr hq hidr hidq)
  · intro team r hr id hid
    obtain ⟨m, hm, hactive⟩ := hsound.active id (Store.mem_roll.2 ⟨team, r, hr, hid⟩)
    exact ⟨m, hm, hsound.keyed id m hm, hactive⟩

/-- Surroundings in which everything is delivered, births are counted, and the first choice is
always taken. -/
def counting : Surroundings Unit :=
  ⟨fun _ _ => (.ok (), ()), fun n => ⟨.ofRandom n, .ofSeconds n⟩, fun _ _ => 0⟩

/-- A world with a full team of four, and a fifth member in no team. -/
def full : World Store Unit :=
  counting.follow
    (List.replicate 5 (.registerMember "Kim" "kim@example.org" .active) ++
      [.createTeam "Owls" [.ofRandom 0, .ofRandom 1, .ofRandom 2, .ofRandom 3]])
    ⟨Store.empty, (), 0, 0⟩

theorem reachable_full : counting.Reachable full :=
  (Reachable.start ()).follow _

/-- The team of four is sound, with the fifth member beside it. -/
theorem one_team_each_full :
    full.storage.roll = [.ofRandom 0, .ofRandom 1, .ofRandom 2, .ofRandom 3] ∧
      full.storage.OneTeamEach :=
  ⟨by decide +kernel, one_team_each reachable_full (by decide +kernel)⟩

end Surroundings

end TeamRoster
