import TeamRoster.Proofs.Store.Edits

/-!
# The order of teams

Teams are listed by their places, and places are given out while teams are staged. `Edit.arrive`
says the same without places: a team that comes in goes to the end, one that is deleted leaves its
position, and one that is stored again keeps it. Main statement: `arrive_apply`, for every edit that
goes through. A list of ids is the order of the teams as soon as it has the stored ids with rising
places (`Lists.eq_order`), so nothing has to be known about sorting after that.
-/

namespace TeamRoster

/-- What an edit does to the order in which the teams came in. -/
def Edit.arrive (order : List Ident) : Edit → List Ident
  | createTeam t => if t.id ∈ order then order else order ++ [t.id]
  | deleteTeam team => order.erase team
  | addMember _ _ | removeMember _ _ | setStatus _ _ _ => order

namespace Store

variable {s d : Store} {ids : List Ident} {team : Ident} {r : TeamRecord}

/-- The ids of the stored teams, in order. -/
def order (s : Store) : List Ident :=
  s.orderedTeams.map Prod.fst

/-- The places of different teams are different, and all of them were given out before. -/
structure Placed (s : Store) : Prop where
  given (id : Ident) (r : TeamRecord) : s.teams.find? id = some r → r.place < s.nextPlace
  apart (a b : Ident) (r q : TeamRecord) :
    s.teams.find? a = some r → s.teams.find? b = some q → r.place = q.place → a = b

/-- Wherever records are found under two ids, the place of the first one is lower. -/
def Before (s : Store) (a b : Ident) : Prop :=
  ∀ r q, s.teams.find? a = some r → s.teams.find? b = some q → r.place < q.place

/-- The list has the ids of the stored teams, with rising places. -/
structure Lists (s : Store) (ids : List Ident) : Prop where
  mem (id : Ident) : id ∈ ids ↔ ∃ r, s.teams.find? id = some r
  rising : ids.Pairwise s.Before

theorem mem_order {id : Ident} : id ∈ s.order ↔ ∃ r, s.teams.find? id = some r := by
  simp [order, orderedTeams, List.mem_mergeSort, Directory.find?_eq_some]

theorem nodup_order (s : Store) : s.order.Nodup := by
  have hperm : s.order.Perm s.teams.keys := (List.mergeSort_perm _ _).map Prod.fst
  exact hperm.nodup_iff.2 s.teams.nodup

/-- Sorting by places lists the teams with rising places. -/
theorem Placed.lists (h : s.Placed) : s.Lists s.order where
  mem id := mem_order
  rising := by
    have hsorted : s.orderedTeams.Pairwise fun a b => a.2.place ≤ b.2.place := by
      refine (List.pairwise_mergeSort ?_ ?_ s.teams.entries).imp (by simp)
      · intro a b c hab hbc
        simp only [decide_eq_true_eq] at hab hbc ⊢
        omega
      · intro a b
        simp only [Bool.or_eq_true, decide_eq_true_eq]
        omega
    have hapart : s.orderedTeams.Pairwise fun a b => a.1 ≠ b.1 :=
      List.pairwise_map.1 s.nodup_order
    refine List.pairwise_map.2 ((hsorted.and hapart).imp_of_mem ?_)
    rintro ⟨a, ra⟩ ⟨b, rb⟩ ha hb ⟨hle, hne⟩ r q hr hq
    have hra : s.teams.find? a = some ra := Directory.find?_eq_some.2 (List.mem_mergeSort.1 ha)
    have hrb : s.teams.find? b = some rb := Directory.find?_eq_some.2 (List.mem_mergeSort.1 hb)
    have hrr : ra = r := Option.some.inj (hra.symm.trans hr)
    have hqq : rb = q := Option.some.inj (hrb.symm.trans hq)
    subst hrr hqq
    exact Nat.lt_of_le_of_ne hle fun hplace => hne (h.apart a b ra rb hr hq hplace)

namespace Lists

theorem nodup (h : s.Lists ids) : ids.Nodup := by
  refine h.rising.imp_of_mem ?_
  rintro a b ha - hab rfl
  obtain ⟨r, hr⟩ := (h.mem a).1 ha
  exact Nat.lt_irrefl _ (hab r r hr hr)

/-- There is only one list of the stored ids with rising places. -/
theorem unique {others : List Ident} (h : s.Lists ids) (h' : s.Lists others) : ids = others := by
  refine List.Perm.eq_of_pairwise ?_ h.rising h'.rising ?_
  · intro a b ha hb hab hba
    obtain ⟨r, hr⟩ := (h.mem a).1 ha
    obtain ⟨q, hq⟩ := (h'.mem b).1 hb
    exact absurd (hab r q hr hq) (Nat.lt_asymm (hba q r hq hr))
  · refine (List.perm_ext_iff_of_nodup h.nodup h'.nodup).2 fun id => ?_
    rw [h.mem, h'.mem]

theorem eq_order (h : s.Lists ids) (hplaced : s.Placed) : s.order = ids :=
  hplaced.lists.unique h

/-- A list of the ids stays one where each id has a record with the same place as before. -/
theorem keep (h : s.Lists ids)
    (hplaces : ∀ id, (d.teams.find? id).map TeamRecord.place =
      (s.teams.find? id).map TeamRecord.place) : d.Lists ids where
  mem id := by
    have hsome := congrArg Option.isSome (hplaces id)
    rw [Option.isSome_map, Option.isSome_map] at hsome
    rw [h.mem, ← Option.isSome_iff_exists, ← Option.isSome_iff_exists, hsome]
  rising := by
    refine h.rising.imp ?_
    intro a b hab r q hr hq
    have ha := hplaces a
    have hb := hplaces b
    rw [hr, Option.map_some, eq_comm, Option.map_eq_some_iff] at ha
    rw [hq, Option.map_some, eq_comm, Option.map_eq_some_iff] at hb
    obtain ⟨r', hr', hra⟩ := ha
    obtain ⟨q', hq', hqb⟩ := hb
    rw [← hra, ← hqb]
    exact hab r' q' hr' hq'

/-- A team that was not there and has a place after all others comes last. -/
theorem enter (h : s.Lists ids) (hnew : s.teams.find? team = none)
    (hlater : ∀ id q, s.teams.find? id = some q → q.place < r.place)
    (hfound : ∀ id, d.teams.find? id = if id = team then some r else s.teams.find? id) :
    d.Lists (ids ++ [team]) := by
  have hout : team ∉ ids := by
    rw [h.mem, hnew]
    simp
  have hold : ∀ id ∈ ids, d.teams.find? id = s.teams.find? id := by
    intro id hid
    rw [hfound, if_neg (ne_of_mem_of_not_mem hid hout)]
  constructor
  · intro id
    rw [List.mem_append, List.mem_singleton, h.mem, hfound]
    by_cases hid : id = team
    · simp [hid]
    · simp [hid]
  · rw [List.pairwise_append]
    refine ⟨h.rising.imp_of_mem ?_, List.pairwise_singleton _ _, ?_⟩
    · intro a b ha hb hab r q hr hq
      rw [hold a ha] at hr
      rw [hold b hb] at hq
      exact hab r q hr hq
    · intro a ha b hb q q' hq hq'
      rw [List.mem_singleton.1 hb, hfound, if_pos rfl] at hq'
      rw [hold a ha] at hq
      cases hq'
      exact hlater a q hq

/-- A team that is gone is missing from the list. -/
theorem drop (h : s.Lists ids)
    (hfound : ∀ id, d.teams.find? id = if id = team then none else s.teams.find? id) :
    d.Lists (ids.erase team) := by
  constructor
  · intro id
    rw [h.nodup.mem_erase_iff, h.mem, hfound]
    by_cases hid : id = team
    · simp [hid]
    · simp [hid]
  · refine (h.rising.erase team).imp ?_
    intro a b hab r q hr hq
    rw [hfound] at hr hq
    split at hr
    · cases hr
    · split at hq
      · cases hq
      · exact hab r q hr hq

end Lists

namespace Placed

/-- Places stay apart where no record has a place that it did not have, and none is taken back. -/
theorem keep (h : s.Placed) (hnext : s.nextPlace ≤ d.nextPlace)
    (hplaces : ∀ id q, d.teams.find? id = some q →
      ∃ r, s.teams.find? id = some r ∧ r.place = q.place) : d.Placed where
  given id q hq := by
    obtain ⟨r, hr, hplace⟩ := hplaces id q hq
    have hlt := h.given id r hr
    omega
  apart a b r q hr hq hplace := by
    obtain ⟨r', hr', hra⟩ := hplaces a r hr
    obtain ⟨q', hq', hqb⟩ := hplaces b q hq
    exact h.apart a b r' q' hr' hq' (by rw [hra, hqb, hplace])

/-- A team that was not there gets the next place. -/
theorem enter (h : s.Placed) (hplace : r.place = s.nextPlace)
    (hnext : d.nextPlace = s.nextPlace + 1)
    (hfound : ∀ id, d.teams.find? id = if id = team then some r else s.teams.find? id) :
    d.Placed := by
  have hother : ∀ id q, d.teams.find? id = some q →
      (id = team ∧ q.place = s.nextPlace) ∨ (q.place < s.nextPlace ∧ s.teams.find? id = some q) := by
    intro id q hq
    rw [hfound] at hq
    split at hq
    · cases hq
      exact .inl ⟨‹_›, hplace⟩
    · exact .inr ⟨h.given id q hq, hq⟩
  constructor
  · intro id q hq
    rcases hother id q hq with ⟨-, heq⟩ | ⟨hlt, -⟩ <;> omega
  · intro a b q q' hq hq' heq
    rcases hother a q hq with ⟨rfl, ha⟩ | ⟨ha, hqa⟩
    · rcases hother b q' hq' with ⟨rfl, -⟩ | ⟨hb, -⟩
      · rfl
      · omega
    · rcases hother b q' hq' with ⟨-, hb⟩ | ⟨-, hqb⟩
      · omega
      · exact h.apart a b q q' hqa hqb heq

end Placed

/-- The record that a stored team has afterwards: its old place, or the next one. -/
theorem find?_entered (t : Team) (id : Ident) :
    (s.publish (s.enter s.stage t)).teams.find? id =
      if id = t.id then
        some (t.record (((s.teams.find? t.id).map TeamRecord.place).getD s.nextPlace))
      else s.teams.find? id := by
  rw [find?_publish, staged?_enter, staged?_stage]
  rfl

theorem nextPlace_entered (t : Team) :
    (s.publish (s.enter s.stage t)).nextPlace =
      if (s.teams.find? t.id).isSome then s.nextPlace else s.nextPlace + 1 :=
  s.enter_nextPlace s.stage t

/-- A write that leaves each team in its place keeps places and order. -/
theorem Placed.keep_order (h : s.Placed) (hnext : s.nextPlace ≤ d.nextPlace)
    (hplaces : ∀ id, (d.teams.find? id).map TeamRecord.place =
      (s.teams.find? id).map TeamRecord.place) : d.Placed ∧ d.order = s.order := by
  have hplaced : d.Placed := by
    refine h.keep hnext fun id q hq => ?_
    have hid := hplaces id
    rwa [hq, Option.map_some, eq_comm, Option.map_eq_some_iff] at hid
  exact ⟨hplaced, (h.lists.keep hplaces).eq_order hplaced⟩

/-- One record is written, in the place of the one that was there. -/
theorem Placed.rewrite_order (h : s.Placed) {q : TeamRecord} (hr : s.teams.find? team = some r)
    (hplace : q.place = r.place) :
    (s.rewrite team (some q)).Placed ∧ (s.rewrite team (some q)).order = s.order := by
  refine h.keep_order (Nat.le_refl _) fun id => ?_
  rw [find?_rewrite]
  by_cases hid : id = team
  · simp [hid, hr, hplace]
  · simp [hid]

/-- An edit that goes through keeps places apart, and the order of the teams becomes what it does to
it. -/
theorem Placed.arrive_apply (h : s.Placed) {e : Edit} (happly : s.apply e = .ok d) :
    d.Placed ∧ d.order = e.arrive s.order := by
  cases e with
  | createTeam t =>
      obtain ⟨-, -, rfl⟩ := apply_createTeam_eq_ok.1 happly
      rw [Edit.arrive]
      cases hr : s.teams.find? t.id with
      | some r =>
          rw [if_pos (mem_order.2 ⟨r, hr⟩)]
          refine h.keep_order (by simp [nextPlace_entered, hr]) fun id => ?_
          rw [find?_entered]
          by_cases hid : id = t.id
          · simp [hid, hr, Team.record]
          · simp [hid]
      | none =>
          have hout : t.id ∉ s.order := by
            rw [mem_order, hr]
            simp
          have hfound : ∀ id, (s.publish (s.enter s.stage t)).teams.find? id =
              if id = t.id then some (t.record s.nextPlace) else s.teams.find? id := by
            intro id
            rw [find?_entered, hr]
            rfl
          have hplaced : (s.publish (s.enter s.stage t)).Placed :=
            h.enter rfl (by simp [nextPlace_entered, hr]) hfound
          rw [if_neg hout]
          exact ⟨hplaced, (h.lists.enter hr h.given hfound).eq_order hplaced⟩
  | deleteTeam team =>
      obtain ⟨-, rfl⟩ := apply_deleteTeam_eq_ok.1 happly
      have hfound := s.find?_rewrite team none
      have hplaced : (s.rewrite team none).Placed := by
        refine h.keep (Nat.le_refl _) fun id q hq => ?_
        rw [hfound] at hq
        split at hq
        · cases hq
        · exact ⟨q, hq, rfl⟩
      exact ⟨hplaced, (h.lists.drop hfound).eq_order hplaced⟩
  | addMember team member =>
      obtain ⟨-, r, hr, rfl⟩ := apply_addMember_eq_ok.1 happly
      exact h.rewrite_order hr rfl
  | removeMember team member =>
      obtain ⟨r, hr, -, rfl⟩ := apply_removeMember_eq_ok.1 happly
      exact h.rewrite_order hr rfl
  | setStatus member before after =>
      obtain ⟨m, -, -, rfl⟩ := apply_setStatus_eq_ok.1 happly
      exact h.keep_order (Nat.le_refl _) fun id => rfl

end Store

end TeamRoster
