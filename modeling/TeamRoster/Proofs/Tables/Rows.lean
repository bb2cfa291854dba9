import Mathlib.Data.List.Induction
import Mathlib.Data.List.Nodup
import Mathlib.Data.List.Pairwise
import TeamRoster.Tables.Statement

/-!
# Rows in order

Statements list rows by a key: memberships by their positions, teams by the times of their creation.
A list of the rows with rising keys is what sorting gives (`Seats.membershipsOf_eq`,
`Ranks.orderedTeams_eq`), so that nothing else has to be known about sorting. `Seats` and `Ranks` are
carried from one state of the tables to the next: a row that comes in goes to the end if its key is
the highest, rows that are dropped are missing, and the others keep their order. A team has a next
position, above all that are taken, unless one of its members has the greatest there is.
-/

namespace TeamRoster

open scoped List

/-- A sorted list is the one with the same elements whose keys rise strictly. -/
theorem eq_of_rising {α : Type} {le : α → α → Bool} {xs ys : List α} (hperm : xs ~ ys)
    (hsorted : xs.Pairwise fun a b => le a b = true)
    (hrising : ys.Pairwise fun a b => le a b = true ∧ le b a = false) : xs = ys := by
  -- Of two elements one comes first in the list, so that the other one is not below it.
  have hsymm : Std.Symm fun a b => le a b = false ∨ le b a = false := ⟨fun _ _ h => h.symm⟩
  have hapart := (hrising.imp (S := fun a b => le a b = false ∨ le b a = false)
    fun h => .inr h.2).forall
  refine List.Perm.eq_of_pairwise ?_ hsorted (hrising.imp And.left) hperm
  intro a b ha hb hab hba
  by_contra hne
  rcases hapart (hperm.mem_iff.1 ha) hb hne with h | h
  · rw [hab] at h
    cases h
  · rw [hba] at h
    cases h

namespace Ident

/-- Digits of the same number, as many of them, are the same. -/
theorem digits_eq_of_foldl {as bs : List (Fin 16)} (hlength : as.length = bs.length)
    (h : as.foldl (fun n d => 16 * n + d.val) 0 = bs.foldl (fun n d => 16 * n + d.val) 0) :
    as = bs := by
  induction as using List.reverseRecOn generalizing bs with
  | nil => exact (List.length_eq_zero_iff.1 hlength.symm).symm
  | append_singleton as a ih =>
      rcases List.eq_nil_or_concat bs with rfl | ⟨bs, b, rfl⟩
      · simp at hlength
      · rw [List.concat_eq_append] at hlength h ⊢
        simp only [List.foldl_append, List.foldl_cons, List.foldl_nil] at h
        have ha := a.isLt
        have hb := b.isLt
        have hlast : a = b := Fin.ext (by omega)
        rw [ih (by simpa using hlength) (by omega), hlast]

theorem ble_trans {a b c : Ident} (hab : a.ble b = true) (hbc : b.ble c = true) :
    a.ble c = true := by
  simp only [ble, decide_eq_true_eq] at *
  omega

theorem ble_total (a b : Ident) : (a.ble b || b.ble a) = true := by
  simp only [ble, Bool.or_eq_true, decide_eq_true_eq]
  omega

/-- Two ids of which neither is greater are the same. -/
theorem ble_antisymm {a b : Ident} (hab : a.ble b = true) (hba : b.ble a = true) : a = b := by
  simp only [ble, decide_eq_true_eq] at hab hba
  have hdigits := digits_eq_of_foldl (a.size_eq.trans b.size_eq.symm) (Nat.le_antisymm hab hba)
  cases a
  cases b
  cases hdigits
  rfl

end Ident

namespace Instant

/-- Strictly earlier. -/
def Before (a b : Instant) : Prop :=
  a.minute < b.minute ∨ (a.minute = b.minute ∧ a.nanos < b.nanos)

instance (a b : Instant) : Decidable (a.Before b) :=
  inferInstanceAs (Decidable (_ ∨ _))

theorem ble_trans {a b c : Instant} (hab : a.ble b = true) (hbc : b.ble c = true) :
    a.ble c = true := by
  simp only [ble, decide_eq_true_eq] at *
  omega

theorem ble_total (a b : Instant) : (a.ble b || b.ble a) = true := by
  simp only [ble, Bool.or_eq_true, decide_eq_true_eq]
  omega

theorem ble_antisymm {a b : Instant} (hab : a.ble b = true) (hba : b.ble a = true) : a = b := by
  cases a
  cases b
  simp only [ble, decide_eq_true_eq] at hab hba
  simp only [mk.injEq]
  omega

theorem Before.ble {a b : Instant} (h : a.Before b) : a.ble b = true := by
  unfold Before at h
  simp only [Instant.ble, decide_eq_true_eq]
  omega

theorem Before.not_ble {a b : Instant} (h : a.Before b) : b.ble a = false := by
  unfold Before at h
  simp only [Instant.ble, decide_eq_false_iff_not]
  omega

theorem Before.ne {a b : Instant} (h : a.Before b) : a ≠ b := by
  rintro rfl
  unfold Before at h
  omega

end Instant

namespace Tables

variable {t d : Tables}

section Positions

variable {team : Ident} {m : Membership} {p : Int32}

/-- The greater one of two positions is above both. -/
instance : Std.LawfulOrderMax Int32 where
  max_eq_or a b := by
    change (if a ≤ b then b else a) = a ∨ (if a ≤ b then b else a) = b
    split <;> simp
  max_le_iff a b c := by
    change (if a ≤ b then b else a) ≤ c ↔ a ≤ c ∧ b ≤ c
    split <;> grind

/-- The number of positions from zero on. -/
def places : Nat := 2147483648

/-- A number that is a position is the one that it stands for. -/
theorem toInt_ofNat {n : Nat} (h : n < places) : (Int32.ofNat n).toInt = n :=
  Int32.toInt_ofNat_of_lt h

/-- A position that is not the greatest one is followed by the next number. -/
theorem toInt_succ (h : p ≠ Int32.maxValue) : (p + 1).toInt = p.toInt + 1 := by
  have hlower := p.le_toInt
  have hupper := p.toInt_lt
  have hne : p.toInt ≠ 2 ^ 31 - 1 := fun heq =>
    h (Int32.toInt_inj.1 (heq.trans Int32.toInt_maxValue.symm))
  rw [Int32.toInt_add, Int.bmod_eq_of_le] <;> simp <;> omega

/-- A team without members starts at zero, and others go on behind their last member, unless that is at
the greatest position. -/
theorem nextPosition?_spec (t : Tables) (team : Ident) :
    (∀ m ∈ t.memberships, m.team ≠ team) ∧ t.nextPosition? team = some 0 ∨
      ∃ last ∈ t.memberships, last.team = team ∧
        (∀ m ∈ t.memberships, m.team = team → m.position ≤ last.position) ∧
        t.nextPosition? team =
          if last.position = Int32.maxValue then none else some (last.position + 1) := by
  have hrow (p : Int32) :
      p ∈ (t.memberships.filter fun m => m.team == team).map Membership.position ↔
        ∃ m ∈ t.memberships, m.team = team ∧ m.position = p := by
    simp [and_assoc]
  unfold nextPosition?
  cases hmax : ((t.memberships.filter fun m => m.team == team).map Membership.position).max? with
  | none =>
      rw [List.max?_eq_none_iff, List.map_eq_nil_iff, List.filter_eq_nil_iff] at hmax
      exact .inl ⟨fun m hm hteam => hmax m hm (by simpa using hteam), rfl⟩
  | some last =>
      obtain ⟨hlast, hhighest⟩ := List.max?_eq_some_iff.1 hmax
      obtain ⟨m, hm, hteam, rfl⟩ := (hrow last).1 hlast
      exact .inr ⟨m, hm, hteam, fun k hk hkteam => hhighest _ ((hrow _).2 ⟨k, hk, hkteam, rfl⟩), rfl⟩

/-- A team has a next position unless one of its members has the greatest one. -/
theorem nextPosition?_eq_none : t.nextPosition? team = none ↔
    ∃ m ∈ t.memberships, m.team = team ∧ m.position = Int32.maxValue := by
  rcases t.nextPosition?_spec team with ⟨hnobody, hnext⟩ | ⟨last, hlast, hteam, hhighest, hnext⟩
  · rw [hnext]
    exact iff_of_false (by simp) fun ⟨m, hm, hteam, _⟩ => hnobody m hm hteam
  · rw [hnext]
    constructor
    · intro h
      exact ⟨last, hlast, hteam, by simpa using h⟩
    · rintro ⟨m, hm, hmteam, hgreatest⟩
      have hle := Int32.le_iff_toInt_le.1 (hhighest m hm hmteam)
      rw [hgreatest] at hle
      exact if_pos (Int32.toInt_inj.1 (Int.le_antisymm last.position.toInt_le hle))

/-- The next position is above those of all members of the team. -/
theorem lt_nextPosition? (h : t.nextPosition? team = some p) (hm : m ∈ t.memberships)
    (hteam : m.team = team) : m.position < p := by
  rcases t.nextPosition?_spec team with ⟨hnobody, -⟩ | ⟨last, -, -, hhighest, hnext⟩
  · exact absurd hteam (hnobody m hm)
  · have hle := Int32.le_iff_toInt_le.1 (hhighest m hm hteam)
    rw [h] at hnext
    split at hnext
    · cases hnext
    · rename_i hne
      have hsucc := toInt_succ hne
      rw [Option.some.inj hnext, Int32.lt_iff_toInt_lt]
      omega

/-- The next position is zero, or follows that of a member of the team. -/
theorem toInt_nextPosition? (h : t.nextPosition? team = some p) :
    p = 0 ∨ ∃ m ∈ t.memberships, m.team = team ∧ p.toInt = m.position.toInt + 1 := by
  rcases t.nextPosition?_spec team with ⟨-, hnext⟩ | ⟨last, hlast, hteam, -, hnext⟩
  · exact .inl (Option.some.inj (h.symm.trans hnext))
  · rw [h] at hnext
    split at hnext
    · cases hnext
    · rename_i hne
      exact .inr ⟨last, hlast, hteam, by rw [Option.some.inj hnext, toInt_succ hne]⟩

end Positions

section Seats

variable {team : Ident} {row : Membership} {seats : List Membership}

/-- The memberships of a team in the order of their positions, which are all different. -/
structure Seats (t : Tables) (team : Ident) (seats : List Membership) : Prop where
  perm : seats ~ t.memberships.filter fun m => m.team == team
  rising : seats.Pairwise fun a b => a.position < b.position

namespace Seats

theorem mem (h : t.Seats team seats) {m : Membership} :
    m ∈ seats ↔ m ∈ t.memberships ∧ m.team = team := by
  rw [h.perm.mem_iff, List.mem_filter, beq_iff_eq]

theorem rising_le (h : t.Seats team seats) : seats.Pairwise fun a b =>
    decide (a.position ≤ b.position) = true ∧ decide (b.position ≤ a.position) = false := by
  refine h.rising.imp ?_
  intro a b hab
  exact ⟨decide_eq_true (Int32.le_of_lt hab), decide_eq_false (Int32.not_le.2 hab)⟩

/-- The memberships of the team are listed just so. -/
theorem membershipsOf_eq (h : t.Seats team seats) : t.membershipsOf team = seats := by
  refine eq_of_rising ((List.mergeSort_perm _ _).trans h.perm.symm)
    (List.pairwise_mergeSort ?_ ?_ _) h.rising_le
  · intro a b c hab hbc
    exact decide_eq_true (Int32.le_trans (of_decide_eq_true hab) (of_decide_eq_true hbc))
  · intro a b
    simpa using Int32.le_total a.position b.position

/-- They stand in this order among all memberships, too. -/
theorem filter_orderedMemberships (h : t.Seats team seats) :
    (t.orderedMemberships.filter fun m => m.team == team) = seats := by
  have hsorted : t.orderedMemberships.Pairwise fun a b =>
      a.team = b.team → decide (a.position ≤ b.position) = true := by
    refine (List.pairwise_mergeSort ?_ ?_ t.memberships).imp ?_
    · intro a b c hab hbc
      by_cases hac : a.team = c.team
      · by_cases hteam : a.team = b.team
        · have hbc' : b.team = c.team := hteam ▸ hac
          simp only [hteam, hbc', if_true, decide_eq_true_eq] at hab hbc ⊢
          exact Int32.le_trans hab hbc
        · have hbc' : b.team ≠ c.team := fun heq => hteam (hac.trans heq.symm)
          rw [if_neg hteam] at hab
          rw [if_neg hbc', ← hac] at hbc
          exact absurd (Ident.ble_antisymm hab hbc) hteam
      · rw [if_neg hac]
        by_cases hteam : a.team = b.team
        · have hbc' : b.team ≠ c.team := hteam ▸ hac
          rwa [if_neg hbc', ← hteam] at hbc
        · rw [if_neg hteam] at hab
          by_cases hbc' : b.team = c.team
          · rwa [← hbc']
          · rw [if_neg hbc'] at hbc
            exact Ident.ble_trans hab hbc
    · intro a b
      by_cases hteam : a.team = b.team
      · simpa [hteam] using Int32.le_total a.position b.position
      · rw [if_neg hteam, if_neg (Ne.symm hteam)]
        exact Ident.ble_total a.team b.team
    · intro a b hab hteam
      rwa [if_pos hteam] at hab
  refine eq_of_rising (((List.mergeSort_perm _ _).filter _).trans h.perm.symm) ?_ h.rising_le
  refine (hsorted.filter _).imp_of_mem ?_
  intro a b ha hb hab
  simp only [List.mem_filter, beq_iff_eq] at ha hb
  exact hab (ha.2.trans hb.2.symm)

/-- The next position comes after all that are taken. -/
theorem position_lt (h : t.Seats team seats) {p : Int32} (hp : t.nextPosition? team = some p)
    {m : Membership} (hm : m ∈ seats) : m.position < p :=
  lt_nextPosition? hp (h.mem.1 hm).1 (h.mem.1 hm).2

/-- Seats are about memberships alone. -/
theorem congr (h : t.Seats team seats) (hrows : d.memberships = t.memberships) :
    d.Seats team seats where
  perm := hrows ▸ h.perm
  rising := h.rising

/-- A membership at a higher position comes last. -/
theorem enter (h : t.Seats row.team seats) (hhigher : ∀ m ∈ seats, m.position < row.position)
    (hrows : d.memberships = t.memberships ++ [row]) : d.Seats row.team (seats ++ [row]) where
  perm := by
    rw [hrows, List.filter_append]
    exact h.perm.append (by simp)
  rising := by
    refine List.pairwise_append.2 ⟨h.rising, List.pairwise_singleton _ _, ?_⟩
    intro m hm r hr
    rw [List.mem_singleton.1 hr]
    exact hhigher m hm

/-- The memberships of one team do not matter to another. -/
theorem elsewhere (h : t.Seats team seats) (hne : row.team ≠ team)
    (hrows : d.memberships = t.memberships ++ [row]) : d.Seats team seats where
  perm := by
    rw [hrows, List.filter_append]
    simpa [hne] using h.perm
  rising := h.rising

/-- Memberships that are dropped are missing, and the others keep their order. -/
theorem drop (h : t.Seats team seats) {p : Membership → Bool}
    (hrows : d.memberships = t.memberships.filter p) : d.Seats team (seats.filter p) where
  perm := by
    rw [hrows, List.filter_comm]
    exact h.perm.filter p
  rising := h.rising.filter p

end Seats

end Seats

section Ranks

variable {rows : List TeamRow} {row : TeamRow}

/-- The rows of the teams in the order of their creation, which was at different times. -/
structure Ranks (t : Tables) (rows : List TeamRow) : Prop where
  perm : rows ~ t.teams
  rising : rows.Pairwise fun a b => a.createdAt.Before b.createdAt

namespace Ranks

/-- The teams are listed just so. -/
theorem orderedTeams_eq (h : t.Ranks rows) : t.orderedTeams = rows := by
  refine eq_of_rising ((List.mergeSort_perm _ _).trans h.perm.symm)
    (List.pairwise_mergeSort ?_ ?_ _) (h.rising.imp ?_)
  · intro a b c hab hbc
    by_cases hat : a.createdAt = b.createdAt
    · by_cases hbt : b.createdAt = c.createdAt
      · rw [if_pos hat] at hab
        rw [if_pos hbt] at hbc
        rw [if_pos (hat.trans hbt)]
        exact Ident.ble_trans hab hbc
      · have hac : a.createdAt ≠ c.createdAt := hat ▸ hbt
        rw [if_neg hbt, ← hat] at hbc
        rwa [if_neg hac]
    · rw [if_neg hat] at hab
      by_cases hbt : b.createdAt = c.createdAt
      · rwa [← hbt, if_neg hat]
      · rw [if_neg hbt] at hbc
        have hac : a.createdAt ≠ c.createdAt := by
          intro hac
          rw [← hac] at hbc
          exact hat (Instant.ble_antisymm hab hbc)
        rw [if_neg hac]
        exact Instant.ble_trans hab hbc
  · intro a b
    by_cases hat : a.createdAt = b.createdAt
    · rw [if_pos hat, if_pos hat.symm]
      exact Ident.ble_total a.id b.id
    · rw [if_neg hat, if_neg (Ne.symm hat)]
      exact Instant.ble_total a.createdAt b.createdAt
  · intro a b hab
    rw [if_neg hab.ne, if_neg hab.ne.symm]
    exact ⟨hab.ble, hab.not_ble⟩

/-- A team that was created after all others comes last. -/
theorem enter (h : t.Ranks rows) (hlater : ∀ r ∈ t.teams, r.createdAt.Before row.createdAt)
    (hrows : d.teams = t.teams ++ [row]) : d.Ranks (rows ++ [row]) where
  perm := hrows ▸ h.perm.append_right [row]
  rising := by
    refine List.pairwise_append.2 ⟨h.rising, List.pairwise_singleton _ _, ?_⟩
    intro a ha b hb
    rw [List.mem_singleton.1 hb]
    exact hlater a (h.perm.mem_iff.1 ha)

/-- Teams that are dropped are missing, and the others keep their order. -/
theorem drop (h : t.Ranks rows) {p : TeamRow → Bool} (hrows : d.teams = t.teams.filter p) :
    d.Ranks (rows.filter p) where
  perm := hrows ▸ h.perm.filter p
  rising := h.rising.filter p

/-- Rows that change but for their times keep their order. -/
theorem change (h : t.Ranks rows) {f : TeamRow → TeamRow}
    (htimes : ∀ r, (f r).createdAt = r.createdAt) (hrows : d.teams = t.teams.map f) :
    d.Ranks (rows.map f) where
  perm := hrows ▸ h.perm.map f
  rising := by
    rw [List.pairwise_map]
    simpa only [htimes] using h.rising

end Ranks

end Ranks

end Tables

end TeamRoster
