import TeamRoster.Proofs.Tables.Reads
import TeamRoster.Proofs.Tables.Storable
import TeamRoster.Proofs.Workflow.Alike
import TeamRoster.Proofs.Workflow.Fitting

/-!
# Writes to tables and to their twin

A write that suits the store is taken by the tables as by the store whose twins they are, if there
is room for it (`Twins.write`), and otherwise the database refuses it (`Twins.write_refused`). There
is room as long as the highest position in the tables is low enough, and a write that suits the
store makes it rise by one at most (`Twins.below_write`, `Tables.Below.hasRoom_write`).
-/

namespace TeamRoster

open scoped List

namespace Query

/-- To give members their seats, tables do not look at times. -/
theorem insertMembers_dated (team : Team) (position : Nat) (ms : List Member) :
    insertMembers team.dated position (ms.map Member.timeless) =
      insertMembers team position ms := by
  induction ms generalizing position with
  | nil => rfl
  | cons m ms ih =>
      rw [List.map_cons, insertMembers, insertMembers]
      simp only [ih]
      rfl

theorem insertTeam_dated (team : Team) : insertTeam team.dated = insertTeam team := by
  have hmembers := insertMembers_dated team 0 team.members
  rw [insertTeam, insertTeam]
  simp only [Team.dated] at hmembers ⊢
  rw [hmembers]
  rfl

theorem edit_dated (e : Edit) : edit e.dated = edit e := by
  cases e with
  | createTeam t => exact insertTeam_dated t
  | deleteTeam team | addMember team member | removeMember team member => rfl
  | setStatus member before after => rfl

theorem edits_dated (es : List Edit) : edits (es.map Edit.dated) = edits es := by
  induction es with
  | nil => rfl
  | cons e es ih => rw [List.map_cons, edits, edits, edit_dated, ih]

theorem change_dated (c : ChangeSet) : change c.dated = change c := by
  rw [change, change, ChangeSet.dated, edits_dated]

end Query

/-- A write in which members are without times is the same to tables. -/
theorem Tables.write_dated (x : Write) (t : Tables) :
    Storage.write Tables.storage x.dated t = Storage.write Tables.storage x t := by
  cases x with
  | save m => rfl
  | form team => exact congrArg (fun q => q.atomically t) (Query.insertTeam_dated team)
  | commit c => exact congrArg (fun q => q.atomically t) (Query.change_dated c)

section Writes

/-- Each of the times is later than those of all teams in the tables, and than those before it. -/
structure Tables.Awaits (t : Tables) (times : List Instant) : Prop where
  later (time : Instant) : time ∈ times → ∀ r ∈ t.teams, r.createdAt.Before time.toMicros
  rising : times.Pairwise fun a b => a.toMicros.Before b.toMicros

/-- No time of a team is new after a write, but for these times. -/
def Tables.Dates (t d : Tables) (times : List Instant) : Prop :=
  ∀ r ∈ d.teams, (∃ q ∈ t.teams, r.createdAt = q.createdAt) ∨
    ∃ time ∈ times, r.createdAt = time.toMicros

theorem Tables.Dates.same {t d : Tables} (h : d.teams = t.teams) (times : List Instant) :
    t.Dates d times := by
  intro r hr
  exact .inl ⟨r, h ▸ hr, rfl⟩

/-- There is room in the tables for what is written. -/
def Write.HasRoom (t : Tables) : Write → Prop
  | save m => m.Storable
  | form new => (Edit.createTeam new).HasRoom t
  | commit c => t.HasRoom c.edits

namespace Twins

variable {t d : Tables} {s : Store} {times : List Instant}

/-- Edits that suit the store leave the teams in the order in which the store has them. -/
theorem lists_edits (h : Twins t s) {es : List Edit} (hes : s.Suits times es) (ht : t.Awaits times)
    (hd : (Query.edits es).effect t = .ok d) :
    d.Lists (es.foldl Edit.arrive s.order) ∧ t.Dates d times := by
  have hmem {new : Team} (hnew : new ∈ es.filterMap Edit.created?) : new.createdAt ∈ times :=
    hes.created.subset (List.mem_map_of_mem hnew)
  have hrising := ht.rising.sublist hes.created
  rw [List.pairwise_map] at hrising
  obtain ⟨hlists, hdates⟩ := h.lists.edits hd (fun new hnew => ht.later _ (hmem hnew)) hrising
  refine ⟨hlists, fun r hr => (hdates r hr).imp_right ?_⟩
  rintro ⟨new, hnew, heq⟩
  exact ⟨new.createdAt, hmem hnew, heq⟩

/-- A member who can be stored is saved on both sides. -/
theorem save (h : Twins t s) {m : Member} (hm : m.Storable) :
    (Tables.storage (.saveMember m) t).1 = .ok () ∧
      Twins (Tables.storage (.saveMember m) t).2 (s.saveMember m) ∧
      t.Dates (Tables.storage (.saveMember m) t).2 times := by
  have hteams := t.saveMember_teams (.ofMember m)
  rw [Tables.storage_saveMember hm t]
  exact ⟨rfl, ⟨h.mirrors.saveMember m, h.lists.congr hteams, h.orderly.saveMember m⟩,
    .same hteams times⟩

/-- A team for which there is room is formed on both sides or on neither. -/
theorem form (h : Twins t s) {new : Team} (hx : (Write.form new).Suits s times)
    (ht : t.Awaits times) (hroom : (Edit.createTeam new).HasRoom t) :
    ((Query.insertTeam new).atomically t).1 = (s.written (s.apply (.createTeam new))).1 ∧
      Twins ((Query.insertTeam new).atomically t).2 (s.written (s.apply (.createTeam new))).2 ∧
      t.Dates ((Query.insertTeam new).atomically t).2 times := by
  have hnew : (Edit.createTeam new) ∈ (Write.form new).request.edits := List.mem_cons_self
  have horderly := hx.orderly h.orderly
  have horder := (h.orderly.formed.write (.createTeam new)).2
  have htogether := h.mirrors.createTeam (hx.edits.seatable _ hnew) hroom
  have hlists (d : Tables) (hd : (Query.insertTeam new).effect t = .ok d) :
      d.Lists ([Edit.createTeam new].foldl Edit.arrive s.order) ∧ t.Dates d times := by
    refine h.lists_edits hx.edits ht ?_
    rw [Query.effect_edits_singleton]
    exact hd
  change (s.written (s.apply (.createTeam new))).2.Orderly at horderly
  rw [Query.atomically_eq]
  generalize (Query.insertTeam new).effect t = outcome at htogether hlists
  generalize s.apply (.createTeam new) = applied at htogether horder horderly
  cases htogether with
  | ok related =>
      obtain ⟨hlist, hdates⟩ := hlists _ rfl
      exact ⟨rfl, ⟨related, horder ▸ hlist, horderly⟩, hdates⟩
  | error same =>
      exact ⟨congrArg _ (same (hx.edits.known _ hnew)), h, .same rfl times⟩

/-- A change set for which there is room is committed on both sides or on neither. -/
theorem commit (h : Twins t s) {c : ChangeSet} (hx : (Write.commit c).Suits s times)
    (ht : t.Awaits times) (hroom : t.HasRoom c.edits) :
    ((Query.change c).atomically t).1 = (s.commit c).1 ∧
      Twins ((Query.change c).atomically t).2 (s.commit c).2 ∧
      t.Dates ((Query.change c).atomically t).2 times := by
  obtain ⟨htogether, hmirrors⟩ := h.mirrors.commit hx.edits.seatable hroom
  have horderly := hx.orderly h.orderly
  have horder := (h.orderly.formed.commit c).2
  have hlists (d : Tables) (hd : (Query.change c).effect t = .ok d) :
      d.Lists (c.edits.foldl Edit.arrive s.order) ∧ t.Dates d times :=
    h.lists_edits hx.edits ht (Query.effect_edits_of_change h.mirrors hd)
  change (s.commit c).2.Orderly at horderly
  rw [Query.atomically_eq] at htogether hmirrors ⊢
  generalize (Query.change c).effect t = outcome at htogether hmirrors hlists
  generalize s.commit c = committed at htogether hmirrors horder horderly
  obtain ⟨reply, after⟩ := committed
  cases outcome with
  | ok d =>
      obtain ⟨hlist, hdates⟩ := hlists d rfl
      cases htogether with
      | ok related => exact ⟨rfl, ⟨hmirrors, horder ▸ hlist, horderly⟩, hdates⟩
  | error x =>
      cases htogether with
      | error same =>
          exact ⟨congrArg _ (same hx.fits), ⟨hmirrors, horder ▸ h.lists, horderly⟩,
            .same rfl times⟩

/-- A write that suits the store and for which there is room is taken on both sides or on neither,
for the same reason, and the tables are twins of the store again. -/
theorem write (h : Twins t s) {x : Write} (hx : x.Suits s times) (ht : t.Awaits times)
    (hroom : x.HasRoom t) :
    (Storage.write Tables.storage x t).1 = (Storage.write Store.storage x s).1 ∧
      Twins (Storage.write Tables.storage x t).2 (Storage.write Store.storage x s).2 ∧
      t.Dates (Storage.write Tables.storage x t).2 times := by
  cases x with
  | save m => exact h.save hroom
  | form new => exact h.form hx ht hroom
  | commit c => exact h.commit hx ht hroom

end Twins

end Writes

section Positions

variable {t d : Tables} {s : Store} {times : List Instant} {n : Nat}

/-- Edits that suit a store create teams of four at most, at times that can be stored. -/
theorem Store.Suits.modest {es : List Edit} (h : s.Suits times es)
    (htimes : ∀ time ∈ times, time.isStorable = true) (hfour : 4 ≤ n) : ∀ e ∈ es, e.Modest n := by
  intro e he
  cases e with
  | createTeam new =>
      have hnew : new ∈ es.filterMap Edit.created? := List.mem_filterMap.2 ⟨_, he, rfl⟩
      have htime := h.created.subset (List.mem_map_of_mem hnew)
      exact ⟨(h.seats _ he).2.trans hfour, htimes _ htime⟩
  | deleteTeam _ | addMember _ _ | removeMember _ _ | setStatus _ _ _ => trivial

/-- There is room for a write that suits a store, if it saves nobody who cannot be stored, as long
as there is a position behind the highest one. -/
theorem Tables.Below.hasRoom_write (h : t.Below n) (hfour : 4 ≤ n) (hn : n + 1 ≤ places)
    {x : Write} (hx : x.Suits s times) (htimes : ∀ time ∈ times, time.isStorable = true)
    (hsaved : ∀ m, x = .save m → m.Storable) : x.HasRoom t := by
  have hjoins := hx.edits.joins
  have hroom : t.HasRoom x.request.edits :=
    (h.edits (hx.edits.modest htimes hfour) (by omega)).1
  cases x with
  | save m => exact hsaved m rfl
  | form new => exact hroom.1
  | commit c => exact hroom

/-- A write that suits the store and for which there is no room is refused by the database for lack
of a position, if it saves nobody who cannot be stored, and the tables are as before. -/
theorem Twins.write_refused (h : Twins t s) {x : Write} (hx : x.Suits s times)
    (htimes : ∀ time ∈ times, time.isStorable = true) (hsaved : ∀ m, x = .save m → m.Storable)
    (hroom : ¬ x.HasRoom t) :
    Storage.write Tables.storage x t = (.error Query.noPosition, t) := by
  have hmodest := hx.edits.modest htimes (Nat.le_refl 4)
  cases x with
  | save m => exact absurd (hsaved m rfl) hroom
  | form new => exact absurd (hmodest _ List.mem_cons_self).2 hroom
  | commit c =>
      obtain ⟨e, he, ⟨d, hnone⟩, hrefused⟩ :=
        Query.atomically_change_of_not_hasRoom h.mirrors hx.meets hroom
      rw [(hmodest e he).refusal hnone] at hrefused
      exact hrefused

/-- The rows of the members of teams after a write are those before it, or what its edits make of
them. -/
theorem Mirrors.memberships_write (h : Mirrors t s) (x : Write) :
    (Storage.write Tables.storage x t).2.memberships = t.memberships ∨
      (Query.edits x.request.edits).effect t = .ok (Storage.write Tables.storage x t).2 := by
  cases x with
  | save m =>
      left
      by_cases hm : m.Storable
      · have hsaved := Tables.storage_saveMember hm t
        change (Tables.storage (.saveMember m) t).2.memberships = _
        rw [hsaved]
        exact t.saveMember_memberships _
      · obtain ⟨text, hrefused⟩ := Tables.storage_saveMember_refused hm t
        change (Tables.storage (.saveMember m) t).2.memberships = _
        rw [hrefused]
  | form new =>
      change ((Query.insertTeam new).atomically t).2.memberships = _ ∨
        (Query.edits [.createTeam new]).effect t = .ok ((Query.insertTeam new).atomically t).2
      rw [Query.effect_edits_singleton, Query.edit, Query.atomically_eq]
      cases (Query.insertTeam new).effect t with
      | ok d => exact .inr rfl
      | error e => exact .inl rfl
  | commit c =>
      change ((Query.change c).atomically t).2.memberships = _ ∨
        (Query.edits c.edits).effect t = .ok ((Query.change c).atomically t).2
      rw [Query.atomically_eq]
      cases hd : (Query.change c).effect t with
      | ok d => exact .inr (Query.effect_edits_of_change h hd)
      | error e => exact .inl rfl

/-- A write that suits the store makes the highest position rise by one at most. -/
theorem Twins.below_write (h : Twins t s) (hbelow : t.Below n) (hfour : 4 ≤ n) {x : Write}
    (hx : x.Suits s times) (htimes : ∀ time ∈ times, time.isStorable = true) :
    (Storage.write Tables.storage x t).2.Below (n + 1) := by
  by_cases hn : n + 1 ≤ Tables.places
  · rcases h.mirrors.memberships_write x with hkept | hd
    · exact (hbelow.mono (Nat.le_succ n)).drop fun m hm => hkept ▸ hm
    · have hjoins := hx.edits.joins
      have hrisen := (hbelow.edits (hx.edits.modest htimes hfour) (by omega)).2 _ hd
      exact hrisen.mono (by omega)
  · exact (Tables.below_places _).mono (by omega)

end Positions

end TeamRoster
