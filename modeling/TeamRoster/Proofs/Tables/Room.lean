import TeamRoster.Proofs.Tables.Edits

/-!
# Room for edits

Edits need room in the tables when it is their turn (`Tables.HasRoom`). The times of new teams have
to be within the range of the database, and each member who joins a team takes the position behind
its last one, which is not there behind the greatest of all. Main statements:
`Query.effect_edits_of_not_hasRoom`, by which the database refuses edits without room, and
`Tables.Below.edits`, by which there is room as long as positions are low enough: no edit makes the
highest one rise by more than one (`Tables.Below.edit`).
-/

namespace TeamRoster

namespace Edit

/-- Whether an edit takes a position behind the last one of a team. -/
def joins : Edit → Bool
  | addMember _ _ => true
  | createTeam _ | deleteTeam _ | removeMember _ _ | setStatus _ _ _ => false

theorem countP_joins_cons (e : Edit) (es : List Edit) :
    (e :: es).countP joins = e.joins.toNat + es.countP joins := by
  rw [List.countP_cons, Nat.add_comm]
  cases e.joins <;> rfl

/-- A team that is created has at most so many members, and a time that can be stored. -/
def Modest (n : Nat) : Edit → Prop
  | createTeam t => t.members.length ≤ n ∧ t.createdAt.isStorable = true
  | deleteTeam _ | addMember _ _ | removeMember _ _ | setStatus _ _ _ => True

instance (n : Nat) : (e : Edit) → Decidable (e.Modest n)
  | createTeam t =>
    inferInstanceAs (Decidable (t.members.length ≤ n ∧ t.createdAt.isStorable = true))
  | deleteTeam _ | addMember _ _ | removeMember _ _ | setStatus _ _ _ =>
    inferInstanceAs (Decidable True)

theorem Modest.mono {n k : Nat} {e : Edit} (h : e.Modest n) (hle : n ≤ k) : e.Modest k := by
  cases e with
  | createTeam new => exact ⟨h.1.trans hle, h.2⟩
  | deleteTeam _ | addMember _ _ | removeMember _ _ | setStatus _ _ _ => trivial

end Edit

namespace Tables

variable {t d : Tables} {n k : Nat}

/-- There is room for each edit when it is its turn. -/
def HasRoom (t : Tables) : List Edit → Prop
  | [] => True
  | e :: es => e.HasRoom t ∧ ∀ d, (Query.edit e).effect t = .ok d → d.HasRoom es

/-- All positions are below a bound. -/
def Below (t : Tables) (n : Nat) : Prop :=
  ∀ m ∈ t.memberships, m.position.toInt < n

instance (t : Tables) (n : Nat) : Decidable (t.Below n) :=
  inferInstanceAs (Decidable (∀ m ∈ t.memberships, m.position.toInt < n))

theorem below_empty (n : Nat) : empty.Below n := by
  rintro m ⟨⟩

theorem Below.mono (h : t.Below n) (hle : n ≤ k) : t.Below k := by
  intro m hm
  have hlt := h m hm
  omega

/-- No position is beyond the greatest of all. -/
theorem below_places (t : Tables) : t.Below places :=
  fun m _ => m.position.toInt_lt

/-- Where positions are not below the greatest of all, this one is taken. -/
theorem exists_greatest (h : ¬ t.Below (places - 1)) :
    ∃ m ∈ t.memberships, m.position = Int32.maxValue := by
  rw [Below] at h
  simp only [not_forall] at h
  obtain ⟨m, hm, hle⟩ := h
  have hupper := t.below_places m hm
  simp only [places] at hle hupper
  refine ⟨m, hm, Int32.toInt_inj.1 ?_⟩
  rw [Int32.toInt_maxValue]
  omega

/-- Positions stay below a bound where rows are only dropped. -/
theorem Below.drop (h : t.Below n) (hrows : ∀ m ∈ d.memberships, m ∈ t.memberships) : d.Below n :=
  fun m hm => h m (hrows m hm)

/-- A membership is inserted at a position below the bound. -/
theorem Below.insert (h : t.Below n) {row : Membership} (hrow : row.position.toInt < n)
    (hinsert : t.insertMembership row = .ok d) : d.Below n := by
  obtain ⟨-, -, rfl⟩ := insertMembership_eq_ok.1 hinsert
  intro m hm
  rcases List.mem_append.1 hm with hm | hm
  · exact h m hm
  · rw [List.mem_singleton.1 hm]
    exact hrow

/-- The members of a new team take positions from zero on. -/
theorem Below.insertMembers (h : t.Below n) (hn : n ≤ places) {team : Team} {position : Nat}
    {ms : List Member} (hms : position + ms.length ≤ n)
    (hd : (Query.insertMembers team position ms).effect t = .ok d) : d.Below n := by
  induction ms generalizing t position with
  | nil =>
      cases hd
      exact h
  | cons m ms ih =>
      rw [List.length_cons] at hms
      obtain ⟨done, mid, hsent, hrest⟩ := (Query.effect_callWith_eq_ok t).1 hd
      obtain ⟨-, hinsert⟩ := execute_membershipInsert_eq_ok.1 hsent
      have hposition : (Int32.ofNat position).toInt = position := toInt_ofNat (by omega)
      refine ih (h.insert ?_ hinsert) (by omega) hrest
      rw [hposition]
      omega

theorem Below.insertTeam (h : t.Below n) (hn : n ≤ places) {team : Team}
    (hteam : team.members.length ≤ n) (hd : (Query.insertTeam team).effect t = .ok d) :
    d.Below n := by
  obtain ⟨done, saved, hsaved, hd⟩ := (Query.effect_callWith_eq_ok t).1 hd
  obtain ⟨-, -, rfl⟩ := execute_teamInsert_eq_ok.1 hsaved
  have hcleared : (t.saveTeam (.ofTeam team)).execute (.teamClear team.id) =
      .ok ((), (t.saveTeam (.ofTeam team)).clearTeam team.id) := rfl
  rw [Query.effect_statement _ hcleared] at hd
  refine Below.insertMembers (h.drop fun m hm => ?_) hn (by omega) hd
  have hkept := List.mem_of_mem_filter hm
  rwa [saveTeam_memberships] at hkept

/-- An edit makes the highest position rise by one at most. -/
theorem Below.edit (h : t.Below n) {e : Edit} (he : e.Modest n) (hn : n ≤ places)
    (hd : (Query.edit e).effect t = .ok d) : d.Below (n + e.joins.toNat) := by
  cases e with
  | createTeam new => exact h.insertTeam hn he.1 hd
  | addMember team member =>
      have hmore : t.Below (n + 1) := h.mono (Nat.le_succ n)
      obtain ⟨p, hp, ⟨-, rfl⟩ | ⟨-, hinsert⟩⟩ :=
        execute_membershipAppend_eq_ok.1 (Query.execute_of_effect_appendMember hd)
      · exact hmore
      · refine hmore.insert ?_ hinsert
        rcases toInt_nextPosition? hp with rfl | ⟨m, hm, -, heq⟩
        · change (0 : Int32).toInt < _
          rw [Int32.toInt_zero]
          omega
        · have hlt := h m hm
          change p.toInt < _
          omega
  | deleteTeam team =>
      rw [Query.edit, Query.effect_deleteTeam] at hd
      split at hd <;> cases hd
      exact h.drop fun m hm => List.mem_of_mem_filter hm
  | removeMember team member =>
      obtain rfl := Query.eq_unseat_of_effect hd
      exact h.drop fun m hm => List.mem_of_mem_filter hm
  | setStatus member before after =>
      rw [Query.effect_setStatus] at hd
      split at hd <;> cases hd
      exact h

/-- There is room for an edit as long as positions are low enough. -/
theorem Below.hasRoom_edit (h : t.Below n) {e : Edit} (he : e.Modest n)
    (hn : n + e.joins.toNat ≤ places) : e.HasRoom t := by
  cases e with
  | createTeam new => exact he.2
  | addMember team member =>
      intro hnone
      obtain ⟨m, hm, -, hgreatest⟩ := nextPosition?_eq_none.1 hnone
      have hlt := h m hm
      have hjoins : n + 1 ≤ 2147483648 := hn
      rw [hgreatest, Int32.toInt_maxValue] at hlt
      omega
  | deleteTeam _ | removeMember _ _ | setStatus _ _ _ => trivial

/-- There is room for edits if positions are so low that those who join find one, and the highest
position rises by as many as join. -/
theorem Below.edits (h : t.Below n) {es : List Edit} (hes : ∀ e ∈ es, e.Modest n)
    (hn : n + es.countP Edit.joins ≤ places) :
    t.HasRoom es ∧
      ∀ d, (Query.edits es).effect t = .ok d → d.Below (n + es.countP Edit.joins) := by
  induction es generalizing t n with
  | nil =>
      refine ⟨trivial, fun d hd => ?_⟩
      cases hd
      exact h
  | cons e es ih =>
      rw [List.forall_mem_cons] at hes
      rw [Edit.countP_joins_cons] at hn ⊢
      have hstep {mid : Tables} (hmid : (Query.edit e).effect t = .ok mid) :=
        ih (h.edit hes.1 (by omega) hmid)
          (fun f hf => (hes.2 f hf).mono (Nat.le_add_right n e.joins.toNat)) (by omega)
      refine ⟨⟨h.hasRoom_edit hes.1 (by omega), fun mid hmid => (hstep hmid).1⟩, fun d hd => ?_⟩
      rw [Query.edits, Query.effect_bind, Failing.bind_eq_ok] at hd
      obtain ⟨mid, hmid, hrest⟩ := hd
      rw [← Nat.add_assoc]
      exact (hstep hmid).2 d hrest

end Tables

/-- The database refuses edits for which there is no room, as it refuses the one that finds none. -/
theorem Query.effect_edits_of_not_hasRoom {t : Tables} {es : List Edit} (h : ¬ t.HasRoom es) :
    ∃ e ∈ es, (∃ d, ¬ e.HasRoom d) ∧ (edits es).effect t = .error e.refusal := by
  induction es generalizing t with
  | nil => exact absurd trivial h
  | cons e es ih =>
      rw [edits, effect_bind]
      by_cases he : e.HasRoom t
      · -- The edit finds room, so that it went through and one that comes later does not.
        rw [Tables.HasRoom, not_and] at h
        have hlater := h he
        simp only [not_forall] at hlater
        obtain ⟨d, hd, hrest⟩ := hlater
        obtain ⟨f, hf, hnone, hrefused⟩ := ih hrest
        rw [hd]
        exact ⟨f, List.mem_cons_of_mem _ hf, hnone, hrefused⟩
      · refine ⟨e, List.mem_cons_self, ⟨t, he⟩, ?_⟩
        rw [effect_edit_of_not_hasRoom he]
        rfl

/-- What is refused for lack of room is that somebody joins, where all times can be stored. -/
theorem Edit.Modest.refusal {n : Nat} {e : Edit} (h : e.Modest n) {t : Tables}
    (hroom : ¬ e.HasRoom t) : e.refusal = Query.noPosition := by
  cases e with
  | createTeam new => exact absurd h.2 hroom
  | deleteTeam _ | addMember _ _ | removeMember _ _ | setStatus _ _ _ => rfl

end TeamRoster
