import Mathlib.Data.List.Nodup
import TeamRoster.Proofs.Failing
import TeamRoster.Team.Basic

/-!
# Laws of team operations

When each operation on a team goes through, and the member list that it leaves. Lists of members are
compared by their ids, since these are all that a storage keeps of them.
-/

namespace TeamRoster

namespace Status

/-- Those who are away may come back. -/
theorem canBecome_active {before : Status} (haway : before ≠ .active) :
    before.canBecome .active = true := by
  cases before with
  | active => exact absurd rfl haway
  | onLeave => rfl
  | withdrawn => rfl

/-- Those who are active may go away. -/
theorem active_canBecome {after : Status} (haway : after ≠ .active) :
    active.canBecome after = true := by
  cases after with
  | active => exact absurd rfl haway
  | onLeave => rfl
  | withdrawn => rfl

/-- No status may be changed into itself. -/
theorem canBecome_self (status : Status) : status.canBecome status = false := by
  cases status <;> rfl

end Status

namespace Member

theorem canJoin_iff {m : Member} : m.canJoin = true ↔ m.status = .active := by
  simp [canJoin]

theorem transition_eq_ok {m changed : Member} {target : Status} :
    m.transition target = .ok changed ↔
      m.status.canBecome target = true ∧ changed = { m with status := target } := by
  unfold transition
  by_cases h : m.status.canBecome target = true
  · simp [h, eq_comm]
  · simp [h]

theorem transition_eq_error {m : Member} {target : Status} {e : RuleError} :
    m.transition target = .error e ↔
      m.status.canBecome target = false ∧ e = .transitionRefused m.status target := by
  unfold transition
  by_cases h : m.status.canBecome target = true
  · simp [h]
  · simp [h, eq_comm]

end Member

namespace Team

variable {t u : Team} {m : Member} {id : Ident} {ms : List Member}

/-- A team with other members. -/
def relist (t : Team) (ms : List Member) : Team :=
  { t with members := ms }

@[simp] theorem relist_id : (t.relist ms).id = t.id := rfl

@[simp] theorem relist_members : (t.relist ms).members = ms := rfl

@[simp] theorem relist_memberIds : (t.relist ms).memberIds = ms.map Member.id := rfl

theorem mem_memberIds : id ∈ t.memberIds ↔ ∃ m ∈ t.members, m.id = id :=
  List.mem_map

theorem mem_memberIds_of_mem (h : m ∈ t.members) : m.id ∈ t.memberIds :=
  List.mem_map_of_mem h

@[simp] theorem length_memberIds : t.memberIds.length = t.size :=
  List.length_map _

theorem contains_iff : t.contains id = true ↔ id ∈ t.memberIds := by
  simp [contains, memberIds]

/-- A team can take one more exactly if it has one to three members. -/
theorem acceptsMember_iff : t.acceptsMember = true ↔ 1 ≤ t.size ∧ t.size ≤ 3 := by
  have hempty : t.members ≠ [] ↔ 1 ≤ t.size := List.length_pos_iff.symm
  simp only [acceptsMember, isEmpty, Bool.and_eq_true, Bool.not_eq_true', List.isEmpty_eq_false_iff,
    decide_eq_true_eq, hempty]
  omega

/-- A member may join a team exactly if the member is active and not in it. -/
theorem checkJoin_eq_ok : t.checkJoin m = .ok () ↔ m.status = .active ∧ m.id ∉ t.memberIds := by
  rw [← contains_iff, ← Member.canJoin_iff]
  cases hjoin : m.canJoin <;> cases hin : t.contains m.id <;> simp [checkJoin, hjoin, hin]

theorem checkJoin_of_away (haway : m.status ≠ .active) :
    t.checkJoin m = .error (.notActive m.id) := by
  have hjoin : m.canJoin = false := by simpa [Member.canJoin] using haway
  simp [checkJoin, hjoin]

theorem checkJoin_of_listed (hactive : m.status = .active) (hlisted : m.id ∈ t.memberIds) :
    t.checkJoin m = .error (.alreadyListed m.id) := by
  simp [checkJoin, Member.canJoin_iff.2 hactive, contains_iff.2 hlisted]

theorem add_eq_ok : t.add m = .ok u ↔
    m.status = .active ∧ m.id ∉ t.memberIds ∧ u = t.relist (t.members ++ [m]) := by
  rw [← and_assoc, ← checkJoin_eq_ok]
  unfold add
  cases t.checkJoin m with
  | error e => simp
  | ok done => simp [relist, eq_comm]

/-- Members are all different with one more at the end if they were before and this one is new. -/
theorem nodup_ids_concat : ((ms ++ [m]).map Member.id).Nodup ↔
    (ms.map Member.id).Nodup ∧ m.id ∉ ms.map Member.id := by
  rw [List.map_append, List.map_singleton, ← List.concat_eq_append, List.nodup_concat, and_comm]

/-- The ids that are left are the former ones without that of the member who was removed. -/
theorem map_id_eraseP (ms : List Member) (id : Ident) :
    (ms.eraseP fun m => m.id == id).map Member.id = (ms.map Member.id).erase id := by
  rw [List.erase_eq_eraseP', List.eraseP_map]
  rfl

theorem remove_eq_ok : t.remove id = .ok (m, u) ↔
    (t.members.find? fun m => m.id == id) = some m ∧
      u = t.relist (t.members.eraseP fun m => m.id == id) := by
  unfold remove
  cases t.members.find? fun m => m.id == id with
  | none => simp
  | some found => simp [relist, eq_comm]

/-- A removal is refused exactly if the member is not in the team. -/
theorem remove_eq_error {e : RuleError} :
    t.remove id = .error e ↔ id ∉ t.memberIds ∧ e = .notListed id t.id := by
  unfold remove
  cases hfind : t.members.find? fun m => m.id == id with
  | none =>
      have habsent : id ∉ t.memberIds := by
        rintro hmem
        obtain ⟨m, hm, rfl⟩ := mem_memberIds.1 hmem
        simpa using List.find?_eq_none.1 hfind m hm
      simp [habsent, eq_comm]
  | some m =>
      have hid : m.id = id := by simpa using List.find?_some hfind
      have hmem : id ∈ t.memberIds := mem_memberIds.2 ⟨m, List.mem_of_find?_eq_some hfind, hid⟩
      simp [hmem]

/-- The member who is removed has the id that was asked for, and was in the team. -/
theorem remove_spec (h : t.remove id = .ok (m, u)) :
    m.id = id ∧ m ∈ t.members ∧ u = t.relist u.members ∧ u.memberIds = t.memberIds.erase id ∧
      ∀ x ∈ u.members, x ∈ t.members := by
  obtain ⟨hfind, rfl⟩ := remove_eq_ok.1 h
  have hid := List.find?_some hfind
  refine ⟨by simpa using hid, List.mem_of_find?_eq_some hfind, rfl, map_id_eraseP t.members id, ?_⟩
  intro x hx
  exact List.mem_of_mem_eraseP hx

/-- Take the first member of an id out of a team: who that is, and who is left, in order. -/
inductive TakesOut (t : Team) (id : Ident) : Member → List Member → Prop
  | mk (before after : List Member) (m : Member) (members : t.members = before ++ m :: after)
      (first : ∀ x ∈ before, x.id ≠ id) (called : m.id = id) : TakesOut t id m (before ++ after)

theorem eraseP_of_first {before after : List Member} (hfirst : ∀ x ∈ before, x.id ≠ id)
    (hcalled : m.id = id) :
    ((before ++ m :: after).eraseP fun x => x.id == id) = before ++ after := by
  have hkeep : ∀ x ∈ before, ¬ (x.id == id) = true := by
    simpa using hfirst
  have hdrop : (m.id == id) = true := beq_iff_eq.2 hcalled
  rw [List.eraseP_append_right _ hkeep]
  exact congrArg (before ++ ·) (List.eraseP_cons_of_pos hdrop)

/-- A removal takes the first member of the id out. -/
theorem takesOut_iff : t.TakesOut id m ms ↔ t.remove id = .ok (m, t.relist ms) := by
  rw [remove_eq_ok, List.find?_eq_some_iff_append]
  constructor
  · rintro ⟨before, after, m, hmembers, hfirst, hcalled⟩
    refine ⟨⟨beq_iff_eq.2 hcalled, before, after, hmembers, by simpa using hfirst⟩, ?_⟩
    rw [hmembers, eraseP_of_first hfirst hcalled]
  · rintro ⟨⟨hcalled, before, after, hmembers, hskip⟩, hleft⟩
    have hfirst : ∀ x ∈ before, x.id ≠ id := by
      simpa using hskip
    have hms : ms = before ++ after := by
      have hlists := congrArg Team.members hleft
      rwa [relist_members, relist_members, hmembers,
        eraseP_of_first hfirst (beq_iff_eq.1 hcalled)] at hlists
    rw [hms]
    exact .mk before after m hmembers hfirst (beq_iff_eq.1 hcalled)

/-- The member who is taken out stands at a position, and those who are left at the other ones. -/
theorem TakesOut.exists_position (h : t.TakesOut id m ms) :
    ∃ n, t.members[n]? = some m ∧ ms = t.members.eraseIdx n ∧
      ∀ k < n, ∀ x, t.members[k]? = some x → x.id ≠ id := by
  obtain ⟨before, after, m, hmembers, hfirst, -⟩ := h
  refine ⟨before.length, ?_, ?_, ?_⟩
  · simp [hmembers]
  · simp [hmembers, List.eraseIdx_append_of_length_le]
  · intro k hk x hx
    rw [hmembers, List.getElem?_append_left hk] at hx
    exact hfirst x (List.mem_of_getElem? hx)

/-- Somebody is taken out exactly where a member of the id is listed. -/
theorem exists_takesOut_iff : (∃ m ms, t.TakesOut id m ms) ↔ id ∈ t.memberIds := by
  constructor
  · rintro ⟨m, ms, hout⟩
    obtain ⟨rfl, hmem, -⟩ := remove_spec (takesOut_iff.1 hout)
    exact mem_memberIds_of_mem hmem
  · intro hlisted
    cases hremove : t.remove id with
    | error e => exact absurd hlisted (remove_eq_error.1 hremove).1
    | ok parts =>
        obtain ⟨m, u⟩ := parts
        obtain ⟨-, hu⟩ := remove_eq_ok.1 hremove
        rw [hu] at hremove
        exact ⟨m, _, takesOut_iff.2 hremove⟩

/-- Members have no problem exactly if all are active, no two are the same and none was met
before. -/
theorem firstProblem?_eq_none {seen : List Ident} {ms : List Member} :
    firstProblem? seen ms = none ↔
      (∀ m ∈ ms, m.status = .active) ∧ (ms.map Member.id).Nodup ∧ ∀ m ∈ ms, m.id ∉ seen := by
  induction ms generalizing seen with
  | nil => simp [firstProblem?]
  | cons m ms ih =>
      by_cases hactive : m.status = .active
      · by_cases hseen : m.id ∈ seen
        · simp [firstProblem?, Member.canJoin, hactive, hseen]
        · have hstep : firstProblem? seen (m :: ms) = firstProblem? (m.id :: seen) ms := by
            simp [firstProblem?, Member.canJoin, hactive, hseen]
          rw [hstep, ih, List.forall_mem_cons, List.map_cons, List.nodup_cons, List.forall_mem_cons]
          simp only [List.mem_cons, not_or, List.mem_map, not_exists, not_and]
          constructor
          · rintro ⟨hall, hnodup, hfresh⟩
            exact ⟨⟨hactive, hall⟩, ⟨fun x hx => (hfresh x hx).1, hnodup⟩, hseen,
              fun x hx => (hfresh x hx).2⟩
          · rintro ⟨⟨-, hall⟩, ⟨hhead, hnodup⟩, -, hfresh⟩
            exact ⟨hall, hnodup, fun x hx => ⟨hhead x hx, hfresh x hx⟩⟩
      · simp [firstProblem?, Member.canJoin, hactive]

namespace Draft

variable {name : TeamName} {d : Draft} {birth : Birth}

theorem active (d : Draft) : ∀ m ∈ d.members, m.status = .active :=
  (firstProblem?_eq_none.1 d.joinable).1

theorem nodup (d : Draft) : (d.members.map Member.id).Nodup :=
  (firstProblem?_eq_none.1 d.joinable).2.1

theorem of_ofMembers (h : ofMembers name ms = .ok d) : d.name = name ∧ d.members = ms := by
  unfold ofMembers at h
  split at h
  · split at h
    · cases h
      exact ⟨rfl, rfl⟩
    · cases h
  · cases h

@[simp] theorem form_id : (d.form birth).id = birth.id := rfl

@[simp] theorem form_members : (d.form birth).members = d.members := rfl

@[simp] theorem form_memberIds : (d.form birth).memberIds = d.members.map Member.id := rfl

end Draft

/-- A team of fewer than five stays whole. -/
theorem split_eq_none : t.split = .ok none ↔ t.size < 5 := by
  unfold split
  by_cases h : 5 ≤ t.size
  · simp only [needsSplitting, h, decide_true, if_true, Failing.bind_eq_ok, Failing.pure_eq_ok,
      Except.ok.injEq, reduceCtorEq, and_false, exists_false, false_iff]
    omega
  · simp only [needsSplitting, h, decide_false, Bool.false_eq_true, if_false, true_iff]
    omega

/-- A team that splits keeps the first half of its members; the others form the draft. -/
theorem split_eq_some {draft : Draft} (h : t.split = .ok (some (u, draft))) :
    5 ≤ t.size ∧ u = t.relist (t.members.take (t.size / 2)) ∧
      draft.members = t.members.drop (t.size / 2) ∧ t.name.split = .ok draft.name := by
  unfold split at h
  by_cases hsize : 5 ≤ t.size
  · simp only [needsSplitting, hsize, decide_true, if_true, Failing.bind_eq_ok, Failing.pure_eq_ok,
      Except.ok.injEq, Option.some.injEq, Prod.mk.injEq] at h
    obtain ⟨name, hname, d, hd, rfl, rfl⟩ := h
    obtain ⟨rfl, hmembers⟩ := Draft.of_ofMembers hd
    exact ⟨hsize, rfl, hmembers, hname⟩
  · simp [needsSplitting, hsize] at h

end Team

end TeamRoster
