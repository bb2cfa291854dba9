import TeamRoster.Proofs.Tables.Lookup
import TeamRoster.Proofs.Tables.Queries

/-!
# What the database can store

Tables take the row of a member whose texts are without the character zero and whose time is within the
range of the database, and no other (`Member.Storable`). The name of a team has letters only, so that its
row is a matter of the time.
-/

namespace TeamRoster

/-- Texts and a time are taken if there is nothing wrong with any of them. -/
theorem ServerError.ofValues?_eq_none {texts : List String} {time : Instant} :
    ofValues? texts time = none ↔
      (∀ s ∈ texts, '\x00' ∉ s.toList) ∧ time.isStorable = true := by
  unfold ofValues?
  split
  · rename_i hzero
    obtain ⟨s, hs, hin⟩ := List.any_eq_true.1 hzero
    exact iff_of_false (by simp) fun h => h.1 s hs (List.contains_iff_mem.1 hin)
  · rename_i hclean
    have hclean' : ∀ s ∈ texts, '\x00' ∉ s.toList := by simpa using hclean
    cases time.isStorable with
    | true => exact iff_of_true rfl ⟨hclean', rfl⟩
    | false => exact iff_of_false (by simp) (by simp)

/-- The database can store a member: there is no character zero in the texts, and the time is within
its range. -/
structure Member.Storable (m : Member) : Prop where
  name : '\x00' ∉ m.name.text.toList
  email : '\x00' ∉ m.email.text.toList
  time : m.createdAt.isStorable = true

theorem MemberRow.refusal?_ofMember {m : Member} : (ofMember m).refusal? = none ↔ m.Storable := by
  rw [refusal?, ServerError.ofValues?_eq_none]
  constructor
  · rintro ⟨htexts, htime⟩
    exact ⟨htexts _ (by simp [ofMember]), htexts _ (by simp [ofMember]), htime⟩
  · rintro ⟨hname, hemail, htime⟩
    exact ⟨by simpa [ofMember] using ⟨hname, hemail⟩, htime⟩

/-- The character zero is no letter. -/
theorem TeamName.zero_not_mem (n : TeamName) : '\x00' ∉ n.text.toList := by
  have hzero : Text.isLetter '\x00' = false := by decide +kernel
  intro hmem
  have hletter := List.all_eq_true.1 n.letters _ hmem
  rw [hzero] at hletter
  cases hletter

theorem TeamRow.refusal?_ofTeam (t : Team) :
    (ofTeam t).refusal? = if t.createdAt.isStorable then none else some .timeOutOfRange := by
  have hclean : ([t.name.text].any fun s => s.toList.contains '\x00') = false := by
    simpa using t.name.zero_not_mem
  rw [refusal?, ServerError.ofValues?, ofTeam, hclean]
  rfl

namespace Tables

variable {m : Member}

/-- A member who can be stored is saved. -/
theorem storage_saveMember (h : m.Storable) (t : Tables) :
    storage (.saveMember m) t = (.ok (), t.saveMember (.ofMember m)) := by
  have hsent : t.execute (.memberSave (.ofMember m)) = .ok ((), t.saveMember (.ofMember m)) :=
    execute_memberSave_eq_ok.2 ⟨MemberRow.refusal?_ofMember.2 h, rfl⟩
  exact Query.on_statement t hsent

/-- Any other member is refused by the database, and the tables are as before. -/
theorem storage_saveMember_refused (h : ¬ m.Storable) (t : Tables) :
    ∃ text, storage (.saveMember m) t = (.error (.database text), t) := by
  rw [← MemberRow.refusal?_ofMember] at h
  obtain ⟨e, he⟩ := Option.ne_none_iff_exists'.1 h
  have hsent : t.execute (.memberSave (.ofMember m)) = .error e := by
    rw [execute, he]
  refine ⟨"Failed to save member: " ++ (DatabaseFailure.server e).message, ?_⟩
  change (Query.saveMember m).on t = _
  rw [Query.saveMember, Query.statement, Query.on_callWith, hsent]
  rfl

end Tables

end TeamRoster
