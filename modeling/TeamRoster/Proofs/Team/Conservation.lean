import Mathlib.Algebra.BigOperators.Group.List.Basic
import Mathlib.Algebra.Order.Group.Multiset
import TeamRoster.Proofs.Team.Absorption

/-!
# What a family keeps over its steps

Steps of a family carried out in place, one after the other, from teams that were newly formed or
stored with members who are all different. Main statement: `course_law`. No team ever lists anybody
twice, a step that is refused has written nothing, and a step that goes through is an entry of the
table `Family.Change`: over all teams it brings in at most the member who is added and loses at most the
member who is removed, and those who stay together keep their order.
-/

namespace TeamRoster

open scoped List

namespace Team

variable {t u : Team} {kept : List Member}

/-- How a team comes to be apart from the steps: newly formed, or read from a storage with members who
are all different. -/
inductive Founded : Team → Prop
  | formed (d : Draft) (birth : Birth) : Founded (d.form birth)
  | stored (t : Team) (distinct : t.memberIds.Nodup) : Founded t

theorem Founded.nodup (h : t.Founded) : t.memberIds.Nodup := by
  cases h with
  | formed d birth => exact d.nodup
  | stored t distinct => exact distinct

/-- One of two teams lists what the other one lists, in the same order, and maybe more. -/
def Nested (t u : Team) : Prop :=
  t.members <+ u.members ∨ u.members <+ t.members

theorem Nested.refl (t : Team) : t.Nested t :=
  .inl (.refl _)

/-- The members of a team who are in another one too, in the order in which this one lists them. -/
def shared (t u : Team) : List Member :=
  t.members.filter fun m => decide (m ∈ u.members)

/-- What is part of a list without repetitions is what the list has of it. -/
theorem filter_mem_of_sublist {xs ys : List Member} (h : xs <+ ys) (hnodup : ys.Nodup) :
    (ys.filter fun m => decide (m ∈ xs)) = xs := by
  have hpart : xs <+ ys.filter fun m => decide (m ∈ xs) := by
    have hfilter := h.filter fun m => decide (m ∈ xs)
    rwa [List.filter_eq_self.2 fun m hm => decide_eq_true hm] at hfilter
  have hperm : xs ~ ys.filter fun m => decide (m ∈ xs) := by
    rw [List.perm_ext_iff_of_nodup (hnodup.sublist h) (hnodup.filter _)]
    intro m
    rw [List.mem_filter, decide_eq_true_iff]
    exact ⟨fun hm => ⟨h.subset hm, hm⟩, And.right⟩
  exact (hpart.eq_of_length hperm.length_eq).symm

theorem nodup_members (h : t.memberIds.Nodup) : t.members.Nodup :=
  h.of_map Member.id

/-- Who is in both of two such teams is listed in the same order by both. -/
theorem Nested.shared_eq (h : t.Nested u) (ht : t.memberIds.Nodup) (hu : u.memberIds.Nodup) :
    t.shared u = u.shared t := by
  have hfilter {xs ys : List Member} (hsub : xs <+ ys) (hnodup : ys.Nodup) :
      (xs.filter fun m => decide (m ∈ ys)) = ys.filter fun m => decide (m ∈ xs) := by
    rw [filter_mem_of_sublist hsub hnodup]
    exact List.filter_eq_self.2 fun m hm => decide_eq_true (hsub.subset hm)
  rcases h with hsub | hsub
  · exact hfilter hsub (nodup_members hu)
  · exact (hfilter hsub (nodup_members ht)).symm

/-- A draft is taken again. -/
theorem Draft.ofMembers_self (d : Draft) : Draft.ofMembers d.name d.members = .ok d := by
  rw [Draft.ofMembers, dif_pos ⟨d.two_le, d.le_four⟩]
  split
  · rfl
  · rename_i problem hproblem
    rw [d.joinable] at hproblem
    cases hproblem

/-- A team that has to split falls into these two halves if the second one is a draft. -/
theorem split_of_halves {draft : Draft} (hlarge : 5 ≤ t.size) (hname : t.name.split = .ok draft.name)
    (hmembers : kept ++ draft.members = t.members) (hhalf : kept.length = t.size / 2) :
    t.split = .ok (some (t.relist kept, draft)) := by
  have hneeds : t.needsSplitting = true := decide_eq_true hlarge
  have htake : t.members.take (t.size / 2) = kept := by
    rw [← hmembers, ← hhalf, List.take_left]
  have hdrop : t.members.drop (t.size / 2) = draft.members := by
    rw [← hmembers, ← hhalf, List.drop_left]
  rw [split, if_pos hneeds, hname, Failing.ok_bind, hdrop, htake, Draft.ofMembers_self]
  rfl

end Team

namespace Family

variable {f g : Family} {s : Step} {effect : Effect} {n k : Nat} {t u : Team} {m : Member}
  {birth : Birth}

section Put

theorem lt_size (h : f.team? n = some t) : n < f.size :=
  (List.getElem?_eq_some_iff.1 h).1

theorem mem_teams : t ∈ f.teams ↔ ∃ n, f.team? n = some t :=
  List.mem_iff_getElem?

theorem team?_put (h : f.team? n = some t) (u : Team) (i : Nat) :
    (f.put n u).team? i = if i = n then some u else f.team? i := by
  have hn : n < f.teams.length := lt_size h
  rw [team?, put, List.getElem?_set]
  by_cases hi : n = i
  · simp [hi, hi ▸ hn]
  · simp [hi, Ne.symm hi, team?]

@[simp] theorem size_put (f : Family) (n : Nat) (t : Team) : (f.put n t).size = f.size :=
  List.length_set

theorem team?_push (f : Family) (t : Team) (i : Nat) :
    (f.push t).team? i = if i = f.size then some t else f.team? i := by
  rw [team?, push, List.getElem?_append]
  by_cases hi : i < f.teams.length
  · have hne : i ≠ f.size := Nat.ne_of_lt hi
    simp [hi, hne, team?]
  · by_cases heq : i = f.size
    · simp [heq, size]
    · have hlater : f.size < i := by
        unfold size at heq ⊢
        omega
      simp only [size] at hlater heq
      simp [hi, heq, size, team?]
      omega

/-- The teams after two of them were overwritten. -/
theorem team?_put_put (hn : f.team? n = some t) (hk : f.team? k = some u) (hne : n ≠ k) (v w : Team)
    (i : Nat) : ((f.put n v).put k w).team? i =
      if i = k then some w else if i = n then some v else f.team? i := by
  have hk' : (f.put n v).team? k = some u := by
    rw [team?_put hn, if_neg hne.symm, hk]
  rw [team?_put hk', team?_put hn]

end Put

section Table

/-- When a step goes through, what it gives and what becomes of the teams. -/
inductive Change (f : Family) : Step → Effect → Family → Prop
  | joined {n : Nat} {t : Team} {m : Member} (found : f.team? n = some t)
      (active : m.status = .active) (fresh : m.id ∉ t.memberIds) :
      Change f (.add n m) .joined (f.put n (t.relist (t.members ++ [m])))
  | left {n : Nat} {t : Team} {id : Ident} {m : Member} {ms : List Member}
      (found : f.team? n = some t) (out : t.TakesOut id m ms) :
      Change f (.remove n id) (.left m) (f.put n (t.relist ms))
  | whole {n : Nat} {t : Team} {birth : Birth} (found : f.team? n = some t) (small : t.size < 5) :
      Change f (.split n birth) (.parted none) f
  | parted {n : Nat} {t : Team} {birth : Birth} {kept : List Member} {draft : Team.Draft}
      (found : f.team? n = some t) (large : 5 ≤ t.size) (name : t.name.split = .ok draft.name)
      (members : kept ++ draft.members = t.members) (half : kept.length = t.size / 2) :
      Change f (.split n birth) (.parted (some (draft.form birth)))
        ((f.put n (t.relist kept)).push (draft.form birth))
  | moved {n k : Nat} {destination source : Team} (here : f.team? n = some destination)
      (there : f.team? k = some source) (apart : n ≠ k)
      (welcome : ∀ m ∈ source.members, m.status = .active ∧ m.id ∉ destination.memberIds) :
      Change f (.absorb n k) (.moved source.members)
        ((f.put n (destination.relist (destination.members ++ source.members))).put k
          (source.relist []))

/-- The steps that go through are those of the table. -/
theorem perform_eq_ok : f.perform s = some (.ok effect, g) ↔ f.Change s effect g := by
  constructor
  · intro h
    cases s with
    | add n m =>
        obtain ⟨t, found, h⟩ := Option.map_eq_some_iff.1 h
        rw [on_add, outcome_eq_ok, Failing.map_eq_ok] at h
        obtain ⟨u, hadd, heq⟩ := h
        obtain ⟨hactive, hfresh, rfl⟩ := Team.add_eq_ok.1 hadd
        cases heq
        exact .joined found hactive hfresh
    | remove n id =>
        obtain ⟨t, found, h⟩ := Option.map_eq_some_iff.1 h
        rw [on_remove, outcome_eq_ok, Failing.map_eq_ok] at h
        obtain ⟨⟨m, u⟩, hremove, heq⟩ := h
        obtain ⟨-, hu⟩ := Team.remove_eq_ok.1 hremove
        rw [hu] at hremove heq
        cases heq
        exact .left found (Team.takesOut_iff.2 hremove)
    | split n birth =>
        obtain ⟨t, found, h⟩ := Option.map_eq_some_iff.1 h
        rw [on_split, outcome_eq_ok, Failing.map_eq_ok] at h
        obtain ⟨parts, hsplit, heq⟩ := h
        cases parts with
        | none =>
            cases heq
            exact .whole found (Team.split_eq_none.1 hsplit)
        | some parts =>
            obtain ⟨kept, draft⟩ := parts
            obtain ⟨hlarge, rfl, hmembers, hname⟩ := Team.split_eq_some hsplit
            cases heq
            refine .parted found hlarge hname ?_ ?_
            · rw [hmembers, List.take_append_drop]
            · have hlength : t.members.length = t.size := rfl
              rw [List.length_take, hlength]
              omega
    | absorb n k =>
        rw [perform, Option.bind_eq_bind, Option.bind_eq_some_iff] at h
        obtain ⟨destination, here, h⟩ := h
        rw [Option.bind_eq_some_iff] at h
        obtain ⟨source, there, h⟩ := h
        by_cases apart : n = k
        · rw [if_pos apart] at h
          cases h
        · rw [if_neg apart, on_absorb apart] at h
          obtain ⟨after, habsorb, heq⟩ := Failing.map_eq_ok.1 (outcome_eq_ok.1 (Option.some.inj h))
          obtain ⟨hwelcome, rfl⟩ := Team.absorb_eq_ok.1 habsorb
          cases heq
          exact .moved here there apart hwelcome
  · intro h
    cases h with
    | joined found active fresh =>
        rw [perform, found, Option.map_some, on_add, Team.add_eq_ok.2 ⟨active, fresh, rfl⟩]
        rfl
    | left found out =>
        rw [perform, found, Option.map_some, on_remove, Team.takesOut_iff.1 out]
        rfl
    | whole found small =>
        rw [perform, found, Option.map_some, on_split, Team.split_eq_none.2 small]
        rfl
    | parted found large name members half =>
        rw [perform, found, Option.map_some, on_split,
          Team.split_of_halves large name members half]
        rfl
    | moved here there apart welcome =>
        rw [perform, here, there, Option.bind_eq_bind, Option.bind_some, Option.bind_some,
          if_neg apart, on_absorb apart, Team.absorb_eq_ok.2 ⟨welcome, rfl⟩]
        rfl

/-- A step that is refused has written nothing. -/
theorem perform_eq_error {e : RuleError} (h : f.perform s = some (.error e, g)) : g = f := by
  rw [perform_eq, Option.map_eq_some_iff] at h
  obtain ⟨r, -, hr⟩ := h
  exact outcome_eq_error hr

end Table

section Roll

/-- All members of all teams, each as often as it is listed. -/
def roll (f : Family) : Multiset Member :=
  (f.teams.map fun t => (t.members : Multiset Member)).sum

/-- Who is brought into a family by a step that goes through. -/
def Step.gained : Step → Multiset Member
  | add _ m => {m}
  | remove _ _ | split _ _ | absorb _ _ => 0

/-- Who has left a family by a step. -/
def Effect.lost : Effect → Multiset Member
  | left m => {m}
  | joined | parted _ | moved _ => 0

/-- A team that is overwritten takes its members with it and brings the new ones. -/
theorem roll_put (h : f.team? n = some t) (u : Team) :
    (f.put n u).roll + t.members = f.roll + u.members := by
  obtain ⟨hn, hget⟩ := List.getElem?_eq_some_iff.1 h
  have hsame : f = f.put n t := congrArg mk (hget ▸ (List.set_getElem_self hn).symm)
  have hsum (v : Team) : (f.put n v).roll =
      ((f.teams.take n).map fun t => (t.members : Multiset Member)).sum + v.members +
        ((f.teams.drop (n + 1)).map fun t => (t.members : Multiset Member)).sum := by
    simp [roll, put, List.map_set, List.sum_set, hn, List.map_take, List.map_drop]
  have hroll := congrArg roll hsame
  rw [hroll, hsum, hsum]
  ac_rfl

@[simp] theorem roll_push (f : Family) (t : Team) : (f.push t).roll = f.roll + t.members := by
  simp [roll, push]

/-- Over all teams, a step brings in the member who is added and loses the one who is removed; a split
and an absorption do neither. -/
theorem Change.roll (h : f.Change s effect g) : g.roll + effect.lost = f.roll + s.gained := by
  cases h with
  | @joined n t m found active fresh =>
      have hput := roll_put found (t.relist (t.members ++ [m]))
      rw [Team.relist_members, ← Multiset.coe_add, ← add_assoc, add_right_comm] at hput
      simpa [Effect.lost, Step.gained] using add_right_cancel hput
  | @left n t id m ms found out =>
      have hput := roll_put found (t.relist ms)
      obtain ⟨before, after, m, hmembers, -, -⟩ := out
      have hout : (t.members : Multiset Member) = {m} + ↑(before ++ after) := by
        rw [hmembers, Multiset.singleton_add, Multiset.cons_coe, Multiset.coe_eq_coe]
        exact List.perm_middle
      rw [Team.relist_members, hout, ← add_assoc] at hput
      simpa [Effect.lost, Step.gained] using add_right_cancel hput
  | whole found small => rfl
  | @parted n t birth kept draft found large name members half =>
      have hput := roll_put found (t.relist kept)
      rw [Team.relist_members, ← members, ← Multiset.coe_add, add_comm (kept : Multiset Member),
        ← add_assoc] at hput
      simpa [Effect.lost, Step.gained] using add_right_cancel hput
  | @moved n k destination source here there apart welcome =>
      have hn := roll_put here (destination.relist (destination.members ++ source.members))
      have hk : (f.put n (destination.relist (destination.members ++ source.members))).team? k =
          some source := by
        rw [team?_put here, if_neg (Ne.symm apart), there]
      have hempty := roll_put hk (source.relist [])
      rw [Team.relist_members, ← Multiset.coe_add, add_comm (destination.members : Multiset Member),
        ← add_assoc] at hn
      rw [Team.relist_members, Multiset.coe_nil, add_zero, add_right_cancel hn] at hempty
      simpa [Effect.lost, Step.gained] using add_right_cancel hempty

end Roll

section Order

/-- The numbers of the teams before and after a step between which members may pass: those of a team
that splits may pass to the new team, and those of the source to the destination. -/
def Step.Leads (size : Nat) : Step → Nat → Nat → Prop
  | add _ _, i, j | remove _ _, i, j => i = j
  | split n _, i, j => i = j ∨ i = n ∧ j = size
  | absorb n k, i, j => i = j ∨ i = k ∧ j = n

/-- The numbers of the teams that a step works on. -/
def Step.teams : Step → List Nat
  | add n _ | remove n _ | split n _ => [n]
  | absorb n k => [n, k]

/-- A team whose list is only shortened or lengthened stays comparable, and so do all others. -/
theorem nested_put (found : f.team? n = some t) {ms : List Member}
    (hms : t.members <+ ms ∨ ms <+ t.members) {i : Nat} {v : Team} (hv : f.team? i = some v)
    (hu : (f.put n (t.relist ms)).team? i = some u) : v.Nested u := by
  rw [team?_put found] at hu
  by_cases hi : i = n
  · rw [if_pos hi] at hu
    rw [hi, found] at hv
    cases hu
    cases hv
    exact hms
  · rw [if_neg hi, hv] at hu
    cases hu
    exact .refl _

/-- Of a team and one that its members may pass to, one list is part of the other. -/
theorem Change.nested (h : f.Change s effect g) {i j : Nat} (hleads : s.Leads f.size i j)
    (ht : f.team? i = some t) (hu : g.team? j = some u) : t.Nested u := by
  have hi := lt_size ht
  cases h with
  | joined found active fresh =>
      obtain rfl : i = j := hleads
      exact nested_put found (.inl (List.sublist_append_left _ _)) ht hu
  | @left n t id m ms found out =>
      obtain rfl : i = j := hleads
      refine nested_put found (.inr ?_) ht hu
      obtain ⟨before, after, m, hmembers, -, -⟩ := out
      rw [hmembers]
      exact (List.Sublist.refl before).append (List.sublist_cons_self m after)
  | whole found small =>
      obtain rfl | ⟨rfl, rfl⟩ := hleads
      · rw [ht] at hu
        cases hu
        exact .refl t
      · exact absurd (lt_size hu) (Nat.lt_irrefl _)
  | parted found large name members half =>
      rw [team?_push, size_put] at hu
      obtain rfl | ⟨rfl, rfl⟩ := hleads
      · rw [if_neg (Nat.ne_of_lt hi)] at hu
        refine nested_put found (.inr ?_) ht hu
        rw [← members]
        exact List.sublist_append_left _ _
      · rw [if_pos rfl] at hu
        rw [found] at ht
        cases hu
        cases ht
        refine .inr ?_
        rw [Team.Draft.form_members, ← members]
        exact List.sublist_append_right _ _
  | @moved n k destination source here there apart welcome =>
      rw [team?_put_put here there apart] at hu
      obtain rfl | ⟨rfl, rfl⟩ := hleads
      · by_cases hik : i = k
        · rw [if_pos hik] at hu
          cases hu
          exact .inr (List.nil_sublist _)
        · rw [if_neg hik, ← team?_put here] at hu
          exact nested_put here (.inl (List.sublist_append_left _ _)) ht hu
      · rw [if_neg apart, if_pos rfl] at hu
        rw [there] at ht
        cases hu
        cases ht
        exact .inl (List.sublist_append_right _ _)

end Order

section Course

/-- No team lists anybody twice. -/
def Distinct (f : Family) : Prop :=
  ∀ t ∈ f.teams, t.memberIds.Nodup

theorem Distinct.put (h : f.Distinct) {ms : List Member} (hms : (ms.map Member.id).Nodup) (n : Nat)
    (t : Team) : (f.put n (t.relist ms)).Distinct := by
  intro u hu
  rcases List.mem_or_eq_of_mem_set hu with hu | rfl
  · exact h u hu
  · exact hms

theorem Distinct.push (h : f.Distinct) (hu : u.memberIds.Nodup) : (f.push u).Distinct := by
  intro t ht
  rcases List.mem_append.1 ht with ht | ht
  · exact h t ht
  · exact List.mem_singleton.1 ht ▸ hu

theorem Distinct.of_team? (h : f.Distinct) (ht : f.team? n = some t) : t.memberIds.Nodup :=
  h t (mem_teams.2 ⟨n, ht⟩)

/-- A step that goes through leaves no team that lists anybody twice, if there was none before. -/
theorem Change.distinct (h : f.Change s effect g) (hf : f.Distinct) : g.Distinct := by
  cases h with
  | joined found active fresh =>
      exact hf.put (Team.nodup_ids_concat.2 ⟨hf.of_team? found, fresh⟩) _ _
  | @left n t id m ms found out =>
      have hleft : ms.map Member.id = t.memberIds.erase id :=
        (Team.remove_spec (Team.takesOut_iff.1 out)).2.2.2.1
      exact hf.put (hleft ▸ (hf.of_team? found).erase id) n t
  | whole found small => exact hf
  | @parted n t birth kept draft found large name members half =>
      have hkept : (kept.map Member.id).Nodup := by
        have hsub : kept <+ t.members := members ▸ List.sublist_append_left _ _
        exact (hf.of_team? found).sublist (hsub.map Member.id)
      exact (hf.put hkept n t).push draft.nodup
  | @moved n k destination source here there apart welcome =>
      have hgrown : ((destination.members ++ source.members).map Member.id).Nodup := by
        rw [List.map_append]
        refine List.nodup_append.2 ⟨hf.of_team? here, hf.of_team? there, ?_⟩
        rintro id hid _ hother rfl
        obtain ⟨m, hm, rfl⟩ := List.mem_map.1 hother
        exact (welcome m hm).2 hid
      exact (hf.put hgrown n destination).put (show ([].map Member.id).Nodup from .nil) k source

/-- The family as a step leaves it that is carried out in place. A step that names no team does
nothing. -/
def next (f : Family) (s : Step) : Family :=
  match f.perform s with
  | some (_, g) => g
  | none => f

/-- The family after steps that are carried out one after the other. -/
def course (f : Family) (ss : List Step) : Family :=
  ss.foldl next f

/-- Whether the teams that a step works on are there, and different. -/
def Has (f : Family) (s : Step) : Prop :=
  s.teams.Nodup ∧ ∀ n ∈ s.teams, n < f.size

/-- What a step that goes through keeps. -/
structure Keeps (f : Family) (s : Step) (effect : Effect) (g : Family) : Prop where
  /-- Over all teams, who was added is new and who was removed is missing. -/
  roll : g.roll + effect.lost = f.roll + s.gained
  /-- Those who stay together keep their order. -/
  order {i j : Nat} {t u : Team} :
    s.Leads f.size i j → f.team? i = some t → g.team? j = some u → t.shared u = u.shared t
  others {i : Nat} : i ∉ s.teams → i < f.size → g.team? i = f.team? i

/-- A step is one of the teams exactly if those that it works on are there. -/
theorem perform_isSome (f : Family) (s : Step) : (f.perform s).isSome = true ↔ f.Has s := by
  cases s with
  | add n m | remove n id | split n birth => simp [perform, Has, Step.teams, team?, size]
  | absorb n k =>
      have hhas : f.Has (.absorb n k) ↔ n ≠ k ∧ n < f.size ∧ k < f.size := by
        simp [Has, Step.teams]
      rw [hhas, perform]
      by_cases hn : n < f.size
      · by_cases hk : k < f.size
        · obtain ⟨destination, here⟩ : ∃ t, f.team? n = some t := ⟨_, List.getElem?_eq_getElem hn⟩
          obtain ⟨source, there⟩ : ∃ t, f.team? k = some t := ⟨_, List.getElem?_eq_getElem hk⟩
          by_cases hne : n = k <;> simp [here, there, hne, hn, hk]
        · have there : f.team? k = none := List.getElem?_eq_none (Nat.le_of_not_lt hk)
          simp [there, hk]
      · have here : f.team? n = none := List.getElem?_eq_none (Nat.le_of_not_lt hn)
        simp [here, hn]

theorem Change.keeps (h : f.Change s effect g) (hf : f.Distinct) : f.Keeps s effect g where
  roll := h.roll
  order hleads ht hu :=
    (h.nested hleads ht hu).shared_eq (hf.of_team? ht) ((h.distinct hf).of_team? hu)
  others hi hsize := by
    cases h with
    | joined found active fresh | left found out =>
        rw [Step.teams, List.mem_singleton] at hi
        rw [team?_put found, if_neg hi]
    | whole found small => rfl
    | parted found large name members half =>
        rw [Step.teams, List.mem_singleton] at hi
        rw [team?_push, size_put, if_neg (Nat.ne_of_lt hsize), team?_put found, if_neg hi]
    | moved here there apart welcome =>
        simp only [Step.teams, List.mem_cons, List.not_mem_nil, or_false, not_or] at hi
        rw [team?_put_put here there apart, if_neg hi.2, if_neg hi.1]

theorem Distinct.next (hf : f.Distinct) (s : Step) : (f.next s).Distinct := by
  unfold Family.next
  split
  · rename_i r g hperform
    cases r with
    | error e => exact perform_eq_error hperform ▸ hf
    | ok effect => exact (perform_eq_ok.1 hperform).distinct hf
  · exact hf

/-- Steps carried out in place leave no team that lists anybody twice. -/
theorem Distinct.course (hf : f.Distinct) (ss : List Step) : (f.course ss).Distinct := by
  induction ss generalizing f with
  | nil => exact hf
  | cons s ss ih => exact ih (hf.next s)

end Course

end Family

/-- The law of steps. Teams are newly formed, or were stored with members who are all different; any
steps are carried out in place, one after the other. No team lists anybody twice after them. The next
step is one of the teams exactly if those that it works on are there; it goes through exactly if it is
in the table, and has written nothing if it is refused. Over all teams, a member who is added is new and
stands at the end of the team, a member who is removed has the id that was asked for and is missing, and
otherwise nobody is lost, new or doubled; those who stay together keep their order, and no other team
changes. -/
theorem course_law (f : Family) (hf : ∀ t ∈ f.teams, t.Founded) (ss : List Family.Step) :
    (f.course ss).Distinct ∧ ∀ s,
      ((f.course ss).Has s ↔ ((f.course ss).perform s).isSome = true) ∧
      (∀ e g, (f.course ss).perform s = some (.error e, g) → g = f.course ss) ∧
      (∀ effect g, (f.course ss).perform s = some (.ok effect, g) ↔
        (f.course ss).Change s effect g) ∧
      ∀ effect g, (f.course ss).Change s effect g → (f.course ss).Keeps s effect g := by
  have hstart : f.Distinct := fun t ht => (hf t ht).nodup
  have hdistinct := hstart.course ss
  refine ⟨hdistinct, fun s => ⟨((f.course ss).perform_isSome s).symm, ?_, ?_, ?_⟩⟩
  · exact fun e g => Family.perform_eq_error
  · exact fun effect g => Family.perform_eq_ok
  · exact fun effect g hchange => hchange.keeps hdistinct

section Mixed

/-- A draft of three. -/
def trio : Team.Draft where
  name := ⟨"Wasps", by decide, by decide +kernel, by decide⟩
  members := [kim 2, kim 3, kim 4]
  two_le := by decide
  le_four := by decide
  joinable := by decide +kernel

/-- A team of two that was stored and one of three that was just formed. -/
def mixed : Family :=
  ⟨[owls, trio.form ⟨.ofRandom 12, .ofSeconds 0⟩]⟩

/-- The second team moves into the first one, which then splits; a member leaves; a member who is in the
team is refused. -/
def mixing : List Family.Step :=
  [.absorb 0 1, .split 0 ⟨.ofRandom 13, .ofSeconds 1⟩, .remove 2 (kim 3).id, .add 0 (kim 1)]

theorem course_law_mixed :
    (∀ t ∈ mixed.teams, t.Founded) ∧ (mixed.course mixing).Distinct ∧
      (mixed.course mixing).teams.map Team.members = [[kim 0, kim 1], [], [kim 2, kim 4]] ∧
      (mixed.course mixing).perform (.absorb 2 2) = none := by
  have hfounded : ∀ t ∈ mixed.teams, t.Founded := by
    intro t ht
    simp only [mixed, List.mem_cons, List.not_mem_nil, or_false] at ht
    rcases ht with rfl | rfl
    · exact .stored owls (by decide +kernel)
    · exact .formed trio _
  refine ⟨hfounded, (course_law mixed hfounded mixing).1, by decide +kernel, by decide +kernel⟩

end Mixed

end TeamRoster
