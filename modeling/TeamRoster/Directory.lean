import TeamRoster.Ident

/-!
# Directories

A `Directory` keeps one entry per id, in the order in which the ids came in. Main statements:
`find?_insert` and `find?_erase` say what a look-up finds after a write, and nothing else about
writes is needed to reason about what is kept.
-/

namespace TeamRoster

/-- Entries with ids that are all different. -/
structure Directory (α : Type) where
  entries : List (Ident × α)
  nodup : (entries.map Prod.fst).Nodup

namespace Directory

variable {α : Type}

instance [DecidableEq α] : DecidableEq (Directory α) := fun a b =>
  if h : a.entries = b.entries then
    isTrue (by cases a; cases b; simp at h; subst h; rfl)
  else isFalse (fun e => h (congrArg entries e))

/-- A directory without entries. -/
def empty : Directory α :=
  ⟨[], List.nodup_nil⟩

/-- The ids that have an entry. -/
def keys (d : Directory α) : List Ident :=
  d.entries.map Prod.fst

/-- The values, in the order of the entries. -/
def values (d : Directory α) : List α :=
  d.entries.map Prod.snd

/-- Look up an id among entries. -/
def lookup (entries : List (Ident × α)) (id : Ident) : Option α :=
  (entries.find? fun e => e.1 == id).map Prod.snd

/-- Look up an id. -/
def find? (d : Directory α) (id : Ident) : Option α :=
  lookup d.entries id

/-- Whether an id has an entry. -/
def contains (d : Directory α) (id : Ident) : Bool :=
  (d.find? id).isSome

theorem contains_iff {d : Directory α} {id : Ident} :
    d.contains id = true ↔ ∃ a, d.find? id = some a :=
  Option.isSome_iff_exists

/-- Put a value at an id among entries: in the place of the entry that is there, else at the end. -/
def put (id : Ident) (a : α) : List (Ident × α) → List (Ident × α)
  | [] => [(id, a)]
  | e :: es => if e.1 = id then (id, a) :: es else e :: put id a es

theorem keys_put (id : Ident) (a : α) (es : List (Ident × α)) :
    (put id a es).map Prod.fst =
      if id ∈ es.map Prod.fst then es.map Prod.fst else es.map Prod.fst ++ [id] := by
  induction es with
  | nil => simp [put]
  | cons e es ih =>
    by_cases h : e.1 = id
    · simp [put, h]
    · have h' : ¬ id = e.1 := fun hid => h hid.symm
      simp only [put, if_neg h, List.map_cons, ih, List.mem_cons, h', false_or]
      split <;> simp

theorem nodup_put {id : Ident} {a : α} {es : List (Ident × α)} (h : (es.map Prod.fst).Nodup) :
    ((put id a es).map Prod.fst).Nodup := by
  rw [keys_put]
  split
  · exact h
  · rename_i hid
    rw [List.nodup_append]
    refine ⟨h, by simp, ?_⟩
    intro x hx y hy hxy
    rw [List.mem_singleton.1 hy] at hxy
    exact hid (hxy ▸ hx)

/-- Put a value at an id. -/
def insert (d : Directory α) (id : Ident) (a : α) : Directory α :=
  ⟨put id a d.entries, nodup_put d.nodup⟩

/-- Take out the entry of an id. -/
def erase (d : Directory α) (id : Ident) : Directory α :=
  ⟨d.entries.filter fun e => e.1 != id, (List.filter_sublist.map Prod.fst).nodup d.nodup⟩

theorem lookup_put (id : Ident) (a : α) (es : List (Ident × α)) (key : Ident) :
    lookup (put id a es) key = if key = id then some a else lookup es key := by
  induction es with
  | nil =>
    by_cases h : key = id
    · simp [put, lookup, h]
    · simp [put, lookup, h, show ¬ id = key from fun hk => h hk.symm]
  | cons e es ih =>
    simp only [lookup] at ih ⊢
    by_cases he : e.1 = id
    · by_cases h : key = id
      · simp [put, he, h]
      · have h' : ¬ id = key := fun hk => h hk.symm
        simp [put, he, h, h']
    · by_cases hk : e.1 = key
      · have h : ¬ key = id := fun hki => he (hk.trans hki)
        simp [put, hk, h]
      · simp [put, he, hk, ih]

theorem lookup_filter_ne (id : Ident) (es : List (Ident × α)) (key : Ident) :
    lookup (es.filter fun e => e.1 != id) key = if key = id then none else lookup es key := by
  induction es with
  | nil => simp [lookup]
  | cons e es ih =>
    simp only [lookup] at ih ⊢
    by_cases he : e.1 = id
    · have hdrop : (e :: es).filter (fun e => e.1 != id) = es.filter fun e => e.1 != id := by
        simp [he]
      rw [hdrop, ih]
      by_cases h : key = id
      · simp [h]
      · have h' : ¬ id = key := fun hk => h hk.symm
        simp [he, h, h']
    · by_cases hk : e.1 = key
      · have h : ¬ key = id := fun hki => he (hk.trans hki)
        simp [hk, h]
      · simpa [he, hk] using ih

@[simp] theorem find?_empty (key : Ident) : (empty : Directory α).find? key = none := rfl

/-- After a value was put at an id, a look-up finds it there and all else as before. -/
@[simp] theorem find?_insert (d : Directory α) (id : Ident) (a : α) (key : Ident) :
    (d.insert id a).find? key = if key = id then some a else d.find? key :=
  lookup_put id a d.entries key

/-- After an entry was taken out, a look-up finds nothing there and all else as before. -/
@[simp] theorem find?_erase (d : Directory α) (id key : Ident) :
    (d.erase id).find? key = if key = id then none else d.find? key :=
  lookup_filter_ne id d.entries key

theorem contains_insert {d : Directory α} {id key : Ident} {a : α} (h : d.contains key = true) :
    (d.insert id a).contains key = true := by
  rw [contains, find?_insert]
  split
  · rfl
  · exact h

theorem lookup_cons (e : Ident × α) (es : List (Ident × α)) (key : Ident) :
    lookup (e :: es) key = if e.1 = key then some e.2 else lookup es key := by
  by_cases h : e.1 = key <;> simp [lookup, h]

theorem lookup_eq_none {es : List (Ident × α)} {key : Ident} :
    lookup es key = none ↔ key ∉ es.map Prod.fst := by
  simp only [lookup, Option.map_eq_none_iff, List.find?_eq_none, beq_iff_eq, List.mem_map,
    not_exists, not_and]

theorem lookup_eq_some {es : List (Ident × α)} (hes : (es.map Prod.fst).Nodup) {key : Ident} {a : α} :
    lookup es key = some a ↔ (key, a) ∈ es := by
  induction es with
  | nil => simp [lookup]
  | cons e es ih =>
    rw [List.map_cons, List.nodup_cons] at hes
    rw [lookup_cons, List.mem_cons]
    by_cases h : e.1 = key
    · have hes' : (key, a) ∉ es := fun hmem => hes.1 (h ▸ List.mem_map_of_mem hmem)
      simp [h, hes', Prod.ext_iff, eq_comm]
    · have hne : (key, a) ≠ e := fun heq => h (congrArg Prod.fst heq).symm
      simp [h, hne, ih hes.2]

/-- What is found under an id is the entry of that id. -/
theorem find?_eq_some {d : Directory α} {key : Ident} {a : α} :
    d.find? key = some a ↔ (key, a) ∈ d.entries :=
  lookup_eq_some d.nodup

/-- Nothing is found exactly for the ids that are not listed. -/
theorem find?_eq_none {d : Directory α} {key : Ident} : d.find? key = none ↔ key ∉ d.keys :=
  lookup_eq_none

end Directory

end TeamRoster
