import Mathlib.Logic.ExistsUnique
import TeamRoster.Member.Email
import TeamRoster.Member.Name
import TeamRoster.Team.Name

/-!
# Which texts are accepted

The checks of addresses and names scan a text from its ends or for its first `@`; here they are compared
with what an accepted text looks like as a whole. Main statements: `Text.trim_eq_iff`, by which trimming
gives the one core that a text has (`Text.IsCore`), and `Email.map_ofText`, `MemberName.map_ofText`,
`TeamName.map_ofText` and `TeamName.map_split`, which say when a text is accepted and as which text.
-/

namespace TeamRoster

namespace Text

variable {s t : String} {cs before behind : List Char}

/-- A text is the core of another one that has only white space around it, and neither starts nor ends
with white space itself. -/
structure IsCore (t s : String) : Prop where
  around : ∃ before behind : String,
    s = before ++ t ++ behind ∧ isBlankText before = true ∧ isBlankText behind = true
  first : ∀ c ∈ t.toList.head?, isBlank c = false
  last : ∀ c ∈ t.toList.getLast?, isBlank c = false

theorem trimEnd_eq_self (h : ∀ c ∈ cs.getLast?, isBlank c = false) : trimEnd cs = cs := by
  rw [trimEnd, trimStart_eq_self (by rwa [List.head?_reverse]), List.reverse_reverse]

/-- Blank characters behind a list make no difference to what is left of it. -/
theorem trimEnd_append_blanks (h : ∀ c ∈ behind, isBlank c = true) :
    trimEnd (cs ++ behind) = trimEnd cs := by
  have hreverse : ∀ c ∈ behind.reverse, isBlank c = true := fun c hc => h c (List.mem_reverse.1 hc)
  rw [trimEnd, trimEnd, List.reverse_append, trimStart, trimStart,
    List.dropWhile_append_of_pos hreverse]

/-- Characters that start and end with none that is blank are what is left of them and the blank ones
around them. -/
theorem trimChars_around (hbefore : ∀ c ∈ before, isBlank c = true)
    (hbehind : ∀ c ∈ behind, isBlank c = true) (hfirst : ∀ c ∈ cs.head?, isBlank c = false)
    (hlast : ∀ c ∈ cs.getLast?, isBlank c = false) : trimChars (before ++ cs ++ behind) = cs := by
  have hdropped : trimStart (before ++ cs ++ behind) = trimStart (cs ++ behind) := by
    rw [trimStart, trimStart, List.append_assoc, List.dropWhile_append_of_pos hbefore]
  rw [trimChars, hdropped]
  cases cs with
  | nil =>
      -- Nothing but blanks: all of them are dropped from the front.
      have hnone : trimStart ([] ++ behind) = [] := by
        rw [trimStart, List.nil_append, ← List.append_nil behind,
          List.dropWhile_append_of_pos hbehind, List.dropWhile_nil]
      rw [hnone]
      rfl
  | cons c cs =>
      rw [List.cons_append, trimStart_of_head (hfirst c rfl), ← List.cons_append,
        trimEnd_append_blanks hbehind, trimEnd_eq_self hlast]

/-- What trimming leaves is a core. -/
theorem isCore_trim (s : String) : IsCore (trim s) s where
  around := by
    obtain ⟨behind, hbehind, hblank⟩ := trimEnd_append (trimStart s.toList)
    refine ⟨.ofList (s.toList.takeWhile isBlank), .ofList behind, ?_, ?_, ?_⟩
    · rw [← String.toList_inj]
      simp only [trim, trimChars, String.toList_append, String.toList_ofList, List.append_assoc,
        hbehind]
      exact List.takeWhile_append_dropWhile.symm
    · rw [isBlankText, String.toList_ofList]
      exact List.all_takeWhile
    · rw [isBlankText, String.toList_ofList]
      exact List.all_eq_true.2 hblank
  first := by
    rw [trim, String.toList_ofList, trimChars, ← trimStart_trimEnd (trimStart_trimStart s.toList)]
    exact head_trimStart _
  last := by
    rw [trim, String.toList_ofList, trimChars, trimEnd, List.getLast?_reverse]
    exact head_trimStart _

/-- Trimming a text gives its core. -/
theorem trim_eq_iff : trim s = t ↔ IsCore t s := by
  constructor
  · rintro rfl
    exact isCore_trim s
  · intro h
    obtain ⟨before, behind, rfl, hbefore, hbehind⟩ := h.around
    rw [trim, String.toList_append, String.toList_append,
      trimChars_around (List.all_eq_true.1 hbefore) (List.all_eq_true.1 hbehind) h.first h.last,
      String.ofList_toList]

/-- Every text has exactly one core. -/
theorem existsUnique_isCore (s : String) : ∃! core, IsCore core s :=
  ⟨trim s, isCore_trim s, fun _ h => (trim_eq_iff.2 h).symm⟩

end Text

namespace Email

variable {s t : String} {cs user domain : List Char}

/-- The form of an address: no white space, and something on either side of an `@`, which is the only
one. -/
structure Form (s : String) : Prop where
  compact : ∀ c ∈ s.toList, Text.isBlank c = false
  parts : ∃ user domain : String, s = user ++ "@" ++ domain ∧ user ≠ "" ∧ domain ≠ "" ∧
    '@' ∉ user.toList ∧ '@' ∉ domain.toList

/-- The cut is at the `@` that has none before it. -/
theorem cut?_eq_some : cut? cs = some (user, domain) ↔ cs = user ++ '@' :: domain ∧ '@' ∉ user := by
  constructor
  · intro h
    have hsplit := List.takeWhile_append_dropWhile (p := (· != '@')) (l := cs)
    unfold cut? at h
    cases hrest : cs.dropWhile (· != '@') with
    | nil => simp [hrest] at h
    | cons c rest =>
        have hat : c = '@' := by simpa [hrest] using List.head?_dropWhile_not (· != '@') cs
        have hnone : ∀ d ∈ cs.takeWhile (· != '@'), (d != '@') = true :=
          List.all_eq_true.1 List.all_takeWhile
        rw [hrest, hat] at hsplit
        simp only [hrest, Option.some.injEq, Prod.mk.injEq] at h
        obtain ⟨rfl, rfl⟩ := h
        exact ⟨hsplit.symm, fun hmem => by simpa using hnone '@' hmem⟩
  · rintro ⟨rfl, hnone⟩
    have hother : ∀ d ∈ user, (d != '@') = true := by
      intro d hd
      rw [bne_iff_ne]
      rintro rfl
      exact hnone hd
    rw [cut?, List.dropWhile_append_of_pos hother, List.takeWhile_append_of_pos hother]
    simp

/-- The check lets exactly the texts of the form through. -/
theorem isAddress_iff : isAddress s = true ↔ Form s := by
  have hcompact : (!s.toList.any Text.isBlank) = true ↔ ∀ c ∈ s.toList, Text.isBlank c = false := by
    simp
  rw [isAddress, Bool.and_eq_true, hcompact]
  constructor
  · rintro ⟨hblank, hcut⟩
    refine ⟨hblank, ?_⟩
    split at hcut
    · rename_i user domain hsome
      obtain ⟨hs, huser⟩ := cut?_eq_some.1 hsome
      simp only [Bool.and_eq_true, Bool.not_eq_true', List.isEmpty_eq_false_iff,
        List.contains_eq_mem, decide_eq_false_iff_not] at hcut
      obtain ⟨⟨hne, hdomain⟩, hone⟩ := hcut
      refine ⟨.ofList user, .ofList domain, ?_, ?_, ?_, ?_, ?_⟩
      · rw [← String.toList_inj]
        simp [hs]
      · simpa using hne
      · simpa using hdomain
      · simpa using huser
      · simpa using hone
    · cases hcut
  · rintro ⟨hblank, user, domain, rfl, hne, hdomain, huser, hone⟩
    refine ⟨hblank, ?_⟩
    have hcut : cut? (user ++ "@" ++ domain).toList = some (user.toList, domain.toList) :=
      cut?_eq_some.2 ⟨by simp, huser⟩
    rw [hcut]
    simp [hne, hdomain, hone]

/-- An address is kept as it is given. -/
theorem map_ofText : (ofText s).map text = .ok t ↔ Form s ∧ t = s := by
  rw [← isAddress_iff, ofText]
  split
  · simp [Except.map, eq_comm, *]
  · simp [Except.map, *]

end Email

namespace MemberName

variable {s t : String}

/-- A name is the core of what is given, if that is not empty and not too long. -/
theorem map_ofText :
    (ofText s).map text = .ok t ↔ Text.IsCore t s ∧ t ≠ "" ∧ t.length ≤ 30 := by
  rw [← Text.trim_eq_iff, ofText]
  constructor
  · intro h
    split at h
    · cases h
    split at h
    · cases h
      exact ⟨rfl, by assumption, by assumption⟩
    · cases h
  · rintro ⟨rfl, hne, hlength⟩
    simp [hne, hlength, Except.map]

end MemberName

namespace TeamName

variable {s t : String}

/-- The form of a team name: 1 to 20 letters. -/
structure Form (s : String) : Prop where
  one_le : 1 ≤ s.length
  le_twenty : s.length ≤ 20
  letters : ∀ c ∈ s.toList, Text.isLetter c = true

/-- A team name is kept as it is given. -/
theorem map_ofText : (ofText s).map text = .ok t ↔ Form s ∧ t = s := by
  have hpos : s ≠ "" ↔ 1 ≤ s.length := by
    rw [ne_eq, ← String.length_eq_zero_iff]
    omega
  rw [ofText]
  constructor
  · intro h
    split at h
    · cases h
    split at h
    · split at h
      · rename_i hne hletters hlength
        cases h
        exact ⟨⟨hpos.1 hne, hlength, List.all_eq_true.1 hletters⟩, rfl⟩
      · cases h
    · cases h
  · rintro ⟨h, rfl⟩
    have hletters := List.all_eq_true.2 h.letters
    simp [hpos.2 h.one_le, hletters, h.le_twenty, Except.map]

/-- A name with the ending is a name if it is not too long: the ending consists of letters. -/
theorem form_split (n : TeamName) : Form (n.text ++ "Split") ↔ n.text.length ≤ 15 := by
  have hlength : (n.text ++ "Split").length = n.text.length + 5 := by
    rw [String.length_append]
    rfl
  have hending : "Split".toList.all Text.isLetter = true := by decide +kernel
  constructor
  · intro h
    have hle := h.le_twenty
    omega
  · intro h
    refine ⟨by omega, by omega, fun c hc => ?_⟩
    rw [String.toList_append, List.mem_append] at hc
    exact hc.elim (List.all_eq_true.1 n.letters c) (List.all_eq_true.1 hending c)

/-- The name of the team that splits off is there for names of at most 15 letters. -/
theorem map_split (n : TeamName) :
    n.split.map text = .ok t ↔ n.text.length ≤ 15 ∧ t = n.text ++ "Split" := by
  rw [split, map_ofText, form_split]

end TeamName

end TeamRoster
