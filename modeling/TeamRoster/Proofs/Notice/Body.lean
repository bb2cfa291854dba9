import Mathlib.Algebra.Ring.Nat
import Mathlib.Data.List.Basic
import TeamRoster.Ident.Random
import TeamRoster.Notice.Event

/-!
# The rows of a body

What a reader of a body sees are its rows, the texts before its line feeds. A body is written line by
line, but a line is one row only if no line feed stands in it. E-mail addresses have no white space,
team names have letters only and ids have digits and hyphens; the name of a member may have white
space inside, line feeds included. Main statement: `Event.body_law`. The rows are the headline and,
for each team, a line with its name and one line per member, exactly if no name has a line feed; each
line feed in a name makes one more row.
-/

namespace TeamRoster

namespace Text

variable {s : String}

/-- The rows of a text: what stands before each line feed, and what is left after the last one. -/
def rows (s : String) : List String :=
  (s.toList.splitOn '\n').map String.ofList

/-- The number of line feeds in a text. -/
def feeds (s : String) : Nat :=
  s.toList.count '\n'

theorem feeds_eq_zero : feeds s = 0 ↔ '\n' ∉ s.toList :=
  List.count_eq_zero

@[simp] theorem feeds_append (s t : String) : feeds (s ++ t) = feeds s + feeds t := by
  simp [feeds]

/-- Each line feed ends a row, and one more row is left. -/
theorem length_rows (s : String) : (rows s).length = feeds s + 1 := by
  rw [rows, feeds, List.length_map]
  induction s.toList with
  | nil => simp
  | cons c cs ih =>
    by_cases hc : c = '\n'
    · simp [List.splitOn_cons_eq_if_modifyHead, hc, ih]
    · simp [List.splitOn_cons_eq_if_modifyHead, hc, ih, List.length_modifyHead]

/-- A text without line feeds is one row. -/
theorem rows_of_feeds (h : feeds s = 0) : rows s = [s] := by
  rw [rows, List.splitOn_eq_singleton (feeds_eq_zero.1 h)]
  simp

/-- A line with its line feed goes before the rows of the rest. -/
theorem rows_line (s t : String) : rows (s ++ "\n" ++ t) = rows s ++ rows t := by
  have hsplit : (s ++ "\n" ++ t).toList = s.toList ++ '\n' :: t.toList := by simp
  rw [rows, hsplit, List.splitOn_append_cons_self, List.map_append, ← rows, ← rows]

/-- Lines written one after the other are read as the rows of each of them. -/
theorem rows_join (ls : List String) :
    rows (String.join (ls.map fun line => line ++ "\n")) = ls.flatMap rows ++ [""] := by
  induction ls with
  | nil => simp [rows]
  | cons line ls ih =>
    rw [List.map_cons, String.join_cons, rows_line, ih, List.flatMap_cons, List.append_assoc]

theorem feeds_join (ls : List String) :
    feeds (String.join (ls.map fun line => line ++ "\n")) = ls.length + (ls.map feeds).sum := by
  induction ls with
  | nil => rfl
  | cons line ls ih =>
    have hend : feeds "\n" = 1 := by decide
    simp only [List.map_cons, String.join_cons, feeds_append, ih, hend, List.length_cons,
      List.sum_cons]
    omega

end Text

open Text

/-- A digit of an id is no line feed. -/
theorem Ident.feeds_toText (i : Ident) : feeds i.toText = 0 := by
  have hdigit : ∀ d : Fin 16, hexChar d ≠ '\n' := by decide
  have hdigits : '\n' ∉ i.digits.map hexChar := by
    intro h
    obtain ⟨d, -, hd⟩ := List.mem_map.1 h
    exact hdigit d hd
  have hpart {n k : Nat} : '\n' ∉ ((i.digits.map hexChar).drop n).take k :=
    fun h => hdigits (List.mem_of_mem_drop (List.mem_of_mem_take h))
  rw [feeds_eq_zero, toText, String.toList_ofList, grouped]
  simp only [List.mem_append, List.mem_cons, not_or]
  exact ⟨fun h => hdigits (List.mem_of_mem_take h), by decide, hpart, by decide, hpart, by decide,
    hpart, by decide, fun h => hdigits (List.mem_of_mem_drop h)⟩

/-- A line feed is no letter. -/
theorem TeamName.feeds_text (n : TeamName) : feeds n.text = 0 := by
  refine feeds_eq_zero.2 fun h => ?_
  have hletter : isLetter '\n' = true := List.all_eq_true.1 n.letters _ h
  exact absurd hletter (by decide +kernel)

/-- A line feed is white space. -/
theorem Email.feeds_text (e : Email) : feeds e.text = 0 := by
  have hvalid := e.valid
  rw [isAddress, Bool.and_eq_true, Bool.not_eq_true', List.any_eq_false] at hvalid
  exact feeds_eq_zero.2 fun h => hvalid.1 _ h (by decide)

/-- A line feed is no decimal digit. -/
theorem notMem_toDigits (n : Nat) : '\n' ∉ Nat.toDigits 10 n := by
  intro h
  have hdigit : ('\n' : Char).isDigit = true :=
    Nat.isDigit_of_mem_toDigits (by decide) (by decide) h
  exact absurd hdigit (by decide)

namespace Event

variable {e : Event}

/-- Everybody that a body names: who the event is about, then the members of the teams. -/
def people (e : Event) : List Member :=
  e.member :: e.teams.flatMap Team.members

/-- The number of line feeds in the names of some members. -/
def breaks (ms : List Member) : Nat :=
  (ms.map fun m => feeds m.name.text).sum

theorem breaks_eq_zero {ms : List Member} :
    breaks ms = 0 ↔ ∀ m ∈ ms, '\n' ∉ m.name.text.toList := by
  simp [breaks, List.sum_eq_zero_iff_forall_eq_nat, feeds_eq_zero]

theorem breaks_append (ms others : List Member) :
    breaks (ms ++ others) = breaks ms + breaks others := by
  simp [breaks]

/-- A text lists the teams of an event: its rows are a headline that starts with who the event is
about, and for each team a row with its name and id and one row per member. -/
def ListedIn (e : Event) (text : String) : Prop :=
  ∃ done : String, rows text =
    (e.member.name.text ++ " (" ++ e.member.id.toText ++ ") <" ++ e.member.email.text ++ ">" ++ done)
      :: (e.teams.flatMap fun t =>
        ("Members of " ++ (t.name.text ++ " (" ++ t.id.toText ++ ")") ++ ":") ::
          t.members.map fun m =>
            "  - " ++ (m.name.text ++ " (" ++ m.id.toText ++ ") <" ++ m.email.text ++ ">")) ++ [""]

/-- Only the name can bring a line feed into what is shown of a member. -/
theorem feeds_describe (m : Member) : feeds (describe m) = feeds m.name.text := by
  have hfixed : feeds " (" = 0 ∧ feeds ") <" = 0 ∧ feeds ">" = 0 := by simp [feeds]
  simp [describe, hfixed, Ident.feeds_toText, Email.feeds_text]

theorem feeds_label (t : Team) : feeds (label t) = 0 := by
  have hfixed : feeds " (" = 0 ∧ feeds ")" = 0 := by simp [feeds]
  simp [label, hfixed, Ident.feeds_toText, TeamName.feeds_text]

/-- A headline names the member, and the rest of it has no line feeds. -/
theorem exists_headline (e : Event) :
    ∃ done, e.headline = describe e.member ++ done ∧ feeds done = 0 := by
  cases e with
  | teamSplit kept new trigger =>
    refine ⟨" joined team " ++ label kept ++ ", which then had " ++
      toString (kept.size + new.size) ++ " members and was split.", ?_, ?_⟩
    · simp only [headline, member, String.append_assoc]
    · simp [feeds_label, feeds_eq_zero, notMem_toDigits]
  | teamMerge destination moved =>
    refine ⟨" was the last member of their team and moved to team " ++ label destination ++ ".",
      ?_, ?_⟩
    · simp only [headline, member, String.append_assoc]
    · simp [feeds_label, feeds_eq_zero]
  | teamMonitoring team removed =>
    refine ⟨" left team " ++ label team ++ ", which now has " ++ toString team.size ++
      " member(s) and needs monitoring.", ?_, ?_⟩
    · simp only [headline, member, String.append_assoc]
    · simp [feeds_label, feeds_eq_zero, notMem_toDigits]
  | mergeFailure team stranded =>
    refine ⟨" is the only member left in team " ++ label team ++ " and no other team has room.",
      ?_, ?_⟩
    · simp only [headline, member, String.append_assoc]
    · simp [feeds_label, feeds_eq_zero]

theorem feeds_headline (e : Event) : feeds e.headline = feeds e.member.name.text := by
  obtain ⟨done, heq, hdone⟩ := exists_headline e
  rw [heq, feeds_append, feeds_describe, hdone, Nat.add_zero]

/-- The line feeds in the lines of a team are those in the names of its members. -/
theorem sum_feeds_rosterLines (t : Team) :
    ((rosterLines t).map feeds).sum = breaks t.members := by
  have hfixed : feeds "Members of " = 0 ∧ feeds ":" = 0 ∧ feeds "  - " = 0 := by simp [feeds]
  simp [rosterLines, breaks, hfixed, feeds_label, feeds_describe, Function.comp_def]

/-- The line feeds in the lines of a body are those in the names of the people in it. -/
theorem sum_feeds_lines (e : Event) : (e.lines.map feeds).sum = breaks e.people := by
  have hteams (ts : List Team) :
      ((ts.flatMap rosterLines).map feeds).sum = breaks (ts.flatMap Team.members) := by
    induction ts with
    | nil => rfl
    | cons t ts ih =>
      rw [List.flatMap_cons, List.flatMap_cons, List.map_append, List.sum_append, ih,
        sum_feeds_rosterLines, breaks_append]
  rw [lines, List.map_cons, List.sum_cons, hteams, feeds_headline]
  simp [breaks, people]

/-- One line for the headline, and for each team one more than it has members. -/
theorem length_lines (e : Event) :
    e.lines.length = 1 + (e.teams.map fun t => 1 + t.size).sum := by
  simp [lines, rosterLines, List.length_flatMap, Team.size, Nat.add_comm]

/-- The rows of a body are those of its lines, and nothing is left after the last line feed. -/
theorem rows_body (e : Event) : rows e.body = e.lines.flatMap rows ++ [""] :=
  rows_join e.lines

theorem feeds_body (e : Event) : feeds e.body = e.lines.length + breaks e.people := by
  rw [body, feeds_join, sum_feeds_lines]

/-- Lines without line feeds are the rows of the body. -/
theorem rows_body_of_breaks (h : breaks e.people = 0) : rows e.body = e.lines ++ [""] := by
  have hline : ∀ line ∈ e.lines, rows line = [line] := by
    intro line hline
    rw [← sum_feeds_lines, List.sum_eq_zero_iff_forall_eq_nat] at h
    exact rows_of_feeds (h _ (List.mem_map_of_mem hline))
  rw [rows_body, List.flatMap_congr hline, List.flatMap_singleton']

/-- A body lists the teams exactly if nobody in it has a line feed in their name. -/
theorem listedIn_body : e.ListedIn e.body ↔ ∀ m ∈ e.people, '\n' ∉ m.name.text.toList := by
  rw [← breaks_eq_zero]
  constructor
  · rintro ⟨done, hrows⟩
    have hlength : (rows e.body).length = e.lines.length + 1 := by
      rw [hrows]
      simp [lines, rosterLines, List.length_flatMap]
    rw [length_rows, feeds_body] at hlength
    omega
  · intro h
    obtain ⟨done, heq, -⟩ := exists_headline e
    refine ⟨done, ?_⟩
    rw [rows_body_of_breaks h, lines, heq]
    rfl

/-- A body lists the teams of an event, one row per member, exactly if nobody in it has a line feed in
their name. It has one line feed for the headline, for each team one more than the team has members, and
one more for each line feed in a name. -/
theorem body_law (e : Event) :
    (e.ListedIn e.body ↔ ∀ m ∈ e.people, '\n' ∉ m.name.text.toList) ∧
      e.body.toList.count '\n' =
        1 + (e.teams.map fun t => 1 + t.size).sum +
          (e.people.map fun m => m.name.text.toList.count '\n').sum :=
  ⟨listedIn_body, (feeds_body e).trans (by rw [length_lines]; rfl)⟩

section Forged

/-- A member whose name takes two rows. -/
def annBob : Member where
  id := .ofRandom 1
  name := ⟨"Ann\nBob", by decide, by decide, by decide +kernel⟩
  email := ⟨"ann@example.org", by decide +kernel⟩
  status := .active
  createdAt := .ofSeconds 0

/-- A team left to one member, who looks like two. -/
def forged : Event :=
  .teamMonitoring
    { id := .ofRandom 10
      name := ⟨"Larks", by decide, by decide +kernel, by decide⟩
      members := [annBob]
      createdAt := .ofSeconds 0 }
    { annBob with
      id := .ofRandom 2
      name := ⟨"Zoe", by decide, by decide, by decide +kernel⟩ }

/-- A name with a line feed inside is accepted, and its second half stands in a row of its own. -/
theorem forged_row :
    MemberName.ofText "Ann\nBob" = .ok annBob.name ∧ annBob ∈ forged.people ∧
      ("Bob (" ++ annBob.id.toText ++ ") <ann@example.org>") ∈ rows forged.body ∧
      forged.body.toList.count '\n' = 4 ∧ 1 + (forged.teams.map fun t => 1 + t.size).sum = 3 ∧
      ¬ forged.ListedIn forged.body := by
  have hmember : annBob ∈ forged.people := List.mem_cons_of_mem _ (List.mem_singleton_self annBob)
  have hline : "  - " ++ describe annBob ∈ forged.lines := by
    simp [lines, teams, rosterLines, forged, team]
  have hhalf : ("Bob (" ++ annBob.id.toText ++ ") <ann@example.org>") ∈
      rows ("  - " ++ describe annBob) := by
    decide +kernel
  refine ⟨MemberName.ofText_text annBob.name, hmember, ?_, ?_, rfl, ?_⟩
  · rw [rows_body]
    exact List.mem_append_left _ (List.mem_flatMap.2 ⟨_, hline, hhalf⟩)
  · exact (feeds_body forged).trans (by decide)
  · exact fun h => listedIn_body.1 h annBob hmember (by decide)

end Forged

end Event

end TeamRoster
