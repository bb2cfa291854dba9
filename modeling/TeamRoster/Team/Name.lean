import TeamRoster.Failure
import TeamRoster.Text.Letter

/-!
# Team names

A team name is a text of 1 to 20 letters. The team that splits off another is named after it, with
`Split` at the end, when that is still a team name. Main statement: the text of a team name is
accepted again and gives the same name.
-/

namespace TeamRoster

/-- A text of 1 to 20 letters. -/
structure TeamName where
  text : String
  ne_empty : text ≠ ""
  letters : text.toList.all Text.isLetter = true
  length_le : text.length ≤ 20

namespace TeamName

/-- Team names with the same text are the same. -/
@[ext] theorem ext {a b : TeamName} (h : a.text = b.text) : a = b := by
  cases a
  cases b
  cases h
  rfl

instance : DecidableEq TeamName := fun a b =>
  if h : a.text = b.text then isTrue (TeamName.ext h) else isFalse fun e => h (congrArg text e)

/-- Take a text as a name, unchanged. That all characters are letters is checked before the
length. -/
def ofText (s : String) : Except RuleError TeamName :=
  if hne : s = "" then
    .error (.badTeamName "name cannot be empty")
  else if hletters : s.toList.all Text.isLetter = true then
    if hlen : s.length ≤ 20 then
      .ok ⟨s, hne, hletters, hlen⟩
    else
      .error (.badTeamName ("'" ++ s ++ "' is longer than 20 characters"))
  else
    .error (.badTeamName ("'" ++ s ++ "' must contain letters only"))

/-- The name of the team that splits off a team of this name. -/
def split (n : TeamName) : Except RuleError TeamName :=
  ofText (n.text ++ "Split")

/-- The text of a name is accepted again. -/
@[simp] theorem ofText_text (n : TeamName) : ofText n.text = .ok n := by
  simp [ofText, n.ne_empty, n.letters, n.length_le]

end TeamName

end TeamRoster
