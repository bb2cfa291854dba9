import TeamRoster.Failure
import TeamRoster.Text.Blank

/-!
# Member names

A member name is a trimmed text of 1 to 30 characters. `MemberName.ofText` trims what it is given
and refuses what is empty or too long. Main statement: the text of a member name is accepted again
and gives the same name.
-/

namespace TeamRoster

/-- A trimmed text of 1 to 30 characters. -/
structure MemberName where
  text : String
  ne_empty : text ≠ ""
  length_le : text.length ≤ 30
  trimmed : Text.trim text = text

namespace MemberName

/-- Member names with the same text are the same. -/
@[ext] theorem ext {a b : MemberName} (h : a.text = b.text) : a = b := by
  cases a
  cases b
  cases h
  rfl

instance : DecidableEq MemberName := fun a b =>
  if h : a.text = b.text then isTrue (MemberName.ext h) else isFalse fun e => h (congrArg text e)

/-- Trim a text and take it as a name. -/
def ofText (s : String) : Except RuleError MemberName :=
  let t := Text.trim s
  if hne : t = "" then
    .error (.badMemberName "name cannot be empty")
  else if hlen : t.length ≤ 30 then
    .ok ⟨t, hne, hlen, Text.trim_trim s⟩
  else
    .error (.badMemberName ("'" ++ t ++ "' is longer than 30 characters"))

/-- The text of a name is accepted again, unchanged. -/
@[simp] theorem ofText_text (n : MemberName) : ofText n.text = .ok n := by
  simp [ofText, n.trimmed, n.ne_empty, n.length_le]

end MemberName

end TeamRoster
