import TeamRoster.Failure
import TeamRoster.Text.Blank

/-!
# E-mail addresses

An e-mail address is a text without white space that has exactly one `@`, with something before it
and something after it. It is kept as it was given. Main statement: the text of an address is
accepted again and gives the same address.
-/

namespace TeamRoster

namespace Email

/-- Cut at the first `@`, which is dropped. -/
def cut? (cs : List Char) : Option (List Char × List Char) :=
  match cs.dropWhile (· != '@') with
  | [] => none
  | _ :: rest => some (cs.takeWhile (· != '@'), rest)

/-- Whether a text is an address: no white space, and one `@` between two parts that are not
empty. -/
def isAddress (s : String) : Bool :=
  !s.toList.any Text.isBlank &&
    match cut? s.toList with
    | some (user, domain) => !user.isEmpty && !domain.isEmpty && !domain.contains '@'
    | none => false

end Email

/-- An e-mail address. -/
structure Email where
  text : String
  valid : Email.isAddress text = true

namespace Email

/-- Addresses with the same text are the same. -/
@[ext] theorem ext {a b : Email} (h : a.text = b.text) : a = b := by
  cases a
  cases b
  cases h
  rfl

instance : DecidableEq Email := fun a b =>
  if h : a.text = b.text then isTrue (Email.ext h) else isFalse fun e => h (congrArg text e)

/-- Take a text as an address, unchanged. -/
def ofText (s : String) : Except RuleError Email :=
  if h : isAddress s = true then .ok ⟨s, h⟩ else .error (.badEmail s)

/-- The text of an address is accepted again. -/
@[simp] theorem ofText_text (e : Email) : ofText e.text = .ok e := by
  simp [ofText, e.valid]

end Email

end TeamRoster
