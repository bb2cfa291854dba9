import TeamRoster.Command.Answer
import TeamRoster.Command.Basic
import TeamRoster.Workflow.UseCases

/-!
# Answering lines

Each line is a command, and each command gets one answer line. A line that does not decode and a use
case that fails are answered too. Why a line does not decode, or an answer does not encode, is explained
by who reads and writes JSON; the words are taken as they come.
-/

namespace TeamRoster

/-- How failures to decode and to encode are explained. -/
structure Wording where
  /-- Why this line is no command. -/
  undecodable (line : String) (cause : DecodeError) : String
  /-- Why an answer has no JSON form. -/
  unencodable (cause : EncodeError) : String

namespace Command

/-- Carry out a command. The texts in it are checked first, in order. -/
def perform : Command → UseCase Answer
  | registerMember name email status => do
    let name ← UseCase.ofRule (MemberName.ofText name)
    let email ← UseCase.ofRule (Email.ofText email)
    return .ofMember (← UseCase.register name email status)
  | createTeam name members => do
    let name ← UseCase.ofRule (TeamName.ofText name)
    return .ofTeam (← UseCase.formTeam name members)
  | addMember team member => do
    return .ofTeam (← UseCase.addMember team member)
  | removeMember team member => do
    return .ofTeam (← UseCase.removeMember team member)
  | changeStatus member status => do
    return .ofStatusChange (← UseCase.changeStatus member status)
  | reassignMember member => do
    return .ofTeam (← UseCase.reassign member)

/-- The answer to a command. -/
def answer (c : Command) : Dialogue Ask Ask.Answer Answer := do
  match ← (perform c).run with
  | .ok answer => return answer
  | .error e => return .ofFailure e

end Command

/-- The answer to a line. -/
def answerLine (words : Wording) (line : String) : Dialogue Ask Ask.Answer Answer :=
  match Command.ofText line with
  | .ok c => c.answer
  | .error e => pure (.failure ("Invalid command: " ++ words.undecodable line e) false)

/-- The answer line to a line. -/
def handleLine (words : Wording) (line : String) : Dialogue Ask Ask.Answer String := do
  return (← answerLine words line).toText words.unencodable

end TeamRoster
