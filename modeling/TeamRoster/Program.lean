import TeamRoster.Command.Line
import TeamRoster.Notice.Transport
import TeamRoster.Settings
import TeamRoster.Store.Staging
import TeamRoster.Workflow.World

/-!
# The program

What the program does between its start and the end of its input, but for the reading and writing
itself. It starts from its settings, with nothing stored; it keeps everything in memory and writes
notifications to a journal. Each line that is not blank is answered by one line.
-/

namespace TeamRoster

namespace Program

/-- Why the program does not start. -/
inductive Refusal where
  | settings (cause : SettingsError)
  /-- There is no connection to a database. -/
  | database (url : String)
deriving DecidableEq

/-- The wording of a refusal. -/
def Refusal.message : Refusal → String
  | settings cause => "Invalid configuration: " ++ cause.message
  | database _ => "Failed to connect to database"

/-- The settings with which the program starts. -/
def start (lookup : String → Option String) : Except Refusal Settings := do
  let settings ← (Settings.ofVariables lookup).mapError .settings
  match settings.databaseUrl with
  | some url => throw (.database url)
  | none => return settings

/-- What there is before the first line. -/
def initial : World Store Journal :=
  ⟨.empty, .empty, 0, 0⟩

/-- Who answers the questions of use cases: the store, the journal, and what the program is given to
draw births from and break ties with. -/
def setting (births : Nat → Birth) (picks : Nat → Nat → Nat) : Setting Store Journal :=
  ⟨Store.storage, Journal.deliver, births, picks⟩

/-- Answer a line; a blank line has no answer. -/
def respond (words : Wording) (e : Setting Store Journal) (line : String)
    (w : World Store Journal) : Option String × World Store Journal :=
  if Text.isBlankText line then (none, w)
  else
    let (answer, after) := e.run (handleLine words line) w
    (some answer, after)

/-- The answers to lines, in order. -/
def responses (words : Wording) (e : Setting Store Journal) :
    List String → World Store Journal → List String
  | [], _ => []
  | line :: lines, w =>
    let (answer, after) := respond words e line w
    answer.toList ++ responses words e lines after

/-- The answers that the program gives to its input, if it starts. Ties are broken as the generator
does that is started from the seed of the settings, or from another one if there is none. -/
def run (lookup : String → Option String) (words : Wording) (births : Nat → Birth)
    (generator : Nat → Nat → Nat → Nat) (otherSeed : Nat) (lines : List String) :
    Except Refusal (List String) := do
  let settings ← start lookup
  let picks := generator (settings.seed.getD otherSeed)
  return responses words (setting births picks) lines initial

end Program

end TeamRoster
