import TeamRoster.Composition.Picks
import TeamRoster.Ident.Random
import TeamRoster.Notice.Document
import TeamRoster.Program

/-!
# Command line

Reads commands from standard input, one on a line, and writes one line of answer for each. Settings
come from the environment, and notifications go to standard error.
-/

namespace TeamRoster

namespace Main

/-- The variables of the environment that settings are read from. -/
def variableNames : List String :=
  [Settings.databaseUrlName, Settings.maxConnectionsName, Settings.logLevelName, Settings.seedName]

/-- The settings of the environment, as a source of variables. -/
def environment : IO (String → Option String) := do
  let values ← variableNames.mapM fun name => do
    return (name, ← IO.getEnv name)
  return fun name => (values.lookup name).join

/-- A number made of this many random bytes. -/
def randomNumber (bytes : USize) : IO Nat := do
  let drawn ← IO.getRandomBytes bytes
  return drawn.data.foldl (fun n b => 256 * n + b.toNat) 0

/-- The births of one command. Their time is only there to order members, so that it may be taken
from a clock that starts anywhere but never goes back. -/
def births : IO (Nat → Birth) := do
  let bits ← randomNumber 16
  let ticks ← IO.monoNanosNow
  return fun n => ⟨.ofRandom (bits + n), .ofNanos (ticks + n)⟩

/-- The explanations that the command line gives. -/
def wording : Wording where
  undecodable _ _ := "the line is no command"
  unencodable _ := "the answer is no object"

/-- Answer lines until the input ends. What is in the journal is written out after each line. -/
partial def serve (settings : Settings) (picks : Nat → Nat → Nat) (w : World Store Journal) :
    IO Unit := do
  let line ← (← IO.getStdin).getLine
  if line.isEmpty then return
  let (answer, after) := Program.respond wording (Program.setting (← births) picks) line w
  if settings.logsNotices then
    for r in after.transport.records do
      IO.eprintln r.toJson.toText
  match answer with
  | some answer =>
    IO.println answer
    (← IO.getStdout).flush
  | none => pure ()
  serve settings picks { after with transport := .empty }

end Main

end TeamRoster

/-- Answers the commands on standard input. -/
def main : IO UInt32 := do
  match TeamRoster.Program.start (← TeamRoster.Main.environment) with
  | .error refusal =>
    IO.eprintln refusal.message
    return 1
  | .ok settings =>
    let seed ← match settings.seed with
      | some seed => pure seed
      | none => TeamRoster.Main.randomNumber 8
    TeamRoster.Main.serve settings (TeamRoster.Picks.seeded seed) TeamRoster.Program.initial
    return 0
