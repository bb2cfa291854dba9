import TeamRoster.Text.Blank
import TeamRoster.Text.Decimal

/-!
# Settings

What the program is told by its environment: where the database is, how many connections it may
hold, how much is logged, and the seed by which ties are broken. A number may have white space
around it; one that is refused is shown as it was given.
-/

namespace TeamRoster

/-- A variable that should be a number within bounds and is not. -/
structure SettingsError where
  name : String
  value : String
deriving DecidableEq

/-- The wording of a refused setting. -/
def SettingsError.message (e : SettingsError) : String :=
  e.name ++ " must be a number, got '" ++ e.value ++ "'"

/-- What the program is told by its environment. -/
structure Settings where
  /-- Where the database is; without one, everything is kept in memory. -/
  databaseUrl : Option String
  maxConnections : Nat
  logLevel : String
  /-- The seed by which ties are broken. -/
  seed : Option Nat
deriving DecidableEq

namespace Settings

/-- The variable that says where the database is. -/
def databaseUrlName : String := "DATABASE_URL"

/-- The variable that says how many connections may be held. -/
def maxConnectionsName : String := "DATABASE_MAX_CONNECTIONS"

/-- The variable that says how much is logged. -/
def logLevelName : String := "COHORT_LOG_LEVEL"

/-- The variable with the seed by which ties are broken. -/
def seedName : String := "TEAM_SELECTOR_SEED"

/-- Whether notifications are logged: not where only warnings and errors are, or nothing at all. -/
def logsNotices (s : Settings) : Bool :=
  !(["warn", "error", "off"].contains s.logLevel)

/-- A number below a bound, with white space around it. -/
def number (name : String) (bound : Nat) (value : String) : Except SettingsError Nat :=
  match Text.readNumber? (Text.trim value).toList with
  | some n => if n < bound then .ok n else .error ⟨name, value⟩
  | none => .error ⟨name, value⟩

/-- Read the settings from any source of variables. The connections are looked at before the
seed. -/
def ofVariables (lookup : String → Option String) : Except SettingsError Settings := do
  let databaseUrl := (lookup databaseUrlName).filter fun url => !Text.isBlankText url
  let maxConnections ← match lookup maxConnectionsName with
    | some value => number maxConnectionsName UInt32.size value
    | none => .ok 5
  let seed ← match lookup seedName with
    | some value => (number seedName UInt64.size value).map some
    | none => .ok none
  return ⟨databaseUrl, maxConnections, (lookup logLevelName).getD "info", seed⟩

end Settings

end TeamRoster
