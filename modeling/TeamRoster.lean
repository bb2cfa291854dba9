import TeamRoster.Command.Answer
import TeamRoster.Command.Basic
import TeamRoster.Command.Line
import TeamRoster.Composition.Basic
import TeamRoster.Composition.Picks
import TeamRoster.Composition.Placement
import TeamRoster.Composition.TieBreak
import TeamRoster.Dialogue
import TeamRoster.Directory
import TeamRoster.Failure
import TeamRoster.Ident
import TeamRoster.Ident.Random
import TeamRoster.Instant.Basic
import TeamRoster.Instant.Calendar
import TeamRoster.Instant.Stamp
import TeamRoster.Json.Basic
import TeamRoster.Json.Decode
import TeamRoster.Json.Double
import TeamRoster.Json.Numeral
import TeamRoster.Json.Reading
import TeamRoster.Main
import TeamRoster.Member.Basic
import TeamRoster.Member.Document
import TeamRoster.Member.Email
import TeamRoster.Member.Name
import TeamRoster.Member.Status
import TeamRoster.Notice.Document
import TeamRoster.Notice.Event
import TeamRoster.Notice.Transport
import TeamRoster.Program
import TeamRoster.Roster.Change
import TeamRoster.Roster.Document
import TeamRoster.Roster.Interference
import TeamRoster.Roster.Request
import TeamRoster.Settings
import TeamRoster.Store.Basic
import TeamRoster.Store.Staging
import TeamRoster.Tables.Basic
import TeamRoster.Tables.Connection
import TeamRoster.Tables.Document
import TeamRoster.Tables.Statement
import TeamRoster.Tables.Storage
import TeamRoster.Team.Basic
import TeamRoster.Team.Family
import TeamRoster.Team.Mutation
import TeamRoster.Team.Name
import TeamRoster.Text.Blank
import TeamRoster.Text.Decimal
import TeamRoster.Text.Hex
import TeamRoster.Text.Letter
import TeamRoster.Workflow.Ask
import TeamRoster.Workflow.Plan
import TeamRoster.Workflow.UseCases
import TeamRoster.Workflow.World
import TeamRoster.Proofs.Failing
import TeamRoster.Proofs.Store.Writes
import TeamRoster.Proofs.Store.Serial
import TeamRoster.Proofs.Store.Overlay
import TeamRoster.Proofs.Dialogue
import TeamRoster.Proofs.Store.Commit
import TeamRoster.Proofs.Workflow.Preparation
import TeamRoster.Proofs.Workflow.Execution
import TeamRoster.Proofs.Command.Failure
import TeamRoster.Proofs.Store.Edits
import TeamRoster.Proofs.Store.Reads
import TeamRoster.Proofs.Composition.Choice
import TeamRoster.Proofs.Composition.Removal
import TeamRoster.Proofs.Composition.Placement
import TeamRoster.Proofs.Store.Roll
import TeamRoster.Proofs.Roster.Rewriting
import TeamRoster.Proofs.Workflow.Decision
import TeamRoster.Proofs.Workflow.Soundness
import TeamRoster.Proofs.Workflow.Settlement
import TeamRoster.Proofs.Workflow.Runs
import TeamRoster.Proofs.Workflow.Stored
import TeamRoster.Proofs.Workflow.Recorded
import TeamRoster.Proofs.Workflow.Deeds
import TeamRoster.Proofs.Workflow.Assigned
import TeamRoster.Proofs.Workflow.Sizes
import TeamRoster.Proofs.Workflow.Announced
import TeamRoster.Proofs.Workflow.Refusals
import TeamRoster.Proofs.Workflow.Leaving
import TeamRoster.Proofs.Composition.Admission
import TeamRoster.Proofs.Composition.Ties
import TeamRoster.Proofs.Team.InPlace
import TeamRoster.Proofs.Composition.Growth
import TeamRoster.Proofs.Team.Absorption
import TeamRoster.Proofs.Store.TeamEdits
import TeamRoster.Proofs.Workflow.Faults
import TeamRoster.Proofs.Workflow.Admission
import TeamRoster.Proofs.Workflow.Repeated
import TeamRoster.Proofs.Store.Restating
import TeamRoster.Proofs.Workflow.StatusPath
import TeamRoster.Proofs.Workflow.Grounded
import TeamRoster.Proofs.Workflow.Stale
import TeamRoster.Proofs.Store.Order
import TeamRoster.Proofs.Store.WellFormed
import TeamRoster.Proofs.Command.AnswerText
import TeamRoster.Proofs.Workflow.Sharing
import TeamRoster.Proofs.Tables.Queries
import TeamRoster.Proofs.Tables.Rows
import TeamRoster.Proofs.Composition.Timeless
import TeamRoster.Proofs.Workflow.Alike
import TeamRoster.Proofs.Tables.Lookup
import TeamRoster.Proofs.Tables.Storable
import TeamRoster.Proofs.Store.Orderly
import TeamRoster.Proofs.Tables.Mirror
import TeamRoster.Proofs.Tables.Edits
import TeamRoster.Proofs.Tables.Room
import TeamRoster.Proofs.Tables.Commits
import TeamRoster.Proofs.Tables.Order
import TeamRoster.Proofs.Tables.Reads
import TeamRoster.Proofs.Workflow.Fitting
import TeamRoster.Proofs.Workflow.Interchange
import TeamRoster.Proofs.Workflow.TwinWrites
import TeamRoster.Proofs.Workflow.Exhaustion
import TeamRoster.Proofs.Team.Conservation
import TeamRoster.Proofs.Notice.Body
import TeamRoster.Proofs.Tables.Constraints
import TeamRoster.Proofs.Tables.Agreement
import TeamRoster.Proofs.Instant.Calendar
import TeamRoster.Proofs.Instant.Stamp
import TeamRoster.Proofs.Member.Document
import TeamRoster.Proofs.Text.Grammar
import TeamRoster.Proofs.Tables.Trials
import TeamRoster.Proofs.Tables.Provenance
import TeamRoster.Proofs.Tables.Truthful
