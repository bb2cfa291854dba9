import TeamRoster.Team.Basic

/-!
# Notifications

What mentors hear about, as data: an `Event` holds the teams as they are after the change was saved.
`Event.notification` is its text. A body is a list of lines, each ended by a line feed: a headline,
then for each team concerned a line that names it and one line per member.
-/

namespace TeamRoster

/-- The kinds of notification. -/
inductive NoticeKind where
  | teamSplit
  | teamMerge
  | teamMonitoring
  | mergeFailure
deriving DecidableEq

/-- The written name of a kind. -/
def NoticeKind.toText : NoticeKind → String
  | teamSplit => "team_split"
  | teamMerge => "team_merge"
  | teamMonitoring => "team_monitoring"
  | mergeFailure => "merge_failure"

/-- A change that mentors hear about. -/
inductive Event where
  /-- A team split when a member joined. -/
  | teamSplit (kept new : Team) (trigger : Member)
  /-- The last member of a team moved to another team. -/
  | teamMerge (destination : Team) (moved : Member)
  /-- A team is small after a member left. -/
  | teamMonitoring (team : Team) (removed : Member)
  /-- The last member of a team has nowhere to go. -/
  | mergeFailure (team : Team) (stranded : Member)
deriving DecidableEq

/-- The text of an event, with what it is about. -/
structure Notification where
  kind : NoticeKind
  team : Ident
  member : Ident
  subject : String
  body : String
deriving DecidableEq

namespace Event

/-- The kind of an event. -/
def kind : Event → NoticeKind
  | teamSplit _ _ _ => .teamSplit
  | teamMerge _ _ => .teamMerge
  | teamMonitoring _ _ => .teamMonitoring
  | mergeFailure _ _ => .mergeFailure

/-- The team that an event is about: what stayed after a split, the destination of a merge. -/
def team : Event → Team
  | teamSplit kept _ _ => kept
  | teamMerge destination _ => destination
  | teamMonitoring team _ => team
  | mergeFailure team _ => team

/-- The member that an event is about. -/
def member : Event → Member
  | teamSplit _ _ trigger => trigger
  | teamMerge _ moved => moved
  | teamMonitoring _ removed => removed
  | mergeFailure _ stranded => stranded

/-- The teams whose members the body lists. -/
def teams : Event → List Team
  | teamSplit kept new _ => [kept, new]
  | e => [e.team]

/-- The subject of the notification. -/
def subject : Event → String
  | teamSplit kept _ _ => "Team " ++ kept.name.text ++ " was split"
  | teamMerge destination moved =>
    moved.name.text ++ " moved into team " ++ destination.name.text
  | teamMonitoring team _ => "Team " ++ team.name.text ++ " needs monitoring"
  | mergeFailure team _ => "Team " ++ team.name.text ++ " could not be merged"

/-- A member as bodies show them. -/
def describe (m : Member) : String :=
  m.name.text ++ " (" ++ m.id.toText ++ ") <" ++ m.email.text ++ ">"

/-- A team as bodies name it. -/
def label (t : Team) : String :=
  t.name.text ++ " (" ++ t.id.toText ++ ")"

/-- The first line of the body: who did what. -/
def headline : Event → String
  | teamSplit kept new trigger =>
    describe trigger ++ " joined team " ++ label kept ++ ", which then had " ++
      toString (kept.size + new.size) ++ " members and was split."
  | teamMerge destination moved =>
    describe moved ++ " was the last member of their team and moved to team " ++
      label destination ++ "."
  | teamMonitoring team removed =>
    describe removed ++ " left team " ++ label team ++ ", which now has " ++
      toString team.size ++ " member(s) and needs monitoring."
  | mergeFailure team stranded =>
    describe stranded ++ " is the only member left in team " ++ label team ++
      " and no other team has room."

/-- The lines that list the members of a team. -/
def rosterLines (t : Team) : List String :=
  ("Members of " ++ label t ++ ":") :: t.members.map fun m => "  - " ++ describe m

/-- The lines of the body. -/
def lines (e : Event) : List String :=
  e.headline :: e.teams.flatMap rosterLines

/-- The body: its lines, each with a line feed. -/
def body (e : Event) : String :=
  String.join (e.lines.map fun line => line ++ "\n")

/-- The notification that tells of an event. -/
def notification (e : Event) : Notification :=
  ⟨e.kind, e.team.id, e.member.id, e.subject, e.body⟩

end Event

end TeamRoster
