import TeamRoster.Failure
import TeamRoster.Notice.Event

/-!
# Transports

Where notifications go. An `Outbox` keeps what it delivers, and can be taken offline: it drops every
notification then. A `Journal` writes them to a log and never fails.
-/

namespace TeamRoster

/-- Keeps the notifications that were delivered, oldest first. -/
structure Outbox where
  sent : List Notification
  offline : Bool
deriving DecidableEq

namespace Outbox

/-- An outbox that is online and empty. -/
def empty : Outbox :=
  ⟨[], false⟩

/-- Deliver a notification unless the outbox is offline. -/
def deliver (n : Notification) (o : Outbox) : Except DeliveryError Unit × Outbox :=
  if o.offline then
    (.error ⟨"transport offline, dropped '" ++ n.subject ++ "'"⟩, o)
  else (.ok (), { o with sent := o.sent ++ [n] })

end Outbox

/-- A line of the log that tells of a notification. -/
structure LogRecord where
  level : String
  kind : String
  team : Ident
  member : Ident
  subject : String
  message : String
deriving DecidableEq

namespace LogRecord

/-- How the log names the kinds of notification. -/
def kindName : NoticeKind → String
  | .teamSplit => "TeamSplit"
  | .teamMerge => "TeamMerge"
  | .teamMonitoring => "TeamMonitoring"
  | .mergeFailure => "MergeFailure"

/-- The record of a notification. -/
def ofNotification (n : Notification) : LogRecord :=
  ⟨"INFO", kindName n.kind, n.team, n.member, n.subject, n.body⟩

end LogRecord

/-- Log records, oldest first. -/
structure Journal where
  records : List LogRecord
deriving DecidableEq

namespace Journal

/-- A journal without records. -/
def empty : Journal :=
  ⟨[]⟩

/-- Write a notification to the log. -/
def deliver (n : Notification) (j : Journal) : Except DeliveryError Unit × Journal :=
  (.ok (), ⟨j.records ++ [.ofNotification n]⟩)

end Journal

/-- Either transport. -/
inductive Transport where
  | outbox (box : Outbox)
  | journal (log : Journal)
deriving DecidableEq

namespace Transport

/-- Hand a notification to the transport. -/
def deliver (n : Notification) : Transport → Except DeliveryError Unit × Transport
  | outbox box => ((box.deliver n).1, outbox (box.deliver n).2)
  | journal log => ((log.deliver n).1, journal (log.deliver n).2)

/-- Take an outbox offline or put it back online. -/
def setOffline (value : Bool) : Transport → Transport
  | outbox box => outbox { box with offline := value }
  | journal log => journal log

end Transport

end TeamRoster
