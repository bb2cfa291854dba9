import TeamRoster.Team.Basic

/-!
# Change sets

The writes of one use case, to be made all together or not at all. A `ChangeSet` also says which
member lists the writes were planned against: where one of them has changed, none of the writes may
be made.
-/

namespace TeamRoster

/-- One write. -/
inductive Edit where
  /-- Store a team with its members. -/
  | createTeam (team : Team)
  | deleteTeam (team : Ident)
  | addMember (team member : Ident)
  | removeMember (team member : Ident)
  /-- Change a status, if it is the one that was planned against. -/
  | setStatus (member : Ident) (before after : Status)
deriving DecidableEq

/-- Writes, and the member lists that they were planned against. -/
structure ChangeSet where
  expectations : List (Ident × List Ident)
  edits : List Edit
deriving DecidableEq

namespace ChangeSet

/-- No writes and no expectations. -/
def empty : ChangeSet :=
  ⟨[], []⟩

/-- Expect a team to have the members that it has now. What was expected of it first stands. -/
def expect (c : ChangeSet) (t : Team) : ChangeSet :=
  if c.expectations.any fun e => e.1 == t.id then c
  else { c with expectations := c.expectations ++ [(t.id, t.memberIds)] }

/-- Add a write at the end. -/
def push (c : ChangeSet) (e : Edit) : ChangeSet :=
  { c with edits := c.edits ++ [e] }

/-- Add writes at the end, in order. -/
def pushAll (c : ChangeSet) (es : List Edit) : ChangeSet :=
  { c with edits := c.edits ++ es }

/-- Whether there is nothing to write. -/
def isEmpty (c : ChangeSet) : Bool :=
  c.edits.isEmpty

end ChangeSet

end TeamRoster
