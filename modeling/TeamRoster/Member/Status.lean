/-!
# Enrolment status

The three statuses of a member, their written names, and which changes between them are allowed.
Only an active member takes part in a team.
-/

namespace TeamRoster

/-- Enrolment status of a member. -/
inductive Status where
  | active
  | onLeave
  | withdrawn
deriving DecidableEq, Repr

namespace Status

/-- Every status, in the order in which choices are listed. -/
def all : List Status :=
  [active, onLeave, withdrawn]

theorem mem_all (s : Status) : s ∈ all := by
  cases s <;> simp [all]

/-- The written name of a status. -/
def toText : Status → String
  | active => "active"
  | onLeave => "on_leave"
  | withdrawn => "withdrawn"

instance : ToString Status := ⟨toText⟩

/-- The status with exactly this written name. -/
def ofText? (s : String) : Option Status :=
  all.find? fun status => status.toText == s

@[simp] theorem ofText?_toText (s : Status) : ofText? s.toText = some s := by
  cases s <;> decide +kernel

/-- Which changes of status are allowed: an active member may pause or leave, a member on leave may
come back or leave, and a member who left may come back. -/
def canBecome : Status → Status → Bool
  | active, onLeave => true
  | active, withdrawn => true
  | onLeave, active => true
  | onLeave, withdrawn => true
  | withdrawn, active => true
  | _, _ => false

/-- The statuses that may follow this one. -/
def allowed (s : Status) : List Status :=
  all.filter s.canBecome

end Status

end TeamRoster
