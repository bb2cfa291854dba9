import TeamRoster.Proofs.Store.Writes

/-!
# One edit after the other

The plain way to carry out edits: each is an operation of its own that takes effect at once, and the
first one that fails ends the sequence. What a commit does is compared with this.
-/

namespace TeamRoster

namespace Store

/-- Set the status of a member, if the member has the status that is expected. -/
def exchangeStatus (s : Store) (member : Ident) (before after : Status) :
    Except StorageError Store :=
  match s.members.find? member with
  | some m =>
    if m.status = before then s.setStatus member after else .error (.conflict .member member)
  | none => .error (.notFound .member member)

/-- Carry out one edit at once. An edit to a team is one write of the storage. -/
def apply (s : Store) : Edit → Except StorageError Store
  | .createTeam t => s.single fun g => s.stageCreate g t
  | .deleteTeam team => s.single fun g => s.stageDelete g team
  | .addMember team member => s.single fun g => s.stageAdd g team member
  | .removeMember team member => s.single fun g => s.stageRemove g team member
  | .setStatus member before after => s.exchangeStatus member before after

/-- Carry out edits one after the other, until one fails. -/
def applyAll (s : Store) (es : List Edit) : Except StorageError Store :=
  es.foldlM apply s

/-- Two stores that hold the same: the same record with the same place under each id, the same
member under each id, and the same next place. -/
structure Agrees (s t : Store) : Prop where
  teams (id : Ident) : s.teams.find? id = t.teams.find? id
  members (id : Ident) : s.members.find? id = t.members.find? id
  nextPlace : s.nextPlace = t.nextPlace

@[simp] theorem applyAll_nil (s : Store) : s.applyAll [] = .ok s := rfl

@[simp] theorem applyAll_cons (s : Store) (e : Edit) (es : List Edit) :
    s.applyAll (e :: es) = s.apply e >>= fun after => after.applyAll es := rfl

theorem applyAll_append (s : Store) (es fs : List Edit) :
    s.applyAll (es ++ fs) = s.applyAll es >>= fun after => after.applyAll fs := by
  simp [applyAll, List.foldlM_append]

theorem find?_publishTeam (teams : Directory TeamRecord) (e : Ident × Option TeamRecord)
    (id : Ident) :
    (publishTeam teams e).find? id = if id = e.1 then e.2 else teams.find? id := by
  obtain ⟨team, written⟩ := e
  cases written with
  | none => simp [publishTeam]
  | some r => simp [publishTeam]

theorem find?_foldl_publishTeam (es : List (Ident × Option TeamRecord))
    (hes : (es.map Prod.fst).Nodup) (teams : Directory TeamRecord) (id : Ident) :
    (es.foldl publishTeam teams).find? id =
      match Directory.lookup es id with
      | some written => written
      | none => teams.find? id := by
  induction es generalizing teams with
  | nil => rfl
  | cons e es ih =>
      rw [List.map_cons, List.nodup_cons] at hes
      rw [List.foldl_cons, ih hes.2, find?_publishTeam, Directory.lookup_cons]
      by_cases hid : e.1 = id
      · have habsent : Directory.lookup es id = none := Directory.lookup_eq_none.2 (hid ▸ hes.1)
        simp [habsent, hid]
      · simp [hid, Ne.symm hid]

/-- Publishing makes the stored teams what was read while staging. -/
@[simp] theorem find?_publish (s : Store) (g : Staging) (id : Ident) :
    (s.publish g).teams.find? id = s.staged? g id :=
  find?_foldl_publishTeam g.teams.entries g.teams.nodup s.teams id

end Store

end TeamRoster
