import TeamRoster.Proofs.Member.Document
import TeamRoster.Proofs.Tables.Provenance
import TeamRoster.Proofs.Tables.Storable
import TeamRoster.Proofs.Text.Grammar

/-!
# What is stored stays valid

Texts that were handed over passed the checks once and pass them again, so that a reply never says that
what is stored is invalid. `Query.Gives` says of a query what it gives over any connection whose tables
have only such texts; it is composed along sequences. Main statements: `Connection.truthful_after`, for
any requests with any faults, `Connection.read_saved`, for a member that was saved, and `grammar_law`,
which says of every text whether it is accepted and as what, and that what was accepted stays as it is in
documents and tables.
-/

namespace TeamRoster

/-- A reply gives something of this kind, or fails for another reason than that what is stored is
invalid. -/
def Vouches {α : Type} (good : α → Prop) : Except StorageError α → Prop
  | .ok a => good a
  | .error e => ∀ reason, e ≠ .corrupted reason

/-- What a storage may reply after these requests: the members and teams that it gives were handed over,
and it never says that what is stored is invalid. -/
def StorageRequest.Truthful (qs : List StorageRequest) : (q : StorageRequest) → q.Reply → Prop
  | member _, reply => Vouches (Member.Handed qs) reply
  | members, reply => Vouches (fun ms => ∀ m ∈ ms, m.Handed qs) reply
  | team _, reply => Vouches (Team.Handed qs) reply
  | teams, reply => Vouches (fun ts => ∀ t ∈ ts, t.Handed qs) reply
  | teamOf _, reply => Vouches (fun found => ∀ t ∈ found, t.Handed qs) reply
  | saveMember _, reply => Vouches (fun _ => True) reply
  | setStatus _ _, reply => Vouches (fun _ => True) reply
  | createTeam _, reply => Vouches (fun _ => True) reply
  | deleteTeam _, reply => Vouches (fun _ => True) reply
  | addMember _ _, reply => Vouches (fun _ => True) reply
  | removeMember _ _, reply => Vouches (fun _ => True) reply
  | commit _, reply => Vouches (fun _ => True) reply

namespace Vouches

variable {α β : Type} {good : α → Prop} {good' : β → Prop}

theorem bind {x : Except StorageError α} {f : α → Except StorageError β} (hx : Vouches good x)
    (hf : ∀ a, good a → Vouches good' (f a)) : Vouches good' (x >>= f) := by
  cases x with
  | ok a => exact hf a hx
  | error e => exact hx

theorem mono {x : Except StorageError α} {other : α → Prop} (hx : Vouches good x)
    (h : ∀ a, good a → other a) : Vouches other x := by
  cases x with
  | ok a => exact h a hx
  | error e => exact hx

theorem map {x : Except StorageError α} {f : α → β} (hx : Vouches good x)
    (hf : ∀ a, good a → good' (f a)) : Vouches good' (x.map f) := by
  cases x with
  | ok a => exact hf a hx
  | error e => exact hx

/-- A traversal gives a list of what its elements give. -/
theorem mapM {xs : List α} {f : α → Except StorageError β} (h : ∀ x ∈ xs, Vouches good' (f x)) :
    Vouches (fun ys => ∀ y ∈ ys, good' y) (xs.mapM f) := by
  induction xs with
  | nil => exact fun y hy => by cases hy
  | cons x xs ih =>
      rw [List.forall_mem_cons] at h
      rw [List.mapM_cons]
      refine h.1.bind fun y hy => (ih h.2).bind fun ys hys => ?_
      exact List.forall_mem_cons.2 ⟨hy, hys⟩

end Vouches

variable {qs : List StorageRequest} {α β : Type} {good : α → Prop} {good' : β → Prop}

/-- Texts that were handed over are accepted again, unchanged. -/
theorem MemberRow.Handed.delivers {r : MemberRow} (h : r.Handed qs) :
    Vouches (Member.Handed qs) r.toMember := by
  obtain ⟨w, hw, hid, hname, hemail⟩ := h
  rw [toMember_eq hname.symm hemail.symm]
  exact ⟨w, hw, hid, rfl, rfl⟩

/-- Where no other request saves under the id of a member, its row is read with its name and address. -/
theorem MemberRow.Handed.toMember_of_only {r : MemberRow} {m : Member}
    (h : r.Handed (.saveMember m :: qs)) (hqs : ∀ q ∈ qs, q.saves m.id = false) (hid : r.id = m.id) :
    r.toMember = .ok ⟨r.id, m.name, m.email, r.status, r.createdAt⟩ := by
  obtain ⟨w, hw, hwid, hname, hemail⟩ := h
  have hsame : StorageRequest.saveMember w = .saveMember m := by
    refine (List.mem_cons.1 hw).resolve_right fun hother => ?_
    simpa [StorageRequest.saves, hwid, hid] using hqs _ hother
  cases hsame
  exact toMember_eq hname.symm hemail.symm

theorem TeamRow.Handed.delivers {r : TeamRow} {ms : List Member} (h : r.Handed qs)
    (hms : ∀ m ∈ ms, m.Handed qs) : Vouches (Team.Handed qs) (r.toTeam ms) := by
  obtain ⟨q, hq, u, hu, hid, hname⟩ := h
  rw [toTeam_eq hname.symm]
  exact ⟨⟨q, hq, u, hu, hid, rfl⟩, hms⟩

namespace Query

/-- Whatever connection it is run over, the query gives something of this kind or fails for another reason
than that what is stored is invalid, and it writes nothing but texts that were handed over. -/
def Gives (qs : List StorageRequest) (good : α → Prop) (q : Query α) : Prop :=
  ∀ c : Connection, c.Satisfies (Tables.Handed qs) →
    Vouches good (Dialogue.run Connection.answer q.run c).1 ∧
      (Dialogue.run Connection.answer q.run c).2.Satisfies (Tables.Handed qs)

theorem gives_pure {a : α} (h : good a) : (pure a : Query α).Gives qs good :=
  fun _ hc => ⟨h, hc⟩

theorem gives_throw {e : StorageError} (h : ∀ reason, e ≠ .corrupted reason) :
    (throw e : Query α).Gives qs good :=
  fun _ hc => ⟨h, hc⟩

theorem gives_ofExcept {r : Except StorageError α} (h : Vouches good r) :
    (ofExcept r).Gives qs good := by
  cases r with
  | ok a => exact gives_pure h
  | error e => exact gives_throw h

theorem Gives.bind {q : Query α} {f : α → Query β} (hq : q.Gives qs good)
    (hf : ∀ a, good a → (f a).Gives qs good') : (q >>= f).Gives qs good' := by
  intro c hc
  obtain ⟨hreply, hafter⟩ := hq c hc
  rw [ExceptT.run_bind, Dialogue.bind_eq, Dialogue.run_bind]
  cases hrun : Dialogue.run Connection.answer q.run c with
  | mk reply after =>
      rw [hrun] at hreply hafter
      cases reply with
      | ok a => exact hf a hreply after hafter
      | error e => exact ⟨hreply, hafter⟩

theorem Gives.mono {q : Query α} {other : α → Prop} (hq : q.Gives qs good)
    (h : ∀ a, good a → other a) : q.Gives qs other := by
  intro c hc
  obtain ⟨hreply, hafter⟩ := hq c hc
  exact ⟨hreply.mono h, hafter⟩

/-- A statement gives rows with texts that were handed over, and its failure is one of the database. -/
theorem gives_callWith {explain : DatabaseFailure → StorageError} {s : Statement}
    (hs : s.Brings qs) (hexplain : ∀ e reason, explain e ≠ .corrupted reason) :
    (callWith explain (send s)).Gives qs (s.Shows qs) := by
  intro c hc
  obtain ⟨hshows, hafter⟩ := hc.answer_handed hs
  refine ⟨?_, hafter⟩
  change Vouches _ ((c.answer (.run s)).1.mapError explain)
  cases hreply : (c.answer (.run s)).1 with
  | ok result => exact hshows result hreply
  | error e => exact hexplain e

theorem gives_statement (context : String) {s : Statement} (hs : s.Brings qs) :
    (statement context s).Gives qs (s.Shows qs) :=
  gives_callWith hs fun _ _ => by simp [failure]

theorem gives_acquire : acquire.Gives qs fun _ => True := by
  intro c hc
  refine ⟨?_, hc⟩
  change Vouches _ ((c.answer .acquire).1.mapError _)
  rw [Connection.answer]
  split
  · simp [Vouches, failure]
  · trivial

theorem gives_unless {changed : Nat} {e : StorageError} (h : ∀ reason, e ≠ .corrupted reason) :
    (if changed = 0 then throw e else pure () : Query Unit).Gives qs fun _ => True := by
  split
  · exact gives_throw h
  · exact gives_pure trivial

theorem gives_member (id : Ident) : (member id).Gives qs (Member.Handed qs) := by
  refine (gives_statement _ (by trivial)).bind fun found hfound => ?_
  cases found with
  | none => exact gives_throw (by simp)
  | some row => exact gives_ofExcept (hfound row rfl).delivers

theorem gives_members : members.Gives qs fun ms => ∀ m ∈ ms, m.Handed qs :=
  (gives_statement _ (by trivial)).bind fun _ hrows =>
    gives_ofExcept (.mapM fun row hrow => (hrows row hrow).delivers)

theorem gives_team (id : Ident) : (team id).Gives qs (Team.Handed qs) := by
  refine (gives_statement _ (by trivial)).bind fun found hfound => ?_
  cases found with
  | none => exact gives_throw (by simp)
  | some row =>
      refine (gives_statement _ (by trivial)).bind fun rows hrows => ?_
      have hmembers : Vouches (fun ms => ∀ m ∈ ms, m.Handed qs)
          (rows.mapM MemberRow.toMember) := .mapM fun r hr => (hrows r hr).delivers
      exact (gives_ofExcept hmembers).bind fun ms hms =>
        gives_ofExcept ((hfound row rfl).delivers hms)

theorem gives_teams : teams.Gives qs fun ts => ∀ t ∈ ts, t.Handed qs := by
  refine (gives_statement _ (by trivial)).bind fun rows hrows => ?_
  refine (gives_statement _ (by trivial)).bind fun entries hentries => ?_
  have hpairs : Vouches (fun pairs => ∀ p ∈ pairs, p.2.Handed qs)
      (entries.mapM fun e => e.2.toMember.map fun m => (e.1, m)) :=
    .mapM fun e he => (hentries e he).delivers.map fun _ hm => hm
  refine (gives_ofExcept hpairs).bind fun pairs hpairs => ?_
  refine gives_ofExcept (.mapM fun row hrow => (hrows row hrow).delivers ?_)
  intro m hm
  obtain ⟨p, hp, rfl⟩ := List.mem_map.1 hm
  exact hpairs p (List.mem_filter.1 hp).1

theorem gives_teamOf (id : Ident) :
    (teamOf id).Gives qs fun found => ∀ t ∈ found, t.Handed qs := by
  refine (gives_statement _ (by trivial)).bind fun found _ => ?_
  cases found with
  | none => exact gives_pure nofun
  | some team =>
      refine (gives_team team).bind fun t ht => gives_pure ?_
      rintro _ ⟨⟩
      exact ht

theorem gives_saveMember {m : Member} (hrow : (MemberRow.ofMember m).Handed qs) :
    (saveMember m).Gives qs fun _ => True := by
  have hsave : (Statement.memberSave (.ofMember m)).Brings qs := hrow
  exact (gives_statement _ hsave).mono fun _ _ => trivial

theorem gives_setStatus (id : Ident) (status : Status) :
    (setStatus id status).Gives qs fun _ => True :=
  (gives_statement _ (by trivial)).bind fun _ _ => gives_unless (by simp)

theorem explainCreate_ne (t : Team) (e : DatabaseFailure) (reason : String) :
    explainCreate t e ≠ .corrupted reason := by
  unfold explainCreate
  split
  · split <;> simp [failure]
  · simp [failure]

theorem gives_insertMembers (t : Team) (position : Nat) (ms : List Member) :
    (insertMembers t position ms).Gives qs fun _ => True := by
  induction ms generalizing position with
  | nil => exact gives_pure trivial
  | cons m ms ih =>
      exact (gives_callWith (by trivial) (explainCreate_ne t)).bind fun _ _ => ih (position + 1)

theorem gives_insertTeam {t : Team} (hrow : (TeamRow.ofTeam t).Handed qs) :
    (insertTeam t).Gives qs fun _ => True := by
  have hinsert : (Statement.teamInsert (.ofTeam t)).Brings qs := hrow
  exact (gives_callWith hinsert (explainCreate_ne t)).bind fun _ _ =>
    (gives_statement _ (by trivial)).bind fun _ _ => gives_insertMembers t 0 t.members

theorem gives_deleteTeam (id : Ident) : (deleteTeam id).Gives qs fun _ => True :=
  (gives_statement _ (by trivial)).bind fun _ _ => gives_unless (by simp)

theorem explainAppend_ne (team member : Ident) (e : DatabaseFailure) (reason : String) :
    explainAppend team member e ≠ .corrupted reason := by
  unfold explainAppend
  split
  · split
    · split <;> simp
    · simp [failure]
  · simp [failure]

theorem gives_appendMember (team member : Ident) :
    (appendMember team member).Gives qs fun _ => True := by
  have happend : (Statement.membershipAppend team member).Brings qs := trivial
  exact (gives_callWith happend (explainAppend_ne team member)).mono fun _ _ => trivial

theorem gives_removeMember (team member : Ident) :
    (removeMember team member).Gives qs fun _ => True :=
  (gives_statement _ (by trivial)).bind fun _ _ => gives_unless (by simp)

theorem gives_checkExpectations (es : List (Ident × List Ident)) :
    (checkExpectations es).Gives qs fun _ => True := by
  have hone (e : Ident × List Ident) : (checkExpectation e).Gives qs fun _ => True := by
    refine (gives_statement _ (by trivial)).bind fun found _ => ?_
    cases found with
    | none => exact gives_throw (by simp)
    | some id =>
        refine (gives_statement _ (by trivial)).bind fun ids _ => ?_
        by_cases hids : ids = e.2
        · simpa [hids] using gives_pure trivial
        · simpa [hids] using gives_throw (by simp)
  induction es with
  | nil => exact gives_pure trivial
  | cons e es ih => exact (hone e).bind fun _ _ => ih

theorem gives_edit {e : Edit} (h : ∀ t, e = .createTeam t → (TeamRow.ofTeam t).Handed qs) :
    (edit e).Gives qs fun _ => True := by
  cases e with
  | createTeam t => exact gives_insertTeam (h t rfl)
  | deleteTeam team => exact gives_deleteTeam team
  | addMember team member => exact gives_appendMember team member
  | removeMember team member => exact gives_removeMember team member
  | setStatus member before after =>
      exact (gives_statement _ (by trivial)).bind fun _ _ => gives_unless (by simp)

theorem gives_edits {es : List Edit} (h : ∀ t, .createTeam t ∈ es → (TeamRow.ofTeam t).Handed qs) :
    (edits es).Gives qs fun _ => True := by
  induction es with
  | nil => exact gives_pure trivial
  | cons e es ih =>
      refine (gives_edit fun t ht => h t (ht ▸ List.mem_cons_self)).bind fun _ _ => ih fun t ht => ?_
      exact h t (List.mem_cons_of_mem e ht)

theorem gives_transaction (context : String) {body : Query Unit}
    (hbody : body.Gives qs fun _ => True) : (transaction context body).Gives qs fun _ => True := by
  have hcommit : Statement.commit.Brings qs := trivial
  exact (gives_statement _ (by trivial)).bind fun _ _ => hbody.bind fun _ _ =>
    (gives_statement context hcommit).mono fun _ _ => trivial

end Query

namespace Connection

variable {c : Connection}

/-- A request is replied to with what was handed over before, and leaves no texts behind but these and
what it hands over itself. -/
theorem storage_truthful (h : c.Satisfies (Tables.Handed qs)) (q : StorageRequest) :
    q.Truthful qs (storage q c).1 ∧ (storage q c).2.Satisfies (Tables.Handed (qs ++ [q])) := by
  have hmore (t : Tables) (ht : t.Handed qs) : t.Handed (qs ++ [q]) :=
    ht.mono (List.subset_append_left qs [q])
  have hread {α : Type} {good : α → Prop} {query : Query α} (hquery : query.Gives qs good) :
      Vouches good (Dialogue.run answer query.run c).1 ∧
        (Dialogue.run answer query.run c).2.rollback.Satisfies (Tables.Handed (qs ++ [q])) := by
    obtain ⟨hreply, hafter⟩ := hquery c h
    exact ⟨hreply, (hafter.mono hmore).rollback⟩
  have hwrite {query : Query Unit} (hquery : query.Gives (qs ++ [q]) fun _ => True) :
      Vouches (fun _ => True) (Dialogue.run answer query.run c).1 ∧
        (Dialogue.run answer query.run c).2.rollback.Satisfies (Tables.Handed (qs ++ [q])) := by
    obtain ⟨hreply, hafter⟩ := hquery c (h.mono hmore)
    exact ⟨hreply, hafter.rollback⟩
  have hteam {t : Team} (ht : .createTeam t ∈ q.edits) : (TeamRow.ofTeam t).Handed (qs ++ [q]) :=
    ⟨q, by simp, t, ht, rfl, rfl⟩
  -- Where a connection is made sure of first, the query is named before it is compared with the dialogue.
  cases q with
  | member id => exact hread (Query.gives_member id)
  | members => exact hread Query.gives_members
  | team id => exact hread (Query.gives_team id)
  | teams => exact hread Query.gives_teams
  | teamOf member => exact hread (Query.gives_teamOf member)
  | saveMember m => exact hwrite (Query.gives_saveMember ⟨m, by simp, rfl, rfl, rfl⟩)
  | setStatus id status => exact hwrite (Query.gives_setStatus id status)
  | createTeam t =>
      exact hwrite (Query.gives_transaction _ (Query.gives_insertTeam (hteam List.mem_cons_self)))
  | deleteTeam id =>
      exact (hwrite (Query.gives_acquire.bind fun _ _ => Query.gives_deleteTeam id) :)
  | addMember team member =>
      exact (hwrite (Query.gives_acquire.bind fun _ _ => Query.gives_appendMember team member) :)
  | removeMember team member =>
      exact (hwrite (Query.gives_acquire.bind fun _ _ => Query.gives_removeMember team member) :)
  | commit changes =>
      exact hwrite (Query.gives_transaction _ ((Query.gives_checkExpectations _).bind fun _ _ =>
        Query.gives_edits fun _ ht => hteam ht))

theorem meet_truthful (h : c.Satisfies (Tables.Handed qs)) (trial : Trial) :
    trial.request.Truthful qs (c.meet trial).1 ∧
      (c.meet trial).2.Satisfies (Tables.Handed (qs ++ [trial.request])) := by
  have hset : Satisfies (Tables.Handed qs) { c with closed := trial.closed, fault := trial.fault } :=
    ⟨h.committed, h.pending⟩
  exact storage_truthful hset trial.request

/-- After any trials, the tables have no texts but those that were handed over in them and before. -/
theorem handed_after (h : c.Satisfies (Tables.Handed qs)) (trials : List Trial) :
    (c.after trials).Satisfies (Tables.Handed (qs ++ trials.map Trial.request)) := by
  induction trials generalizing c qs with
  | nil =>
      rw [List.map_nil, List.append_nil]
      exact h
  | cons trial trials ih =>
      have hrest := ih (meet_truthful h trial).2
      rw [List.append_assoc] at hrest
      exact hrest

theorem handed_after_empty (trials : List Trial) :
    ((ofTables .empty).after trials).Satisfies (Tables.Handed (trials.map Trial.request)) := by
  have hempty : (ofTables .empty).Satisfies (Tables.Handed []) :=
    .of_idle (idle_ofTables .empty) .empty
  exact handed_after hempty trials

/-- Tables that were empty reply with what was handed over since. -/
theorem truthful_after (trials : List Trial) (trial : Trial) :
    trial.request.Truthful (trials.map Trial.request)
      (((ofTables .empty).after trials).meet trial).1 :=
  (meet_truthful (handed_after_empty trials) trial).1

/-- A member who can be stored is saved, and is read with the name and the address that it was saved with,
whatever was asked before and since, unless something was saved under its id again. -/
theorem read_saved (before since : List Trial) {m : Member} (h : m.Storable) :
    (((ofTables .empty).after before).meet ⟨false, none, .saveMember m⟩).1 = .ok () ∧
    ∃ status time,
      (((ofTables .empty).after (before ++ ⟨false, none, .saveMember m⟩ ::
        since.filter fun trial => !trial.request.saves m.id)).meet ⟨false, none, .member m.id⟩).1 =
      .ok ⟨m.id, m.name, m.email, status, time⟩ := by
  rw [after_append]
  have hquiet : ((ofTables .empty).after before).pending = none := pending_after rfl before
  have hbefore := (handed_after_empty before).committed
  generalize (ofTables .empty).after before = c at hquiet hbefore ⊢
  generalize hsince : (since.filter fun trial => !trial.request.saves m.id) = rest
  -- Right after the request, the member is the only one that the row under its id can be from.
  obtain ⟨hreply, hsaved⟩ := meet_faultless hquiet (.saveMember m)
  rw [Tables.storage_saveMember h] at hreply hsaved
  have honly := Satisfies.of_idle hsaved (hbefore.overwrite m)
  have hfound : ((c.committed.saveMember (.ofMember m)).member? m.id).isSome = true := by
    obtain ⟨time, hrow⟩ := c.committed.member?_saveMember (.ofMember m)
    have hown : m.id = (MemberRow.ofMember m).id := rfl
    rw [hrow, if_pos hown]
    rfl
  -- Nothing that comes later saves under this id, or deletes the row.
  have hrows := (handed_after honly rest).committed
  rw [List.cons_append] at hrows
  have hkept := ((Satisfies.of_idle hsaved hfound).after Tables.isSome_member?_execute rest).committed
  obtain ⟨r, hr⟩ := Option.isSome_iff_exists.1 hkept
  have hid : r.id = m.id := by simpa using List.find?_some hr
  have hread : r.toMember = .ok ⟨m.id, m.name, m.email, r.status, r.createdAt⟩ := by
    rw [← hid]
    refine MemberRow.Handed.toMember_of_only (hrows.members r (List.mem_of_find?_eq_some hr)) ?_ hid
    intro q hq
    rw [← hsince] at hq
    simp only [List.mem_append, List.mem_filter, List.mem_map] at hq
    rcases hq with ⟨-, hq⟩ | ⟨trial, ⟨-, htrial⟩, rfl⟩
    · simpa using hq
    · simpa using htrial
  refine ⟨hreply, r.status, r.createdAt, ?_⟩
  have hlast : ((c.meet ⟨false, none, .saveMember m⟩).2.after rest).pending = none :=
    pending_after hsaved.pending rest
  exact (meet_faultless hlast (.member m.id)).1.trans (by rw [Tables.storage_member hr, hread])

/-- A member who cannot be stored is refused by the database. -/
theorem save_refused (before : List Trial) {m : Member} (h : ¬ m.Storable) :
    ∃ text, (((ofTables .empty).after before).meet ⟨false, none, .saveMember m⟩).1 =
      .error (.database text) := by
  have hquiet : ((ofTables .empty).after before).pending = none := pending_after rfl before
  obtain ⟨hreply, -⟩ := meet_faultless hquiet (.saveMember m)
  obtain ⟨text, hrefused⟩ := Tables.storage_saveMember_refused h
    ((ofTables .empty).after before).committed
  rw [hrefused] at hreply
  exact ⟨text, hreply⟩

end Connection

/-- Which texts are accepted, and as what. An address has no white space and exactly one `@`, with
something on either side, and is kept. A member name is the core of the text, which every text has just
one of, if that has 1 to 30 characters. A team name is 1 to 20 letters and is kept; a name for the team
that splits off is there if it has at most 15.

What was accepted is accepted again, unchanged: from its text, from its JSON text, and from a row. So
whatever was asked of tables that were empty, with any faults, they reply with the ids and texts of
members and teams that were handed over, and never that what is stored is invalid. A member is saved if
there is no character zero in its texts and its time is within the range of the database, and is read with
its name and address then until something else is saved under its id; any other member is refused. -/
theorem grammar_law (s t : String) :
    ((Email.ofText s).map Email.text = .ok t ↔ Email.Form s ∧ t = s) ∧
    ((MemberName.ofText s).map MemberName.text = .ok t ↔
      Text.IsCore t s ∧ t ≠ "" ∧ t.length ≤ 30) ∧
    (∃! core, Text.IsCore core s) ∧
    ((TeamName.ofText s).map TeamName.text = .ok t ↔ TeamName.Form s ∧ t = s) ∧
    (∀ n : TeamName,
      n.split.map TeamName.text = .ok t ↔ n.text.length ≤ 15 ∧ t = n.text ++ "Split") ∧
    (∀ e : Email, Email.ofText e.text = .ok e ∧
      Reading.decodeText Email.ofReading e.toJson.toText = .ok e) ∧
    (∀ n : MemberName, MemberName.ofText n.text = .ok n ∧
      Reading.decodeText MemberName.ofReading n.toJson.toText = .ok n) ∧
    (∀ n : TeamName, TeamName.ofText n.text = .ok n ∧
      Reading.decodeText TeamName.ofReading n.toJson.toText = .ok n) ∧
    (∀ m : Member, (MemberRow.ofMember m).toMember = .ok m) ∧
    (∀ u : Team, (TeamRow.ofTeam u).toTeam u.members = .ok u) ∧
    (∀ (trials : List Trial) (trial : Trial),
      trial.request.Truthful (trials.map Trial.request)
        (((Connection.ofTables .empty).after trials).meet trial).1) ∧
    ∀ (before since : List Trial) (m : Member),
      (m.Storable ∧
        (((Connection.ofTables .empty).after before).meet ⟨false, none, .saveMember m⟩).1 = .ok () ∧
        ∃ status time,
          (((Connection.ofTables .empty).after (before ++ ⟨false, none, .saveMember m⟩ ::
            since.filter fun trial => !trial.request.saves m.id)).meet
              ⟨false, none, .member m.id⟩).1 =
          .ok ⟨m.id, m.name, m.email, status, time⟩) ∨
      (¬ m.Storable ∧ ∃ text,
        (((Connection.ofTables .empty).after before).meet ⟨false, none, .saveMember m⟩).1 =
          .error (.database text)) := by
  refine ⟨Email.map_ofText, MemberName.map_ofText, Text.existsUnique_isCore s, TeamName.map_ofText,
    fun n => n.map_split, fun e => ⟨e.ofText_text, ?_⟩, fun n => ⟨n.ofText_text, ?_⟩,
    fun n => ⟨n.ofText_text, ?_⟩, MemberRow.toMember_ofMember, TeamRow.toTeam_ofTeam,
    Connection.truthful_after, fun before since m => ?_⟩
  · rw [Email.toJson, Reading.decodeText_string, e.ofReading_text]
  · rw [MemberName.toJson, Reading.decodeText_string, n.ofReading_text]
  · rw [TeamName.toJson, Reading.decodeText_string, n.ofReading_text]
  · by_cases h : m.Storable
    · exact .inl ⟨h, Connection.read_saved before since h⟩
    · exact .inr ⟨h, Connection.save_refused before h⟩

end TeamRoster
