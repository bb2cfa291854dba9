import TeamRoster.Proofs.Store.Order
import TeamRoster.Proofs.Store.Reads
import TeamRoster.Proofs.Store.TeamEdits

/-!
# Whatever is asked of the store in memory

A store that was never written to but by requests has no two teams of one name, lists nobody in a
team who is not stored, and keeps the places of the teams apart. Requests may be any at all, in any
order: teams with repeated members, ids that come again, renamings, commits that fail half-way.
Main statements: `WellFormed.request`, for one request, and from it `after_requests`, for every
sequence of them.
-/

namespace TeamRoster

namespace StorageRequest

/-- The failure that a reply is, if it is one. -/
def failure? : (q : StorageRequest) → q.Reply → Option StorageError
  | member _, reply => Failing.failure? reply
  | members, reply => Failing.failure? reply
  | saveMember _, reply => Failing.failure? reply
  | setStatus _ _, reply => Failing.failure? reply
  | team _, reply => Failing.failure? reply
  | teams, reply => Failing.failure? reply
  | teamOf _, reply => Failing.failure? reply
  | createTeam _, reply => Failing.failure? reply
  | deleteTeam _, reply => Failing.failure? reply
  | addMember _ _, reply => Failing.failure? reply
  | removeMember _ _, reply => Failing.failure? reply
  | commit _, reply => Failing.failure? reply

/-- The edits to teams that a request asks for. -/
def edits : StorageRequest → List Edit
  | createTeam t => [.createTeam t]
  | deleteTeam id => [.deleteTeam id]
  | addMember id x => [.addMember id x]
  | removeMember id x => [.removeMember id x]
  | commit c => c.edits
  | member _ | members | saveMember _ | setStatus _ _ | team _ | teams | teamOf _ => []

end StorageRequest

namespace Store

variable {s d : Store}

/-- The store after requests, one after the other. -/
def after (s : Store) (qs : List StorageRequest) : Store :=
  qs.foldl (fun s q => (storage q s).2) s

/-- The edits that a request makes: all that it asks for, or none where it fails. -/
def makes (s : Store) (q : StorageRequest) : List Edit :=
  match q.failure? (storage q s).1 with
  | none => q.edits
  | some _ => []

theorem makes_of_edits_nil {q : StorageRequest} (hq : q.edits = []) : s.makes q = [] := by
  rw [makes, hq]
  split <;> rfl

/-- The edits that were made by requests, one after the other. -/
def made (s : Store) : List StorageRequest → List Edit
  | [] => []
  | q :: qs => s.makes q ++ (storage q s).2.made qs

/-- Different teams have different names, whoever is listed is stored, and places are apart. -/
structure WellFormed (s : Store) : Prop where
  named (a b : Ident) (r q : TeamRecord) :
    s.teams.find? a = some r → s.teams.find? b = some q → r.name = q.name → a = b
  listed (id : Ident) (r : TeamRecord) :
    s.teams.find? id = some r → ∀ x ∈ r.memberIds, s.members.contains x = true
  placed : s.Placed

theorem wellFormed_empty : WellFormed empty where
  named a b r q hr := by cases hr
  listed id r hr := by cases hr
  placed := ⟨fun id r hr => by { cases hr }, fun a b r q hr => by { cases hr }⟩

theorem order_empty : order empty = [] := by
  simp [order, orderedTeams, empty, Directory.empty]

namespace WellFormed

/-- Nothing is lost where each record keeps its name and lists stored members, who stay stored. -/
theorem inherit (h : s.WellFormed) (hplaced : d.Placed)
    (hmembers : ∀ x, s.members.contains x = true → d.members.contains x = true)
    (hrecords : ∀ id q, d.teams.find? id = some q → ∃ r, s.teams.find? id = some r ∧
      r.name = q.name ∧ ∀ x ∈ q.memberIds, s.members.contains x = true) : d.WellFormed where
  named a b r q hr hq hname := by
    obtain ⟨r', hr', hra, -⟩ := hrecords a r hr
    obtain ⟨q', hq', hqb, -⟩ := hrecords b q hq
    exact h.named a b r' q' hr' hq' (by rw [hra, hqb, hname])
  listed id r hr x hx := by
    obtain ⟨-, -, -, hstored⟩ := hrecords id r hr
    exact hmembers x (hstored x hx)
  placed := hplaced

/-- Members may be stored and changed, as long as none is lost. -/
theorem same_teams (h : s.WellFormed) (hteams : ∀ id, d.teams.find? id = s.teams.find? id)
    (hnext : s.nextPlace ≤ d.nextPlace)
    (hmembers : ∀ x, s.members.contains x = true → d.members.contains x = true) :
    d.WellFormed ∧ d.order = s.order := by
  obtain ⟨hplaced, horder⟩ := h.placed.keep_order hnext fun id => congrArg _ (hteams id)
  refine ⟨h.inherit hplaced hmembers fun id q hq => ?_, horder⟩
  rw [hteams] at hq
  exact ⟨q, hq, rfl, h.listed id q hq⟩

/-- Two stores that hold the same are well-formed alike, with the same order of teams. -/
theorem of_agrees (h : s.WellFormed) (hagrees : d.Agrees s) : d.WellFormed ∧ d.order = s.order := by
  refine h.same_teams hagrees.teams (Nat.le_of_eq hagrees.nextPlace.symm) fun x hx => ?_
  rw [Directory.contains] at hx ⊢
  rw [hagrees.members, hx]

/-- A record is rewritten with its old name and stored members. -/
theorem rewrite (h : s.WellFormed) {team : Ident} {r q : TeamRecord}
    (hplaced : (s.rewrite team (some q)).Placed) (hr : s.teams.find? team = some r)
    (hname : r.name = q.name) (hlisted : ∀ x ∈ q.memberIds, s.members.contains x = true) :
    (s.rewrite team (some q)).WellFormed := by
  refine h.inherit hplaced (fun x hx => hx) fun id k hk => ?_
  rw [find?_rewrite] at hk
  split at hk
  · rename_i hid
    cases hk
    exact ⟨r, hid ▸ hr, hname, hlisted⟩
  · exact ⟨k, hk, rfl, h.listed id k hk⟩

/-- A team can be entered if no other team has its name and its members are stored. -/
theorem enter (h : s.WellFormed) {t : Team} (hplaced : (s.publish (s.enter s.stage t)).Placed)
    (hfree : s.nameTaken s.stage t.id t.name = false)
    (hlisted : ∀ x ∈ t.memberIds, s.members.contains x = true) :
    (s.publish (s.enter s.stage t)).WellFormed := by
  have hother : ∀ id q, id ≠ t.id → s.teams.find? id = some q → q.name ≠ t.name := by
    intro id q hid hq hname
    have htaken : s.nameTaken s.stage t.id t.name = true :=
      (s.nameTaken_iff s.stage t.id t.name).2 ⟨id, q, hid, hq, hname⟩
    rw [hfree] at htaken
    cases htaken
  have hcases : ∀ id q, (s.publish (s.enter s.stage t)).teams.find? id = some q →
      (id = t.id ∧ q.name = t.name ∧ q.memberIds = t.memberIds) ∨
        (id ≠ t.id ∧ s.teams.find? id = some q) := by
    intro id q hq
    rw [find?_entered] at hq
    split at hq
    · cases hq
      exact .inl ⟨‹_›, rfl, rfl⟩
    · exact .inr ⟨‹_›, hq⟩
  refine ⟨?_, ?_, hplaced⟩
  · intro a b r q hr hq hname
    rcases hcases a r hr with ⟨rfl, hra, -⟩ | ⟨ha, hra⟩
    · rcases hcases b q hq with ⟨rfl, -, -⟩ | ⟨hb, hqb⟩
      · rfl
      · exact absurd (hname.symm.trans hra) (hother b q hb hqb)
    · rcases hcases b q hq with ⟨rfl, hqb, -⟩ | ⟨-, hqb⟩
      · exact absurd (hname.trans hqb) (hother a r ha hra)
      · exact h.named a b r q hra hqb hname
  · intro id r hr x hx
    rcases hcases id r hr with ⟨-, -, hids⟩ | ⟨-, hid⟩
    · exact hlisted x (hids ▸ hx)
    · exact h.listed id r hid x hx

/-- An edit that goes through keeps the store well-formed, and changes the order of the teams as it
does by itself. -/
theorem apply (h : s.WellFormed) {e : Edit} (happly : s.apply e = .ok d) :
    d.WellFormed ∧ d.order = e.arrive s.order := by
  obtain ⟨hplaced, horder⟩ := h.placed.arrive_apply happly
  refine ⟨?_, horder⟩
  cases e with
  | createTeam t =>
      obtain ⟨hfree, hlisted, rfl⟩ := apply_createTeam_eq_ok.1 happly
      exact h.enter hplaced hfree hlisted
  | deleteTeam team =>
      obtain ⟨-, rfl⟩ := apply_deleteTeam_eq_ok.1 happly
      refine h.inherit hplaced (fun x hx => hx) fun id q hq => ?_
      rw [find?_rewrite] at hq
      split at hq
      · cases hq
      · exact ⟨q, hq, rfl, h.listed id q hq⟩
  | addMember team member =>
      obtain ⟨hmember, r, hr, rfl⟩ := apply_addMember_eq_ok.1 happly
      refine h.rewrite hplaced hr rfl fun x hx => ?_
      rw [TeamRecord.join] at hx
      split at hx
      · exact h.listed team r hr x hx
      · rcases List.mem_append.1 hx with hx | hx
        · exact h.listed team r hr x hx
        · exact List.mem_singleton.1 hx ▸ hmember
  | removeMember team member =>
      obtain ⟨r, hr, -, rfl⟩ := apply_removeMember_eq_ok.1 happly
      exact h.rewrite hplaced hr rfl fun x hx => h.listed team r hr x (List.mem_of_mem_erase hx)
  | setStatus member before after =>
      obtain ⟨m, hm, -, rfl⟩ := apply_setStatus_eq_ok.1 happly
      refine h.inherit hplaced (fun x hx => ?_) fun id q hq => ⟨q, hq, rfl, h.listed id q hq⟩
      exact Directory.contains_insert hx

/-- Edits, one after the other, that all go through. -/
theorem applyAll (h : s.WellFormed) {es : List Edit} (happly : s.applyAll es = .ok d) :
    d.WellFormed ∧ d.order = es.foldl Edit.arrive s.order := by
  induction es generalizing s with
  | nil =>
      cases happly
      exact ⟨h, rfl⟩
  | cons e es ih =>
      obtain ⟨mid, hmid, hrest⟩ := Failing.bind_eq_ok.1 happly
      obtain ⟨hwell, horder⟩ := h.apply hmid
      rw [List.foldl_cons, ← horder]
      exact ih hwell hrest

end WellFormed

/-- Staging gives out places and takes none back. -/
theorem stageEdit_nextPlace {g k : Staging} {e : Edit} (h : s.stageEdit g e = .ok k) :
    g.nextPlace ≤ k.nextPlace := by
  cases e with
  | createTeam t =>
      rw [stageEdit, stageCreate_eq] at h
      split at h
      · cases h
      · split at h <;> cases h
        rw [enter_nextPlace]
        split <;> omega
  | deleteTeam team =>
      rw [stageEdit, stageDelete_eq] at h
      split at h <;> cases h
      exact Nat.le_refl _
  | addMember team member =>
      rw [stageEdit, stageAdd_eq] at h
      split at h
      · split at h <;> cases h
        exact Nat.le_refl _
      · cases h
  | removeMember team member =>
      rw [stageEdit, stageRemove_eq] at h
      split at h
      · split at h <;> cases h
        exact Nat.le_refl _
      · cases h
  | setStatus member before after =>
      rw [stageEdit, stageStatus] at h
      split at h
      · cases h
      · split at h <;> cases h
        exact Nat.le_refl _

/-- That is so for all edits that are staged before one fails. -/
theorem stageAll_nextPlace (es : List Edit) (g : Staging) :
    g.nextPlace ≤ (s.stageAll g es).2.nextPlace := by
  induction es generalizing g with
  | nil => exact Nat.le_refl _
  | cons e es ih =>
      rw [stageAll]
      cases hstage : s.stageEdit g e with
      | error failure => exact Nat.le_refl _
      | ok k => exact Nat.le_trans (stageEdit_nextPlace hstage) (ih k)

/-- A commit that fails may have given out places, and has taken none back. -/
theorem commit_nextPlace {c : ChangeSet} {failure : StorageError}
    (h : (s.commit c).1 = .error failure) : s.nextPlace ≤ (s.commit c).2.nextPlace := by
  have hstaged := s.stageAll_nextPlace c.edits s.stage
  unfold commit at h ⊢
  cases hexpect : s.checkExpectations c.expectations with
  | error other => exact Nat.le_refl _
  | ok done =>
      rw [hexpect] at h
      cases hall : s.stageAll s.stage c.edits with
      | mk reply g =>
          rw [hall] at h hstaged
          cases reply with
          | error other => exact hstaged
          | ok done =>
              -- Nothing fails any more once all edits are staged.
              rw [show ((s.publish g).writeStatuses g.statuses.reverse).1 = .ok () from
                (s.commit_serial c).2.2.2.2 g hall] at h
              cases h

namespace WellFormed

/-- A single write that goes through makes its edit; a failed one makes none. -/
theorem write (h : s.WellFormed) (e : Edit) :
    (s.written (s.apply e)).2.WellFormed ∧
      (s.written (s.apply e)).2.order =
        (match Failing.failure? (s.written (s.apply e)).1 with
          | none => [e]
          | some _ => []).foldl Edit.arrive s.order := by
  cases happly : s.apply e with
  | error failure => exact ⟨h, rfl⟩
  | ok d => exact h.apply happly

/-- A commit that goes through makes all its edits; a failed one makes none. -/
theorem commit (h : s.WellFormed) (c : ChangeSet) :
    (s.commit c).2.WellFormed ∧
      (s.commit c).2.order =
        (match Failing.failure? (s.commit c).1 with
          | none => c.edits
          | some _ => []).foldl Edit.arrive s.order := by
  cases hreply : (s.commit c).1 with
  | ok done =>
      obtain ⟨d, hserial⟩ := commit_eq_ok_iff.1 hreply
      obtain ⟨hwell, horder⟩ := h.applyAll (serial_eq_ok.1 hserial).2
      obtain ⟨hwell', horder'⟩ := hwell.of_agrees (commit_agrees hserial)
      exact ⟨hwell', horder'.trans horder⟩
  | error failure =>
      obtain ⟨hteams, hmembers⟩ := commit_unchanged hreply
      refine h.same_teams (fun id => by rw [hteams]) (commit_nextPlace hreply) fun x hx => ?_
      rwa [hmembers]

/-- One request, whatever it is: the store stays well-formed, and the order of the teams changes as
the edits do that are made. -/
theorem request (h : s.WellFormed) (q : StorageRequest) :
    (storage q s).2.WellFormed ∧
      (storage q s).2.order = (s.makes q).foldl Edit.arrive s.order := by
  cases q with
  | createTeam t => exact h.write (.createTeam t)
  | deleteTeam team => exact h.write (.deleteTeam team)
  | addMember team member => exact h.write (.addMember team member)
  | removeMember team member => exact h.write (.removeMember team member)
  | commit c => exact h.commit c
  | saveMember m =>
      rw [makes_of_edits_nil rfl]
      exact h.same_teams (fun id => rfl) (Nat.le_refl _) fun x hx => Directory.contains_insert hx
  | setStatus member status =>
      rw [makes_of_edits_nil rfl, storage, setStatus]
      cases s.members.find? member with
      | none => exact ⟨h, rfl⟩
      | some m =>
          exact h.same_teams (fun id => rfl) (Nat.le_refl _) fun x hx =>
            Directory.contains_insert hx
  | member id | members | team id | teams | teamOf member =>
      rw [makes_of_edits_nil rfl]
      exact ⟨h, rfl⟩

/-- Every record can be read as a team. -/
theorem assemble (h : s.WellFormed) {id : Ident} {r : TeamRecord}
    (hr : s.teams.find? id = some r) : ∃ t, s.assemble id r = .ok t :=
  exists_assemble fun x hx => Directory.contains_iff.1 (h.listed id r hr x hx)

/-- All teams can be read, in order. -/
theorem allTeams (h : s.WellFormed) :
    ∃ teams, s.allTeams = .ok teams ∧ teams.map Team.id = s.order := by
  have hread : ∀ e ∈ s.orderedTeams, ∃ t, s.assemble e.1 e.2 = .ok t := fun e he =>
    h.assemble (Directory.find?_eq_some.2 (List.mem_mergeSort.1 he))
  obtain ⟨teams, hteams⟩ := Failing.mapM_ok hread
  refine ⟨teams, hteams, ?_⟩
  have hids : List.Forall₂ (· = ·) (s.orderedTeams.map Prod.fst) (teams.map Team.id) := by
    rw [List.forall₂_map_left_iff, List.forall₂_map_right_iff]
    exact (Failing.mapM_eq_ok.1 hteams).imp fun e t ht => (id_of_assemble ht).symm
  rw [List.forall₂_eq_eq_eq] at hids
  exact hids.symm

end WellFormed

/-- No edit is refused because what is stored breaks a rule. -/
theorem apply_not_corrupted {e : Edit} {failure : StorageError} (h : s.apply e = .error failure)
    (reason : String) : failure ≠ .corrupted reason := by
  rintro rfl
  cases e with
  | setStatus member before after =>
      rw [Store.apply, exchangeStatus] at h
      cases hm : s.members.find? member with
      | none => simp [hm] at h
      | some m =>
          rw [hm] at h
          by_cases hbefore : m.status = before <;> simp [hbefore, setStatus, hm] at h
  | createTeam t | deleteTeam team | addMember team member | removeMember team member =>
      have hfault := apply_not_fault (by rfl) h
      cases hfault

/-- Nor is a commit. -/
theorem commit_not_corrupted {c : ChangeSet} {failure : StorageError}
    (h : (s.commit c).1 = .error failure) (reason : String) : failure ≠ .corrupted reason := by
  rcases serial_eq_error.1 (commit_eq_error_iff.1 h) with ⟨-, e, -, -, -, -, rfl⟩ | ⟨-, happly⟩
  · simp
  · obtain ⟨-, e, -, d, -, -, hfails⟩ := applyAll_eq_error.1 happly
    exact apply_not_corrupted hfails reason

/-- What a single write comes to when it fails is the failure. -/
theorem written_eq_error {x : Except StorageError Store} {failure : StorageError}
    (h : (s.written x).1 = .error failure) : x = .error failure := by
  cases x with
  | ok d => cases h
  | error other =>
      cases h
      rfl

theorem write_not_corrupted (e : Edit) (reason : String) :
    Failing.failure? (s.written (s.apply e)).1 ≠ some (.corrupted reason) := fun hfailure =>
  apply_not_corrupted (written_eq_error (Failing.failure?_eq_some.1 hfailure)) reason rfl

/-- A well-formed store never answers that what is stored breaks a rule. -/
theorem WellFormed.not_corrupted (h : s.WellFormed) (q : StorageRequest) (reason : String) :
    q.failure? (storage q s).1 ≠ some (.corrupted reason) := by
  intro hfailure
  cases q with
  | createTeam t => exact write_not_corrupted (.createTeam t) reason hfailure
  | deleteTeam team => exact write_not_corrupted (.deleteTeam team) reason hfailure
  | addMember team member => exact write_not_corrupted (.addMember team member) reason hfailure
  | removeMember team member =>
      exact write_not_corrupted (.removeMember team member) reason hfailure
  | commit c => exact commit_not_corrupted (Failing.failure?_eq_some.1 hfailure) reason rfl
  | saveMember m | members => cases hfailure
  | setStatus member status =>
      have hset := written_eq_error (Failing.failure?_eq_some.1 hfailure)
      rw [setStatus] at hset
      split at hset <;> cases hset
  | member id =>
      have hread : s.member id = _ := Failing.failure?_eq_some.1 hfailure
      rw [Store.member] at hread
      split at hread <;> cases hread
  | team id =>
      have hread : s.team id = _ := Failing.failure?_eq_some.1 hfailure
      rw [Store.team] at hread
      cases hr : s.teams.find? id with
      | none => simp [hr] at hread
      | some r =>
          obtain ⟨t, ht⟩ := h.assemble hr
          simp [hr, ht] at hread
  | teams =>
      obtain ⟨teams, hteams, -⟩ := h.allTeams
      have hread : s.allTeams = _ := Failing.failure?_eq_some.1 hfailure
      rw [hteams] at hread
      cases hread
  | teamOf member =>
      have hread : s.teamOf member = _ := Failing.failure?_eq_some.1 hfailure
      rcases s.teamOf_cases member with ⟨hnone, -⟩ | ⟨id, r, hfound, hr, -⟩
      · rw [hnone] at hread
        cases hread
      · obtain ⟨t, ht⟩ := h.assemble hr
        rw [hfound, ht] at hread
        cases hread

/-- Requests, one after the other: the store stays well-formed, and the order of its teams is what
the edits that were made do to it, one after the other. -/
theorem WellFormed.requests (h : s.WellFormed) (qs : List StorageRequest) :
    (s.after qs).WellFormed ∧ (s.after qs).order = (s.made qs).foldl Edit.arrive s.order := by
  induction qs generalizing s with
  | nil => exact ⟨h, rfl⟩
  | cons q qs ih =>
      obtain ⟨hwell, horder⟩ := h.request q
      rw [made, List.foldl_append, ← horder]
      exact ih hwell

/-- After any requests to a store that was empty, whether they went through or failed: no two teams
have the same name, whoever is listed in a team is stored, nothing that is asked then is answered
with invalid data, and all teams are listed in the order in which they came in. A team that was
stored again keeps its position; one that was deleted and created again, even in one commit, is at
the end; and what failed makes no difference to the order. -/
theorem after_requests (qs : List StorageRequest) :
    (∀ a b r q, (empty.after qs).teams.find? a = some r → (empty.after qs).teams.find? b = some q →
      r.name = q.name → a = b) ∧
    (∀ id r, (empty.after qs).teams.find? id = some r →
      ∀ x ∈ r.memberIds, ∃ m, (empty.after qs).members.find? x = some m) ∧
    (∀ (q : StorageRequest) (reason : String),
      q.failure? (storage q (empty.after qs)).1 ≠ some (.corrupted reason)) ∧
    ∃ teams, (empty.after qs).allTeams = .ok teams ∧
      teams.map Team.id = (empty.made qs).foldl Edit.arrive [] := by
  obtain ⟨hwell, horder⟩ := wellFormed_empty.requests qs
  refine ⟨hwell.named, ?_, hwell.not_corrupted, ?_⟩
  · intro id r hr x hx
    exact Directory.contains_iff.1 (hwell.listed id r hr x hx)
  · obtain ⟨teams, hteams, hids⟩ := hwell.allTeams
    exact ⟨teams, hteams, by rw [hids, horder, order_empty]⟩

example (a b : Team) (h : a.id ≠ b.id) :
    [.createTeam a, .createTeam b, .deleteTeam a.id, .createTeam a].foldl Edit.arrive [] =
      [b.id, a.id] := by
  simp [Edit.arrive, h, h.symm]

end Store

end TeamRoster
