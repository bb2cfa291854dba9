import TeamRoster.Proofs.Tables.Commits
import TeamRoster.Proofs.Tables.Constraints
import TeamRoster.Proofs.Team.Absorption

/-!
# Change sets on tables and in memory

Tables show a store if they have its members and teams under the same ids and, for each team, its list as
the rows of the team by position. Only the constraints of the tables are asked for beside that; which
stores can be shown follows from them (`Store.exists_shows_iff`): those that list nobody twice, list
stored members only, and give no two teams one name. Main statement: `Tables.commit_agreement`. The tables
accept a change set exactly if the store does and there is room for its edits; they show the store again
then, and are as before otherwise. Positions and times are bounded in tables and not in memory, so that
there need not be room (`Tables.commit_disagreement`).
-/

namespace TeamRoster

namespace Tables

variable {t : Tables} {s : Store}

/-- The tables show what the store holds. -/
structure Shows (t : Tables) (s : Store) : Prop where
  /-- The same members under the same ids, with their names, addresses and statuses. -/
  members (id : Ident) :
    (t.member? id).map MemberRow.view = (s.members.find? id).map MemberView.ofMember
  /-- The same teams under the same ids, with their names. -/
  teams (id : Ident) :
    (t.team? id).map TeamRow.name = (s.teams.find? id).map fun r => r.name.text
  /-- The list of a team is that of its rows in the order of their positions. -/
  lists (id : Ident) : ∃ seats, t.Seats id seats ∧ seats.map Membership.member = s.listOf id

namespace Shows

/-- Nobody is listed twice, since a member has one row in a team at most. -/
theorem once (h : t.Shows s) (ht : t.Constrained) (id : Ident) : (s.listOf id).Nodup := by
  obtain ⟨seats, hseats, hlist⟩ := h.lists id
  rw [← hlist, (hseats.perm.map Membership.member).nodup_iff]
  refine nodup_map_of_inj (ht.membershipKeys.sublist (List.filter_sublist.map _)) ?_
  intro a ha b hb heq
  simp only [List.mem_filter, beq_iff_eq] at ha hb
  rw [ha.2, hb.2, heq]

/-- Whoever is listed is stored, since a row in a team is one of a member. -/
theorem stored (h : t.Shows s) (ht : t.Constrained) {id x : Ident} (hx : x ∈ s.listOf id) :
    s.members.contains x = true := by
  obtain ⟨seats, hseats, hlist⟩ := h.lists id
  rw [← hlist] at hx
  obtain ⟨m, hm, rfl⟩ := List.mem_map.1 hx
  have hrow := mem_memberKeys.1 (ht.memberReference m (hseats.mem.1 hm).1)
  rw [Directory.contains, ← Option.isSome_map, ← h.members, Option.isSome_map]
  exact Option.isSome_iff_ne_none.2 hrow

theorem mirrors (h : t.Shows s) (ht : t.Constrained) : Mirrors t s where
  members := h.members
  teams := h.teams
  seats := h.lists
  memberKeys := ht.memberKeys
  teamKeys := ht.teamKeys
  once := h.once ht
  stored _ _ hx := h.stored ht hx

/-- Members are stored under their own ids. -/
theorem keyed (h : t.Shows s) : s.Keyed := by
  intro id m hm
  have hview := h.members id
  rw [hm, Option.map_some, Option.map_eq_some_iff] at hview
  obtain ⟨row, hrow, heq⟩ := hview
  have hid : row.id = id := by simpa using List.find?_some hrow
  exact (congrArg MemberView.id heq).symm.trans hid

/-- Different teams have different names. -/
theorem named (h : t.Shows s) (ht : t.Constrained) {a b : Ident} {r q : TeamRecord}
    (hr : s.teams.find? a = some r) (hq : s.teams.find? b = some q) (hname : r.name = q.name) :
    a = b := by
  have hrow {id : Ident} {r : TeamRecord} (hr : s.teams.find? id = some r) :
      ∃ row ∈ t.teams, row.id = id ∧ row.name = r.name.text := by
    have hteam := h.teams id
    rw [hr, Option.map_some, Option.map_eq_some_iff] at hteam
    obtain ⟨row, hfound, hname⟩ := hteam
    obtain ⟨hmem, hid⟩ := (team?_eq_some ht.teamKeys).1 hfound
    exact ⟨row, hmem, hid, hname⟩
  obtain ⟨x, hx, rfl, hxname⟩ := hrow hr
  obtain ⟨y, hy, rfl, hyname⟩ := hrow hq
  have hsame : x.name = y.name := by rw [hxname, hyname, hname]
  rw [List.inj_on_of_nodup_map ht.teamNames hx hy hsame]

end Shows

end Tables

theorem Mirrors.shows {t : Tables} {s : Store} (h : Mirrors t s) : t.Shows s :=
  ⟨h.members, h.teams, h.seats⟩

namespace Store

variable {s : Store}

/-- The rows of a list of members, at one position after the other. -/
def rowsOf (team : Ident) (ids : List Ident) : List Membership :=
  ids.zipIdx.map fun x => ⟨team, x.1, .ofNat x.2⟩

/-- The store written to tables. -/
def tabulate (s : Store) : Tables where
  members := s.members.values.map .ofMember
  teams := s.teams.entries.map fun e => ⟨e.1, e.2.name.text, e.2.createdAt⟩
  memberships := s.teams.entries.flatMap fun e => rowsOf e.1 e.2.memberIds

theorem team_of_mem_rowsOf {team : Ident} {ids : List Ident} {m : Membership}
    (hm : m ∈ rowsOf team ids) : m.team = team := by
  obtain ⟨x, -, rfl⟩ := List.mem_map.1 hm
  rfl

theorem members_rowsOf (team : Ident) (ids : List Ident) :
    (rowsOf team ids).map Membership.member = ids := by
  simp [rowsOf, Function.comp_def]

/-- The positions rise along the list, if there are enough of them. -/
theorem rising_rowsOf (team : Ident) {ids : List Ident} (hshort : ids.length ≤ Tables.places) :
    (rowsOf team ids).Pairwise fun a b => a.position < b.position := by
  rw [rowsOf, List.pairwise_map]
  have hindices : (ids.zipIdx.map Prod.snd).Pairwise (· < ·) := by
    rw [List.zipIdx_map_snd]
    exact List.pairwise_lt_range'
  refine (List.pairwise_map.1 hindices).imp_of_mem fun {a b} ha hb hab => ?_
  have hlow (x : Ident × Nat) (hx : x ∈ ids.zipIdx) : (Int32.ofNat x.2).toInt = x.2 := by
    have hlt := List.snd_lt_of_mem_zipIdx hx
    exact Tables.toInt_ofNat (by omega)
  rw [Int32.lt_iff_toInt_lt, hlow a ha, hlow b hb]
  exact Int.ofNat_lt.2 hab

/-- The rows of a team are those of its list. -/
theorem filter_memberships (es : List (Ident × TeamRecord)) (hes : (es.map Prod.fst).Nodup)
    (id : Ident) :
    ((es.flatMap fun e => rowsOf e.1 e.2.memberIds).filter fun m => m.team == id) =
      rowsOf id (listIn es id) := by
  induction es with
  | nil => rfl
  | cons e es ih =>
      rw [List.map_cons, List.nodup_cons] at hes
      rw [List.flatMap_cons, List.filter_append, ih hes.2, listIn, listIn, Directory.lookup_cons]
      by_cases hid : e.1 = id
      · have habsent : Directory.lookup es id = none := Directory.lookup_eq_none.2 (hid ▸ hes.1)
        have hall : ((rowsOf e.1 e.2.memberIds).filter fun m => m.team == id) =
            rowsOf e.1 e.2.memberIds :=
          List.filter_eq_self.2 fun m hm => by simp [team_of_mem_rowsOf hm, hid]
        rw [hall, habsent, if_pos hid, hid]
        simp [rowsOf]
      · have hnone : ((rowsOf e.1 e.2.memberIds).filter fun m => m.team == id) = [] :=
          List.filter_eq_nil_iff.2 fun m hm => by simp [team_of_mem_rowsOf hm, hid]
        rw [hnone, if_neg hid, List.nil_append]

/-- The rows of the members have the ids that the members are stored under. -/
theorem memberIds_tabulate (hkeyed : s.Keyed) :
    s.tabulate.members.map MemberRow.id = s.members.keys := by
  rw [tabulate, Directory.values, Directory.keys, List.map_map, List.map_map]
  exact List.map_congr_left fun e he => hkeyed e.1 e.2 (Directory.find?_eq_some.2 he)

theorem teamIds_tabulate : s.tabulate.teams.map TeamRow.id = s.teams.keys := by
  rw [tabulate, List.map_map]
  rfl

theorem member?_tabulate (hkeyed : s.Keyed) (id : Ident) :
    s.tabulate.member? id = (s.members.find? id).map .ofMember := by
  have hids := memberIds_tabulate hkeyed
  cases hm : s.members.find? id with
  | none =>
      by_contra hrow
      exact Directory.find?_eq_none.1 hm (hids ▸ Tables.mem_memberKeys.2 hrow)
  | some m =>
      refine (Tables.member?_eq_some (hids ▸ s.members.nodup)).2 ⟨?_, hkeyed id m hm⟩
      exact List.mem_map_of_mem (List.mem_map_of_mem (Directory.find?_eq_some.1 hm))

theorem shows_tabulate (hkeyed : s.Keyed)
    (hshort : ∀ id, (s.listOf id).length ≤ Tables.places) : s.tabulate.Shows s where
  members id := by
    rw [member?_tabulate hkeyed, Option.map_map]
    rfl
  teams id := by
    simp only [Tables.team?, tabulate, Directory.find?, Directory.lookup, List.find?_map,
      Option.map_map]
    rfl
  lists id := by
    refine ⟨rowsOf id (s.listOf id), ⟨?_, rising_rowsOf _ (hshort id)⟩, members_rowsOf _ _⟩
    rw [tabulate, filter_memberships _ s.teams.nodup]
    rfl

/-- The tables of a store keep the constraints if the store lists nobody twice, lists stored members
only, and gives no two teams one name. -/
theorem constrained_tabulate (hkeyed : s.Keyed)
    (hnamed : ∀ a b r q, s.teams.find? a = some r → s.teams.find? b = some q →
      r.name = q.name → a = b)
    (honce : ∀ id, (s.listOf id).Nodup)
    (hstored : ∀ id x, x ∈ s.listOf id → s.members.contains x = true) :
    s.tabulate.Constrained where
  memberKeys := memberIds_tabulate hkeyed ▸ s.members.nodup
  teamKeys := teamIds_tabulate ▸ s.teams.nodup
  teamNames := by
    have hkeys : (s.tabulate.teams.map TeamRow.id).Nodup := teamIds_tabulate ▸ s.teams.nodup
    refine Tables.nodup_map_of_inj hkeys ?_
    intro a ha b hb hname
    obtain ⟨x, hx, rfl⟩ := List.mem_map.1 ha
    obtain ⟨y, hy, rfl⟩ := List.mem_map.1 hb
    exact hnamed x.1 y.1 x.2 y.2 (Directory.find?_eq_some.2 hx) (Directory.find?_eq_some.2 hy)
      (TeamName.ext hname)
  membershipKeys := by
    rw [tabulate, List.map_flatMap, List.nodup_flatMap]
    refine ⟨fun e he => ?_, (List.pairwise_map.1 s.teams.nodup).imp fun {a b} hne => ?_⟩
    · have hlist : ((rowsOf e.1 e.2.memberIds).map Membership.member).Nodup := by
        rw [members_rowsOf, ← listOf_of_find? (Directory.find?_eq_some.2 he)]
        exact honce e.1
      exact Tables.nodup_map_of_inj hlist fun x _ y _ heq => congrArg Prod.snd heq
    · intro key hkey hkey'
      obtain ⟨x, hx, rfl⟩ := List.mem_map.1 hkey
      obtain ⟨y, hy, heq⟩ := List.mem_map.1 hkey'
      have hteam : y.team = x.team := congrArg Prod.fst heq
      rw [team_of_mem_rowsOf hx, team_of_mem_rowsOf hy] at hteam
      exact hne hteam.symm
  teamReference m hm := by
    obtain ⟨e, he, hrow⟩ := List.mem_flatMap.1 hm
    rw [teamIds_tabulate, team_of_mem_rowsOf hrow]
    exact List.mem_map_of_mem he
  memberReference m hm := by
    obtain ⟨e, he, hrow⟩ := List.mem_flatMap.1 hm
    have hlisted : m.member ∈ s.listOf e.1 := by
      rw [listOf_of_find? (Directory.find?_eq_some.2 he), ← members_rowsOf e.1 e.2.memberIds]
      exact List.mem_map_of_mem hrow
    rw [Tables.mem_memberKeys, member?_tabulate hkeyed]
    simpa [Directory.contains, Option.isSome_iff_ne_none] using hstored e.1 m.member hlisted

/-- The stores that tables can show, of those with lists that are not too long: the ones that hold members
under their own ids, give no two teams one name, list nobody twice in a team, and list stored members
only. -/
theorem exists_shows_iff (hshort : ∀ id, (s.listOf id).length ≤ Tables.places) :
    (∃ t : Tables, t.Constrained ∧ t.Shows s) ↔
      s.Keyed ∧
      (∀ a b r q, s.teams.find? a = some r → s.teams.find? b = some q → r.name = q.name → a = b) ∧
      (∀ id, (s.listOf id).Nodup) ∧
      ∀ id x, x ∈ s.listOf id → s.members.contains x = true := by
  constructor
  · rintro ⟨t, ht, hshows⟩
    exact ⟨hshows.keyed, fun _ _ _ _ hr hq => hshows.named ht hr hq, hshows.once ht,
      fun _ _ hx => hshows.stored ht hx⟩
  · rintro ⟨hkeyed, hnamed, honce, hstored⟩
    exact ⟨s.tabulate, constrained_tabulate hkeyed hnamed honce hstored,
      shows_tabulate hkeyed hshort⟩

end Store

namespace Tables

variable {conn : Connection} {t : Tables} {s : Store} {c : ChangeSet}

/-- A change set goes through on tables exactly if it does on the store that they show and there is room
for its edits. -/
theorem Shows.commit_eq_ok (hshows : t.Shows s) (ht : t.Constrained)
    (hc : ∀ e ∈ c.edits, e.Seatable places) :
    ((Query.change c).atomically t).1 = .ok () ↔ (s.commit c).1 = .ok () ∧ t.HasRoom c.edits := by
  have hmirrors := hshows.mirrors ht
  by_cases hroom : t.HasRoom c.edits
  · obtain ⟨hreplies, -⟩ := hmirrors.commit hc hroom
    simp only [hroom, and_true]
    generalize ((Query.change c).atomically t).1 = x at hreplies
    generalize (s.commit c).1 = y at hreplies
    cases hreplies with
    | ok => exact iff_of_true rfl rfl
    | error => exact iff_of_false (by simp) (by simp)
  · refine iff_of_false (fun hok => hroom ?_) fun h => hroom h.2
    rw [Query.atomically_eq] at hok
    cases hd : (Query.change c).effect t with
    | ok d => exact Query.hasRoom_of_effect_change hmirrors hd
    | error x =>
        rw [hd] at hok
        cases hok

/-- Tables show the store again after a change set that went through. -/
theorem Shows.commit (hshows : t.Shows s) (ht : t.Constrained) (hc : ∀ e ∈ c.edits, e.Seatable places)
    (hroom : t.HasRoom c.edits) :
    ((Query.change c).atomically t).2.Shows (s.commit c).2 :=
  ((hshows.mirrors ht).commit hc hroom).2.shows

/-- Where there is no room for what the store accepts, the database refuses it. -/
theorem Shows.commit_refused (hshows : t.Shows s) (ht : t.Constrained)
    (hok : (s.commit c).1 = .ok ()) (hroom : ¬ t.HasRoom c.edits) :
    ∃ e ∈ c.edits, ((Query.change c).atomically t).1 = .error e.refusal := by
  obtain ⟨d, hserial⟩ := Store.commit_eq_ok_iff.1 hok
  have hmeets : ∀ e ∈ c.expectations, s.Meets e := by
    rw [← Store.find?_unmet_eq_none]
    by_contra hunmet
    obtain ⟨e, he⟩ := Option.ne_none_iff_exists'.1 hunmet
    rw [Store.serial, he] at hserial
    cases hserial
  obtain ⟨e, he, -, hrefused⟩ :=
    Query.atomically_change_of_not_hasRoom (hshows.mirrors ht) hmeets hroom
  exact ⟨e, he, by rw [hrefused]⟩

/-- Tables and the store in memory accept the same change sets, as long as there is room in the tables.
Let the tables keep their constraints and show the store, with the list of each team in rows at rising
positions, and let no new team of a change set list anybody twice, or more members than there are
positions. Then the change set is committed over an idle connection to the tables exactly if it is
committed to the store and there is room for its edits: a position of 32 bits behind the last one of the
team for each member who joins, and a place within the range of the database for the time of each new
team. If it is, the tables keep their constraints and show the new store: the same teams with their names
and lists, and the same members with their statuses. If it is not, the tables are as before; and so are
the teams and members of a store to which it is not committed. Where only the room is missing, the database
refuses the change set. There is room if all positions are so low that even the highest one could rise by
as many as join. -/
theorem commit_agreement (hconn : conn.Idle t) (ht : t.Constrained) (hshows : t.Shows s)
    (hseats : ∀ team, .createTeam team ∈ c.edits →
      team.memberIds.Nodup ∧ team.members.length ≤ places) :
    ((Connection.storage (.commit c) conn).1 = .ok () ↔
      (Store.storage (.commit c) s).1 = .ok () ∧ t.HasRoom c.edits) ∧
    ((Connection.storage (.commit c) conn).1 = .ok () →
      ∃ after, (Connection.storage (.commit c) conn).2.Idle after ∧ after.Constrained ∧
        after.Shows (Store.storage (.commit c) s).2) ∧
    ((Connection.storage (.commit c) conn).1 ≠ .ok () →
      (Connection.storage (.commit c) conn).2.Idle t) ∧
    ((Store.storage (.commit c) s).1 ≠ .ok () →
      (Store.storage (.commit c) s).2.teams = s.teams ∧
        (Store.storage (.commit c) s).2.members = s.members) ∧
    ((Store.storage (.commit c) s).1 = .ok () → ¬ t.HasRoom c.edits →
      ∃ e ∈ c.edits, (Connection.storage (.commit c) conn).1 = .error e.refusal) ∧
    ∀ n, t.Below n → (∀ e ∈ c.edits, e.Modest n) → n + c.edits.countP Edit.joins ≤ places →
      t.HasRoom c.edits := by
  have hc : ∀ e ∈ c.edits, e.Seatable places := by
    intro e he
    cases e with
    | createTeam team => exact hseats team he
    | deleteTeam team | addMember team member | removeMember team member
    | setStatus member before after => trivial
  obtain ⟨hreply, hidle⟩ := hconn.storage (.commit c)
  have hiff : (Connection.storage (.commit c) conn).1 = .ok () ↔
      (s.commit c).1 = .ok () ∧ t.HasRoom c.edits := by
    rw [hreply]
    exact hshows.commit_eq_ok ht hc
  refine ⟨hiff, fun hok => ?_, fun hfails => ?_, fun hfails => ?_, fun hok hroom => ?_,
    fun n hbelow hes hn => (hbelow.edits hes hn).1⟩
  · exact ⟨_, hidle, ht.atomically _, hshows.commit ht hc (hiff.1 hok).2⟩
  · rw [hreply] at hfails
    have htables : (storage (.commit c) t).2 = t := Query.atomically_unchanged hfails
    exact htables ▸ hidle
  · cases hcommit : (s.commit c).1 with
    | ok done => exact absurd hcommit hfails
    | error failure => exact Store.commit_unchanged hcommit
  · rw [hreply]
    exact hshows.commit_refused ht hok hroom

section Coop

/-- A second team, of one member. -/
def swans : Team where
  id := .ofRandom 12
  name := ⟨"Swans", by decide, by decide +kernel, by decide⟩
  members := [kim 2]
  createdAt := .ofSeconds 1

/-- A third team, which is not stored yet. -/
def hens : Team where
  id := .ofRandom 13
  name := ⟨"Hens", by decide, by decide +kernel, by decide⟩
  members := [kim 3, kim 1]
  createdAt := .ofSeconds 2

/-- Four members and two teams. -/
def coop : Store :=
  Store.empty.after [.saveMember (kim 0), .saveMember (kim 1), .saveMember (kim 2),
    .saveMember (kim 3), .createTeam owls, .createTeam swans]

/-- Edits of all kinds: a member moves, a team is stored again in another order, one is created, one is
deleted, and a member who is there is added once more. -/
def reshuffle : ChangeSet where
  expectations := [(swans.id, [(kim 2).id]), (owls.id, [(kim 0).id, (kim 1).id])]
  edits := [.setStatus (kim 2).id .active .onLeave, .removeMember owls.id (kim 0).id,
    .addMember swans.id (kim 0).id, .createTeam { swans with members := [kim 0, kim 2] },
    .createTeam hens, .deleteTeam owls.id, .addMember swans.id (kim 2).id,
    .setStatus (kim 2).id .onLeave .withdrawn]

/-- Edits that go well until one is about a member who is not stored. -/
def halfway : ChangeSet where
  expectations := []
  edits := [.deleteTeam owls.id, .addMember swans.id (kim 9).id]

theorem coop_keyed : coop.Keyed := by
  have hall : ∀ e ∈ coop.members.entries, e.2.id = e.1 := by decide +kernel
  exact fun id m hm => hall (id, m) (Directory.find?_eq_some.1 hm)

theorem coop_constrained : coop.tabulate.Constrained :=
  ⟨by decide +kernel, by decide +kernel, by decide +kernel, by decide +kernel, by decide +kernel,
    by decide +kernel⟩

theorem coop_shows : coop.tabulate.Shows coop := by
  have hshort : ∀ e ∈ coop.teams.entries, e.2.memberIds.length ≤ places := by decide +kernel
  refine Store.shows_tabulate coop_keyed fun id => ?_
  cases hr : coop.teams.find? id with
  | none =>
      rw [Store.listOf_of_find?_none hr]
      exact Nat.zero_le _
  | some r =>
      rw [Store.listOf_of_find? hr]
      exact hshort (id, r) (Directory.find?_eq_some.1 hr)

/-- One change set that goes through on both sides, and one that does not. -/
theorem commit_agreement_coop :
    (∃ after, (Connection.storage (.commit reshuffle) (.ofTables coop.tabulate)).2.Idle after ∧
      after.Constrained ∧ after.Shows (Store.storage (.commit reshuffle) coop).2) ∧
    (Connection.storage (.commit halfway) (.ofTables coop.tabulate)).1 ≠ .ok () ∧
    (Connection.storage (.commit halfway) (.ofTables coop.tabulate)).2.Idle coop.tabulate := by
  have hidle := Connection.idle_ofTables coop.tabulate
  have hseats : ∀ team, .createTeam team ∈ reshuffle.edits →
      team.memberIds.Nodup ∧ team.members.length ≤ places := by
    intro team hteam
    simp only [reshuffle, List.mem_cons, Edit.createTeam.injEq, reduceCtorEq, List.not_mem_nil,
      false_or, or_false] at hteam
    rcases hteam with rfl | rfl <;> decide +kernel
  have hreshuffle := commit_agreement (c := reshuffle) hidle coop_constrained coop_shows hseats
  have hhalfway := commit_agreement (c := halfway) hidle coop_constrained coop_shows (by
    intro team hteam
    simp [halfway] at hteam)
  have hroom : coop.tabulate.HasRoom reshuffle.edits :=
    hreshuffle.2.2.2.2.2 2 (by decide +kernel) (by decide +kernel) (by decide +kernel)
  have hok : (Connection.storage (.commit reshuffle) (.ofTables coop.tabulate)).1 = .ok () :=
    hreshuffle.1.2 ⟨by decide +kernel, hroom⟩
  have hfails : (Store.storage (.commit halfway) coop).1 ≠ .ok () := by decide +kernel
  have hrefused : (Connection.storage (.commit halfway) (.ofTables coop.tabulate)).1 ≠ .ok () :=
    fun hreply => hfails (hhalfway.1.1 hreply).1
  exact ⟨hreshuffle.2.1 hok, hrefused, hhalfway.2.2.1 hrefused⟩

/-- Tables that show the same store, where the one member of the second team has the greatest position. -/
def crowded : Tables :=
  (coop.tabulate.clearTeam swans.id).seat ⟨swans.id, (kim 2).id, Int32.maxValue⟩

theorem crowded_constrained : crowded.Constrained :=
  ⟨by decide +kernel, by decide +kernel, by decide +kernel, by decide +kernel, by decide +kernel,
    by decide +kernel⟩

theorem crowded_shows : crowded.Shows coop := by
  have hcleared := coop.tabulate.reseated_clearTeam swans.id
  have hseated : coop.tabulate.Reseated crowded swans.id [⟨swans.id, (kim 2).id, Int32.maxValue⟩] :=
    hcleared.trans (hcleared.seats.reseated_seat ⟨swans.id, (kim 2).id, Int32.maxValue⟩ (by simp))
  refine ⟨coop_shows.members, coop_shows.teams, fun id => ?_⟩
  by_cases hid : id = swans.id
  · exact ⟨_, hid ▸ hseated.seats, by rw [hid]; decide +kernel⟩
  · obtain ⟨seats, hseats, hlist⟩ := coop_shows.lists id
    exact ⟨seats, hseated.others id seats hid hseats, hlist⟩

/-- A member joins the second team. -/
def crowding : ChangeSet where
  expectations := [(swans.id, [(kim 2).id])]
  edits := [.addMember swans.id (kim 3).id]

/-- A team is created nine thousand years before 1970. -/
def prehistoric : ChangeSet where
  expectations := []
  edits := [.createTeam { hens with createdAt := .ofSeconds (-284012568000) }]

/-- Without room the two sides do not agree: behind the greatest position nobody can join, and the database
has no time before its count of days begins. -/
theorem commit_disagreement :
    crowded.Constrained ∧ crowded.Shows coop ∧
    (Store.storage (.commit crowding) coop).1 = .ok () ∧
    (Connection.storage (.commit crowding) (.ofTables crowded)).1 = .error (.database
      "Failed to add team member: error returned from database: integer out of range") ∧
    coop.tabulate.Constrained ∧ coop.tabulate.Shows coop ∧
    (Store.storage (.commit prehistoric) coop).1 = .ok () ∧
    (Connection.storage (.commit prehistoric) (.ofTables coop.tabulate)).1 = .error (.database
      "Failed to create team: error returned from database: timestamp out of range") :=
  ⟨crowded_constrained, crowded_shows, by decide +kernel, by decide +kernel, coop_constrained,
    coop_shows, by decide +kernel, by decide +kernel⟩

end Coop

end Tables

end TeamRoster
