import TeamRoster.Proofs.Text.Grammar
import TeamRoster.Proofs.Workflow.Assigned
import TeamRoster.Proofs.Workflow.TwinWrites

/-!
# One storage or the other

Whether commands run over tables or over the store in memory makes no difference to anybody, as long
as the tables have a position for everybody who joins a team. Main statement: `course_tables_eq`.
From nothing stored, with the same births, answers to ties and transport, each command gives the
same result and tells of the same, up to the first one, if there is any, that finds no position; it
takes billions of commands to get there. What is asked for is that texts are without the character
zero, and that births come one after the other at times that tables can keep apart and store.

The step is `Matched.perform`: a command reads alike on both sides (`Command.alike_prepare`), and
what it is going to write suits the store (`suits_of_prepare`), so that the tables take it as the
store does (`Twins.write`), or refuse it for lack of room (`Matched.perform_refused`).
-/

namespace TeamRoster

open scoped List

variable {σ ρ τ : Type}

/-- The texts that come with a command. -/
def Command.texts : Command → List String
  | registerMember name email _ => [name, email]
  | createTeam name _ => [name]
  | addMember _ _ | removeMember _ _ | changeStatus _ _ | reassignMember _ => []

section Announcing

variable {α : Type} {e : Setting σ τ} {e' : Setting ρ τ} {w : World σ τ} {w' : World ρ τ}

/-- The notifications that mentors were to be sent, delivered or not. -/
def noticesOf (log : List (Dialogue.Exchange Ask Ask.Answer)) : List Notification :=
  (attemptsOf log).map Event.notification

theorem noticesOf_append (log more : List (Dialogue.Exchange Ask Ask.Answer)) :
    noticesOf (log ++ more) = noticesOf log ++ noticesOf more := by
  rw [noticesOf, attemptsOf_append, List.map_append]
  rfl

theorem noticesOf_cons_exchange (x : Write) (reply : Except StorageError Unit)
    (log : List (Dialogue.Exchange Ask Ask.Answer)) :
    noticesOf (x.exchange reply :: log) = noticesOf log := by
  cases x <;> rfl

theorem noticesOf_log_prepares {stop : α → Prop} {u : UseCase α} (hu : UseCase.PreparesIn stop u)
    (e : Setting σ τ) (w : World σ τ) : noticesOf (e.log u w) = [] :=
  congrArg _ (attemptsOf_eq_nil (Dialogue.Keeps.transcript hu e.answer w))

/-- Announcing goes on after a notification only if this is delivered. -/
theorem Setting.notices_announce (e : Setting σ τ) (event : Event) (events : List Event)
    (w : World σ τ) :
    noticesOf (e.log (UseCase.announce (event :: events)) w) = event.notification ::
      match e.transport event.notification w.transport with
      | (.ok (), after) => noticesOf (e.log (UseCase.announce events) { w with transport := after })
      | (.error _, _) => [] := by
  have hexec : e.exec (UseCase.deliver event) w =
      ((e.transport event.notification w.transport).1.mapError .delivery,
        { w with transport := (e.transport event.notification w.transport).2 }) := rfl
  have hlog : e.log (UseCase.deliver event) w =
      [⟨.deliver event, (e.transport event.notification w.transport).1⟩] := rfl
  rw [UseCase.announce, log_bind, hexec, hlog]
  cases e.transport event.notification w.transport with
  | mk reply after => cases reply <;> rfl

/-- Events with the same notifications are told of alike over the same transport. -/
theorem Setting.tell_alike (htransport : e.transport = e'.transport) {events events' : List Event}
    (htold : events.map Event.notification = events'.map Event.notification)
    (hw : w.transport = w'.transport) :
    e.tell events w.transport = e'.tell events' w'.transport ∧
      noticesOf (e.log (UseCase.announce events) w) =
        noticesOf (e'.log (UseCase.announce events') w') := by
  induction events generalizing events' w w' with
  | nil =>
      rw [List.map_nil, eq_comm, List.map_eq_nil_iff] at htold
      subst htold
      exact ⟨congrArg (Prod.mk _) hw, rfl⟩
  | cons event events ih =>
      cases events' with
      | nil => cases htold
      | cons event' events' =>
          obtain ⟨hnotice, hrest⟩ := List.cons.inj htold
          rw [notices_announce, notices_announce, tell, tell, hnotice, htransport, hw]
          cases hsent : e'.transport event'.notification w'.transport with
          | mk reply after =>
              cases reply with
              | error x => exact ⟨rfl, rfl⟩
              | ok done =>
                  have hsame : ({ w with transport := after } : World σ τ).transport =
                      ({ w' with transport := after } : World ρ τ).transport := rfl
                  obtain ⟨htell, hnotices⟩ := ih hrest hsame
                  exact ⟨htell, congrArg _ hnotices⟩

/-- Undertakings that come to the same end alike, if their writes get the same reply. -/
theorem Setting.carryOut_alike (htransport : e.transport = e'.transport) {u u' : Undertaking α}
    (hu : u.Alike u') (hw : w.transport = w'.transport)
    (hreply : (e.storage.write u.write w.storage).1 = (e'.storage.write u'.write w'.storage).1) :
    (e.exec u.carryOut w).1 = (e'.exec u'.carryOut w').1 ∧
      noticesOf (e.log u.carryOut w) = noticesOf (e'.log u'.carryOut w') ∧
      ∃ sent,
        (e.exec u.carryOut w).2 =
          { w with storage := (e.storage.write u.write w.storage).2, transport := sent } ∧
        (e'.exec u'.carryOut w').2 =
          { w' with storage := (e'.storage.write u'.write w'.storage).2, transport := sent } := by
  rw [exec_carryOut, exec_carryOut, log_carryOut, log_carryOut, noticesOf_cons_exchange,
    noticesOf_cons_exchange]
  cases hwrite : e.storage.write u.write w.storage with
  | mk reply s =>
      cases hwrite' : e'.storage.write u'.write w'.storage with
      | mk reply' s' =>
          have hsame : reply = reply' := by simpa [hwrite, hwrite'] using hreply
          subst hsame
          cases reply with
          | error x => exact ⟨rfl, rfl, w.transport, rfl, hw ▸ rfl⟩
          | ok done =>
              have hafter : ({ w with storage := s } : World σ τ).transport =
                  ({ w' with storage := s' } : World ρ τ).transport := hw
              obtain ⟨htell, hnotices⟩ := tell_alike htransport hu.told hafter
              change e.tell u.events w.transport = e'.tell u'.events w'.transport at htell
              simp only [htell, hnotices, hu.result]
              cases e'.tell u'.events w'.transport with
              | mk told sent => cases told <;> exact ⟨rfl, trivial, sent, rfl, rfl⟩

/-- Where the write is refused, nothing is told. -/
theorem Setting.carryOut_refused {e : Setting σ τ} {u : Undertaking α} {w : World σ τ}
    {x : StorageError} (h : (e.storage.write u.write w.storage).1 = .error x) :
    (e.exec u.carryOut w).1 = .error (.storage x) ∧ noticesOf (e.log u.carryOut w) = [] := by
  rw [exec_carryOut, log_carryOut, noticesOf_cons_exchange]
  cases hwrite : e.storage.write u.write w.storage with
  | mk reply s =>
      have hreply : reply = .error x := by simpa [hwrite] using h
      rw [hreply]
      exact ⟨rfl, rfl⟩

/-- No births are drawn once a command is prepared. -/
theorem Setting.born_carryOut (e : Setting σ τ) (u : Undertaking α) (w : World σ τ) :
    (e.exec u.carryOut w).2.born = w.born := by
  rw [exec_carryOut]
  cases e.storage.write u.write w.storage with
  | mk reply s =>
      cases reply with
      | error x => rfl
      | ok done =>
          cases e.tell u.events w.transport with
          | mk told sent => cases told <;> rfl

end Announcing

/-- The setting with the tables behind a connection and these surroundings. -/
def Surroundings.tables (v : Surroundings τ) : Setting Connection τ :=
  ⟨Connection.storage, v.transport, v.births, v.picks⟩

/-- An idle connection replies to a write as its tables do, and is idle again after it. -/
theorem Connection.Idle.write {c : Connection} {t : Tables} (h : c.Idle t) (x : Write) :
    (Storage.write Connection.storage x c).1 = (Storage.write Tables.storage x t).1 ∧
      (Storage.write Connection.storage x c).2.Idle (Storage.write Tables.storage x t).2 := by
  cases x with
  | save m => exact h.storage (.saveMember m)
  | form team => exact h.storage (.createTeam team)
  | commit c => exact h.storage (.commit c)

namespace Surroundings

variable {v : Surroundings τ} {t : Tables} {w : World Connection τ} {x : World Store τ}

/-- Of the first so many births, each is later than those before it at the precision of tables. -/
def RisingTimes (v : Surroundings τ) (count : Nat) : Prop :=
  ∀ later < count, ∀ earlier < later,
    (v.births earlier).time.toMicros.Before (v.births later).time.toMicros

instance (v : Surroundings τ) (count : Nat) : Decidable (v.RisingTimes count) :=
  inferInstanceAs (Decidable (∀ later < count, ∀ earlier < later, Instant.Before _ _))

theorem RisingTimes.mono {count less : Nat} (h : v.RisingTimes count) (hless : less ≤ count) :
    v.RisingTimes less := by
  intro later hlater
  have hcounted : later < count := by omega
  exact h later hcounted

/-- The times of the first so many births can be stored. -/
def StorableTimes (v : Surroundings τ) (count : Nat) : Prop :=
  ∀ n < count, (v.births n).time.isStorable = true

instance (v : Surroundings τ) (count : Nat) : Decidable (v.StorableTimes count) :=
  inferInstanceAs (Decidable (∀ n < count, (v.births n).time.isStorable = true))

theorem StorableTimes.mono {count less : Nat} (h : v.StorableTimes count) (hless : less ≤ count) :
    v.StorableTimes less :=
  fun n hn => h n (by omega)

theorem mem_times {born ready : Nat} {time : Instant} (h : time ∈ v.times born ready) :
    ∃ n, born ≤ n ∧ n < ready ∧ (v.births n).time = time := by
  obtain ⟨n, hn, htime⟩ := List.mem_map.1 h
  rw [List.mem_range'_1] at hn
  exact ⟨n, hn.1, by omega, htime⟩

/-- Worlds that differ in the storage alone: an idle connection to tables, and the store whose twin
they are. The times of the teams in the tables are those of births. -/
structure Matched (v : Surroundings τ) (t : Tables) (w : World Connection τ) (x : World Store τ) :
    Prop where
  idle : w.storage.Idle t
  twins : Twins t x.storage
  dated (r : TeamRow) : r ∈ t.teams → ∃ n < x.born, r.createdAt = (v.births n).time.toMicros
  transport : w.transport = x.transport
  born : w.born = x.born
  picked : w.picked = x.picked

/-- What is asked in a preparation is answered alike, and changes neither tables nor store. -/
theorem Matched.answer {q : Ask} (hq : q.isPreparation = true) (h : v.Matched t w x) :
    q.Alike (v.tables.answer q w).1 (v.setting.answer q x).1 ∧
      v.Matched t (v.tables.answer q w).2 (v.setting.answer q x).2 := by
  cases q with
  | deliver event => cases hq
  | birth =>
      have hborn : (v.tables.answer .birth w).2.born = (v.setting.answer .birth x).2.born :=
        congrArg (· + 1) h.born
      refine ⟨congrArg v.births h.born, h.idle, h.twins, fun r hr => ?_, h.transport, hborn,
        h.picked⟩
      obtain ⟨n, hn, htime⟩ := h.dated r hr
      exact ⟨n, Nat.lt_succ_of_lt hn, htime⟩
  | pick count =>
      have hpicked : (v.tables.answer (.pick count) w).2.picked =
          (v.setting.answer (.pick count) x).2.picked := congrArg (· + 1) h.picked
      exact ⟨congrArg (v.picks · count) h.picked, h.idle, h.twins, h.dated, h.transport, h.born,
        hpicked⟩
  | storage request =>
      obtain ⟨hreply, hidle⟩ := h.idle.storage request
      have hstore : (v.setting.storage request x.storage).2 = x.storage :=
        Store.storage_of_isRead hq x.storage
      rw [Tables.storage_of_isRead hq] at hidle
      refine ⟨?_, hidle, ?_, h.dated, h.transport, h.born, h.picked⟩
      · change Ask.Alike (.storage request) (Connection.storage request w.storage).1
          (Store.storage request x.storage).1
        rw [hreply]
        cases request with
        | member id => exact h.twins.mirrors.member id
        | members => trivial
        | team id => exact h.twins.team id
        | teams => exact h.twins.teams
        | teamOf id => exact h.twins.teamOf id
        | saveMember m | setStatus id status | createTeam team | deleteTeam id => cases hq
        | addMember team member | removeMember team member | commit c => cases hq
      · change Twins t (v.setting.storage request x.storage).2
        rw [hstore]
        exact h.twins

/-- The births to come are later than all teams in the tables. -/
theorem Matched.awaits (h : v.Matched t w x) {ready : Nat} (hrising : v.RisingTimes ready) :
    t.Awaits (v.times x.born ready) where
  later time htime r hr := by
    obtain ⟨k, hk, hready, rfl⟩ := mem_times htime
    obtain ⟨n, hn, heq⟩ := h.dated r hr
    rw [heq]
    exact hrising k hready n (by omega)
  rising := by
    rw [times, List.pairwise_map]
    refine List.Pairwise.imp_of_mem (fun {a b} _ hb hab => ?_) List.pairwise_lt_range'
    rw [List.mem_range'_1] at hb
    exact hrising b (by omega) a hab

/-- What is written on both sides gets the reply of the tables. -/
theorem Matched.reply (h : v.Matched t w x) {u u' : Undertaking Answer} (hu : u'.Alike u) :
    (v.tables.storage.write u'.write w.storage).1 = (Storage.write Tables.storage u.write t).1 ∧
      (v.tables.storage.write u'.write w.storage).2.Idle
        (Storage.write Tables.storage u.write t).2 := by
  rw [← Tables.write_dated u.write, ← hu.write, Tables.write_dated]
  exact h.idle.write u'.write

/-- Undertakings that come to the same end alike on both sides, if what is written suits the store
and there is room for it. -/
theorem Matched.carryOut (h : v.Matched t w x) {u u' : Undertaking Answer} (hu : u'.Alike u)
    {times : List Instant} (hsuits : u.write.Suits x.storage times) (ht : t.Awaits times)
    (htimes : ∀ time ∈ times, ∃ n < x.born, (v.births n).time = time)
    (hroom : u.write.HasRoom t) :
    (v.tables.exec u'.carryOut w).1 = (v.setting.exec u.carryOut x).1 ∧
      noticesOf (v.tables.log u'.carryOut w) = noticesOf (v.setting.log u.carryOut x) ∧
      v.Matched (Storage.write Tables.storage u.write t).2 (v.tables.exec u'.carryOut w).2
        (v.setting.exec u.carryOut x).2 := by
  obtain ⟨hreply, hidle⟩ := h.reply hu
  obtain ⟨htaken, htwins, hdates⟩ := h.twins.write hsuits ht hroom
  have htransport : v.tables.transport = v.setting.transport := rfl
  have hsame : (v.tables.storage.write u'.write w.storage).1 =
      (v.setting.storage.write u.write x.storage).1 := hreply.trans htaken
  obtain ⟨hresult, hnotices, sent, hw, hx⟩ :=
    Setting.carryOut_alike htransport hu h.transport hsame
  refine ⟨hresult, hnotices, ?_⟩
  rw [hw, hx]
  refine ⟨hidle, htwins, fun r hr => ?_, rfl, h.born, h.picked⟩
  rcases hdates r hr with ⟨q, hq, heq⟩ | ⟨time, htime, heq⟩
  · obtain ⟨n, hn, hbirth⟩ := h.dated q hq
    exact ⟨n, hn, heq.trans hbirth⟩
  · obtain ⟨n, hn, rfl⟩ := htimes time htime
    exact ⟨n, hn, heq⟩

end Surroundings

section Performing

namespace Surroundings

variable {v : Surroundings τ} {t : Tables} {w : World Connection τ} {x ready : World Store τ}
  {c : Command} {u : Undertaking Answer} {n : Nat}

/-- Commands are prepared alike on both sides. -/
theorem Matched.prepare (h : v.Matched t w x) (c : Command) :
    Failing.Parallel Undertaking.Alike (v.tables.exec c.prepare w).1
        (v.setting.exec c.prepare x).1 ∧
      v.Matched t (v.tables.exec c.prepare w).2 (v.setting.exec c.prepare x).2 :=
  Dialogue.Alike.run c.alike_prepare (fun _ _ _ hq hmatched => Matched.answer hq hmatched) h

/-- What tables are after a command, if there is room in them for what it writes. -/
def tablesAfter (v : Surroundings τ) (c : Command) (x : World Store τ) (t : Tables) : Tables :=
  match (v.setting.exec c.prepare x).1 with
  | .ok u => (Storage.write Tables.storage u.write t).2
  | .error _ => t

theorem tablesAfter_of_yields (hu : v.Yields c.prepare x u ready) :
    v.tablesAfter c x t = (Storage.write Tables.storage u.write t).2 := by
  rw [tablesAfter, hu]

/-- All births of a command are drawn in its preparation. -/
theorem Yields.born (hu : v.Yields c.prepare x u ready) :
    (v.setting.exec c.perform x).2.born = ready.born := by
  rw [Command.perform_eq, Setting.exec_bind, hu]
  exact v.setting.born_carryOut u ready

/-- The births that a command draws have times that can be stored. -/
theorem Yields.storable (hu : v.Yields c.prepare x u ready)
    (hstorable : v.StorableTimes (v.setting.exec c.perform x).2.born) :
    ∀ time ∈ v.times x.born ready.born, time.isStorable = true := by
  intro time htime
  obtain ⟨n, -, hn, rfl⟩ := mem_times htime
  exact hstorable n (hu.born.symm ▸ hn)

/-- A command that finds room for what it writes gives the same result on both sides and tells of
the same, and the worlds match again. -/
theorem Matched.perform (h : v.Matched t w x) (c : Command)
    (hrising : v.RisingTimes (v.setting.exec c.perform x).2.born)
    (hroom : ∀ u ready, v.Yields c.prepare x u ready → u.write.HasRoom t) :
    (v.tables.exec c.perform w).1 = (v.setting.exec c.perform x).1 ∧
      noticesOf (v.tables.log c.perform w) = noticesOf (v.setting.log c.perform x) ∧
      v.Matched (v.tablesAfter c x t) (v.tables.exec c.perform w).2
        (v.setting.exec c.perform x).2 := by
  obtain ⟨hends, hready⟩ := h.prepare c
  have hkept := (v.exec_preparesIn c.preparesIn_prepare x).1
  rw [Command.perform_eq, Setting.exec_bind, Setting.exec_bind, Setting.log_bind, Setting.log_bind,
    noticesOf_append, noticesOf_append, noticesOf_log_prepares c.preparesIn_prepare,
    noticesOf_log_prepares c.preparesIn_prepare]
  cases hw : v.tables.exec c.prepare w with
  | mk r' w' =>
      cases hx : v.setting.exec c.prepare x with
      | mk r x' =>
          rw [hw, hx] at hends hready
          rw [hx] at hkept
          cases hends with
          | error e =>
              rw [tablesAfter, hx]
              exact ⟨rfl, rfl, hready⟩
          | @ok u' u hu =>
              have hborn := Yields.born hx
              have hsuits := suits_of_prepare h.twins.orderly hx
              have htimes (time : Instant) (htime : time ∈ v.times x.born x'.born) :
                  ∃ n < x'.born, (v.births n).time = time := by
                obtain ⟨n, -, hn, heq⟩ := mem_times htime
                exact ⟨n, hn, heq⟩
              rw [← hkept] at hsuits
              rw [tablesAfter_of_yields hx]
              exact hready.carryOut hu hsuits (h.awaits (hborn ▸ hrising)) htimes (hroom u x' hx)

/-- A registration saves a member who can be stored, unless its texts hold the character zero. -/
theorem storable_of_prepare (hu : v.Yields c.prepare x u ready)
    (htexts : ∀ s ∈ c.texts, '\x00' ∉ s.toList)
    (hstorable : v.StorableTimes (v.setting.exec c.perform x).2.born) {m : Member}
    (hm : u.write = .save m) : m.Storable := by
  have htimes := hu.storable hstorable
  cases c with
  | registerMember text address status =>
      obtain ⟨name, email, hname, hemail, rfl, rfl⟩ := yields_registerMember.1 hu
      cases hm
      have hcore : (MemberName.ofText text).map MemberName.text = .ok name.text := by
        rw [hname]
        rfl
      have hwhole : (Email.ofText address).map Email.text = .ok email.text := by
        rw [hemail]
        rfl
      obtain ⟨before, behind, rfl, -, -⟩ := (MemberName.map_ofText.1 hcore).1.around
      obtain ⟨-, hsame⟩ := Email.map_ofText.1 hwhole
      have hdrawn : v.times x.born (x.drew 1 0).born = [(v.births x.born).time] :=
        v.times_toNat x.born true
      refine ⟨fun hzero => htexts _ List.mem_cons_self ?_, fun hzero => ?_, ?_⟩
      · simp only [String.toList_append, List.mem_append]
        exact .inl (.inr hzero)
      · refine htexts address (List.mem_cons_of_mem _ List.mem_cons_self) ?_
        rw [← hsame]
        exact hzero
      · exact htimes _ (hdrawn ▸ List.mem_cons_self)
  | createTeam name ids =>
      obtain ⟨_, _, _, -, -, -, rfl, -⟩ := yields_createTeam.1 hu
      cases hm
  | addMember team member | removeMember team member | changeStatus member target =>
      obtain ⟨p, -, rfl⟩ := Command.yields_undertaking.1 hu
      cases hm
  | reassignMember member =>
      obtain ⟨m, mid, -, hrest⟩ := yields_bind.1 hu
      obtain ⟨p, -, rfl⟩ := Command.yields_undertaking.1 hrest
      cases hm

/-- There is room for what a command writes as long as there is a position behind the highest
one. -/
theorem Matched.hasRoom (h : v.Matched t w x) (hbelow : t.Below n) (hfour : 4 ≤ n)
    (hn : n + 1 ≤ Tables.places) (htexts : ∀ s ∈ c.texts, '\x00' ∉ s.toList)
    (hstorable : v.StorableTimes (v.setting.exec c.perform x).2.born)
    (hu : v.Yields c.prepare x u ready) : u.write.HasRoom t := by
  have hsuits := suits_of_prepare h.twins.orderly hu
  exact hbelow.hasRoom_write hfour hn hsuits (hu.storable hstorable)
    fun m hm => storable_of_prepare hu htexts hstorable hm

/-- A command that finds no room for what it writes is refused for lack of a position. -/
theorem Matched.perform_refused (h : v.Matched t w x) (hu : v.Yields c.prepare x u ready)
    (htexts : ∀ s ∈ c.texts, '\x00' ∉ s.toList)
    (hstorable : v.StorableTimes (v.setting.exec c.perform x).2.born)
    (hroom : ¬ u.write.HasRoom t) :
    (v.tables.exec c.perform w).1 = .error (.storage Query.noPosition) ∧
      noticesOf (v.tables.log c.perform w) = [] := by
  obtain ⟨hends, hready⟩ := h.prepare c
  have hsuits := suits_of_prepare h.twins.orderly hu
  have hrefused := h.twins.write_refused hsuits (hu.storable hstorable)
    (fun m hm => storable_of_prepare hu htexts hstorable hm) hroom
  rw [Command.perform_eq, Setting.exec_bind, Setting.log_bind, noticesOf_append,
    noticesOf_log_prepares c.preparesIn_prepare]
  cases hw : v.tables.exec c.prepare w with
  | mk r' w' =>
      rw [hw, hu] at hends hready
      cases hends with
      | @ok u' _ halike =>
          have hreply := (hready.reply halike).1
          rw [hrefused] at hreply
          exact Setting.carryOut_refused hreply

/-- A command makes the highest position rise by one at most. -/
theorem Matched.below (h : v.Matched t w x) (hbelow : t.Below n) (hfour : 4 ≤ n) (c : Command)
    (hstorable : v.StorableTimes (v.setting.exec c.perform x).2.born) :
    (v.tablesAfter c x t).Below (n + 1) := by
  cases hx : v.setting.exec c.prepare x with
  | mk r x' =>
      cases r with
      | error e =>
          rw [tablesAfter, hx]
          exact hbelow.mono (Nat.le_succ n)
      | ok u =>
          have hsuits := suits_of_prepare h.twins.orderly hx
          rw [tablesAfter_of_yields hx]
          exact h.twins.below_write hbelow hfour hsuits (Yields.storable hx hstorable)

end Surroundings

end Performing

namespace Setting

variable {e : Setting σ τ}

/-- What commands come to, one after the other: the result of each, and the notifications that
mentors were to be sent. -/
def course (e : Setting σ τ) :
    List Command → World σ τ → List (Except WorkflowError Answer × List Notification)
  | [], _ => []
  | c :: cs, w =>
    ((e.exec c.perform w).1, noticesOf (e.log c.perform w)) :: e.course cs (e.exec c.perform w).2

/-- The world after commands, one after the other. -/
def onward (e : Setting σ τ) (cs : List Command) (w : World σ τ) : World σ τ :=
  cs.foldl (fun w c => (e.exec c.perform w).2) w

theorem length_course (e : Setting σ τ) (cs : List Command) (w : World σ τ) :
    (e.course cs w).length = cs.length := by
  induction cs generalizing w with
  | nil => rfl
  | cons c cs ih => rw [course, List.length_cons, List.length_cons, ih]

end Setting

namespace Surroundings

variable {v : Surroundings τ} {t : Tables} {w : World Connection τ} {x : World Store τ}

/-- Over tables, commands come to the same as over a store up to the one of this number. It is
refused by the database for lack of a position: the greatest of all is taken by a member of a
team. -/
structure Fills (v : Surroundings τ) (cs : List Command) (w : World Connection τ)
    (x : World Store τ) (k : Nat) : Prop where
  same : (v.tables.course cs w).take k = (v.setting.course cs x).take k
  refused : (v.tables.course cs w)[k]? = some (.error (.storage Query.noPosition), [])
  full : ∃ m ∈ (v.tables.onward (cs.take k) w).storage.committed.memberships,
    m.position = Int32.maxValue

/-- Only a command that is there is refused. -/
theorem Fills.lt_length {cs : List Command} {k : Nat} (h : v.Fills cs w x k) : k < cs.length := by
  rw [← v.tables.length_course cs w]
  exact (List.getElem?_eq_some_iff.1 h.refused).1

/-- A command that comes to the same on both sides may be made before. -/
theorem Fills.cons {c : Command} {cs : List Command} {k : Nat}
    (hresult : (v.tables.exec c.perform w).1 = (v.setting.exec c.perform x).1)
    (hnotices : noticesOf (v.tables.log c.perform w) = noticesOf (v.setting.log c.perform x))
    (h : v.Fills cs (v.tables.exec c.perform w).2 (v.setting.exec c.perform x).2 k) :
    v.Fills (c :: cs) w x (k + 1) where
  same := by
    rw [Setting.course, Setting.course, List.take_succ_cons, List.take_succ_cons, hresult, hnotices,
      h.same]
  refused := h.refused
  full := h.full

/-- Commands come to the same on both sides and the worlds match at the end, or they come to the same
up to one that finds no position for somebody to join a team. Each command before it made the
highest position rise by one at most. -/
theorem Matched.course (h : v.Matched t w x) {n : Nat} (hbelow : t.Below n) (hfour : 4 ≤ n)
    {cs : List Command} (htexts : ∀ c ∈ cs, ∀ s ∈ c.texts, '\x00' ∉ s.toList)
    (hrising : v.RisingTimes (v.follow cs x).born)
    (hstorable : v.StorableTimes (v.follow cs x).born) :
    (v.tables.course cs w = v.setting.course cs x ∧
        ∃ d, v.Matched d (v.tables.onward cs w) (v.setting.onward cs x)) ∨
      ∃ k, Tables.places ≤ n + k ∧ v.Fills cs w x k := by
  induction cs generalizing t w x n with
  | nil => exact .inl ⟨rfl, t, h⟩
  | cons c cs ih =>
      rw [List.forall_mem_cons] at htexts
      -- The births of this command are among those of all commands.
      have hnext : v.follow (c :: cs) x = v.follow cs (v.setting.exec c.perform x).2 := by
        rw [follow, List.foldl_cons, Command.run_answer]
        rfl
      rw [hnext] at hrising hstorable
      have hborn := v.born_le_follow cs (v.setting.exec c.perform x).2
      by_cases hroom : ∀ u ready, v.Yields c.prepare x u ready → u.write.HasRoom t
      · obtain ⟨hresult, hnotices, hmatched⟩ := h.perform c (hrising.mono hborn) hroom
        have hrisen := h.below hbelow hfour c (hstorable.mono hborn)
        rcases ih hmatched hrisen (by omega) htexts.2 hrising hstorable with
          ⟨hsame, d, hlast⟩ | ⟨k, hk, hfills⟩
        · refine .inl ⟨?_, d, hlast⟩
          rw [Setting.course, Setting.course, hresult, hnotices, hsame]
        · exact .inr ⟨k + 1, by omega, hfills.cons hresult hnotices⟩
      · simp only [not_forall] at hroom
        obtain ⟨u, ready, hu, hroom⟩ := hroom
        have hlack {k : Nat} (hk : t.Below k) (hkfour : 4 ≤ k) : Tables.places < k + 1 := by
          by_contra hle
          exact hroom (h.hasRoom hk hkfour (by omega) htexts.1 (hstorable.mono hborn) hu)
        obtain ⟨hresult, hnotices⟩ := h.perform_refused hu htexts.1 (hstorable.mono hborn) hroom
        have hgreatest := Tables.exists_greatest fun hk =>
          absurd (hlack hk (by decide)) (by decide)
        have hcommitted : w.storage.committed = t := h.idle.committed
        refine .inr ⟨0, Nat.le_of_lt_succ (hlack hbelow hfour), rfl, ?_, ?_⟩
        · rw [Setting.course, hresult, hnotices]
          rfl
        · rw [← hcommitted] at hgreatest
          exact hgreatest

theorem matched_empty (v : Surroundings τ) (sent : τ) :
    v.Matched .empty ⟨Connection.ofTables .empty, sent, 0, 0⟩ ⟨Store.empty, sent, 0, 0⟩ := by
  refine ⟨Connection.idle_ofTables .empty, twins_empty, ?_, rfl, rfl, rfl⟩
  rintro r ⟨⟩

/-- The storages are interchangeable. Whatever commands come one after the other, over tables with
nothing in them or over the empty store, with the same births, answers to ties and transport: each
command gives the same result on both sides, or fails in the same way, and tells of the same, up to
the first one, if there is any, that is refused by the database because a member of a team has the
greatest position of all. There are two billion commands and more before such a one. What is asked
for is that texts are without the character zero, and that births come one after the other at the
precision of tables, within their range. -/
theorem course_tables_eq (v : Surroundings τ) (sent : τ) (cs : List Command)
    (htexts : ∀ c ∈ cs, ∀ s ∈ c.texts, '\x00' ∉ s.toList)
    (hrising : v.RisingTimes (v.follow cs ⟨Store.empty, sent, 0, 0⟩).born)
    (hstorable : v.StorableTimes (v.follow cs ⟨Store.empty, sent, 0, 0⟩).born) :
    v.tables.course cs ⟨Connection.ofTables .empty, sent, 0, 0⟩ =
        v.setting.course cs ⟨Store.empty, sent, 0, 0⟩ ∨
      ∃ k, 2147483644 ≤ k ∧
        v.Fills cs ⟨Connection.ofTables .empty, sent, 0, 0⟩ ⟨Store.empty, sent, 0, 0⟩ k := by
  rcases (v.matched_empty sent).course (Tables.below_empty 4) (Nat.le_refl 4) htexts hrising
      hstorable with ⟨hsame, -⟩ | ⟨k, hk, hfills⟩
  · exact .inl hsame
  · simp only [Tables.places] at hk
    exact .inr ⟨k, by omega, hfills⟩

/-- Births that are counted come one after the other, and a team is filled, left, joined and split
on both sides alike. -/
theorem course_tables_eq_eventful :
    (∀ c ∈ eventful, ∀ s ∈ c.texts, '\x00' ∉ s.toList) ∧
      counting.RisingTimes (counting.follow eventful ⟨Store.empty, (), 0, 0⟩).born ∧
      counting.StorableTimes (counting.follow eventful ⟨Store.empty, (), 0, 0⟩).born ∧
      counting.tables.course eventful ⟨Connection.ofTables .empty, (), 0, 0⟩ =
        counting.setting.course eventful ⟨Store.empty, (), 0, 0⟩ := by
  have htexts : ∀ c ∈ eventful, ∀ s ∈ c.texts, '\x00' ∉ s.toList := by decide +kernel
  have hrising : counting.RisingTimes
      (counting.follow eventful ⟨Store.empty, (), 0, 0⟩).born := by decide +kernel
  have hstorable : counting.StorableTimes
      (counting.follow eventful ⟨Store.empty, (), 0, 0⟩).born := by decide +kernel
  refine ⟨htexts, hrising, hstorable, ?_⟩
  rcases course_tables_eq counting () eventful htexts hrising hstorable with hsame | ⟨k, hk, hfills⟩
  · exact hsame
  · -- There are not nearly as many commands.
    have hlt := hfills.lt_length
    have hfew : eventful.length = 12 := by decide
    omega

end Surroundings

end TeamRoster
