import TeamRoster.Proofs.Workflow.Interchange

/-!
# Running out of positions

A team that is left and joined again and again runs out of positions in tables, few as its members
are: whoever joins gets the position behind all others (`Tables.Reaches.join`), and positions that
were left are not looked for. Main statement: `Matched.course_ne`. Where two members take turns in
leaving a team and coming back for long enough, commands do not come to the same over tables as over
the store. The step is `Matched.turn`, in which the highest position rises by one, and the run is
`Matched.rounds`.
-/

namespace TeamRoster

variable {σ ρ τ : Type}

namespace Tables

variable {t d : Tables} {team member other : Ident} {n : Nat}

/-- A member is in the team, at this position or behind it. -/
def Reaches (t : Tables) (team member : Ident) (n : Nat) : Prop :=
  ∃ m ∈ t.memberships, m.team = team ∧ m.member = member ∧ (n : Int) ≤ m.position.toInt

instance (t : Tables) (team member : Ident) (n : Nat) : Decidable (t.Reaches team member n) :=
  inferInstanceAs (Decidable (∃ m ∈ t.memberships, _))

theorem Reaches.lt_places (h : t.Reaches team member n) : n < places := by
  obtain ⟨m, hm, -, -, hle⟩ := h
  have hlt := t.below_places m hm
  omega

/-- Whoever stays keeps the position when another one leaves, and that one is not there then. -/
theorem Reaches.leave (h : t.Reaches team other n) (hne : other ≠ member)
    (hd : (Query.edit (.removeMember team member)).effect t = .ok d) :
    d.Reaches team other n ∧ d.membership? team member = none := by
  obtain rfl := Query.eq_unseat_of_effect hd
  obtain ⟨m, hm, hteam, rfl, hle⟩ := h
  refine ⟨⟨m, List.mem_filter.2 ⟨hm, by simpa [hteam] using hne⟩, hteam, rfl, hle⟩, ?_⟩
  rw [membership?, List.find?_eq_none]
  intro m hm
  simpa [← not_and_or] using (List.mem_filter.1 hm).2

/-- Whoever joins gets a position behind all that are taken. -/
theorem Reaches.join (h : t.Reaches team other n) (habsent : t.membership? team member = none)
    (hd : (Query.edit (.addMember team member)).effect t = .ok d) :
    d.Reaches team member (n + 1) := by
  obtain ⟨m, hm, hteam, -, hle⟩ := h
  obtain ⟨p, hp, ⟨⟨found, hfound⟩, -⟩ | ⟨-, hinsert⟩⟩ :=
    execute_membershipAppend_eq_ok.1 (Query.execute_of_effect_appendMember hd)
  · rw [habsent] at hfound
    cases hfound
  · have hlt := Int32.lt_iff_toInt_lt.1 (lt_nextPosition? hp hm hteam)
    obtain ⟨-, -, rfl⟩ := insertMembership_eq_ok.1 hinsert
    refine ⟨⟨team, member, p⟩, List.mem_append.2 (.inr (List.mem_singleton.2 rfl)), rfl, rfl, ?_⟩
    change ((n + 1 : Nat) : Int) ≤ p.toInt
    omega

end Tables

/-- What goes through takes effect. -/
theorem Query.effect_of_atomically {q : Query Unit} {t : Tables} (h : (q.atomically t).1 = .ok ()) :
    q.effect t = .ok (q.atomically t).2 := by
  rw [atomically_eq] at h ⊢
  cases hq : q.effect t with
  | ok d => rfl
  | error e =>
      rw [hq] at h
      cases h

namespace Command

variable {team member a b : Ident} {k : Nat}

/-- The commands by which a member leaves a team and comes back. -/
def turn (team member : Ident) : List Command :=
  [.removeMember team member, .addMember team member]

/-- Two members take turns, so many times. -/
def rounds (team a b : Ident) : Nat → List Command
  | 0 => []
  | k + 1 => turn team a ++ (turn team b ++ rounds team a b k)

theorem texts_turn {c : Command} {s : String} (hc : c ∈ turn team member) : s ∉ c.texts := by
  simp only [turn, List.mem_cons, List.not_mem_nil, or_false] at hc
  rcases hc with rfl | rfl <;> exact List.not_mem_nil

/-- No texts come with rounds. -/
theorem texts_rounds {c : Command} {s : String} (hc : c ∈ rounds team a b k) : s ∉ c.texts := by
  induction k with
  | zero => cases hc
  | succ k ih =>
      rw [rounds, List.mem_append, List.mem_append] at hc
      rcases hc with hc | hc | hc
      · exact texts_turn hc
      · exact texts_turn hc
      · exact ih hc

end Command

namespace Setting

variable {e : Setting σ τ} {e' : Setting ρ τ}

theorem onward_append (cs ds : List Command) (w : World σ τ) :
    e.onward (cs ++ ds) w = e.onward ds (e.onward cs w) :=
  List.foldl_append

theorem onward_turn (team member : Ident) (w : World σ τ) :
    e.onward (Command.turn team member) w =
      (e.exec (Command.addMember team member).perform
        (e.exec (Command.removeMember team member).perform w).2).2 := rfl

theorem course_append (cs ds : List Command) (w : World σ τ) :
    e.course (cs ++ ds) w = e.course cs w ++ e.course ds (e.onward cs w) := by
  induction cs generalizing w with
  | nil => rfl
  | cons c cs ih =>
      rw [List.cons_append, course, course, ih]
      rfl

/-- Courses are the same if their parts are. -/
theorem course_append_inj {cs ds : List Command} {w : World σ τ} {w' : World ρ τ}
    (h : e.course (cs ++ ds) w = e'.course (cs ++ ds) w') :
    e.course cs w = e'.course cs w' ∧
      e.course ds (e.onward cs w) = e'.course ds (e'.onward cs w') := by
  rw [course_append, course_append] at h
  exact List.append_inj h ((e.length_course cs w).trans (e'.length_course cs w').symm)

end Setting

namespace Surroundings

variable {v : Surroundings τ} {t : Tables} {w : World Connection τ} {x : World Store τ}
  {c : Command} {e : Edit} {team member other a b : Ident} {n k : Nat}

theorem follow_eq_onward (v : Surroundings τ) (cs : List Command) (x : World Store τ) :
    v.follow cs x = v.setting.onward cs x := by
  induction cs generalizing x with
  | nil => rfl
  | cons c cs ih =>
      rw [follow, List.foldl_cons, Command.run_answer]
      exact ih _

/-- The edits that a command is going to commit. -/
def planned? (v : Surroundings τ) (c : Command) (x : World Store τ) : Option (List Edit) :=
  match (v.setting.exec c.prepare x).1 with
  | .ok u => u.write.changes?.map ChangeSet.edits
  | .error _ => none

theorem exists_of_planned? {es : List Edit} (h : v.planned? c x = some es) :
    ∃ u ready changes, v.Yields c.prepare x u ready ∧ u.write = .commit changes ∧
      changes.edits = es := by
  rw [planned?] at h
  cases hx : v.setting.exec c.prepare x with
  | mk r ready =>
      rw [hx] at h
      cases r with
      | error x => cases h
      | ok u =>
          obtain ⟨changes, hchanges, hedits⟩ := Option.map_eq_some_iff.1 h
          refine ⟨u, ready, changes, hx, ?_, hedits⟩
          cases hwrite : u.write with
          | commit c =>
              rw [hwrite] at hchanges
              exact congrArg Write.commit (Option.some.inj hchanges)
          | save m | form new =>
              rw [hwrite] at hchanges
              cases hchanges

/-- Over the store, a command commits this edit alone, and goes through. -/
structure Makes (v : Surroundings τ) (c : Command) (e : Edit) (x : World Store τ) : Prop where
  planned : v.planned? c x = some [e]
  goes : (v.setting.exec c.perform x).1.isOk = true

instance (v : Surroundings τ) (c : Command) (e : Edit) (x : World Store τ) :
    Decidable (v.Makes c e x) :=
  decidable_of_iff (v.planned? c x = some [e] ∧ (v.setting.exec c.perform x).1.isOk = true)
    ⟨fun h => ⟨h.1, h.2⟩, fun h => ⟨h.planned, h.goes⟩⟩

/-- A write goes through if the command does. -/
theorem Yields.reply {u : Undertaking Answer} {ready : World Store τ}
    (hu : v.Yields c.prepare x u ready) (hgoes : (v.setting.exec c.perform x).1.isOk = true) :
    (Storage.write Store.storage u.write x.storage).1 = .ok () := by
  have hkept := (v.exec_preparesIn c.preparesIn_prepare x).1
  rw [hu] at hkept
  rw [Command.perform_eq, Setting.exec_bind, hu] at hgoes
  cases hreply : (Storage.write Store.storage u.write x.storage).1 with
  | ok done => rfl
  | error y =>
      rw [← hkept] at hreply
      have hrefused : (v.setting.exec u.carryOut ready).1 = .error (.storage y) :=
        (Setting.carryOut_refused hreply).1
      rw [hrefused] at hgoes
      cases hgoes

/-- What a command makes over the store it makes over the tables, if it comes to the same. -/
theorem Matched.makes (h : v.Matched t w x) (hc : v.Makes c e x)
    (htexts : ∀ s ∈ c.texts, '\x00' ∉ s.toList)
    (hrising : v.RisingTimes (v.setting.exec c.perform x).2.born)
    (hstorable : v.StorableTimes (v.setting.exec c.perform x).2.born)
    (hsame : (v.tables.exec c.perform w).1 = (v.setting.exec c.perform x).1) :
    ∃ d, (Query.edit e).effect t = .ok d ∧
      v.Matched d (v.tables.exec c.perform w).2 (v.setting.exec c.perform x).2 := by
  obtain ⟨u, ready, changes, hu, hwrite, hedits⟩ := exists_of_planned? hc.planned
  have hgoes := hc.goes
  by_cases hroom : u.write.HasRoom t
  · have hborn := hu.born
    obtain ⟨-, -, hmatched⟩ := h.perform c hrising fun u' ready' hu' => by
      obtain ⟨rfl, rfl⟩ : u = u' ∧ ready = ready' := by
        simpa [Yields] using hu.symm.trans hu'
      exact hroom
    have hreply := (h.twins.write (suits_of_prepare h.twins.orderly hu)
      (h.awaits (hborn ▸ hrising)) hroom).1.trans (hu.reply hgoes)
    rw [tablesAfter_of_yields hu] at hmatched
    rw [hwrite] at hreply hmatched
    have hd := Query.effect_edits_of_change h.twins.mirrors (Query.effect_of_atomically hreply)
    rw [hedits, Query.effect_edits_singleton] at hd
    exact ⟨_, hd, hmatched⟩
  · rw [← hsame, (h.perform_refused hu htexts hstorable hroom).1] at hgoes
    cases hgoes

/-- Over the store, a member may leave the team and come back. -/
structure Turns (v : Surroundings τ) (team member : Ident) (x : World Store τ) : Prop where
  leaves : v.Makes (.removeMember team member) (.removeMember team member) x
  returns : v.Makes (.addMember team member) (.addMember team member)
    (v.setting.exec (Command.removeMember team member).perform x).2

instance (v : Surroundings τ) (team member : Ident) (x : World Store τ) :
    Decidable (v.Turns team member x) :=
  decidable_of_iff
    (v.Makes (.removeMember team member) (.removeMember team member) x ∧
      v.Makes (.addMember team member) (.addMember team member)
        (v.setting.exec (Command.removeMember team member).perform x).2)
    ⟨fun h => ⟨h.1, h.2⟩, fun h => ⟨h.leaves, h.returns⟩⟩

/-- A member who leaves and comes back to the same on both sides is behind one who stayed. -/
theorem Matched.turn (h : v.Matched t w x) (hturns : v.Turns team member x) (hne : other ≠ member)
    (hreach : t.Reaches team other n)
    (hrising : v.RisingTimes (v.setting.onward (Command.turn team member) x).born)
    (hstorable : v.StorableTimes (v.setting.onward (Command.turn team member) x).born)
    (hsame : v.tables.course (Command.turn team member) w =
      v.setting.course (Command.turn team member) x) :
    ∃ d, d.Reaches team member (n + 1) ∧
      v.Matched d (v.tables.onward (Command.turn team member) w)
        (v.setting.onward (Command.turn team member) x) := by
  simp only [Command.turn, Setting.course, List.cons.injEq, Prod.mk.injEq] at hsame
  obtain ⟨⟨hleft, -⟩, ⟨hback, -⟩, -⟩ := hsame
  rw [Setting.onward_turn] at hrising hstorable ⊢
  rw [Setting.onward_turn]
  have hborn := v.setting.born_le (Command.addMember team member).perform
    (v.setting.exec (Command.removeMember team member).perform x).2
  obtain ⟨mid, hmid, hbetween⟩ := h.makes hturns.leaves (List.forall_mem_nil _)
    (hrising.mono hborn) (hstorable.mono hborn) hleft
  obtain ⟨hstays, habsent⟩ := hreach.leave hne hmid
  obtain ⟨d, hd, hlast⟩ :=
    hbetween.makes hturns.returns (List.forall_mem_nil _) hrising hstorable hback
  exact ⟨d, hstays.join habsent hd, hlast⟩

/-- Over the store, two members may leave the team and come back, and everything is as before. -/
structure Rotates (v : Surroundings τ) (team a b : Ident) (x : World Store τ) : Prop where
  differ : a ≠ b
  first : v.Turns team a x
  second : v.Turns team b (v.setting.onward (Command.turn team a) x)
  back : v.setting.onward (Command.turn team b) (v.setting.onward (Command.turn team a) x) = x

/-- Over the store, everything is as before after all rounds. -/
theorem Rotates.onward (h : v.Rotates team a b x) (k : Nat) :
    v.setting.onward (Command.rounds team a b k) x = x := by
  induction k with
  | zero => rfl
  | succ k ih => rw [Command.rounds, Setting.onward_append, Setting.onward_append, h.back, ih]

/-- Each round makes the highest position rise by two, if it comes to the same on both sides. -/
theorem Matched.rounds (h : v.Matched t w x) (hrotates : v.Rotates team a b x)
    (hreach : t.Reaches team b n) (hrising : v.RisingTimes x.born)
    (hstorable : v.StorableTimes x.born)
    (hsame : v.tables.course (Command.rounds team a b k) w =
      v.setting.course (Command.rounds team a b k) x) :
    ∃ d : Tables, d.Reaches team b (n + 2 * k) := by
  induction k generalizing t w n with
  | zero => exact ⟨t, hreach⟩
  | succ k ih =>
      obtain ⟨hfirst, hrest⟩ := Setting.course_append_inj hsame
      obtain ⟨hsecond, hrest⟩ := Setting.course_append_inj hrest
      have hborn := v.born_le_follow (Command.turn team b) (v.setting.onward (Command.turn team a) x)
      rw [follow_eq_onward, hrotates.back] at hborn
      obtain ⟨mid, hmid, hbetween⟩ := h.turn hrotates.first hrotates.differ.symm hreach
        (hrising.mono hborn) (hstorable.mono hborn) hfirst
      obtain ⟨d, hd, hround⟩ := hbetween.turn hrotates.second hrotates.differ hmid
        (hrotates.back.symm ▸ hrising) (hrotates.back.symm ▸ hstorable) hsecond
      rw [hrotates.back] at hround hrest
      obtain ⟨last, hlast⟩ := ih hround hd hrest
      exact ⟨last, by rwa [show n + 2 * (k + 1) = n + 1 + 1 + 2 * k by omega]⟩

/-- Rounds that go on for long enough do not come to the same over tables as over the store. -/
theorem Matched.course_ne (h : v.Matched t w x) (hrotates : v.Rotates team a b x)
    (hreach : t.Reaches team b n) (hrising : v.RisingTimes x.born)
    (hstorable : v.StorableTimes x.born)
    (hk : Tables.places ≤ n + 2 * k) :
    v.tables.course (Command.rounds team a b k) w ≠
      v.setting.course (Command.rounds team a b k) x := by
  intro hsame
  obtain ⟨d, hd⟩ := h.rounds hrotates hreach hrising hstorable hsame
  have hlt := hd.lt_places
  omega

/-- Three members are registered and make up a team. -/
def enrolment : List Command :=
  List.replicate 3 (.registerMember "Kim" "kim@example.org" .active) ++
    [.createTeam "Owls" [.ofRandom 0, .ofRandom 1, .ofRandom 2]]

/-- Two of the three members of the team take turns, so many times. -/
def restless (k : Nat) : List Command :=
  enrolment ++ Command.rounds (.ofRandom 3) (.ofRandom 1) (.ofRandom 2) k

theorem texts_restless : ∀ c ∈ restless k, ∀ s ∈ c.texts, '\x00' ∉ s.toList := by
  have htexts : ∀ c ∈ enrolment, ∀ s ∈ c.texts, '\x00' ∉ s.toList := by decide +kernel
  intro c hc s hs
  rcases List.mem_append.1 hc with hc | hc
  · exact htexts c hc s hs
  · exact absurd hs (Command.texts_rounds hc)

theorem rotates_enrolment :
    counting.Rotates (.ofRandom 3) (.ofRandom 1) (.ofRandom 2)
      (counting.setting.onward enrolment ⟨Store.empty, (), 0, 0⟩) where
  differ := by decide
  first := by decide +kernel
  second := by decide +kernel
  back := by decide +kernel

/-- Births are drawn for the three members and the team, and for nothing else. -/
theorem born_restless : (counting.follow (restless k) ⟨Store.empty, (), 0, 0⟩).born = 4 := by
  rw [follow_eq_onward, restless, Setting.onward_append, rotates_enrolment.onward]
  decide +kernel

/-- The member who is to come back when the greatest position is taken comes back over the store, and
not over tables. -/
theorem course_restless_ne (hk : Tables.places ≤ 2 + 2 * k) :
    counting.tables.course (restless k) ⟨Connection.ofTables .empty, (), 0, 0⟩ ≠
      counting.setting.course (restless k) ⟨Store.empty, (), 0, 0⟩ := by
  intro hsame
  have hrising : counting.RisingTimes 4 := by decide +kernel
  have hstorable : counting.StorableTimes 4 := by decide +kernel
  have hborn : (counting.follow enrolment ⟨Store.empty, (), 0, 0⟩).born = 4 := by decide +kernel
  have htexts : ∀ c ∈ enrolment, ∀ s ∈ c.texts, '\x00' ∉ s.toList :=
    fun c hc => @texts_restless 0 c (List.mem_append_left _ hc)
  rcases (counting.matched_empty ()).course (Tables.below_empty 4) (Nat.le_refl 4) htexts
      (hborn ▸ hrising) (hborn ▸ hstorable) with ⟨-, t, hmatched⟩ | ⟨k, hk, hfills⟩
  · have hreach : t.Reaches (.ofRandom 3) (.ofRandom 2) 2 := by
      have hcommitted : (counting.tables.onward enrolment
          ⟨Connection.ofTables .empty, (), 0, 0⟩).storage.committed = t := hmatched.idle.committed
      rw [← hcommitted]
      decide +kernel
    rw [follow_eq_onward] at hborn
    exact hmatched.course_ne rotates_enrolment hreach (hborn ▸ hrising) (hborn ▸ hstorable) hk
      (Setting.course_append_inj hsame).2
  · -- There are not nearly as many commands before the members take turns.
    have hlt := hfills.lt_length
    have hfew : enrolment.length = 4 := by decide
    simp only [Tables.places] at hk
    omega

/-- Texts without the character zero and births that are counted do not keep the two storages from
coming apart in the end. -/
theorem course_tables_ne :
    (∀ c ∈ restless 1073741823, ∀ s ∈ c.texts, '\x00' ∉ s.toList) ∧
      counting.RisingTimes
        (counting.follow (restless 1073741823) ⟨Store.empty, (), 0, 0⟩).born ∧
      counting.StorableTimes
        (counting.follow (restless 1073741823) ⟨Store.empty, (), 0, 0⟩).born ∧
      counting.tables.course (restless 1073741823) ⟨Connection.ofTables .empty, (), 0, 0⟩ ≠
        counting.setting.course (restless 1073741823) ⟨Store.empty, (), 0, 0⟩ := by
  rw [born_restless]
  exact ⟨texts_restless, by decide +kernel, by decide +kernel, course_restless_ne (by decide)⟩

end Surroundings

end TeamRoster
