import Mathlib.Data.Fintype.Basic
import TeamRoster.Proofs.Workflow.Offers
import TeamRoster.Workflow.Sharing

/-!
# Services that share a storage

Services that share the store in memory go on in any order, one question at a time. Main statement:
`one_team_each_iff_timely`. What a commit expects makes sure of the teams, so that all goes well exactly
as long as the member whom a write is about is still free and active when it lands. Nothing makes sure of
that: `somebody_in_two_teams` is a run in which two services give one member to two teams.

## Implementation notes

The invariant `Shared.SoundSince` does not follow what each service has read so far. It says of what is
left of a preparation that it comes up with a write which the command offers, whatever stores it reads
from now on; the next answer is one more such store.
-/

namespace TeamRoster

open scoped List

variable {ι τ : Type}

namespace Surroundings

variable {v : Surroundings τ} {c : Command} {born k : Nat} {x : World Store τ}
  {d : Dialogue Ask Ask.Answer (Except WorkflowError (Undertaking Answer))}

/-- Stores that were before make no difference to what is still asked. -/
theorem run_shifting_congr {α : Type} {states states' : Nat → Store} {w : World Nat τ}
    (h : ∀ n, w.storage ≤ n → states n = states' n) (d : Dialogue Ask Ask.Answer α) :
    (v.shifting states).run d w = (v.shifting states').run d w := by
  let alike (x y : World Nat τ) : Prop := x = y ∧ w.storage ≤ x.storage
  have hstart : alike w w := ⟨rfl, Nat.le_refl _⟩
  have halike (q : Ask) (x y : World Nat τ) (_ : True) (hxy : alike x y) :
      ((v.shifting states).answer q x).1 = ((v.shifting states').answer q y).1 ∧
        alike ((v.shifting states).answer q x).2 ((v.shifting states').answer q y).2 := by
    obtain ⟨rfl, hx⟩ := hxy
    cases q with
    | birth => exact ⟨rfl, rfl, hx⟩
    | pick count => exact ⟨rfl, rfl, hx⟩
    | deliver event => exact ⟨rfl, rfl, hx⟩
    | storage request =>
        refine ⟨?_, rfl, Nat.le_succ_of_le hx⟩
        change (Store.storage request (states x.storage)).1 = (Store.storage request (states' x.storage)).1
        rw [h _ hx]
  have hrun := (Dialogue.keeps_any d).run_related halike hstart
  exact Prod.ext hrun.1 hrun.2.1

/-- What is left of the preparation of a command that was begun after `born` births: it writes nothing and
tells nobody, and whatever stores it reads from now on, it comes up with a write that the command
offers. -/
structure Underway (v : Surroundings τ) (c : Command) (born : Nat)
    (d : Dialogue Ask Ask.Answer (Except WorkflowError (Undertaking Answer))) (w : World Nat τ) :
    Prop where
  keeps : d.Keeps (fun q => q.isPreparation = true) fun _ => True
  offers (states : Nat → Store) (u : Undertaking Answer) (after : World Nat τ) :
    (∀ n, (states n).Legible) → (v.shifting states).run d w = (.ok u, after) →
      c.Offers v born after.born u.write

/-- The world of a service, with a number in place of the storage. -/
def numbered (k : Nat) (x : World Store τ) : World Nat τ :=
  ⟨k, x.transport, x.born, x.picked⟩

/-- A command that is begun is underway. -/
theorem underway_prepare (v : Surroundings τ) (c : Command) (x : World Store τ) :
    v.Underway c x.born c.prepare.run (numbered 0 x) where
  keeps := c.preparesIn_prepare.mono fun _ _ => trivial
  offers _ _ _ hstates hrun := Command.offers_of_prepared hstates hrun

/-- A preparation that is answered by a store which can be read leaves it alone, and goes on. -/
theorem Underway.answered {q : Ask}
    {next : q.Answer → Dialogue Ask Ask.Answer (Except WorkflowError (Undertaking Answer))}
    (h : v.Underway c born (.ask q next) (numbered k x)) (hx : x.storage.Legible) :
    (v.setting.answer q x).2.storage = x.storage ∧ x.born ≤ (v.setting.answer q x).2.born ∧
      ∃ later, v.Underway c born (next (v.setting.answer q x).1)
        (numbered later (v.setting.answer q x).2) := by
  obtain ⟨⟨hq, hkeeps⟩, hoffers⟩ := h
  cases q with
  | birth => exact ⟨rfl, Nat.le_succ _, k, hkeeps _, hoffers⟩
  | pick count => exact ⟨rfl, Nat.le_refl _, k, hkeeps _, hoffers⟩
  | deliver event => cases hq
  | storage request =>
      refine ⟨Store.storage_of_isRead hq x.storage, Nat.le_refl _, k + 1, hkeeps _, ?_⟩
      intro states u after hstates hrun
      -- The stores that are read from now on, with this one before them.
      let from' (n : Nat) : Store := if n = k then x.storage else states n
      have hfrom : ∀ n, (from' n).Legible := by
        intro n
        by_cases hn : n = k
        · simpa [from', hn] using hx
        · simpa [from', hn] using hstates n
      have hnow : from' k = x.storage := if_pos rfl
      have hlater : ∀ n, k + 1 ≤ n → from' n = states n := by
        intro n hn
        have hne : n ≠ k := by omega
        exact if_neg hne
      apply hoffers from' u after hfrom
      change (v.shifting from').run (next (Store.storage request (from' k)).1)
        (numbered (k + 1) (v.setting.answer (.storage request) x).2) = _
      rw [hnow]
      exact (run_shifting_congr hlater _).trans hrun

/-- A preparation that is done has come up with a write that the command offers. -/
theorem Underway.offered {u : Undertaking Answer} (h : v.Underway c born (.done (.ok u)) (numbered k x))
    (hx : x.storage.Legible) : c.Offers v born x.born u.write :=
  h.offers (fun _ => x.storage) u _ (fun _ => hx) rfl

/-- What a service has left to do of a command that it began after `born` births. -/
inductive Task (v : Surroundings τ) (c : Command) (born : Nat) (x : World Store τ) :
    Dialogue Ask Ask.Answer Answer → Prop
  | preparing {d : Dialogue Ask Ask.Answer (Except WorkflowError (Undertaking Answer))} (k : Nat)
      (underway : v.Underway c born d (numbered k x)) : Task v c born x (d.bind Command.finish)
  | telling {d : Dialogue Ask Ask.Answer Answer} (tells : Command.Tells d) : Task v c born x d

/-- What others do to the storage makes no difference to what is left to do. -/
theorem Task.elsewhere {d : Dialogue Ask Ask.Answer Answer} (h : v.Task c born x d) (s : Store) :
    v.Task c born { x with storage := s } d := by
  cases h with
  | preparing k underway => exact .preparing k underway
  | telling tells => exact .telling tells

end Surroundings

namespace Shared

open Surroundings

variable {v : ι → Surroundings τ} {s : Shared ι Store τ} {since : ι → Nat}

/-- The ids of the births of all services, with the next one of each, are different. -/
def Apart (v : ι → Surroundings τ) (drawn : ι → Nat) : Prop :=
  ∀ i j, ∀ n ≤ drawn i, ∀ m ≤ drawn j, ((v i).births n).id = ((v j).births m).id → i = j ∧ n = m

instance [Fintype ι] [DecidableEq ι] (v : ι → Surroundings τ) (drawn : ι → Nat) :
    Decidable (Apart v drawn) :=
  inferInstanceAs (Decidable (∀ i j, ∀ n ≤ drawn i, ∀ m ≤ drawn j, _ → _))

theorem Apart.mono {drawn fewer : ι → Nat} (h : Apart v drawn) (hfewer : ∀ i, fewer i ≤ drawn i) :
    Apart v fewer := by
  intro i j n hn m hm
  exact h i j n (hn.trans (hfewer i)) m (hm.trans (hfewer j))

/-- The settings in which services share the store in memory. -/
def settings (v : ι → Surroundings τ) (i : ι) : Setting Store τ :=
  (v i).setting

/-- The write that a turn makes, if it makes one that goes through, is timely. -/
def Timely (s : Shared ι Store τ) : Turn ι → Prop
  | .begin _ _ => True
  | .move i => ∀ c q next, (s.desks i).task = some (c, .ask (.storage q) next) → q.isRead = false →
      q.failure? (Store.storage q s.storage).1 = none → c.Timely s.storage q.expectations

/-- The store is sound, what is stored got its id at a birth before the commands that are underway were
begun, and all services have something left to do that began like this. -/
structure SoundSince (v : ι → Surroundings τ) (since : ι → Nat) (s : Shared ι Store τ) : Prop where
  storage : s.storage.Sound
  members (id : Ident) (m : Member) : s.storage.members.find? id = some m →
    ∃ i, ∃ n < since i, ((v i).births n).id = id
  teams (id : Ident) (r : TeamRecord) : s.storage.teams.find? id = some r →
    ∃ i, ∃ n < since i, ((v i).births n).id = id
  drawn (i : ι) : since i ≤ (s.desks i).born
  tasks (i : ι) (c : Command) (d : Dialogue Ask Ask.Answer Answer) :
    (s.desks i).task = some (c, d) → (v i).Task c (since i) (s.world i) d

/-- A question that is no write is timely. -/
theorem timely_of_preparation {i : ι} {c : Command} {q : Ask}
    {next : q.Answer → Dialogue Ask Ask.Answer Answer} (htask : (s.desks i).task = some (c, .ask q next))
    (hq : ∀ request, q = .storage request → request.isRead = true) : s.Timely (.move i) := by
  intro c' request next' htask' hwrite _
  rw [htask] at htask'
  cases htask'
  rw [hq request rfl] at hwrite
  cases hwrite

/-- An id that a service has not drawn yet is not in use. -/
theorem SoundSince.fresh (h : s.SoundSince v since) (hapart : Apart v fun j => (s.desks j).born) (i : ι) :
    s.storage.members.find? ((v i).births (since i)).id = none ∧
      s.storage.teams.find? ((v i).births (since i)).id = none := by
  have hunused : ¬ ∃ j, ∃ n < since j, ((v j).births n).id = ((v i).births (since i)).id := by
    rintro ⟨j, n, hn, hid⟩
    obtain ⟨rfl, rfl⟩ := hapart j i n (hn.le.trans (h.drawn j)) (since i) (h.drawn i) hid
    exact absurd hn (Nat.lt_irrefl _)
  constructor
  · cases hm : s.storage.members.find? ((v i).births (since i)).id with
    | none => rfl
    | some m => exact absurd (h.members _ m hm) hunused
  · cases hr : s.storage.teams.find? ((v i).births (since i)).id with
    | none => rfl
    | some r => exact absurd (h.teams _ r hr) hunused

/-- Services that are at rest on an empty store. -/
theorem soundSince_fresh (v : ι → Surroundings τ) (transports : ι → τ) :
    (fresh Store.empty transports).SoundSince v fun _ => 0 := by
  refine ⟨⟨?_, List.nodup_nil, ?_⟩, ?_, ?_, ?_, ?_⟩
  · intro id m hm
    cases hm
  · intro id hid
    cases hid
  · intro id m hm
    cases hm
  · intro id r hr
    cases hr
  · intro i
    exact Nat.le_refl _
  · intro i c d hd
    cases hd

variable [DecidableEq ι] {i : ι} {w : World Store τ}
  {task : Option (Command × Dialogue Ask Ask.Answer Answer)}

@[simp] theorem put_storage : (s.put i w task).storage = w.storage := rfl

@[simp] theorem put_self : (s.put i w task).desks i = ⟨w.transport, w.born, w.picked, task⟩ :=
  if_pos rfl

theorem put_other {j : ι} (hj : j ≠ i) : (s.put i w task).desks j = s.desks j :=
  if_neg hj

/-- A service that leaves a sound store behind, which has grown by its own births only, and something to
do that began after these. -/
theorem SoundSince.put (h : s.SoundSince v since) {later : Nat} (hlater : since i ≤ later)
    (hdrawn : later ≤ w.born) (hsound : w.storage.Sound)
    (hgrows : s.storage.GrowsBy w.storage fun id => ∃ n < later, ((v i).births n).id = id)
    (htask : ∀ c d, task = some (c, d) → (v i).Task c later w d) :
    (s.put i w task).SoundSince v fun j => if j = i then later else since j := by
  have hbefore {id : Ident} (hid : ∃ j, ∃ n < since j, ((v j).births n).id = id) :
      ∃ j, ∃ n < (if j = i then later else since j), ((v j).births n).id = id := by
    obtain ⟨j, n, hn, hid⟩ := hid
    refine ⟨j, n, ?_, hid⟩
    by_cases hj : j = i
    · subst hj
      rw [if_pos rfl]
      omega
    · rwa [if_neg hj]
  have hnew {id : Ident} (hid : ∃ n < later, ((v i).births n).id = id) :
      ∃ j, ∃ n < (if j = i then later else since j), ((v j).births n).id = id := by
    obtain ⟨n, hn, hid⟩ := hid
    exact ⟨i, n, by rwa [if_pos rfl], hid⟩
  refine ⟨hsound, ?_, ?_, ?_, ?_⟩
  · intro id m hm
    rcases hgrows.members id m hm with ⟨x, hx⟩ | hid
    · exact hbefore (h.members id x hx)
    · exact hnew hid
  · intro id r hr
    rcases hgrows.teams id r hr with ⟨q, hq⟩ | hid
    · exact hbefore (h.teams id q hq)
    · exact hnew hid
  · intro j
    by_cases hj : j = i
    · subst hj
      simpa using hdrawn
    · simpa [hj, put_other hj] using h.drawn j
  · intro j c d hd
    by_cases hj : j = i
    · subst hj
      rw [put_self] at hd
      simpa [world] using htask c d hd
    · rw [put_other hj] at hd
      simpa [hj, world, put_other hj] using (h.tasks j c d hd).elsewhere w.storage

/-- Where a service leaves the stored teams and members alone and has something to do, all is sound as
before. -/
theorem SoundSince.put_same (h : s.SoundSince v since) (hteams : w.storage.teams = s.storage.teams)
    (hmembers : w.storage.members = s.storage.members) {later : Nat} (hlater : since i ≤ later)
    (hdrawn : later ≤ w.born) (htask : ∀ c d, task = some (c, d) → (v i).Task c later w d) :
    (s.put i w task).SoundSince v fun j => if j = i then later else since j :=
  h.put hlater hdrawn (h.storage.congr hteams hmembers) (.same hteams hmembers) htask

/-- What a turn leaves: the store is sound exactly if the turn was timely, and if it is, so is everything
else. -/
structure Leaves (v : ι → Surroundings τ) (s : Shared ι Store τ) (t : Turn ι) : Prop where
  sound_iff : (s.turn (settings v) t).storage.OneTeamEach ↔ s.Timely t
  follows : (s.turn (settings v) t).storage.OneTeamEach →
    ∃ since, (s.turn (settings v) t).SoundSince v since

/-- A turn that writes nothing. -/
theorem Leaves.of_sound {t : Turn ι} (htimely : s.Timely t)
    (h : (s.turn (settings v) t).SoundSince v since) : s.Leaves v t where
  sound_iff := iff_of_true (Store.sound_iff.1 h.storage).2 htimely
  follows _ := ⟨since, h⟩

section Turns

variable {c : Command} {q : Ask} {next : q.Answer → Dialogue Ask Ask.Answer Answer}

theorem turn_ask (htask : (s.desks i).task = some (c, .ask q next)) :
    s.turn (settings v) (.move i) = s.put i ((v i).setting.answer q (s.world i)).2
      (some (c, next ((v i).setting.answer q (s.world i)).1)) := by
  simp only [turn, htask]
  rfl

/-- A turn in which a command is begun, or is not, since the service is at another. -/
theorem SoundSince.begin (h : s.SoundSince v since) (i : ι) (c : Command) : s.Leaves v (.begin i c) := by
  cases htask : (s.desks i).task with
  | some task =>
      have hturn : s.turn (settings v) (.begin i c) = s := by
        simp only [turn, htask]
      exact .of_sound trivial (hturn ▸ h)
  | none =>
      have hturn : s.turn (settings v) (.begin i c) = s.put i (s.world i) (some (c, c.answer)) := by
        simp only [turn, htask]
      refine .of_sound trivial (hturn ▸ h.put_same rfl rfl (h.drawn i) (Nat.le_refl _) ?_)
      rintro _ _ ⟨⟩
      rw [c.answer_eq]
      exact .preparing 0 (underway_prepare (v i) c (s.world i))

/-- A turn in which a preparation goes on. -/
theorem SoundSince.prepares (h : s.SoundSince v since)
    {more : q.Answer → Dialogue Ask Ask.Answer (Except WorkflowError (Undertaking Answer))} {k : Nat}
    (htask : (s.desks i).task = some (c, .ask q fun reply => (more reply).bind Command.finish))
    (hunderway : (v i).Underway c (since i) (.ask q more) (numbered k (s.world i))) :
    s.Leaves v (.move i) := by
  obtain ⟨hstorage, hborn, later, hlater⟩ := hunderway.answered h.storage.legible
  have htimely : s.Timely (.move i) := by
    apply timely_of_preparation htask
    rintro request rfl
    exact hunderway.keeps.1
  refine .of_sound htimely (turn_ask htask ▸ h.put_same (congrArg Store.teams hstorage)
    (congrArg Store.members hstorage) (Nat.le_refl _) ((h.drawn i).trans hborn) ?_)
  rintro _ _ ⟨⟩
  exact .preparing later hlater

/-- A turn in which mentors are told. -/
theorem SoundSince.tells (h : s.SoundSince v since) (htask : (s.desks i).task = some (c, .ask q next))
    (htells : Command.Tells (.ask q next)) : s.Leaves v (.move i) := by
  obtain ⟨⟨event, rfl⟩, hnext⟩ := htells
  have htimely : s.Timely (.move i) := by
    apply timely_of_preparation htask
    rintro request ⟨⟩
  refine .of_sound htimely (turn_ask htask ▸ h.put_same rfl rfl (Nat.le_refl _) (h.drawn i) ?_)
  rintro _ _ ⟨⟩
  exact .telling (hnext _)

/-- A turn in which a write is made. -/
theorem SoundSince.writes (h : s.SoundSince v since) (hapart : Apart v fun j => (s.desks j).born)
    {x : Write} {more : x.request.Reply → Dialogue Ask Ask.Answer Answer}
    (htask : (s.desks i).task = some (c, .ask (.storage x.request) more))
    (hoffers : c.Offers (v i) (since i) (s.desks i).born x)
    (hmore : ∀ reply, Command.Tells (more reply)) : s.Leaves v (.move i) := by
  obtain ⟨hmember, hteam⟩ := h.fresh hapart i
  have hturn := turn_ask (v := v) htask
  have htimely : s.Timely (.move i) ↔ (x.request.failure? (Store.storage x.request s.storage).1 = none →
      c.Timely s.storage x.request.expectations) := by
    constructor
    · intro hs hreply
      exact hs c x.request more htask x.isRead_request hreply
    · intro hc c' q' next' htask' _ hreply
      rw [htask] at htask'
      cases htask'
      exact hc hreply
  cases hreply : x.request.failure? (Store.storage x.request s.storage).1 with
  | some failure =>
      obtain ⟨hteams, hmembers⟩ := Store.request_unchanged hreply
      refine .of_sound (htimely.2 ?_) (hturn ▸ h.put_same hteams hmembers (Nat.le_refl _) (h.drawn i) ?_)
      · intro hnone
        rw [hreply] at hnone
        cases hnone
      · rintro _ _ ⟨⟩
        exact .telling (hmore _)
  | none =>
      have hlands := hoffers.lands h.storage hmember hteam hreply
      have hone : (Store.storage x.request s.storage).2.OneTeamEach ↔
          c.Timely s.storage x.request.expectations := by
        rw [← hlands.sound, Store.sound_iff]
        exact (and_iff_right hlands.keyed).symm
      refine ⟨?_, ?_⟩
      · rw [hturn, htimely]
        exact hone.trans ⟨fun hc _ => hc, fun hc => hc hreply⟩
      · rw [hturn]
        intro hafter
        refine ⟨_, h.put (h.drawn i) (Nat.le_refl _) (Store.sound_iff.2 ⟨hlands.keyed, hafter⟩) ?_ ?_⟩
        · refine hlands.grows.mono ?_
          rintro id ⟨hdrawn, hid⟩
          exact ⟨since i, hdrawn, hid⟩
        · rintro _ _ ⟨⟩
          exact .telling (hmore _)

/-- A turn leaves a sound store sound exactly if it is timely. -/
theorem SoundSince.turn (h : s.SoundSince v since) (hapart : Apart v fun j => (s.desks j).born)
    (t : Turn ι) : s.Leaves v t := by
  cases t with
  | begin i c => exact h.begin i c
  | move i =>
      cases htask : (s.desks i).task with
      | none =>
          have hturn : s.turn (settings v) (.move i) = s := by
            simp only [Shared.turn, htask]
          refine .of_sound ?_ (hturn ▸ h)
          intro c q next hsome
          rw [htask] at hsome
          cases hsome
      | some task =>
          obtain ⟨c, d⟩ := task
          have hleft := h.tasks i c d htask
          cases d with
          | done answer =>
              have hturn : s.turn (settings v) (.move i) = s.put i (s.world i) none := by
                simp only [Shared.turn, htask]
              refine .of_sound ?_ (hturn ▸ h.put_same rfl rfl (Nat.le_refl _) (h.drawn i) ?_)
              · intro c q next hsome
                rw [htask] at hsome
                cases hsome
              · rintro _ _ ⟨⟩
          | ask q next =>
              generalize hd : Dialogue.ask q next = d at hleft
              cases hleft with
              | telling tells =>
                  subst hd
                  exact h.tells htask tells
              | @preparing p k underway =>
                  cases p with
                  | ask q more =>
                      cases hd
                      exact h.prepares htask underway
                  | done r =>
                      cases r with
                      | error x => cases hd
                      | ok u =>
                          obtain ⟨more, hfinish, hmore⟩ := Command.finish_ok u
                          cases hd.trans hfinish
                          exact h.writes hapart htask (underway.offered h.storage.legible) hmore

end Turns

section Runs

/-- Births are drawn one after the other and never put back. -/
theorem born_le_turn (e : ι → Setting Store τ) (s : Shared ι Store τ) (t : Turn ι) (j : ι) :
    (s.desks j).born ≤ ((s.turn e t).desks j).born := by
  have hput {i : ι} {w : World Store τ} {task : Option (Command × Dialogue Ask Ask.Answer Answer)}
      (hw : (s.desks i).born ≤ w.born) : (s.desks j).born ≤ ((s.put i w task).desks j).born := by
    by_cases hj : j = i
    · subst hj
      simpa using hw
    · rw [put_other hj]
  cases t with
  | begin i c =>
      simp only [Shared.turn]
      split
      · exact hput (Nat.le_refl _)
      · exact Nat.le_refl _
  | move i =>
      simp only [Shared.turn]
      split
      · exact Nat.le_refl _
      · exact hput (Nat.le_refl _)
      · apply hput
        rename_i q next _
        cases q with
        | birth => exact Nat.le_succ _
        | storage request => exact Nat.le_refl _
        | pick count => exact Nat.le_refl _
        | deliver event => exact Nat.le_refl _

theorem born_le_follow (e : ι → Setting Store τ) (ts : List (Turn ι)) (s : Shared ι Store τ) (j : ι) :
    (s.desks j).born ≤ ((s.follow e ts).desks j).born := by
  induction ts generalizing s with
  | nil => exact Nat.le_refl _
  | cons t ts ih => exact (born_le_turn e s t j).trans (ih _)

/-- From a sound store on, a run stays sound exactly if all its turns are timely. -/
theorem SoundSince.follow (h : s.SoundSince v since) (ts : List (Turn ι))
    (hapart : Apart v fun j => ((s.follow (settings v) ts).desks j).born) :
    (∀ n, (s.follow (settings v) (ts.take n)).storage.OneTeamEach) ↔
      ∀ n t, ts[n]? = some t → (s.follow (settings v) (ts.take n)).Timely t := by
  induction ts generalizing s since with
  | nil =>
      refine iff_of_true ?_ ?_
      · intro n
        rw [List.take_nil]
        exact (Store.sound_iff.1 h.storage).2
      · intro n t ht
        cases ht
  | cons t ts ih =>
      have hnow : Apart v fun j => (s.desks j).born := hapart.mono (born_le_follow _ (t :: ts) s)
      have hleaves := h.turn hnow t
      constructor
      · intro hsound
        obtain ⟨later, hlater⟩ := hleaves.follows (hsound 1)
        have hrest := (ih hlater hapart).1 fun n => hsound (n + 1)
        intro n t' ht'
        cases n with
        | zero =>
            cases ht'
            exact hleaves.sound_iff.1 (hsound 1)
        | succ n => exact hrest n t' ht'
      · intro htimely
        have hone := hleaves.sound_iff.2 (htimely 0 t rfl)
        obtain ⟨later, hlater⟩ := hleaves.follows hone
        have hrest := (ih hlater hapart).2 fun n t' ht' => htimely (n + 1) t' ht'
        intro n
        cases n with
        | zero => exact (Store.sound_iff.1 h.storage).2
        | succ n => exact hrest n

/-- What keeps services that share a storage from putting somebody into two teams. Start any number of them
at rest on an empty store, give them commands and let them go on in any order, one question at a time.
After every turn everybody is in one team at most, and stored and active, exactly if every write that goes
through is timely. The expectations of a commit see to everything else. -/
theorem one_team_each_iff_timely (v : ι → Surroundings τ) (transports : ι → τ) (ts : List (Turn ι))
    (hapart : Apart v fun i =>
      (((fresh Store.empty transports).follow (settings v) ts).desks i).born) :
    (∀ n, ((fresh Store.empty transports).follow (settings v) (ts.take n)).storage.OneTeamEach) ↔
      ∀ n t, ts[n]? = some t →
        ((fresh Store.empty transports).follow (settings v) (ts.take n)).Timely t :=
  (soundSince_fresh v transports).follow ts hapart

/-- Two services that draw different births, deliver everything and always take the first choice. -/
def duo (second : Bool) : Surroundings Unit :=
  ⟨fun _ _ => (.ok (), ()), fun n => ⟨.ofRandom (2 * n + second.toNat), .ofSeconds n⟩, fun _ _ => 0⟩

/-- A service is given a command and makes so many moves. -/
def spell (service : Bool) (c : Command) (moves : Nat) : List (Turn Bool) :=
  .begin service c :: List.replicate moves (.move service)

/-- Five members and two teams of two. Then both services are to add the fifth member, to another team
each, and both read before either commits. -/
def overlapping : List (Turn Bool) :=
  (List.replicate 5 (spell false (.registerMember "Kim" "kim@example.org" .active) 3)).flatten ++
    spell false (.createTeam "Owls" [.ofRandom 0, .ofRandom 2]) 7 ++
    spell false (.createTeam "Bees" [.ofRandom 4, .ofRandom 6]) 7 ++
    [.begin false (.addMember (.ofRandom 10) (.ofRandom 8)),
      .begin true (.addMember (.ofRandom 12) (.ofRandom 8))] ++
    (List.replicate 4 [.move false, .move true]).flatten

/-- The two services at rest on an empty store. -/
def atRest : Shared Bool Store Unit :=
  fresh Store.empty fun _ => ()

/-- The fifth member is on the roll twice. -/
theorem roll_overlapping : (atRest.follow (settings duo) overlapping).storage.roll =
    [.ofRandom 0, .ofRandom 2, .ofRandom 8, .ofRandom 4, .ofRandom 6, .ofRandom 8] := by
  decide +kernel

/-- Services that share a storage may put somebody into two teams. Both of them read that the member is in
no team, each commits to a team that nobody has changed, and both commits go through. -/
theorem somebody_in_two_teams :
    Apart duo (fun i => ((atRest.follow (settings duo) overlapping).desks i).born) ∧
      ¬ (atRest.follow (settings duo) overlapping).storage.OneTeamEach := by
  refine ⟨by decide +kernel, ?_⟩
  intro hone
  have honce := hone.nodup
  rw [roll_overlapping] at honce
  exact absurd honce (by decide +kernel)

/-- Not every write in that run is timely. -/
theorem one_team_each_iff_timely_overlapping :
    Apart duo (fun i => ((atRest.follow (settings duo) overlapping).desks i).born) ∧
      ¬ ∀ n t, overlapping[n]? = some t →
        (atRest.follow (settings duo) (overlapping.take n)).Timely t := by
  have hapart : Apart duo fun i => ((atRest.follow (settings duo) overlapping).desks i).born := by
    decide +kernel
  have hiff := one_team_each_iff_timely duo (fun _ => ()) overlapping
  rw [← atRest] at hiff
  refine ⟨hapart, ?_⟩
  intro htimely
  have hone := (hiff hapart).2 htimely overlapping.length
  rw [List.take_length] at hone
  have honce := hone.nodup
  rw [roll_overlapping] at honce
  exact absurd honce (by decide +kernel)

end Runs

end Shared

end TeamRoster
