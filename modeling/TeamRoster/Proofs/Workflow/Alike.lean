import TeamRoster.Proofs.Composition.Timeless
import TeamRoster.Proofs.Workflow.Planning

/-!
# Preparations that read alike

Two dialogues are alike if they ask the same questions and go on alike after replies that are alike.
For preparations, replies are alike if they are the same but for the times of members and teams.
Main statement: `Command.alike_prepare`. Whatever storage a command is prepared over, as long as the
replies are alike, it asks the same, fails in the same way, or comes up with the same undertaking:
the same write, but for times that no storage looks at, the same notifications, and the same answer.
-/

namespace TeamRoster

namespace Dialogue

variable {Q : Type} {A : Q → Type} {α β γ δ σ τ : Type} {may : Q → Prop}
  {like : (q : Q) → A q → A q → Prop} {ends : α → β → Prop}

/-- Both dialogues ask the same questions, all of them in `may`, and end in related values, as long
as they get replies that are alike. -/
inductive Alike (may : Q → Prop) (like : (q : Q) → A q → A q → Prop) (ends : α → β → Prop) :
    Dialogue Q A α → Dialogue Q A β → Prop
  | done {a : α} {b : β} (related : ends a b) : Alike may like ends (.done a) (.done b)
  | ask {q : Q} {next : A q → Dialogue Q A α} {next' : A q → Dialogue Q A β} (asked : may q)
      (goesOn : ∀ reply reply', like q reply reply' →
        Alike may like ends (next reply) (next' reply')) :
      Alike may like ends (.ask q next) (.ask q next')

theorem Alike.bind {d : Dialogue Q A α} {d' : Dialogue Q A β} {f : α → Dialogue Q A γ}
    {f' : β → Dialogue Q A δ} {ends' : γ → δ → Prop} (hd : Alike may like ends d d')
    (hf : ∀ a b, ends a b → Alike may like ends' (f a) (f' b)) :
    Alike may like ends' (d.bind f) (d'.bind f') := by
  induction hd with
  | done related => exact hf _ _ related
  | ask asked _ ih => exact .ask asked ih

/-- Alike dialogues that are answered alike end in related values. -/
theorem Alike.run {d : Dialogue Q A α} {d' : Dialogue Q A β} (hd : Alike may like ends d d')
    {answer : (q : Q) → σ → A q × σ} {answer' : (q : Q) → τ → A q × τ} {R : σ → τ → Prop}
    (halike : ∀ q s t, may q → R s t →
      like q (answer q s).1 (answer' q t).1 ∧ R (answer q s).2 (answer' q t).2)
    {s : σ} {t : τ} (hR : R s t) :
    ends (d.run answer s).1 (d'.run answer' t).1 ∧ R (d.run answer s).2 (d'.run answer' t).2 := by
  induction hd generalizing s t with
  | done related => exact ⟨related, hR⟩
  | ask asked _ ih =>
      obtain ⟨hreply, hafter⟩ := halike _ s t asked hR
      exact ih _ _ hreply hafter

end Dialogue

/-- Replies that are the same but for times. All members at once are not asked for in any
preparation. -/
def Ask.Alike : (q : Ask) → q.Answer → q.Answer → Prop
  | .storage (.member _), reply, reply' =>
    reply.map Member.timeless = reply'.map Member.timeless
  | .storage (.team _), reply, reply' => reply.map Team.timeless = reply'.map Team.timeless
  | .storage .teams, reply, reply' =>
    reply.map (List.map Team.timeless) = reply'.map (List.map Team.timeless)
  | .storage (.teamOf _), reply, reply' =>
    reply.map (Option.map Team.timeless) = reply'.map (Option.map Team.timeless)
  | .birth, reply, reply' => reply = reply'
  | .pick _, reply, reply' => reply = reply'
  | _, _, _ => True

/-- Plans that come to the same, with results of the same form. -/
structure Plan.Alike {α β : Type} (form : α → β) (p p' : Plan α) : Prop where
  changes : p.changes.dated = p'.changes.dated
  told : p.events.map Event.notification = p'.events.map Event.notification
  result : form p.result = form p'.result

/-- A write in which members are without times. A team that is founded keeps its own. -/
def Write.dated : Write → Write
  | save m => .save m
  | form t => .form t.dated
  | commit c => .commit c.dated

/-- Undertakings that come to the same. -/
structure Undertaking.Alike {α : Type} (u u' : Undertaking α) : Prop where
  write : u.write.dated = u'.write.dated
  told : u.events.map Event.notification = u'.events.map Event.notification
  result : u.result = u'.result

namespace UseCase

open Failing

variable {α β γ δ ε : Type}

/-- Use cases that prepare alike: they end in related values, or fail in the same way. -/
def Alike (ends : α → β → Prop) (u : UseCase α) (u' : UseCase β) : Prop :=
  Dialogue.Alike (fun q => q.isPreparation = true) Ask.Alike (Parallel ends) u.run u'.run

/-- Values that have the same form. -/
def OfForm (form : α → γ) (a b : α) : Prop :=
  form a = form b

theorem alike_pure {ends : α → β → Prop} {a : α} {b : β} (h : ends a b) :
    Alike ends (pure a) (pure b) :=
  .done (.ok h)

theorem alike_throw {ends : α → β → Prop} (x : WorkflowError) :
    Alike ends (throw x : UseCase α) (throw x : UseCase β) :=
  .done (.error x)

theorem Alike.bind {ends : α → β → Prop} {ends' : γ → δ → Prop} {u : UseCase α} {u' : UseCase β}
    {f : α → UseCase γ} {f' : β → UseCase δ} (hu : Alike ends u u')
    (hf : ∀ a b, ends a b → Alike ends' (f a) (f' b)) : Alike ends' (u >>= f) (u' >>= f') := by
  refine Dialogue.Alike.bind hu ?_
  rintro _ _ (⟨related⟩ | x)
  · exact hf _ _ related
  · exact .done (.error x)

/-- Computations with values of the same form, or with the same failure. -/
theorem parallel_of_map_eq {form : α → γ} {r r' : Except ε α} (h : r.map form = r'.map form) :
    Parallel (OfForm form) r r' := by
  cases r with
  | ok a =>
      cases r' with
      | ok b => exact .ok (Except.ok.inj h)
      | error e => cases h
  | error e =>
      cases r' with
      | ok b => cases h
      | error e' =>
          cases h
          exact .error e

/-- A read is alike by the form in which its replies are. -/
theorem alike_read (request : StorageRequest) (hread : request.isRead = true) {form : α → γ}
    (f : request.Reply → Except StorageError α)
    (hreplies : ∀ reply reply', Ask.Alike (.storage request) reply reply' →
      (f reply).map form = (f reply').map form) :
    Alike (OfForm form)
      (ofReply .storage (.ask (.storage request) fun reply => .done (f reply)))
      (ofReply .storage (.ask (.storage request) fun reply => .done (f reply))) := by
  refine .ask hread fun reply reply' hreply => .done ?_
  have hparallel := parallel_of_map_eq (hreplies reply reply' hreply)
  generalize f reply = r at hparallel
  generalize f reply' = r' at hparallel
  cases hparallel with
  | ok related => exact .ok related
  | error e => exact .error _

theorem alike_member (id : Ident) : Alike (OfForm Member.timeless) (member id) (member id) :=
  alike_read (.member id) rfl (fun reply => reply) fun _ _ h => h

theorem alike_team (id : Ident) : Alike (OfForm Team.timeless) (team id) (team id) :=
  alike_read (.team id) rfl (fun reply => reply) fun _ _ h => h

theorem alike_teams : Alike (OfForm (List.map Team.timeless)) teams teams :=
  alike_read .teams rfl (fun reply => reply) fun _ _ h => h

theorem alike_teamOf (id : Ident) :
    Alike (OfForm (Option.map Team.timeless)) (teamOf id) (teamOf id) :=
  alike_read (.teamOf id) rfl (fun reply => reply) fun _ _ h => h

theorem alike_birth : Alike Eq birth birth :=
  .ask rfl fun _ _ h => .done (.ok h)

theorem alike_ofRule {form : α → γ} {r r' : Except RuleError α} (h : r.map form = r'.map form) :
    Alike (OfForm form) (ofRule r) (ofRule r') := by
  cases parallel_of_map_eq h with
  | ok related => exact alike_pure related
  | error e => exact alike_throw _

theorem alike_settle {form : α → γ} {tie tie' : TieBreak α} (h : tie.map form = tie'.map form) :
    Alike (OfForm form) (settle tie) (settle tie') := by
  cases tie with
  | settled a =>
      cases tie' with
      | settled b => exact alike_pure (TieBreak.settled.inj h)
      | among count next => cases h
  | among count next =>
      cases tie' with
      | settled b => cases h
      | among count' next' =>
          obtain ⟨rfl, hnext⟩ := TieBreak.among.inj h
          refine .ask rfl ?_
          rintro answer _ rfl
          exact .done (.ok (congrFun hnext answer))

end UseCase

namespace Team

variable {t t' : Team}

theorem id_of_timeless (h : t.timeless = t'.timeless) : t.id = t'.id := by
  rw [← timeless_id, h, timeless_id]

theorem memberIds_of_timeless (h : t.timeless = t'.timeless) : t.memberIds = t'.memberIds := by
  rw [← memberIds_timeless, h, memberIds_timeless]

end Team

/-- Answers show no times. -/
theorem TeamView.ofTeam_timeless (t : Team) : ofTeam t.timeless = ofTeam t := by
  simp only [ofTeam, Team.timeless_members, List.map_map]
  rfl

theorem TeamView.map_ofTeam_timeless (found : Option Team) :
    (found.map Team.timeless).map ofTeam = found.map ofTeam := by
  cases found with
  | none => rfl
  | some t => exact congrArg some (ofTeam_timeless t)

theorem TeamView.ofTeam_dated (t : Team) : ofTeam t.dated = ofTeam t :=
  ofTeam_timeless t

theorem Event.map_notification_timeless (events : List Event) :
    (events.map Event.timeless).map Event.notification = events.map Event.notification := by
  rw [List.map_map]
  congr 1
  funext e
  exact e.notification_timeless

namespace ChangeSet

theorem expect_timeless (c : ChangeSet) (t : Team) : c.expect t.timeless = c.expect t := by
  simp only [expect, Team.timeless_id, Team.memberIds_timeless]

theorem dated_pushAll (c : ChangeSet) (es : List Edit) :
    (c.pushAll es).dated = c.dated.pushAll (es.map Edit.dated) := by
  simp [dated, pushAll]

theorem dated_push (c : ChangeSet) (e : Edit) : (c.push e).dated = c.dated.push e.dated := by
  simp [dated, push]

end ChangeSet

namespace Surroundings

theorem stored?_timeless (roster : List Team) (id : Ident) :
    Plan.stored? (roster.map Team.timeless) id = (Plan.stored? roster id).map Team.timeless := by
  rw [Plan.stored?, List.find?_map]
  rfl

theorem expectation_timeless (roster : List Team) (id : Ident) :
    expectation (roster.map Team.timeless) id = expectation roster id := by
  simp only [expectation, stored?_timeless]
  cases Plan.stored? roster id with
  | none => rfl
  | some t => simp [ChangeSet.expect_timeless]

theorem expectations_timeless (t : Team) (roster : List Team) (c : Composition) :
    expectations t.timeless (roster.map Team.timeless) c.timeless = expectations t roster c := by
  cases c with
  | merge destination dissolved moved =>
      simp only [expectations, Composition.timeless, Team.timeless_id, stored?_timeless]
      cases Plan.stored? roster destination.id with
      | none => exact ChangeSet.expect_timeless _ t
      | some home => simp [ChangeSet.expect_timeless]
  | unchanged team | split kept new moved => exact ChangeSet.expect_timeless _ t

/-- What a plan for a member who joins comes to does not depend on times. -/
theorem alike_growth {expected : ChangeSet × List Ident} {c c' : Composition} {m m' : Member}
    (hc : c.timeless = c'.timeless) (hm : m.timeless = m'.timeless) (id : Ident) :
    Plan.Alike Team.timeless (growth expected c m id) (growth expected c' m' id) where
  changes := by
    simp only [growth, ChangeSet.dated_pushAll, ← Composition.edits_timeless, hc]
  told := by
    have hevents := c.events_timeless m
    rw [hc, hm, Composition.events_timeless] at hevents
    simp only [growth]
    rw [← Event.map_notification_timeless, ← hevents, Event.map_notification_timeless]
  result := by
    simp only [growth, ← Composition.team_timeless, hc]

/-- What a plan for a member who leaves comes to does not depend on times. -/
theorem alike_shrinkage {expected : ChangeSet} {r r' : Redistribution}
    (h : r.timeless = r'.timeless) (team member : Ident) :
    Plan.Alike Team.timeless (shrinkage expected r team member)
      (shrinkage expected r' team member) where
  changes := by
    simp only [shrinkage, ChangeSet.dated_pushAll, ← Redistribution.edits_timeless, h]
  told := by
    have hevents := r.events_timeless
    rw [h, Redistribution.events_timeless] at hevents
    simp only [shrinkage]
    rw [← Event.map_notification_timeless, ← hevents, Event.map_notification_timeless]
  result := by
    have hcomposition : r.composition.timeless = r'.composition.timeless :=
      congrArg Redistribution.composition h
    simp only [shrinkage, ← Composition.team_timeless, hcomposition]

end Surroundings

namespace Plan

open UseCase Surroundings

theorem alike_requireFree (member : Ident) (allowed : Option Ident) :
    UseCase.Alike (fun _ _ => True) (requireFree member allowed) (requireFree member allowed) := by
  refine (alike_teamOf member).bind fun found found' hfound => ?_
  cases found with
  | none =>
      cases found' with
      | none => exact alike_pure trivial
      | some t' => cases hfound
  | some t =>
      cases found' with
      | none => cases hfound
      | some t' =>
          have hid : t.id = t'.id := Team.id_of_timeless (Option.some.inj hfound)
          by_cases hallowed : some t'.id = allowed
          · simpa [hid, hallowed] using alike_pure trivial
          · simpa [hid, hallowed] using alike_throw _

theorem alike_compose {i i' : Intake} (h : i.timeless = i'.timeless) :
    UseCase.Alike (OfForm Composition.timeless) (compose i) (compose i') := by
  have hcompose (birth : Birth) :
      OfForm Composition.timeless (i.compose birth) (i'.compose birth) := by
    unfold OfForm
    rw [← Intake.compose_timeless, h, Intake.compose_timeless]
  cases i with
  | fits t =>
      cases i' with
      | fits t' => exact alike_pure (congrArg Composition.unchanged (Intake.fits.inj h))
      | overflows kept' draft' => cases h
  | overflows kept draft =>
      cases i' with
      | fits t' => cases h
      | overflows kept' draft' =>
          refine alike_birth.bind ?_
          rintro born _ rfl
          exact alike_pure (hcompose born)

theorem alike_addition (team member : Ident) :
    UseCase.Alike (Plan.Alike Team.timeless) (addition team member) (addition team member) := by
  refine (alike_team team).bind fun t t' ht => (alike_member member).bind fun m m' hm =>
    (alike_requireFree member (some team)).bind fun _ _ _ => ?_
  have hintake : (t.intake m).map Intake.timeless = (t'.intake m').map Intake.timeless := by
    rw [← Team.intake_timeless, ht, hm, Team.intake_timeless]
  have hexpect : (ChangeSet.empty.expect t, t.memberIds) =
      (ChangeSet.empty.expect t', t'.memberIds) := by
    rw [← ChangeSet.expect_timeless, ht, ChangeSet.expect_timeless, Team.memberIds_of_timeless ht]
  refine (alike_ofRule hintake).bind fun i i' hi => (alike_compose hi).bind fun c c' hc => ?_
  refine alike_pure (?_ : Plan.Alike Team.timeless
    (growth (ChangeSet.empty.expect t, t.memberIds) c m member)
    (growth (ChangeSet.empty.expect t', t'.memberIds) c' m' member))
  rw [hexpect]
  exact alike_growth hc hm member

theorem alike_assignment {m m' : Member} (hm : m.timeless = m'.timeless) :
    UseCase.Alike (Plan.Alike Team.timeless) (assignment m) (assignment m') := by
  have hid : m.id = m'.id := by
    rw [← Member.timeless_id, hm, Member.timeless_id]
  unfold assignment
  rw [hid]
  refine (alike_requireFree m'.id none).bind fun _ _ _ => alike_teams.bind
    fun roster roster' hroster => ?_
  have hassign : (assign m roster).map (Except.map Intake.timeless) =
      (assign m' roster').map (Except.map Intake.timeless) := by
    rw [← assign_timeless, hm, hroster, assign_timeless]
  refine (alike_settle hassign).bind fun r r' hr => (alike_ofRule hr).bind fun i i' hi =>
    (alike_compose hi).bind fun c c' hc => ?_
  have hexpect : expectation roster c.team.id = expectation roster' c'.team.id := by
    rw [← expectation_timeless, hroster, expectation_timeless, ← c.team.timeless_id,
      ← c.team_timeless, hc, c'.team_timeless, c'.team.timeless_id]
  refine alike_pure (?_ : Plan.Alike Team.timeless
    (growth (expectation roster c.team.id) c m m'.id)
    (growth (expectation roster' c'.team.id) c' m' m'.id))
  rw [hexpect]
  exact alike_growth hc hm m'.id

theorem alike_removal (team member : Ident) :
    UseCase.Alike (Plan.Alike Team.timeless) (removal team member) (removal team member) := by
  refine (alike_team team).bind fun t t' ht => alike_teams.bind fun roster roster' hroster => ?_
  have hdecided : (redistribute t member roster).map (Except.map Redistribution.timeless) =
      (redistribute t' member roster').map (Except.map Redistribution.timeless) := by
    rw [← redistribute_timeless, ht, hroster, redistribute_timeless]
  refine (alike_settle hdecided).bind fun r r' hr => (alike_ofRule hr).bind fun a b hab => ?_
  have hcomposition : a.composition.timeless = b.composition.timeless :=
    congrArg Redistribution.composition hab
  have hexpect : expectations t roster a.composition = expectations t' roster' b.composition := by
    rw [← expectations_timeless, ht, hroster, hcomposition, expectations_timeless]
  have hplan : Plan.Alike Team.timeless
      (shrinkage (expectations t roster a.composition) a team member)
      (shrinkage (expectations t' roster' b.composition) b team member) := by
    rw [hexpect]
    exact alike_shrinkage hab team member
  rw [← shrinkage_eq, ← shrinkage_eq] at hplan
  exact alike_pure hplan

theorem alike_followStatus (before : Status) {m m' : Member} (hm : m.timeless = m'.timeless) :
    UseCase.Alike (Plan.Alike (Option.map Team.timeless)) (followStatus before m)
      (followStatus before m') := by
  have hid : m.id = m'.id := by
    rw [← Member.timeless_id, hm, Member.timeless_id]
  have hstatus : m.status = m'.status := by
    rw [← Member.timeless_status, hm, Member.timeless_status]
  have hstandstill : Plan.Alike (Option.map Team.timeless) standstill standstill := ⟨rfl, rfl, rfl⟩
  have haside {p p' : Plan Team} (hp : Plan.Alike Team.timeless p p') :
      Plan.Alike (Option.map Team.timeless) (aside p) (aside p') :=
    ⟨hp.changes, hp.told, congrArg some hp.result⟩
  unfold followStatus
  rw [hid, hstatus]
  split
  · refine (alike_teamOf m'.id).bind fun found found' hfound => ?_
    cases found with
    | none =>
        cases found' with
        | none => exact alike_pure hstandstill
        | some t' => cases hfound
    | some t =>
        cases found' with
        | none => cases hfound
        | some t' =>
            have hteam : t.id = t'.id := Team.id_of_timeless (Option.some.inj hfound)
            simp only [hteam]
            exact (alike_removal t'.id m'.id).bind fun p p' hp => alike_pure (haside hp)
  · split
    · exact (alike_assignment hm).bind fun p p' hp => alike_pure (haside hp)
    · exact alike_pure hstandstill

theorem alike_statusChange (member : Ident) (target : Status) :
    UseCase.Alike (Plan.Alike Answer.ofStatusChange) (statusChange member target)
      (statusChange member target) := by
  refine (alike_member member).bind fun m m' hm => ?_
  have hstatus : m.status = m'.status := by
    rw [← Member.timeless_status, hm, Member.timeless_status]
  have hchanged : (m.transition target).map Member.timeless =
      (m'.transition target).map Member.timeless := by
    rw [← Member.transition_timeless, hm, Member.transition_timeless]
  simp only [hstatus]
  refine (alike_ofRule hchanged).bind fun a b hab => (alike_followStatus m'.status hab).bind
    fun p p' hp => alike_pure ⟨?_, hp.told, ?_⟩
  · rw [ChangeSet.dated_push, ChangeSet.dated_push, hp.changes]
  · simp only [Answer.ofStatusChange]
    rw [← TeamView.map_ofTeam_timeless, hp.result, TeamView.map_ofTeam_timeless]

end Plan

namespace UseCase

theorem alike_freeMembers (ids : List Ident) :
    Alike (OfForm (List.map Member.timeless)) (freeMembers ids) (freeMembers ids) := by
  induction ids with
  | nil => exact alike_pure rfl
  | cons id ids ih =>
      refine (Plan.alike_requireFree id none).bind fun _ _ _ => (alike_member id).bind
        fun m m' hm => ih.bind fun ms ms' hms => alike_pure ?_
      exact congrArg₂ List.cons hm hms

/-- A plan that comes to the same is an undertaking that comes to the same. -/
theorem Alike.undertaking {α β : Type} {form : α → β} {view : α → Answer}
    (hview : ∀ a b, form a = form b → view a = view b) {plan plan' : UseCase (Plan α)}
    (h : Alike (Plan.Alike form) plan plan') :
    Alike Undertaking.Alike (do return (← plan).undertaking view)
      (do return (← plan').undertaking view) :=
  h.bind fun _ _ hp => alike_pure
    ⟨congrArg Write.commit hp.changes, hp.told, hview _ _ hp.result⟩

end UseCase

namespace Command

open UseCase

theorem answer_of_timeless {t t' : Team} (h : t.timeless = t'.timeless) :
    Answer.ofTeam t = Answer.ofTeam t' := by
  rw [Answer.ofTeam, ← TeamView.ofTeam_timeless, h, TeamView.ofTeam_timeless]
  rfl

/-- A command prepares alike wherever replies are the same but for times. -/
theorem alike_prepare (c : Command) : UseCase.Alike Undertaking.Alike c.prepare c.prepare := by
  have hrule {α : Type} (r : Except RuleError α) :
      UseCase.Alike (OfForm id) (ofRule r) (ofRule r) := alike_ofRule rfl
  cases c with
  | registerMember name email status =>
      refine (hrule _).bind ?_
      rintro name _ rfl
      refine (hrule _).bind ?_
      rintro email _ rfl
      refine alike_birth.bind ?_
      rintro born _ rfl
      exact alike_pure ⟨rfl, rfl, rfl⟩
  | createTeam name members =>
      refine (hrule _).bind ?_
      rintro name _ rfl
      refine (alike_freeMembers members).bind fun ms ms' hms => ?_
      have hdraft : (Team.Draft.ofMembers name ms).map Team.Draft.timeless =
          (Team.Draft.ofMembers name ms').map Team.Draft.timeless := by
        rw [← Team.Draft.ofMembers_timeless, hms, Team.Draft.ofMembers_timeless]
      refine (alike_ofRule hdraft).bind fun d d' hd => alike_birth.bind ?_
      rintro born _ rfl
      have hform : (d.form born).dated = (d'.form born).dated := by
        rw [← Team.Draft.form_timeless, hd, Team.Draft.form_timeless]
      refine alike_pure ⟨congrArg Write.form hform, rfl, ?_⟩
      change Answer.team (.ofTeam (d.form born)) = Answer.team (.ofTeam (d'.form born))
      rw [← TeamView.ofTeam_dated, hform, TeamView.ofTeam_dated]
  | addMember team member =>
      exact (Plan.alike_addition team member).undertaking fun _ _ h => answer_of_timeless h
  | removeMember team member =>
      exact (Plan.alike_removal team member).undertaking fun _ _ h => answer_of_timeless h
  | changeStatus member target =>
      exact (Plan.alike_statusChange member target).undertaking fun _ _ h => h
  | reassignMember member =>
      refine (alike_member member).bind fun m m' hm => ?_
      exact (Plan.alike_assignment hm).undertaking fun _ _ h => answer_of_timeless h

end Command

end TeamRoster
