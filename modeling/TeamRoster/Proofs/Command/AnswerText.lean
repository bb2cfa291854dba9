import TeamRoster.Proofs.Json.RoundTrip
import TeamRoster.Proofs.Workflow.Execution

/-!
# Answer lines decode to the answers

Whatever stands in a line, however failures are explained and whoever answers the questions of the
command in it, the answer line is one JSON object without control characters, and `Answer.ofText?` gets
the answer back from it. Main statement: `handleLine_decodes`. Every answer has a JSON form, so that the
line that is kept for the case that one has none (`Answer.unencodable`) is never the answer.
-/

namespace TeamRoster

namespace Json

/-- The value of the field with this name. -/
def field? (name : String) : Json → Option Json
  | object fields => (fields.find? fun f => f.1 == name).map Prod.snd
  | _ => none

/-- The text of a string. -/
def text? : Json → Option String
  | string s => some s
  | _ => none

/-- The value of a truth value. -/
def flag? : Json → Option Bool
  | bool b => some b
  | _ => none

/-- The items of an array. -/
def items? : Json → Option (List Json)
  | array items => some items
  | _ => none

/-- The field of this name, decoded. -/
def get? {α : Type} (j : Json) (name : String) (decode : Json → Option α) : Option α :=
  (j.field? name).bind decode

theorem get?_cons {α : Type} (key : String) (value : Json) (fields : List (String × Json))
    (name : String) (decode : Json → Option α) :
    (object ((key, value) :: fields)).get? name decode =
      if key = name then decode value else (object fields).get? name decode := by
  by_cases h : key = name <;> simp [get?, field?, h]

end Json

/-- An id in JSON. -/
def Ident.ofJson? (j : Json) : Option Ident :=
  j.text?.bind Ident.ofText?

/-- A status in JSON. -/
def Status.ofJson? (j : Json) : Option Status :=
  j.text?.bind Status.ofText?

/-- A member in an answer, by the fields of the object. -/
def MemberView.ofJson? (j : Json) : Option MemberView := do
  let id ← j.get? "id" Ident.ofJson?
  let name ← j.get? "name" Json.text?
  let email ← j.get? "email" Json.text?
  let status ← j.get? "status" Status.ofJson?
  return ⟨id, name, email, status⟩

/-- A team in an answer, by the fields of the object. -/
def TeamView.ofJson? (j : Json) : Option TeamView := do
  let id ← j.get? "id" Ident.ofJson?
  let name ← j.get? "name" Json.text?
  let items ← j.get? "members" Json.items?
  let members ← items.mapM MemberView.ofJson?
  return ⟨id, name, members⟩

/-- A team, or nothing where a null stands for it. -/
def TeamView.ofJsonOrNull? : Json → Option (Option TeamView)
  | .null => some none
  | j => (TeamView.ofJson? j).map some

namespace Answer

/-- An answer in JSON: the field `result` tells what it is. -/
def ofJson? (j : Json) : Option Answer := do
  match ← j.get? "result" Json.text? with
  | "member" => return .member (← MemberView.ofJson? j)
  | "team" => return .team (← TeamView.ofJson? j)
  | "status_changed" => do
    let id ← j.get? "member_id" Ident.ofJson?
    let before ← j.get? "previous" Status.ofJson?
    let after ← j.get? "current" Status.ofJson?
    let team ← j.get? "team" TeamView.ofJsonOrNull?
    return .statusChanged id before after team
  | "error" => do
    let message ← j.get? "message" Json.text?
    let notificationFailure ← j.get? "notification_failure" Json.flag?
    return .failure message notificationFailure
  | _ => none

/-- Decode an answer line. -/
def ofText? (s : String) : Option Answer :=
  (Json.ofText? s).bind ofJson?

/-- The values of the field `result`. -/
def kinds : List String :=
  ["member", "team", "status_changed", "error"]

end Answer

@[simp] theorem Ident.ofJson?_toJson (id : Ident) : Ident.ofJson? id.toJson = some id :=
  Ident.ofText?_toText id

@[simp] theorem Status.ofJson?_toJson (s : Status) : Status.ofJson? s.toJson = some s :=
  Status.ofText?_toText s

theorem MemberView.ofJson?_fields (v : MemberView) :
    MemberView.ofJson? (.object v.fields) = some v := by
  simp [MemberView.ofJson?, MemberView.fields, Json.get?_cons, Json.text?]

theorem MemberView.ofJson?_toJson (v : MemberView) : MemberView.ofJson? v.toJson = some v :=
  v.ofJson?_fields

theorem TeamView.ofJson?_fields (v : TeamView) : TeamView.ofJson? (.object v.fields) = some v := by
  have hmembers : (v.members.map MemberView.toJson).mapM MemberView.ofJson? = some v.members := by
    induction v.members with
    | nil => rfl
    | cons m ms ih => simp [MemberView.ofJson?_toJson, ih]
  simp [TeamView.ofJson?, TeamView.fields, Json.get?_cons, Json.text?, Json.items?, hmembers]

/-- The field `result` is none of a member. -/
theorem MemberView.ofJson?_result (kind : Json) (fields : List (String × Json)) :
    MemberView.ofJson? (.object (("result", kind) :: fields)) =
      MemberView.ofJson? (.object fields) := by
  simp [MemberView.ofJson?, Json.get?_cons]

theorem TeamView.ofJson?_result (kind : Json) (fields : List (String × Json)) :
    TeamView.ofJson? (.object (("result", kind) :: fields)) = TeamView.ofJson? (.object fields) := by
  simp [TeamView.ofJson?, Json.get?_cons]

namespace Answer

/-- What is shown of an answer beside the field `result`. -/
def shown : Answer → List (String × Json)
  | member view => view.fields
  | team view => view.fields
  | statusChanged id before after view => [
    ("member_id", id.toJson),
    ("previous", before.toJson),
    ("current", after.toJson),
    ("team", match view with
      | some shown => shown.toJson
      | none => .null)]
  | failure message notificationFailure => [
    ("message", .string message),
    ("notification_failure", .bool notificationFailure)]

/-- What an answer is, as the field `result` tells it. -/
def kind : Answer → String
  | member _ => "member"
  | team _ => "team"
  | statusChanged _ _ _ _ => "status_changed"
  | failure _ _ => "error"

theorem kind_mem_kinds (a : Answer) : a.kind ∈ kinds := by
  cases a <;> simp [kind, kinds]

/-- The fields of an answer. -/
def fields (a : Answer) : List (String × Json) :=
  ("result", .string a.kind) :: a.shown

/-- Every answer has a JSON form: what it shows is an object. -/
theorem encode_eq (a : Answer) : a.encode = .ok (.object a.fields) := by
  cases a <;> rfl

/-- The line of an answer is its JSON form, however a failure to encode it would be explained. -/
theorem toText_eq (explain : EncodeError → String) (a : Answer) :
    a.toText explain = (Json.object a.fields).toText := by
  rw [toText, encode_eq]

/-- The fields of an answer have different names. -/
theorem nodup_fields (a : Answer) : (a.fields.map Prod.fst).Nodup := by
  cases a with
  | member view => simp [fields, shown, MemberView.fields]
  | team view => simp [fields, shown, TeamView.fields]
  | statusChanged id before after view => simp [fields, shown]
  | failure message notificationFailure => simp [fields, shown]

/-- An answer is decoded from its fields. -/
theorem ofJson?_fields (a : Answer) : ofJson? (.object a.fields) = some a := by
  cases a with
  | member view =>
      simp [ofJson?, fields, kind, shown, Json.get?_cons, Json.text?, MemberView.ofJson?_result,
        MemberView.ofJson?_fields]
  | team view =>
      simp [ofJson?, fields, kind, shown, Json.get?_cons, Json.text?, TeamView.ofJson?_result,
        TeamView.ofJson?_fields]
  | statusChanged id before after view =>
      cases view with
      | none =>
          simp [ofJson?, fields, kind, shown, Json.get?_cons, Json.text?, TeamView.ofJsonOrNull?]
      | some team =>
          simp [ofJson?, fields, kind, shown, Json.get?_cons, Json.text?, TeamView.ofJsonOrNull?,
            TeamView.toJson, TeamView.ofJson?_fields]
  | failure message notificationFailure =>
      simp [ofJson?, fields, kind, shown, Json.get?_cons, Json.text?, Json.flag?]

/-- An answer is decoded from its line. -/
theorem ofText?_toText (explain : EncodeError → String) (a : Answer) :
    ofText? (a.toText explain) = some a := by
  rw [ofText?, toText_eq, Json.ofText?_toText]
  exact ofJson?_fields a

/-- How the text of an answer begins, up to the value of `result`. -/
def opening : List Char :=
  ['\x7b', '"', 'r', 'e', 's', 'u', 'l', 't', '"', ':', '"']

theorem toList_toText (explain : EncodeError → String) (a : Answer) :
    (a.toText explain).toList =
      opening ++ a.kind.toList.foldr Json.writeChar ('"' :: Json.writeFields a.shown []) := by
  have hname : "result".toList = ['r', 'e', 's', 'u', 'l', 't'] := rfl
  rw [toText_eq, fields, Json.toText, String.toList_ofList, Json.write, Json.writeString, hname]
  rfl

/-- How the text of a failure goes on, up to its message. -/
def failureOpening : List Char :=
  ['e', 'r', 'r', 'o', 'r', '"', ',', '"', 'm', 'e', 's', 's', 'a', 'g', 'e', '"', ':', '"']

theorem toList_toText_failure (explain : EncodeError → String) (message : String)
    (notificationFailure : Bool) :
    ∃ rest, ((failure message notificationFailure).toText explain).toList =
      opening ++ (failureOpening ++ message.toList.foldr Json.writeChar ('"' :: rest)) := by
  have herror : "error".toList = ['e', 'r', 'r', 'o', 'r'] := rfl
  have hmessage : "message".toList = ['m', 'e', 's', 's', 'a', 'g', 'e'] := rfl
  refine ⟨Json.writeFields [("notification_failure", .bool notificationFailure)] [], ?_⟩
  rw [toList_toText, kind, shown, herror, Json.writeFields, Json.writeString, hmessage]
  rfl

theorem toList_unencodable (reason : String) : ∃ rest, (unencodable reason).toList =
    opening ++ (failureOpening ++ 'F' :: rest) := by
  obtain ⟨words, hwords⟩ : ∃ words, apology.toList = opening ++ (failureOpening ++ 'F' :: words) :=
    ⟨apology.toList.drop 30, by decide +kernel⟩
  obtain ⟨tail, htail⟩ : ∃ tail, (unencodable reason).toList = apology.toList ++ tail :=
    ⟨_, by rw [unencodable, String.toList_append, String.toList_append, List.append_assoc]⟩
  refine ⟨words ++ tail, ?_⟩
  rw [htail, hwords]
  simp only [List.append_assoc, List.cons_append]

/-- The line that is kept for what cannot be encoded is that of no answer whose message begins
otherwise. -/
theorem toText_ne_unencodable {a : Answer} (explain : EncodeError → String) (reason : String)
    (h : ∀ message notificationFailure, a = .failure message notificationFailure →
      message.toList.head? ≠ some 'F') : a.toText explain ≠ unencodable reason := by
  intro heq
  obtain ⟨rest, hrest⟩ := toList_unencodable reason
  have hchars := congrArg String.toList heq
  rw [hrest] at hchars
  cases a with
  | member view | team view | statusChanged id before after view =>
      rw [toList_toText, List.append_cancel_left_eq] at hchars
      simp [kind, Json.writeChar, failureOpening] at hchars
  | failure message notificationFailure =>
      obtain ⟨behind, hbehind⟩ := toList_toText_failure explain message notificationFailure
      rw [hbehind, List.append_cancel_left_eq, List.append_cancel_left_eq] at hchars
      refine h message notificationFailure rfl ?_
      cases hmessage : message.toList with
      | nil =>
          rw [hmessage] at hchars
          exact absurd (List.cons.inj hchars).1 (by decide)
      | cons c cs =>
          rw [hmessage, List.foldr_cons] at hchars
          obtain ⟨d, ds, hds, hd, -⟩ :=
            Reading.head_writeChar c (cs.foldr Json.writeChar ('"' :: behind))
          rw [hds] at hchars
          rcases hd with rfl | ⟨rfl, -⟩
          · exact absurd (List.cons.inj hchars).1 (by decide)
          · rw [List.head?_cons, (List.cons.inj hchars).1]

end Answer

/-- Whether a text starts with a character other than this one. -/
def startsOther (c : Char) (s : String) : Bool :=
  s.toList.head?.any (· != c)

theorem startsOther_append {c : Char} {s : String} (h : startsOther c s = true) (t : String) :
    startsOther c (s ++ t) = true := by
  unfold startsOther at h ⊢
  rw [String.toList_append, List.head?_append]
  cases hs : s.toList.head? with
  | none => simp [hs] at h
  | some d => simpa [hs] using h

theorem head?_ne_of_startsOther {c : Char} {s : String} (h : startsOther c s = true) :
    s.toList.head? ≠ some c := by
  unfold startsOther at h
  intro hs
  simp [hs] at h

theorem RuleError.startsOther_message (x : RuleError) : startsOther 'F' x.message = true := by
  cases x with
  | noOpenTeam => decide +kernel
  | badMemberName _ | badEmail _ | badTeamName _ | unknownStatus _ =>
      exact startsOther_append (by decide +kernel) _
  | notActive _ | alreadyListed _ | sizeOutOfBounds _ =>
      exact startsOther_append (startsOther_append (by decide +kernel) _) _
  | transitionRefused _ _ | assignedElsewhere _ _ | notListed _ _ =>
      exact startsOther_append (startsOther_append (startsOther_append (by decide +kernel) _) _) _

theorem Entity.startsOther_toText (x : Entity) : startsOther 'F' x.toText = true := by
  cases x <;> decide +kernel

theorem StorageError.startsOther_message (x : StorageError) : startsOther 'F' x.message = true := by
  cases x with
  | notFound entity _ => exact startsOther_append (startsOther_append entity.startsOther_toText _) _
  | conflict entity _ =>
      exact startsOther_append
        (startsOther_append (startsOther_append entity.startsOther_toText _) _) _
  | nameTaken _ | corrupted _ | database _ => exact startsOther_append (by decide +kernel) _

/-- No failure of a use case is worded as one of encoding. -/
theorem WorkflowError.startsOther_message (x : WorkflowError) :
    startsOther 'F' x.message = true := by
  cases x with
  | rule cause => exact cause.startsOther_message
  | storage cause => exact cause.startsOther_message
  | delivery cause => exact startsOther_append (by decide +kernel) cause.message

namespace Command

variable {σ τ : Type} (e : Setting σ τ) (w : World σ τ)

/-- A command that goes through is not answered by a failure. -/
theorem not_isFailure_of_perform {c : Command} {a : Answer} {after : World σ τ}
    (h : e.exec c.perform w = (.ok a, after)) : a.isFailure = false := by
  rw [perform_eq, Setting.exec_bind] at h
  have hprepared := c.preparesIn_prepare.run e.answer w
  cases hprepare : e.exec c.prepare w with
  | mk r ready =>
      rw [hprepare] at h
      cases r with
      | error x => cases h
      | ok u =>
          rw [show (Dialogue.run e.answer c.prepare.run w).1 = .ok u from
            congrArg Prod.fst hprepare] at hprepared
          simp only [Setting.exec_carryOut] at h
          split at h
          · cases h
          · split at h
            · cases h
            · cases h
              exact hprepared

end Command

section Lines

variable {σ τ : Type} (words : Wording) (e : Setting σ τ) (w : World σ τ) (line : String)

/-- No answer to a line is worded as one that could not be encoded. -/
theorem head_message_answerLine {message : String} {notificationFailure : Bool}
    (h : (e.run (answerLine words line) w).1 = .failure message notificationFailure) :
    message.toList.head? ≠ some 'F' := by
  unfold answerLine at h
  split at h
  · rename_i c _
    rw [Command.run_answer] at h
    cases hperform : e.exec c.perform w with
    | mk r after =>
        rw [hperform] at h
        cases r with
        | ok a =>
            have hanswer := Command.not_isFailure_of_perform e w hperform
            rw [show a = .failure message notificationFailure from h] at hanswer
            cases hanswer
        | error x =>
            cases h
            exact head?_ne_of_startsOther x.startsOther_message
  · cases h
    exact head?_ne_of_startsOther (startsOther_append (by decide +kernel) _)

/-- Whatever stands in a line, whatever is stored, whoever answers, and however failures to decode and to
encode are explained: the answer line has no control characters, and so no line breaks; it is the text of
the JSON form of the answer, which is one object, with different names for its fields, that tells what it
is by the field `result`; it decodes to that object and to exactly the answer to the line; and it is never
the line that is kept for answers that cannot be encoded. -/
theorem handleLine_decodes :
    (∀ c ∈ (e.run (handleLine words line) w).1.toList, 0x20 ≤ c.toNat) ∧
    (∃ fields, (e.run (answerLine words line) w).1.encode = .ok (.object fields) ∧
      (e.run (handleLine words line) w).1 = (Json.object fields).toText ∧
      Json.ofText? (e.run (handleLine words line) w).1 = some (.object fields) ∧
      (fields.map Prod.fst).Nodup ∧ ∃ kind ∈ Answer.kinds, ("result", Json.string kind) ∈ fields) ∧
    Answer.ofText? (e.run (handleLine words line) w).1 =
      some (e.run (answerLine words line) w).1 ∧
    ∀ reason, (e.run (handleLine words line) w).1 ≠ Answer.unencodable reason := by
  have htext : (e.run (handleLine words line) w).1 =
      (e.run (answerLine words line) w).1.toText words.unencodable := by
    simp [handleLine, Setting.run]
  have hencoded := Answer.toText_eq words.unencodable (e.run (answerLine words line) w).1
  rw [htext]
  refine ⟨?_, ⟨_, Answer.encode_eq _, hencoded, ?_, Answer.nodup_fields _, _, Answer.kind_mem_kinds _,
    List.mem_cons_self⟩, Answer.ofText?_toText _ _, fun reason => ?_⟩
  · intro c hc
    rw [hencoded] at hc
    exact Json.toNat_of_mem_toText hc
  · rw [hencoded, Json.ofText?_toText]
  · refine Answer.toText_ne_unencodable _ reason fun message notificationFailure h => ?_
    exact head_message_answerLine words e w line h

end Lines

end TeamRoster
