import TeamRoster.Ident.Random
import TeamRoster.Member.Document
import TeamRoster.Proofs.Failing
import TeamRoster.Proofs.Instant.Stamp
import TeamRoster.Proofs.Json.RoundTrip

/-!
# Members that were written

Many texts decode as one member: fields may come in any order and next to others, ids, statuses and time
stamps have several spellings, and strings may be escaped. Writing the member gives one of these texts.
Main statement: `Member.ofDocument_normal`. The text that is written for a decoded member decodes as the
same member, so that it is written the same way again.
-/

namespace TeamRoster

namespace Reading

variable {r : Reading} {rs : List (Option String × Reading)}

theorem eq_string_of_toJson? {s : String} (h : r.toJson? = some (.string s)) :
    r = .string (some s) := by
  cases r with
  | string value =>
    cases value with
    | none => simp [toJson?] at h
    | some t => simpa [toJson?] using h
  | array items closed => cases closed <;> simp [toJson?] at h
  | object fields closed => cases closed <;> simp [toJson?] at h
  | null | bool b | number n | broken => simp [toJson?] at h

theorem eq_object_of_toJson? {fields : List (String × Json)} (h : r.toJson? = some (.object fields)) :
    ∃ rs, r = .object rs true ∧ fieldsToJson? rs = some fields := by
  cases r with
  | object rs closed =>
    cases closed with
    | false => simp [toJson?] at h
    | true => exact ⟨rs, rfl, by simpa [toJson?] using h⟩
  | string value => cases value <;> simp [toJson?] at h
  | array items closed => cases closed <;> simp [toJson?] at h
  | null | bool b | number n | broken => simp [toJson?] at h

/-- Fields whose values are strings were read as strings. -/
theorem fields_of_strings {pairs : List (String × String)}
    (h : fieldsToJson? rs = some (pairs.map fun p => (p.1, .string p.2))) :
    rs = pairs.map fun p => (some p.1, .string (some p.2)) := by
  induction pairs generalizing rs with
  | nil =>
    cases rs with
    | nil => rfl
    | cons field rs =>
      obtain ⟨key, item⟩ := field
      simp [fieldsToJson?, Option.bind_eq_some_iff] at h
  | cons pair pairs ih =>
    cases rs with
    | nil => simp [fieldsToJson?] at h
    | cons field rs =>
      obtain ⟨key, item⟩ := field
      simp only [fieldsToJson?, Option.bind_eq_bind, Option.bind_eq_some_iff, Option.pure_def,
        Option.some.injEq, List.map_cons, List.cons.injEq, Prod.mk.injEq] at h
      obtain ⟨name, hname, value, hvalue, more, hmore, ⟨rfl, rfl⟩, rfl⟩ := h
      rw [hname, eq_string_of_toJson? hvalue, ih hmore, List.map_cons]

/-- An object of strings is read as it was written. -/
theorem ofText_strings (pairs : List (String × String)) :
    ofText (Json.object (pairs.map fun p => (p.1, .string p.2))).toText =
      (.object (pairs.map fun p => (some p.1, .string (some p.2))) true, true) := by
  obtain ⟨r, hr, hjson⟩ := ofText_toText (.object (pairs.map fun p => (p.1, .string p.2)))
  obtain ⟨rs, rfl, hfields⟩ := eq_object_of_toJson? hjson
  rw [hr, fields_of_strings hfields]

/-- To decode a string that was written is to decode the string. -/
theorem decodeText_string {α : Type} (decode : Reading → Decoded α) (s : String) :
    decodeText decode (Json.string s).toText = decode (.string (some s)) := by
  obtain ⟨r, hr, hjson⟩ := ofText_toText (.string s)
  rw [decodeText, hr, eq_string_of_toJson? hjson]
  exact bind_pure (decode (.string (some s)))

/-- A text that decodes as a value has a reading that does. -/
theorem ok_of_decodeText {α : Type} {decode : Reading → Decoded α} {s : String} {a : α}
    (h : decodeText decode s = .ok a) : decode (ofText s).1 = .ok a := by
  unfold decodeText at h
  generalize ofText s = found at h ⊢
  obtain ⟨r, ended⟩ := found
  obtain ⟨value, hvalue, hend⟩ := Failing.bind_eq_ok.1 h
  cases ended with
  | true =>
    cases hend
    exact hvalue
  | false => cases hend

end Reading

namespace RecordDecoder

variable {α : Type} {d : RecordDecoder α} {a : α}

theorem exists_of_required {name : String} {decode : Reading → Decoded α}
    {fields : List (String × Reading)} (h : required name decode fields = .ok a) :
    ∃ r, decode r = .ok a := by
  unfold required at h
  split at h
  · exact ⟨_, h⟩
  · cases h

/-- A record, from an object or an array, is built from the fields that were kept. -/
theorem exists_of_ofReading {r : Reading} (h : d.ofReading r = .ok a) :
    ∃ fields, d.build fields = .ok a := by
  unfold ofReading at h
  split at h
  · obtain ⟨kept, -, hbuild⟩ := Failing.bind_eq_ok.1 h
    split at hbuild
    · exact ⟨kept, hbuild⟩
    · cases hbuild
  · obtain ⟨kept, -, hbuild⟩ := Failing.bind_eq_ok.1 h
    split at hbuild
    · split at hbuild
      · cases hbuild
      · exact ⟨kept, hbuild⟩
    · cases hbuild
  · cases h

end RecordDecoder

/-- A member name is decoded from its text. -/
theorem MemberName.ofReading_text (n : MemberName) :
    MemberName.ofReading (.string (some n.text)) = .ok n :=
  congrArg Decoded.ofRule n.ofText_text

/-- An address is decoded from its text. -/
theorem Email.ofReading_text (e : Email) : Email.ofReading (.string (some e.text)) = .ok e :=
  congrArg Decoded.ofRule e.ofText_text

/-- A team name is decoded from its text. -/
theorem TeamName.ofReading_text (n : TeamName) :
    TeamName.ofReading (.string (some n.text)) = .ok n :=
  congrArg Decoded.ofRule n.ofText_text

namespace Member

variable {m : Member} {s : String}

/-- The year of registration is one that a time stamp may name. -/
def Dated (m : Member) : Prop :=
  Stamp.isYear (Date.ofDays (m.createdAt.minute / 1440)).year = true

/-- The texts of the fields of a member. -/
def texts (m : Member) : List (String × String) :=
  [("id", m.id.toText), ("name", m.name.text), ("email", m.email.text), ("status", m.status.toText),
    ("created_at", Stamp.write m.createdAt)]

theorem toJson_eq (m : Member) :
    m.toJson = .object (m.texts.map fun p => (p.1, .string p.2)) := rfl

/-- A written member is decoded as it was. -/
theorem ofDocument_toDocument (h : m.Dated) : ofDocument m.toDocument = .ok m := by
  have hid : Reading.asIdent (.string (some m.id.toText)) = .ok m.id := by
    simp [Reading.asIdent, Reading.asText]
  have hstatus : Status.ofReading (.string (some m.status.toText)) = .ok m.status := by
    cases m.status <;> decide +kernel
  have hcreated : Instant.ofReading (.string (some (Stamp.write m.createdAt))) = .ok m.createdAt := by
    simp [Instant.ofReading, Reading.asText, Stamp.read?_write h]
  rw [ofDocument, Reading.decodeText, toDocument, toJson_eq, Reading.ofText_strings]
  -- All fields are known, different and right, so that they are kept as they are.
  have hkept : RecordDecoder.keep decoder.checks []
      (m.texts.map fun p => (some p.1, Reading.string (some p.2))) =
      .ok (m.texts.map fun p => (p.1, Reading.string (some p.2))) := by
    simp [texts, decoder, RecordDecoder.keep, RecordDecoder.check, Except.map, hid, m.name.ofReading_text,
      m.email.ofReading_text, hstatus, hcreated]
  have hbuilt : decoder.build (m.texts.map fun p => (p.1, Reading.string (some p.2))) = .ok m := by
    simp [texts, decoder, RecordDecoder.required, hid, m.name.ofReading_text,
      m.email.ofReading_text, hstatus, hcreated]
  simp only [ofReading, RecordDecoder.ofReading, RecordDecoder.ofFields, hkept, hbuilt,
    Failing.ok_bind, if_true]
  rfl

theorem dated_of_createdAt {r : Reading} (h : Instant.ofReading r = .ok m.createdAt) : m.Dated := by
  obtain ⟨text, -, hread⟩ := Failing.bind_eq_ok.1 h
  split at hread
  · rename_i i hi
    cases hread
    exact Stamp.isYear_of_read? hi
  · cases hread

/-- A decoded member was registered in a year that a time stamp may name. -/
theorem dated_of_ofDocument (h : ofDocument s = .ok m) : m.Dated := by
  obtain ⟨fields, hbuild⟩ := RecordDecoder.exists_of_ofReading (Reading.ok_of_decodeText h)
  obtain ⟨id, -, hbuild⟩ := Failing.bind_eq_ok.1 hbuild
  obtain ⟨name, -, hbuild⟩ := Failing.bind_eq_ok.1 hbuild
  obtain ⟨email, -, hbuild⟩ := Failing.bind_eq_ok.1 hbuild
  obtain ⟨status, -, hbuild⟩ := Failing.bind_eq_ok.1 hbuild
  obtain ⟨createdAt, hcreated, hbuild⟩ := Failing.bind_eq_ok.1 hbuild
  obtain ⟨r, hr⟩ := RecordDecoder.exists_of_required hcreated
  cases hbuild
  exact dated_of_createdAt hr

/-- Members that are written alike and were decoded are the same. -/
theorem toDocument_inj {other : Member} (hm : m.Dated) (hother : other.Dated)
    (h : m.toDocument = other.toDocument) : m = other := by
  have hsame := ofDocument_toDocument hm
  rw [h, ofDocument_toDocument hother] at hsame
  exact (Except.ok.inj hsame).symm

/-- Whatever text a member was decoded from, the text that is written for it decodes as a member with the
same id, name, address, status and time of registration, and this one is written as the same text. Two
texts that decode are rewritten alike only if they decode as the same member. -/
theorem ofDocument_normal (h : ofDocument s = .ok m) :
    (∃ again, ofDocument m.toDocument = .ok again ∧ again.id = m.id ∧ again.name = m.name ∧
      again.email = m.email ∧ again.status = m.status ∧ again.createdAt = m.createdAt ∧
      again.toDocument = m.toDocument) ∧
    ∀ t other, ofDocument t = .ok other → other.toDocument = m.toDocument → other = m := by
  have hdated := dated_of_ofDocument h
  refine ⟨⟨m, ofDocument_toDocument hdated, rfl, rfl, rfl, rfl, rfl, rfl⟩, ?_⟩
  intro t other ht heq
  exact toDocument_inj (dated_of_ofDocument ht) hdated heq

section Respelled

/-- A member who was registered in a leap second. -/
def zoe : Member where
  id := .ofRandom 0xdb97531
  name := ⟨"Zoë 𝄞", by decide, by decide, by decide +kernel⟩
  email := ⟨"zoe@example.org", by decide +kernel⟩
  status := .withdrawn
  createdAt := ⟨28487429, 60500000000, by decide⟩

/-- Her text with other spellings: the fields in another order and one that is not known, blanks, escapes,
a surrogate pair, an id behind `urn:uuid:`, a status as an object, and local time. -/
def zoeRespelled : String :=
  String.ofList (List.flatMap String.toList [
    " \x7b \"status\": \x7b\"withdrawn\": null\x7d, ",
    "\"note\": [\x7b\x7d, \"id\"], ",
    "\"email\": \"zoe\\u0040example.org\", ",
    "\"name\": \" Zo\\u00eb \\ud834\\udd1e\\t\", ",
    "\"id\": \"URN:UUID:13579BD0-0000-4000-8000-000000000000\", ",
    "\"created_at\": \"2024-02-29 23:59:60.5+01:30\" \x7d "])

theorem ofDocument_normal_respelled :
    ofDocument zoeRespelled = .ok zoe ∧
      ∃ again, ofDocument zoe.toDocument = .ok again ∧ again.id = zoe.id ∧ again.name = zoe.name ∧
        again.email = zoe.email ∧ again.status = zoe.status ∧ again.createdAt = zoe.createdAt ∧
        again.toDocument = zoe.toDocument := by
  have hchars (cs : List Char) : ofDocument (.ofList cs) =
      (do
        let m ← ofReading (Reading.value (2 * cs.length + 2) cs).1
        if (Reading.skip (Reading.value (2 * cs.length + 2) cs).2).isEmpty then return m
        else throw .malformed) := by
    rw [ofDocument, Reading.decodeText, Reading.ofText, String.toList_ofList, String.length_ofList]
  have hread : ofDocument zoeRespelled = .ok zoe := (hchars _).trans (by decide +kernel)
  exact ⟨hread, (ofDocument_normal hread).1⟩

end Respelled

end Member

end TeamRoster
