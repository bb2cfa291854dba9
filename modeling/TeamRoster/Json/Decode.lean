import TeamRoster.Failure
import TeamRoster.Json.Reading

/-!
# Decoding readings

From a reading to a value of the domain. A record is read from an object, with its fields in any
order and unknown fields ignored, or from an array of its fields in order. Fields are looked at in
the order of the text, so that the first one that is wrong is reported; a missing field is reported
only after all fields were right.
-/

namespace TeamRoster

/-- Why a text does not decode. -/
inductive DecodeError where
  | missingField (name : String)
  | duplicateField (name : String)
  | unknownVariant (name : String) (expected : List String)
  /-- The text of a value breaks a rule. -/
  | rejected (cause : RuleError)
  | badIdent (text : String)
  /-- The text is not JSON, or not of the expected form. -/
  | malformed
deriving DecidableEq

/-- A value, or why there is none. -/
abbrev Decoded (α : Type) : Type :=
  Except DecodeError α

namespace Decoded

variable {α : Type}

/-- Take a broken rule as a failure to decode. -/
def ofRule : Except RuleError α → Decoded α
  | .ok a => .ok a
  | .error e => .error (.rejected e)

end Decoded

namespace Reading

variable {α : Type}

/-- A string. -/
def asText : Reading → Decoded String
  | string (some s) => .ok s
  | _ => .error .malformed

/-- An id in any of its forms. -/
def asIdent (r : Reading) : Decoded Ident := do
  let s ← r.asText
  match Ident.ofText? s with
  | some id => return id
  | none => throw (.badIdent s)

/-- The value with this name. -/
def named (names : List (String × α)) (name : String) : Decoded α :=
  match names.find? fun e => e.1 == name with
  | some e => .ok e.2
  | none => .error (.unknownVariant name (names.map Prod.fst))

/-- A list. -/
def asList (item : Reading → Decoded α) : Reading → Decoded (List α)
  | array items true => items.mapM item
  | _ => .error .malformed

/-- Decode a whole text: what follows the value is looked at when the value is there. -/
def decodeText (decode : Reading → Decoded α) (s : String) : Decoded α := do
  let (r, ended) := ofText s
  let a ← decode r
  if ended then return a else throw .malformed

end Reading

namespace Status

/-- The statuses by their written names. -/
def names : List (String × Status) :=
  all.map fun s => (s.toText, s)

/-- A status by its name, or as an object with its name as the only key and null as its value. The
key is looked at before the value. -/
def ofReading : Reading → Decoded Status
  | .string (some s) => Reading.named names s
  | .object ((some key, payload) :: more) closed => do
    let status ← Reading.named names key
    match payload, more, closed with
    | .null, [], true => return status
    | _, _, _ => throw .malformed
  | _ => .error .malformed

/-- A status in a value that was read as a whole: an object is counted before its key is looked at,
and an empty object may stand in for null. -/
def ofHeld : Reading → Decoded Status
  | .string (some s) => Reading.named names s
  | .object [(some key, payload)] _ => do
    let status ← Reading.named names key
    match payload with
    | .null | .object [] _ => return status
    | _ => throw .malformed
  | _ => .error .malformed

end Status

/-- How a record is decoded: a check for the value of each field, in the order of the fields, and
the value of the record once all that are there passed. -/
structure RecordDecoder (α : Type) where
  checks : List (String × (Reading → Decoded Unit))
  build : List (String × Reading) → Decoded α

namespace RecordDecoder

variable {α β : Type}

/-- The check that a decoder makes of a field. -/
def check (decode : Reading → Decoded α) (r : Reading) : Decoded Unit :=
  (decode r).map fun _ => ()

/-- The value of a field that has to be there. -/
def required (name : String) (decode : Reading → Decoded α) (fields : List (String × Reading)) :
    Decoded α :=
  match fields.find? fun e => e.1 == name with
  | some e => decode e.2
  | none => .error (.missingField name)

/-- The value of a field that may be missing. -/
def optional (name : String) (decode : Reading → Decoded α) (default : α)
    (fields : List (String × Reading)) : Decoded α :=
  match fields.find? fun e => e.1 == name with
  | some e => decode e.2
  | none => .ok default

/-- Check fields in the order of the text and keep those that the record has. -/
def keep (checks : List (String × (Reading → Decoded Unit))) (seen : List (String × Reading)) :
    List (Option String × Reading) → Decoded (List (String × Reading))
  | [] => .ok seen.reverse
  | (none, _) :: _ => .error .malformed
  | (some key, r) :: more =>
    match checks.find? fun e => e.1 == key with
    | none => keep checks seen more
    | some e =>
      if seen.any fun s => s.1 == key then .error (.duplicateField key)
      else
        match e.2 r with
        | .ok () => keep checks ((key, r) :: seen) more
        | .error failure => .error failure

/-- Decode the fields of an object. -/
def ofFields (d : RecordDecoder α) (fields : List (Option String × Reading)) (closed : Bool) :
    Decoded α := do
  let kept ← keep d.checks [] fields
  if closed then d.build kept else throw .malformed

/-- Decode the items of an array, which stand for the fields in order. -/
def ofItems (d : RecordDecoder α) (items : List Reading) (closed : Bool) : Decoded α := do
  let kept ← keep d.checks [] ((d.checks.map fun e => some e.1).zip items)
  if closed && decide (items.length ≤ d.checks.length) then
    match d.build kept with
    | .error (.missingField _) => throw .malformed
    | result => result
  else throw .malformed

/-- Decode an object or an array. -/
def ofReading (d : RecordDecoder α) : Reading → Decoded α
  | .object fields closed => d.ofFields fields closed
  | .array items closed => d.ofItems items closed
  | _ => .error .malformed

end RecordDecoder

end TeamRoster
