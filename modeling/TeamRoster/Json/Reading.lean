import TeamRoster.Json.Basic
import TeamRoster.Json.Numeral
import TeamRoster.Text.Hex

/-!
# Reading JSON text

A `Reading` is what there is to be read in a text that may break off: a tree that ends where the
text stops following the grammar of JSON (`broken`, or a list that is not `closed`). Who looks at a
reading in the order of the text meets a value that is wrong before a break that comes later.
Strings with escapes that name no character are read as `string none`. `Json.ofText?` gives the
value of a text that is JSON from end to end.
-/

namespace TeamRoster

/-- What there is to be read in a text, up to where it breaks off. -/
inductive Reading where
  | null
  | bool (value : Bool)
  | number (value : Numeral)
  /-- A string; `none` if half of a surrogate pair stands alone in it. -/
  | string (value : Option String)
  | array (items : List Reading) (closed : Bool)
  | object (fields : List (Option String × Reading)) (closed : Bool)
  /-- The text does not go on with a value. -/
  | broken

namespace Reading

open Text

/-- Drop the white space of JSON. -/
def skip (cs : List Char) : List Char :=
  cs.dropWhile fun c => c == ' ' || c == '\n' || c == '\t' || c == '\r'

/-- A number in four hexadecimal digits. -/
def fourHex? : List Char → Option (Nat × List Char)
  | a :: b :: c :: d :: rest => do
    let a ← hexDigit? a
    let b ← hexDigit? b
    let c ← hexDigit? c
    let d ← hexDigit? d
    some (((a.val * 16 + b.val) * 16 + c.val) * 16 + d.val, rest)
  | _ => none

/-- The second half of a surrogate pair, as an escape. -/
def lowHalf? : List Char → Option (Nat × List Char)
  | '\\' :: 'u' :: cs =>
    match fourHex? cs with
    | some (n, rest) => if 0xDC00 ≤ n ∧ n ≤ 0xDFFF then some (n, rest) else none
    | none => none
  | _ => none

/-- The character named by an escape in hexadecimal digits; `none` for half of a pair alone. -/
def unicodeEscape? (cs : List Char) : Option (Option Char × List Char) :=
  match fourHex? cs with
  | none => none
  | some (n, rest) =>
    if 0xD800 ≤ n ∧ n ≤ 0xDBFF then
      match lowHalf? rest with
      | some (m, rest) =>
        some (some (Char.ofNat (0x10000 + (n - 0xD800) * 0x400 + (m - 0xDC00))), rest)
      | none => some (none, rest)
    else if 0xDC00 ≤ n ∧ n ≤ 0xDFFF then some (none, rest)
    else some (some (Char.ofNat n), rest)

/-- The character that a letter behind a backslash stands for. -/
def shortEscape? : Char → Option Char
  | '"' => some '"'
  | '\\' => some '\\'
  | '/' => some '/'
  | 'b' => some '\x08'
  | 'f' => some '\x0c'
  | 'n' => some '\n'
  | 'r' => some '\r'
  | 't' => some '\t'
  | _ => none

/-- One character of a string, plain or escaped. -/
def stringChar? : List Char → Option (Option Char × List Char)
  | '\\' :: 'u' :: cs => unicodeEscape? cs
  | '\\' :: c :: cs => (shortEscape? c).map fun d => (some d, cs)
  | c :: cs => if c.toNat < 0x20 ∨ c = '"' ∨ c = '\\' then none else some (some c, cs)
  | [] => none

/-- The characters of a string up to its closing quote, which is dropped. -/
def stringBody? : Nat → List Char → Option (List (Option Char) × List Char)
  | 0, _ => none
  | fuel + 1, cs =>
    match cs with
    | '"' :: rest => some ([], rest)
    | _ =>
      match stringChar? cs with
      | none => none
      | some (c, rest) =>
        match stringBody? fuel rest with
        | none => none
        | some (body, rest) => some (c :: body, rest)

/-- A string behind its opening quote. -/
def string? (cs : List Char) : Option (Option String × List Char) :=
  (stringBody? (cs.length + 1) cs).map fun (body, rest) =>
    ((body.mapM id).map String.ofList, rest)

/-- At least one digit, and the rest. -/
def digits? (cs : List Char) : Option (List Char × List Char) :=
  let ds := cs.takeWhile Char.isDigit
  if ds.isEmpty then none else some (ds, cs.dropWhile Char.isDigit)

/-- The digits in front of the point: no zero before another digit. -/
def wholePart? (cs : List Char) : Option (List Char × List Char) :=
  match digits? cs with
  | some (ds, rest) => if ds.head? = some '0' ∧ 1 < ds.length then none else some (ds, rest)
  | none => none

/-- The digits behind the point, if there is one. -/
def fractionPart? : List Char → Option (List Char × List Char)
  | '.' :: cs => digits? cs
  | cs => some ([], cs)

/-- A whole number with an optional sign. -/
def signed? : List Char → Option (Int × List Char)
  | '-' :: cs => (digits? cs).map fun (ds, rest) => (-(digitsValue ds : Int), rest)
  | '+' :: cs => (digits? cs).map fun (ds, rest) => ((digitsValue ds : Int), rest)
  | cs => (digits? cs).map fun (ds, rest) => ((digitsValue ds : Int), rest)

/-- The power of ten, if there is one. -/
def exponentPart? : List Char → Option (Int × List Char)
  | 'e' :: cs => signed? cs
  | 'E' :: cs => signed? cs
  | cs => some (0, cs)

/-- A number behind its sign. -/
def unsigned? (negative : Bool) (cs : List Char) : Option (Numeral × List Char) :=
  match wholePart? cs with
  | none => none
  | some (whole, cs) =>
    match fractionPart? cs with
    | none => none
    | some (fraction, cs) =>
      match exponentPart? cs with
      | none => none
      | some (power, cs) => some ({ negative, whole, fraction, power }, cs)

/-- A number. -/
def number? : List Char → Option (Reading × List Char)
  | '-' :: cs => (unsigned? true cs).map fun (n, rest) => (.number n, rest)
  | cs => (unsigned? false cs).map fun (n, rest) => (.number n, rest)

/-- A value that is not an array or object. -/
def scalar (cs : List Char) : Reading × List Char :=
  match cs with
  | 'n' :: 'u' :: 'l' :: 'l' :: rest => (.null, rest)
  | 't' :: 'r' :: 'u' :: 'e' :: rest => (.bool true, rest)
  | 'f' :: 'a' :: 'l' :: 's' :: 'e' :: rest => (.bool false, rest)
  | '"' :: cs =>
    match string? cs with
    | some (s, rest) => (.string s, rest)
    | none => (.broken, [])
  | _ =>
    match number? cs with
    | some (n, rest) => (n, rest)
    | none => (.broken, [])

mutual

/-- A value at the start of a text, and what is left behind it. -/
def value : Nat → List Char → Reading × List Char
  | 0, _ => (.broken, [])
  | fuel + 1, cs =>
    match skip cs with
    | '[' :: cs =>
      match skip cs with
      | ']' :: rest => (.array [] true, rest)
      | _ =>
        let (items, closed, rest) := items fuel cs
        (.array items closed, rest)
    | '{' :: cs =>
      match skip cs with
      | '}' :: rest => (.object [] true, rest)
      | _ =>
        let (fields, closed, rest) := fields fuel cs
        (.object fields closed, rest)
    | cs => scalar cs

/-- The items of an array that is not empty, up to its closing bracket. -/
def items : Nat → List Char → List Reading × Bool × List Char
  | 0, _ => ([], false, [])
  | fuel + 1, cs =>
    let (item, rest) := value fuel cs
    match skip rest with
    | ',' :: rest =>
      let (more, closed, rest) := items fuel rest
      (item :: more, closed, rest)
    | ']' :: rest => ([item], true, rest)
    | _ => ([item], false, [])

/-- The fields of an object that is not empty, up to its closing brace. -/
def fields : Nat → List Char → List (Option String × Reading) × Bool × List Char
  | 0, _ => ([], false, [])
  | fuel + 1, cs =>
    match skip cs with
    | '"' :: cs =>
      match string? cs with
      | none => ([], false, [])
      | some (key, rest) =>
        match skip rest with
        | ':' :: rest =>
          let (item, rest) := value fuel rest
          match skip rest with
          | ',' :: rest =>
            let (more, closed, rest) := fields fuel rest
            ((key, item) :: more, closed, rest)
          | '}' :: rest => ([(key, item)], true, rest)
          | _ => ([(key, item)], false, [])
        | _ => ([(key, .broken)], false, [])
    | _ => ([], false, [])

end

/-- The reading of a text, and whether nothing but white space follows. Every step of reading takes
a character or goes one level down, so that twice the length of the text is enough of them. -/
def ofText (s : String) : Reading × Bool :=
  let (r, rest) := value (2 * s.length + 2) s.toList
  (r, (skip rest).isEmpty)

mutual

/-- The value of a reading that does not break off and holds only strings of characters. -/
def toJson? : Reading → Option Json
  | null => some .null
  | bool b => some (.bool b)
  | number n => some (.number n.mantissa n.exponent)
  | string (some s) => some (.string s)
  | string none => none
  | array items closed => if closed then (itemsToJson? items).map .array else none
  | object fields closed => if closed then (fieldsToJson? fields).map .object else none
  | broken => none

/-- The values of all items. -/
def itemsToJson? : List Reading → Option (List Json)
  | [] => some []
  | item :: items => do
    let item ← toJson? item
    let items ← itemsToJson? items
    return item :: items

/-- The values of all fields. -/
def fieldsToJson? : List (Option String × Reading) → Option (List (String × Json))
  | [] => some []
  | (key, item) :: fields => do
    let key ← key
    let item ← toJson? item
    let fields ← fieldsToJson? fields
    return (key, item) :: fields

end

mutual

/-- Whether a reading can be kept as a value: it does not break off, its strings and numbers can be
held, and it is nested at most so deep. -/
def isHeld : Nat → Reading → Bool
  | _, null => true
  | _, bool _ => true
  | _, number n => n.inDoubleRange
  | _, string s => s.isSome
  | depth, array items closed => decide (1 ≤ depth) && itemsHeld (depth - 1) items && closed
  | depth, object fields closed => decide (1 ≤ depth) && fieldsHeld (depth - 1) fields && closed
  | _, broken => false

/-- Whether all items can be kept. -/
def itemsHeld : Nat → List Reading → Bool
  | _, [] => true
  | depth, item :: items => isHeld depth item && itemsHeld depth items

/-- Whether all fields can be kept. -/
def fieldsHeld : Nat → List (Option String × Reading) → Bool
  | _, [] => true
  | depth, (key, item) :: fields => key.isSome && isHeld depth item && fieldsHeld depth fields

end

end Reading

/-- The value of a text that is JSON from end to end. -/
def Json.ofText? (s : String) : Option Json :=
  let (r, ended) := Reading.ofText s
  if ended then r.toJson? else none

end TeamRoster
