/-!
# JSON values and their text

A JSON value, with the fields of an object in order, and its compact text: no spaces, and only what
has to be escaped is escaped. `Json.write` puts the text in front of a rest, so that texts of parts
are composed without copying.
-/

namespace TeamRoster

/-- A JSON value. A number is a whole number times a power of ten. -/
inductive Json where
  | null
  | bool (value : Bool)
  | number (mantissa exponent : Int)
  | string (value : String)
  | array (items : List Json)
  | object (fields : List (String × Json))

namespace Json

/-- A whole number. -/
def ofInt (n : Int) : Json :=
  number n 0

/-- A natural number. -/
def ofNat (n : Nat) : Json :=
  number n 0

/-- The lower-case hexadecimal digit of a number below sixteen. -/
def hexOf (n : Nat) : Char :=
  Nat.digitChar (n % 16)

/-- A character inside a string. Quotes, backslashes and control characters are escaped; five of the
control characters have escapes of their own. -/
def writeChar (c : Char) (rest : List Char) : List Char :=
  if c = '"' then '\\' :: '"' :: rest
  else if c = '\\' then '\\' :: '\\' :: rest
  else if c.toNat < 0x20 then
    if c = '\n' then '\\' :: 'n' :: rest
    else if c = '\r' then '\\' :: 'r' :: rest
    else if c = '\t' then '\\' :: 't' :: rest
    else if c.toNat = 8 then '\\' :: 'b' :: rest
    else if c.toNat = 12 then '\\' :: 'f' :: rest
    else '\\' :: 'u' :: '0' :: '0' :: hexOf (c.toNat / 16) :: hexOf c.toNat :: rest
  else c :: rest

/-- A string in quotes. -/
def writeString (s : String) (rest : List Char) : List Char :=
  '"' :: s.toList.foldr writeChar ('"' :: rest)

/-- A whole number in decimal digits. -/
def writeInt (n : Int) (rest : List Char) : List Char :=
  match n with
  | .ofNat n => Nat.toDigits 10 n ++ rest
  | .negSucc n => '-' :: Nat.toDigits 10 (n + 1) ++ rest

/-- A number; the power of ten is written where it is not one. -/
def writeNumber (mantissa exponent : Int) (rest : List Char) : List Char :=
  writeInt mantissa (if exponent = 0 then rest else 'e' :: writeInt exponent rest)

mutual

/-- The text of a value, in front of a rest. -/
def write : Json → List Char → List Char
  | null, rest => 'n' :: 'u' :: 'l' :: 'l' :: rest
  | bool true, rest => 't' :: 'r' :: 'u' :: 'e' :: rest
  | bool false, rest => 'f' :: 'a' :: 'l' :: 's' :: 'e' :: rest
  | number mantissa exponent, rest => writeNumber mantissa exponent rest
  | string value, rest => writeString value rest
  | array [], rest => '[' :: ']' :: rest
  | array (item :: items), rest => '[' :: write item (writeItems items rest)
  | object [], rest => '{' :: '}' :: rest
  | object ((key, value) :: fields), rest =>
    '{' :: writeString key (':' :: write value (writeFields fields rest))

/-- The items behind the first one, up to the closing bracket. -/
def writeItems : List Json → List Char → List Char
  | [], rest => ']' :: rest
  | item :: items, rest => ',' :: write item (writeItems items rest)

/-- The fields behind the first one, up to the closing brace. -/
def writeFields : List (String × Json) → List Char → List Char
  | [], rest => '}' :: rest
  | (key, value) :: fields, rest =>
    ',' :: writeString key (':' :: write value (writeFields fields rest))

end

/-- The compact text of a value. -/
def toText (j : Json) : String :=
  String.ofList (j.write [])

end Json

end TeamRoster
