import TeamRoster.Text.Hex

/-!
# Ids

An `Ident` is a 128-bit id, held as its thirty-two hexadecimal digits. It is written in lower case
in groups of 8, 4, 4, 4 and 12 digits. `Ident.ofText?` also reads the plain digits, the grouped form
in braces and the grouped form behind `urn:uuid:`; letters may be in either case.
Main statement: reading what was written gives the id back.
-/

namespace TeamRoster

/-- A 128-bit id as its thirty-two hexadecimal digits, the most significant first. -/
structure Ident where
  digits : List (Fin 16)
  size_eq : digits.length = 32
deriving DecidableEq

namespace Ident

open Text

/-- The number that the digits stand for. Ids are compared by it. -/
def value (i : Ident) : Nat :=
  i.digits.foldl (fun n d => 16 * n + d.val) 0

/-- Order of ids, the same as the order of their bytes. -/
def ble (a b : Ident) : Bool :=
  decide (a.value ≤ b.value)

/-- Set the digits off in groups of 8, 4, 4, 4 and 12. -/
def grouped (cs : List Char) : List Char :=
  cs.take 8 ++ '-' :: ((cs.drop 8).take 4 ++ '-' :: ((cs.drop 12).take 4 ++
    '-' :: ((cs.drop 16).take 4 ++ '-' :: cs.drop 20)))

/-- The grouped lower-case form. -/
def toText (i : Ident) : String :=
  String.ofList (grouped (i.digits.map hexChar))

instance : ToString Ident := ⟨toText⟩

/-- Read exactly thirty-two hexadecimal digits. -/
def ofPlain? (cs : List Char) : Option Ident :=
  match cs.mapM hexDigit? with
  | some ds => if h : ds.length = 32 then some ⟨ds, h⟩ else none
  | none => none

/-- The characters between the hyphens of a grouped form, if the hyphens are where they belong. -/
def ungroup? (cs : List Char) : Option (List Char) :=
  if cs[8]? = some '-' ∧ cs[13]? = some '-' ∧ cs[18]? = some '-' ∧ cs[23]? = some '-' then
    some (cs.take 8 ++ (cs.drop 9).take 4 ++ (cs.drop 14).take 4 ++ (cs.drop 19).take 4 ++
      cs.drop 24)
  else none

/-- Read the grouped form. -/
def ofGrouped? (cs : List Char) : Option Ident :=
  (ungroup? cs).bind ofPlain?

/-- The grouped form inside braces. -/
def ofBraced? : List Char → Option Ident
  | '\x7b' :: cs => if cs.getLast? = some '\x7d' then ofGrouped? cs.dropLast else none
  | _ => none

/-- The grouped form behind `urn:uuid:` in any case. -/
def ofUrn? (cs : List Char) : Option Ident :=
  if (cs.take 9).map Char.toLower = "urn:uuid:".toList then ofGrouped? (cs.drop 9) else none

/-- Read an id in any of its four forms. Nothing is trimmed. -/
def ofText? (s : String) : Option Ident :=
  let cs := s.toList
  ofPlain? cs <|> ofGrouped? cs <|> ofBraced? cs <|> ofUrn? cs

theorem mapM_hexDigit?_map (ds : List (Fin 16)) : (ds.map hexChar).mapM hexDigit? = some ds := by
  induction ds with
  | nil => rfl
  | cons d ds ih => simp [hexDigit?_hexChar, ih]

theorem ofPlain?_map (i : Ident) : ofPlain? (i.digits.map hexChar) = some i := by
  rw [ofPlain?, mapM_hexDigit?_map]
  simp [i.size_eq]

/-- Taking the hyphens out undoes putting them in. -/
theorem ungroup?_grouped {cs : List Char} (h : cs.length = 32) :
    ungroup? (grouped cs) = some cs := by
  have hsplit : cs.take 8 ++ ((cs.drop 8).take 4 ++ ((cs.drop 12).take 4 ++
      ((cs.drop 16).take 4 ++ cs.drop 20))) = cs := by
    have h₁ : (cs.drop 16).take 4 ++ cs.drop 20 = cs.drop 16 := by
      simpa [List.drop_drop] using List.take_append_drop 4 (cs.drop 16)
    have h₂ : (cs.drop 12).take 4 ++ cs.drop 16 = cs.drop 12 := by
      simpa [List.drop_drop] using List.take_append_drop 4 (cs.drop 12)
    have h₃ : (cs.drop 8).take 4 ++ cs.drop 12 = cs.drop 8 := by
      simpa [List.drop_drop] using List.take_append_drop 4 (cs.drop 8)
    rw [h₁, h₂, h₃, List.take_append_drop]
  have hmarks : (grouped cs)[8]? = some '-' ∧ (grouped cs)[13]? = some '-' ∧
      (grouped cs)[18]? = some '-' ∧ (grouped cs)[23]? = some '-' := by
    simp [grouped, h]
  rw [ungroup?, if_pos hmarks, Option.some_inj]
  refine Eq.trans ?_ hsplit
  simp [grouped, List.drop_append, List.drop_take, h]

theorem ofPlain?_eq_none {cs : List Char} (h : '-' ∈ cs) : ofPlain? cs = none := by
  have : cs.mapM hexDigit? = none := by
    induction cs with
    | nil => simp at h
    | cons c cs ih =>
      rcases List.mem_cons.1 h with rfl | hmem
      · simp [show hexDigit? '-' = none from rfl]
      · cases hc : hexDigit? c <;> simp [hc, ih hmem]
  simp [ofPlain?, this]

/-- Reading a written id gives it back. -/
@[simp] theorem ofText?_toText (i : Ident) : ofText? i.toText = some i := by
  have hlen : (i.digits.map hexChar).length = 32 := by simp [i.size_eq]
  have hplain : ofPlain? (grouped (i.digits.map hexChar)) = none :=
    ofPlain?_eq_none (by simp [grouped])
  simp [ofText?, toText, hplain, ofGrouped?, ungroup?_grouped hlen, ofPlain?_map]

end Ident

end TeamRoster
