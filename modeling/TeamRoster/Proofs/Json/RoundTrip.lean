import TeamRoster.Json.Reading
import TeamRoster.Proofs.Json.Writing

/-!
# Reading JSON text that was written

What `Json.write` puts in front of a rest is read back by the reader, which then stands before the
rest. Main statement: `Json.ofText?_toText`, for every value. A number could be read on into the
rest, so that the rest is asked not to go on with one (`Reading.Ends`); what follows a value inside
an array or an object never does. The reader is given enough steps if it has two for each character
that it takes.
-/

namespace TeamRoster

namespace Reading

open Text

variable {c : Char} {rest : List Char}

/-- A character that can follow a number without being taken for a part of it. -/
def isEnd (c : Char) : Bool :=
  !c.isDigit && c != '.' && c != 'e' && c != 'E'

/-- The text does not go on with a number. -/
def Ends (rest : List Char) : Prop :=
  ∀ c ∈ rest.head?, isEnd c = true

theorem ends_nil : Ends [] := by
  simp [Ends]

theorem ends_cons (h : isEnd c = true) : Ends (c :: rest) := by
  simpa [Ends] using h

section Numbers

theorem takeWhile_digits (n : Nat) (hrest : ∀ c ∈ rest.head?, c.isDigit = false) :
    (digits n ++ rest).takeWhile Char.isDigit = digits n ∧
      (digits n ++ rest).dropWhile Char.isDigit = rest := by
  have hdigits : ∀ c ∈ digits n, c.isDigit = true := fun c hc => isDigit_of_mem_digits hc
  rw [List.takeWhile_append_of_pos hdigits, List.dropWhile_append_of_pos hdigits]
  cases rest with
  | nil => simp
  | cons c cs =>
      have hc : c.isDigit = false := hrest c rfl
      simp [hc]

/-- Digits are read up to what is not a digit. -/
theorem digits?_digits (n : Nat) (hrest : ∀ c ∈ rest.head?, c.isDigit = false) :
    digits? (digits n ++ rest) = some (digits n, rest) := by
  obtain ⟨htake, hdrop⟩ := takeWhile_digits n hrest
  simp [digits?, htake, hdrop, digits_ne_nil]

/-- A number is written without a zero in front, unless it is zero. -/
theorem head?_digits {n : Nat} (h : (digits n).head? = some '0') : n = 0 := by
  induction n using Nat.strongRecOn with
  | ind n ih =>
      unfold digits at h ih
      rcases Nat.lt_or_ge n 10 with hn | hn
      · rw [Nat.toDigits_of_lt_base hn] at h
        exact Nat.digitChar_eq_zero.1 (Option.some.inj h)
      · rw [Nat.toDigits_of_base_le (by decide) hn, List.head?_append] at h
        cases hhead : (Nat.toDigits 10 (n / 10)).head? with
        | none => exact absurd (List.head?_eq_none_iff.1 hhead) Nat.toDigits_ne_nil
        | some d =>
            rw [hhead] at h
            have hzero := ih (n / 10) (by omega) (hhead.trans h)
            omega

theorem wholePart?_digits (n : Nat) (hrest : ∀ c ∈ rest.head?, c.isDigit = false) :
    wholePart? (digits n ++ rest) = some (digits n, rest) := by
  rw [wholePart?, digits?_digits n hrest]
  refine if_neg ?_
  rintro ⟨hhead, hlength⟩
  rw [head?_digits hhead] at hlength
  revert hlength
  decide

theorem fractionPart?_of_ne (h : ∀ c ∈ rest.head?, c ≠ '.') :
    fractionPart? rest = some ([], rest) := by
  unfold fractionPart?
  split
  · exact absurd rfl (h '.' rfl)
  · rfl

theorem head?_digits_append (n : Nat) (rest : List Char) :
    ∃ d cs, digits n ++ rest = d :: cs ∧ d.isDigit = true := by
  cases hd : digits n with
  | nil => exact absurd hd (digits_ne_nil n)
  | cons d ds => exact ⟨d, ds ++ rest, rfl, isDigit_of_mem_digits (hd ▸ List.mem_cons_self)⟩

/-- A text that starts with a digit does not start with any other character. -/
theorem ne_of_isDigit {d e : Char} (hd : d.isDigit = true) (he : e.isDigit = false) : d ≠ e := by
  rintro rfl
  rw [hd] at he
  cases he

/-- A whole number is read back with its sign. -/
theorem signed?_writeInt (n : Int) (hrest : ∀ c ∈ rest.head?, c.isDigit = false) :
    signed? (Json.writeInt n rest) = some (n, rest) := by
  cases n with
  | negSucc n =>
      have hread : digits? (Nat.toDigits 10 (n + 1) ++ rest) = some (digits (n + 1), rest) :=
        digits?_digits (n + 1) hrest
      rw [Json.writeInt, List.cons_append, signed?, hread]
      simp [digitsValue_digits, Int.negSucc_eq]
  | ofNat n =>
      obtain ⟨d, cs, hcs, hd⟩ := head?_digits_append n rest
      have hread := digits?_digits n hrest
      rw [Json.writeInt, show Nat.toDigits 10 n = digits n from rfl]
      rw [hcs] at hread ⊢
      rw [signed?, hread]
      · simp [digitsValue_digits]
      · intro cs' heq
        exact ne_of_isDigit hd (by decide) (List.cons.inj heq).1
      · intro cs' heq
        exact ne_of_isDigit hd (by decide) (List.cons.inj heq).1

theorem exponentPart?_of_ne (h : ∀ c ∈ rest.head?, c ≠ 'e' ∧ c ≠ 'E') :
    exponentPart? rest = some (0, rest) := by
  unfold exponentPart?
  split
  · exact absurd rfl (h 'e' rfl).1
  · exact absurd rfl (h 'E' rfl).2
  · rfl

/-- The power of ten behind a number, which is left out if it is zero. -/
def writePower (exponent : Int) (rest : List Char) : List Char :=
  if exponent = 0 then rest else 'e' :: Json.writeInt exponent rest

theorem Ends.not_digit (h : Ends rest) : ∀ c ∈ rest.head?, c.isDigit = false := by
  intro c hc
  have hend := h c hc
  simp only [isEnd, Bool.and_eq_true, Bool.not_eq_true'] at hend
  exact hend.1.1.1

theorem exponentPart?_writePower (exponent : Int) (hrest : Ends rest) :
    exponentPart? (writePower exponent rest) = some (exponent, rest) := by
  unfold writePower
  split
  · rename_i hzero
    rw [hzero]
    refine exponentPart?_of_ne fun c hc => ?_
    have hend := hrest c hc
    simp only [isEnd, Bool.and_eq_true, bne_iff_ne] at hend
    exact ⟨hend.1.2, hend.2⟩
  · rw [exponentPart?]
    exact signed?_writeInt exponent hrest.not_digit

/-- The power of ten is not taken for more digits, nor for a fraction. -/
theorem head_writePower (exponent : Int) (hrest : Ends rest) :
    ∀ c ∈ (writePower exponent rest).head?, c.isDigit = false ∧ c ≠ '.' := by
  intro c hc
  unfold writePower at hc
  split at hc
  · have hend := hrest c hc
    simp only [isEnd, Bool.and_eq_true, Bool.not_eq_true', bne_iff_ne] at hend
    exact ⟨hend.1.1.1, hend.1.1.2⟩
  · cases hc
    decide

/-- The parts of a number that was written. -/
def numeral (mantissa exponent : Int) : Numeral where
  negative := decide (mantissa < 0)
  whole := digits mantissa.natAbs
  fraction := []
  power := exponent

theorem mantissa_numeral (mantissa exponent : Int) :
    (numeral mantissa exponent).mantissa = mantissa := by
  simp only [Numeral.mantissa, numeral, List.append_nil, digitsValue_digits, decide_eq_true_eq]
  split <;> omega

theorem exponent_numeral (mantissa exponent : Int) :
    (numeral mantissa exponent).exponent = exponent := by
  simp [Numeral.exponent, numeral]

theorem unsigned?_digits (negative : Bool) (n : Nat) (exponent : Int) (hrest : Ends rest) :
    unsigned? negative (digits n ++ writePower exponent rest) =
      some ({ negative, whole := digits n, fraction := [], power := exponent }, rest) := by
  have hhead := head_writePower exponent hrest
  simp only [unsigned?, wholePart?_digits n fun c hc => (hhead c hc).1,
    fractionPart?_of_ne fun c hc => (hhead c hc).2, exponentPart?_writePower exponent hrest]

theorem number?_writeNumber (mantissa exponent : Int) (hrest : Ends rest) :
    number? (Json.writeNumber mantissa exponent rest) =
      some (.number (numeral mantissa exponent), rest) := by
  rw [Json.writeNumber]
  change number? (Json.writeInt mantissa (writePower exponent rest)) = _
  cases mantissa with
  | negSucc n =>
      have hread := unsigned?_digits true (n + 1) exponent hrest
      rw [Json.writeInt, List.cons_append, number?]
      change (unsigned? true (digits (n + 1) ++ writePower exponent rest)).map _ = _
      rw [hread]
      simp [numeral, Int.negSucc_lt_zero]
  | ofNat n =>
      obtain ⟨d, cs, hcs, hd⟩ := head?_digits_append n (writePower exponent rest)
      have hread := unsigned?_digits false n exponent hrest
      rw [Json.writeInt, show Nat.toDigits 10 n = digits n from rfl]
      rw [hcs] at hread ⊢
      rw [number?, hread]
      · rfl
      · intro cs' heq
        exact ne_of_isDigit hd (by decide) (List.cons.inj heq).1

/-- A number starts with a digit or a minus. -/
theorem head_writeNumber (mantissa exponent : Int) (rest : List Char) :
    ∃ c cs, Json.writeNumber mantissa exponent rest = c :: cs ∧ (c.isDigit = true ∨ c = '-') := by
  rw [Json.writeNumber]
  cases mantissa with
  | negSucc n => exact ⟨'-', _, rfl, .inr rfl⟩
  | ofNat n =>
      obtain ⟨d, cs, hcs, hd⟩ := head?_digits_append n (writePower exponent rest)
      exact ⟨d, cs, hcs, .inl hd⟩

end Numbers

section Strings

theorem fourHex?_control {n : Nat} (h : n < 0x20) (rest : List Char) :
    fourHex? ('0' :: '0' :: Json.hexOf (n / 16) :: Json.hexOf n :: rest) = some (n, rest) := by
  have hzero : hexDigit? '0' = some 0 := by decide
  have hhigh : hexDigit? (Json.hexOf (n / 16)) = some ⟨n / 16 % 16, by omega⟩ :=
    hexDigit?_hexChar ⟨n / 16 % 16, by omega⟩
  have hlow : hexDigit? (Json.hexOf n) = some ⟨n % 16, by omega⟩ :=
    hexDigit?_hexChar ⟨n % 16, by omega⟩
  simp only [fourHex?, hzero, hhigh, hlow, Option.bind_eq_bind, Option.bind_some, Option.some.injEq,
    Prod.mk.injEq, and_true]
  simp only [Fin.val_zero]
  omega

/-- A character is read back, plain or escaped. -/
theorem stringChar?_writeChar (c : Char) (rest : List Char) :
    stringChar? (Json.writeChar c rest) = some (some c, rest) := by
  unfold Json.writeChar
  split
  · rename_i h
    rw [h]
    rfl
  split
  · rename_i h
    rw [h]
    rfl
  split
  · rename_i hcontrol
    split
    · rename_i h
      rw [h]
      rfl
    split
    · rename_i h
      rw [h]
      rfl
    split
    · rename_i h
      rw [h]
      rfl
    split
    · rename_i h
      rw [← Char.ofNat_toNat c, h]
      rfl
    split
    · rename_i h
      rw [← Char.ofNat_toNat c, h]
      rfl
    · have hlow : ¬(0xD800 ≤ c.toNat ∧ c.toNat ≤ 0xDBFF) := by omega
      have hhigh : ¬(0xDC00 ≤ c.toNat ∧ c.toNat ≤ 0xDFFF) := by omega
      simp [stringChar?, unicodeEscape?, fourHex?_control hcontrol, hlow, hhigh]
  · rename_i hquote hbackslash hcontrol
    have hplain : ¬(c.toNat < 0x20 ∨ c = '"' ∨ c = '\\') := by
      rintro (h | h | h)
      · exact hcontrol h
      · exact hquote h
      · exact hbackslash h
    rw [stringChar?]
    · exact if_neg hplain
    · intro cs hc _
      exact hbackslash hc
    · intro d cs hc _
      exact hbackslash hc

/-- A character in a string starts with itself or a backslash, and never with a quote. -/
theorem head_writeChar (c : Char) (rest : List Char) :
    ∃ d cs, Json.writeChar c rest = d :: cs ∧ (d = '\\' ∨ d = c ∧ c ≠ '"') ∧
      rest.length ≤ cs.length := by
  unfold Json.writeChar
  split
  · exact ⟨_, _, rfl, .inl rfl, by simp⟩
  split
  · exact ⟨_, _, rfl, .inl rfl, by simp⟩
  split
  · repeat' split
    all_goals exact ⟨_, _, rfl, .inl rfl, by simp; try omega⟩
  · rename_i hquote _ _
    exact ⟨_, _, rfl, .inr ⟨rfl, hquote⟩, Nat.le_refl _⟩

/-- The characters of a string are read back up to the closing quote. -/
theorem stringBody?_writeChar {fuel : Nat} {s rest : List Char} (hfuel : s.length < fuel) :
    stringBody? fuel (s.foldr Json.writeChar ('"' :: rest)) = some (s.map some, rest) := by
  induction s generalizing fuel with
  | nil =>
      obtain ⟨fuel, rfl⟩ := Nat.exists_eq_succ_of_ne_zero (Nat.ne_of_gt hfuel)
      rfl
  | cons c s ih =>
      obtain ⟨fuel, rfl⟩ := Nat.exists_eq_succ_of_ne_zero (Nat.ne_of_gt (Nat.zero_lt_of_lt hfuel))
      have hrest : stringBody? fuel (s.foldr Json.writeChar ('"' :: rest)) =
          some (s.map some, rest) := ih (by rw [List.length_cons] at hfuel; omega)
      have hchar := stringChar?_writeChar c (s.foldr Json.writeChar ('"' :: rest))
      obtain ⟨d, cs, hcs, hd, -⟩ := head_writeChar c (s.foldr Json.writeChar ('"' :: rest))
      have hquote : d ≠ '"' := by
        rcases hd with rfl | ⟨rfl, hc⟩
        · decide
        · exact hc
      rw [List.foldr_cons]
      rw [hcs] at hchar ⊢
      rw [stringBody?]
      · rw [hchar]
        simp only [hrest]
        rfl
      · intro cs' heq
        exact hquote (List.cons.inj heq).1

theorem length_foldr_writeChar (s rest : List Char) :
    s.length + rest.length ≤ (s.foldr Json.writeChar rest).length := by
  induction s with
  | nil => simp
  | cons c s ih =>
      obtain ⟨d, cs, hcs, -, hle⟩ := head_writeChar c (s.foldr Json.writeChar rest)
      rw [List.foldr_cons, hcs, List.length_cons, List.length_cons]
      omega

theorem mapM_map_some (s : List Char) : (s.map some).mapM id = some s := by
  induction s with
  | nil => rfl
  | cons c s ih => simp [ih]

/-- A string is read back behind its opening quote. -/
theorem string?_writeString (s : String) (rest : List Char) :
    string? (s.toList.foldr Json.writeChar ('"' :: rest)) = some (some s, rest) := by
  have hlength := length_foldr_writeChar s.toList ('"' :: rest)
  have hbody : stringBody? ((s.toList.foldr Json.writeChar ('"' :: rest)).length + 1)
      (s.toList.foldr Json.writeChar ('"' :: rest)) = some (s.toList.map some, rest) :=
    stringBody?_writeChar (by omega)
  simp only [string?, hbody, Option.map_some, mapM_map_some, String.ofList_toList]

end Strings

section Values

/-- White space between the parts of a value. -/
def isBlank (c : Char) : Bool :=
  c == ' ' || c == '\n' || c == '\t' || c == '\r'

theorem skip_cons (h : isBlank c = false) : skip (c :: rest) = c :: rest := by
  change List.dropWhile isBlank (c :: rest) = _
  rw [List.dropWhile_cons, h]
  rfl

theorem isBlank_of_isDigit (h : c.isDigit = true) : isBlank c = false := by
  simp [isBlank, ne_of_isDigit h (show ' '.isDigit = false from rfl),
    ne_of_isDigit h (show '\n'.isDigit = false from rfl),
    ne_of_isDigit h (show '\t'.isDigit = false from rfl),
    ne_of_isDigit h (show '\r'.isDigit = false from rfl)]

/-- What is written starts with neither white space nor a closing bracket. -/
theorem head_write (j : Json) (rest : List Char) :
    ∃ c cs, j.write rest = c :: cs ∧ isBlank c = false ∧ c ≠ ']' := by
  cases j with
  | null | string s => exact ⟨_, _, rfl, by decide⟩
  | bool b => cases b <;> exact ⟨_, _, rfl, by decide⟩
  | array items => cases items <;> exact ⟨_, _, rfl, by decide⟩
  | object fields =>
      cases fields with
      | nil => exact ⟨_, _, rfl, by decide⟩
      | cons field fields => exact ⟨_, _, rfl, by decide⟩
  | number mantissa exponent =>
      obtain ⟨c, cs, hcs, hc⟩ := head_writeNumber mantissa exponent rest
      rcases hc with hc | rfl
      · exact ⟨c, cs, hcs, isBlank_of_isDigit hc, ne_of_isDigit hc (by decide)⟩
      · exact ⟨_, cs, hcs, by decide⟩

/-- What is written is longer than the rest. -/
theorem length_write (j : Json) (rest : List Char) : rest.length < (j.write rest).length := by
  obtain ⟨text, htext, -⟩ := j.plain_write
  obtain ⟨c, cs, hcs, -⟩ := head_write j []
  have hne : 0 < text.length := by
    rw [htext, List.append_nil] at hcs
    rw [hcs, List.length_cons]
    omega
  rw [htext, List.length_append]
  omega

/-- A value is read back from what was written, with two steps for each of its characters. -/
def Reads (j : Json) : Prop :=
  ∀ fuel rest, Ends rest → 2 * (j.write rest).length ≤ fuel + 2 * rest.length →
    ∃ r, value fuel (j.write rest) = (r, rest) ∧ r.toJson? = some j

theorem length_writeItems (items : List Json) (rest : List Char) :
    rest.length < (Json.writeItems items rest).length := by
  induction items with
  | nil => exact Nat.lt_succ_self _
  | cons item items ih =>
      have hitem := length_write item (Json.writeItems items rest)
      rw [Json.writeItems, List.length_cons]
      omega

/-- The items of an array are read back up to the closing bracket. -/
theorem reads_items {item : Json} {more : List Json} (hitem : Reads item)
    (hmore : ∀ j ∈ more, Reads j) (fuel : Nat) (rest : List Char)
    (hfuel : 2 * (item.write (Json.writeItems more rest)).length ≤ fuel + 2 * rest.length) :
    ∃ rs, items fuel (item.write (Json.writeItems more rest)) = (rs, true, rest) ∧
      itemsToJson? rs = some (item :: more) := by
  induction more generalizing item fuel with
  | nil =>
      have hlength := length_write item (']' :: rest)
      simp only [Json.writeItems, List.length_cons] at hfuel hlength ⊢
      obtain ⟨steps, rfl⟩ : ∃ steps, fuel = steps + 1 := ⟨fuel - 1, by omega⟩
      obtain ⟨r, hr, hjson⟩ := hitem steps (']' :: rest) (ends_cons (by decide))
        (by rw [List.length_cons]; omega)
      refine ⟨[r], ?_, by simp [itemsToJson?, hjson]⟩
      rw [items, hr]
      simp only [skip_cons (show isBlank ']' = false from rfl)]
  | cons next more ih =>
      rw [List.forall_mem_cons] at hmore
      have hlength := length_write item (',' :: next.write (Json.writeItems more rest))
      have hnext := length_write next (Json.writeItems more rest)
      have hmore' := length_writeItems more rest
      simp only [Json.writeItems, List.length_cons] at hfuel hlength ⊢
      obtain ⟨steps, rfl⟩ : ∃ steps, fuel = steps + 1 := ⟨fuel - 1, by omega⟩
      obtain ⟨r, hr, hjson⟩ := hitem steps (',' :: next.write (Json.writeItems more rest))
        (ends_cons (by decide)) (by rw [List.length_cons]; omega)
      obtain ⟨rs, hrs, hjsons⟩ := ih hmore.1 hmore.2 steps (by omega)
      refine ⟨r :: rs, ?_, by simp [itemsToJson?, hjson, hjsons]⟩
      rw [items, hr]
      simp only [skip_cons (show isBlank ',' = false from rfl), hrs]

theorem length_writeString (s : String) (rest : List Char) :
    rest.length < (Json.writeString s rest).length := by
  have hlength := length_foldr_writeChar s.toList ('"' :: rest)
  rw [Json.writeString, List.length_cons]
  rw [List.length_cons] at hlength
  omega

theorem length_writeFields (fields : List (String × Json)) (rest : List Char) :
    rest.length < (Json.writeFields fields rest).length := by
  induction fields with
  | nil => exact Nat.lt_succ_self _
  | cons field fields ih =>
      have hvalue := length_write field.2 (Json.writeFields fields rest)
      have hkey := length_writeString field.1 (':' :: field.2.write (Json.writeFields fields rest))
      rw [Json.writeFields, List.length_cons]
      rw [List.length_cons] at hkey
      omega

/-- The last field of an object. -/
theorem fields_last {fuel : Nat} {key : String} {text rest : List Char} {r : Reading}
    (hvalue : value fuel text = (r, '}' :: rest)) :
    fields (fuel + 1) (Json.writeString key (':' :: text)) = ([(some key, r)], true, rest) := by
  rw [Json.writeString, fields]
  simp only [skip_cons (show isBlank '"' = false from rfl), string?_writeString,
    skip_cons (show isBlank ':' = false from rfl), hvalue,
    skip_cons (show isBlank '}' = false from rfl)]

/-- A field that is followed by others. -/
theorem fields_next {fuel : Nat} {key : String} {text more rest : List Char} {r : Reading}
    {rs : List (Option String × Reading)} (hvalue : value fuel text = (r, ',' :: more))
    (hmore : fields fuel more = (rs, true, rest)) :
    fields (fuel + 1) (Json.writeString key (':' :: text)) =
      ((some key, r) :: rs, true, rest) := by
  rw [Json.writeString, fields]
  simp only [skip_cons (show isBlank '"' = false from rfl), string?_writeString,
    skip_cons (show isBlank ':' = false from rfl), hvalue,
    skip_cons (show isBlank ',' = false from rfl), hmore]

/-- The fields of an object are read back up to the closing brace. -/
theorem reads_fields (key : String) {item : Json} {more : List (String × Json)}
    (hitem : Reads item) (hmore : ∀ f ∈ more, Reads f.2) (fuel : Nat) (rest : List Char)
    (hfuel : 2 * (Json.writeString key (':' :: item.write (Json.writeFields more rest))).length ≤
      fuel + 2 * rest.length) :
    ∃ rs, fields fuel (Json.writeString key (':' :: item.write (Json.writeFields more rest))) =
        (rs, true, rest) ∧ fieldsToJson? rs = some ((key, item) :: more) := by
  induction more generalizing key item fuel with
  | nil =>
      have hkey := length_writeString key (':' :: item.write ('}' :: rest))
      have hlength := length_write item ('}' :: rest)
      simp only [Json.writeFields, List.length_cons] at hfuel hkey hlength ⊢
      obtain ⟨steps, rfl⟩ : ∃ steps, fuel = steps + 1 := ⟨fuel - 1, by omega⟩
      obtain ⟨r, hr, hjson⟩ := hitem steps ('}' :: rest) (ends_cons (by decide))
        (by rw [List.length_cons]; omega)
      exact ⟨[(some key, r)], fields_last hr, by simp [fieldsToJson?, hjson]⟩
  | cons next more ih =>
      obtain ⟨name, next⟩ := next
      rw [List.forall_mem_cons] at hmore
      rw [Json.writeFields] at hfuel ⊢
      have htail := length_writeFields more rest
      have hnext := length_write next (Json.writeFields more rest)
      have hname := length_writeString name (':' :: next.write (Json.writeFields more rest))
      generalize htext : Json.writeString name (':' :: next.write (Json.writeFields more rest)) =
        text at hfuel hname ⊢
      have hlength := length_write item (',' :: text)
      have hkey := length_writeString key (':' :: item.write (',' :: text))
      simp only [List.length_cons] at hname hlength hkey
      obtain ⟨steps, rfl⟩ : ∃ steps, fuel = steps + 1 := ⟨fuel - 1, by omega⟩
      obtain ⟨r, hr, hjson⟩ := hitem steps (',' :: text) (ends_cons (by decide))
        (by rw [List.length_cons]; omega)
      obtain ⟨rs, hrs, hjsons⟩ := ih name hmore.1 hmore.2 steps (by rw [htext]; omega)
      rw [htext] at hrs
      exact ⟨(some key, r) :: rs, fields_next hr hrs, by simp [fieldsToJson?, hjson, hjsons]⟩

/-- Scalars are read without going a level down. -/
theorem value_scalar {fuel : Nat} {cs : List Char} (hcs : ∃ c rest, cs = c :: rest ∧
    isBlank c = false ∧ c ≠ '[' ∧ c ≠ '{') : value (fuel + 1) cs = scalar cs := by
  obtain ⟨c, rest, rfl, hblank, harray, hobject⟩ := hcs
  rw [value, skip_cons hblank]
  split
  · rename_i heq
    exact absurd (List.cons.inj heq).1 harray
  · rename_i heq
    exact absurd (List.cons.inj heq).1 hobject
  · rfl

/-- A number is not taken for a word or a string. -/
theorem scalar_writeNumber (mantissa exponent : Int) (hrest : Ends rest) :
    scalar (Json.writeNumber mantissa exponent rest) =
      (.number (numeral mantissa exponent), rest) := by
  have hread := number?_writeNumber mantissa exponent hrest
  obtain ⟨c, cs, hcs, hc⟩ := head_writeNumber mantissa exponent rest
  have hother : ∀ d : Char, d.isDigit = false → d ≠ '-' → c ≠ d := by
    rintro d hd hminus rfl
    rcases hc with hc | hc
    · exact ne_of_isDigit hc hd rfl
    · exact hminus hc
  rw [hcs] at hread ⊢
  unfold scalar
  split
  · exact absurd (List.cons.inj ‹_›).1 (hother 'n' (by decide) (by decide))
  · exact absurd (List.cons.inj ‹_›).1 (hother 't' (by decide) (by decide))
  · exact absurd (List.cons.inj ‹_›).1 (hother 'f' (by decide) (by decide))
  · exact absurd (List.cons.inj ‹_›).1 (hother '"' (by decide) (by decide))
  · rw [hread]

/-- There is always a step left to start a value with. -/
theorem reads_of_step {j : Json} (h : ∀ steps rest, Ends rest →
    2 * (j.write rest).length ≤ steps + 1 + 2 * rest.length →
    ∃ r, value (steps + 1) (j.write rest) = (r, rest) ∧ r.toJson? = some j) : Reads j := by
  intro fuel rest hrest hfuel
  have hlength := length_write j rest
  obtain ⟨steps, rfl⟩ : ∃ steps, fuel = steps + 1 := ⟨fuel - 1, by omega⟩
  exact h steps rest hrest hfuel

/-- An array that does not close at once has items. -/
theorem value_array {fuel : Nat} {cs : List Char} {rs : List Reading}
    (hblank : isBlank c = false) (hclose : c ≠ ']')
    (hitems : items fuel (c :: cs) = (rs, true, rest)) :
    value (fuel + 1) ('[' :: c :: cs) = (.array rs true, rest) := by
  rw [value, skip_cons (by decide)]
  simp only [skip_cons hblank, hitems]
  split
  · exact absurd (List.cons.inj ‹_›).1 hclose
  · rfl

/-- An object that does not close at once has fields. -/
theorem value_object {fuel : Nat} {cs : List Char} {rs : List (Option String × Reading)}
    (hfields : fields fuel ('"' :: cs) = (rs, true, rest)) :
    value (fuel + 1) ('\x7b' :: '"' :: cs) = (.object rs true, rest) := by
  rw [value, skip_cons (by decide)]
  simp [skip_cons (show isBlank '"' = false from rfl), hfields]

theorem reads_array {items : List Json} (h : ∀ j ∈ items, Reads j) : Reads (.array items) := by
  refine reads_of_step fun steps rest _ hfuel => ?_
  cases items with
  | nil =>
      refine ⟨.array [] true, ?_, rfl⟩
      rw [Json.write, value, skip_cons (by decide)]
      simp only [skip_cons (show isBlank ']' = false from rfl)]
  | cons item more =>
      rw [List.forall_mem_cons] at h
      rw [Json.write, List.length_cons] at hfuel
      obtain ⟨rs, hrs, hjsons⟩ := reads_items h.1 h.2 steps rest (by omega)
      obtain ⟨c, cs, hcs, hblank, hclose⟩ := head_write item (Json.writeItems more rest)
      refine ⟨.array rs true, ?_, by simp [toJson?, hjsons]⟩
      rw [hcs] at hrs
      rw [Json.write, hcs]
      exact value_array hblank hclose hrs

theorem reads_object {fields : List (String × Json)} (h : ∀ f ∈ fields, Reads f.2) :
    Reads (.object fields) := by
  refine reads_of_step fun steps rest _ hfuel => ?_
  cases fields with
  | nil =>
      refine ⟨.object [] true, ?_, rfl⟩
      rw [Json.write, value, skip_cons (by decide)]
      simp only [skip_cons (show isBlank '\x7d' = false from rfl)]
  | cons field more =>
      obtain ⟨key, item⟩ := field
      rw [List.forall_mem_cons] at h
      rw [Json.write, List.length_cons] at hfuel
      have hitem : Reads item := h.1
      obtain ⟨rs, hrs, hjsons⟩ := reads_fields key hitem h.2 steps rest (by omega)
      exact ⟨.object rs true, value_object hrs, by simp [toJson?, hjsons]⟩

/-- Every value is read back. -/
theorem reads (j : Json) : Reads j := by
  induction j using Json.induct with
  | null =>
      refine reads_of_step fun steps rest _ _ => ?_
      exact ⟨.null, value_scalar ⟨_, _, rfl, by decide⟩, rfl⟩
  | bool b =>
      refine reads_of_step fun steps rest _ _ => ⟨.bool b, ?_, rfl⟩
      cases b with
      | true => exact value_scalar ⟨_, _, rfl, by decide⟩
      | false => exact value_scalar ⟨_, _, rfl, by decide⟩
  | number mantissa exponent =>
      refine reads_of_step fun steps rest hrest _ =>
        ⟨.number (numeral mantissa exponent), ?_, ?_⟩
      · obtain ⟨c, cs, hcs, hc⟩ := head_writeNumber mantissa exponent rest
        rw [Json.write, value_scalar, scalar_writeNumber mantissa exponent hrest]
        refine ⟨c, cs, hcs, ?_⟩
        rcases hc with hc | rfl
        · exact ⟨isBlank_of_isDigit hc, ne_of_isDigit hc (by decide), ne_of_isDigit hc (by decide)⟩
        · decide
      · rw [toJson?, mantissa_numeral, exponent_numeral]
  | string s =>
      refine reads_of_step fun steps rest _ _ => ⟨.string (some s), ?_, rfl⟩
      rw [Json.write, Json.writeString, value_scalar ⟨_, _, rfl, by decide⟩]
      simp only [scalar, string?_writeString]
  | array items h => exact reads_array h
  | object fields h => exact reads_object h

end Values

/-- The text of a value is read to its end, as that value. -/
theorem ofText_toText (j : Json) : ∃ r, ofText j.toText = (r, true) ∧ r.toJson? = some j := by
  have hlength : j.toText.length = (j.write []).length := by
    rw [Json.toText, String.length_ofList]
  obtain ⟨r, hr, hjson⟩ := reads j (2 * j.toText.length + 2) [] ends_nil
    (by rw [hlength, List.length_nil]; omega)
  refine ⟨r, ?_, hjson⟩
  rw [ofText, Json.toText, String.toList_ofList, ← Json.toText, hr]
  rfl

end Reading

/-- The text of a value is read as that value. -/
theorem Json.ofText?_toText (j : Json) : Json.ofText? j.toText = some j := by
  obtain ⟨r, hr, hjson⟩ := Reading.ofText_toText j
  rw [Json.ofText?, hr]
  simpa using hjson

end TeamRoster
