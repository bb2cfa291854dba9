import TeamRoster.Json.Basic
import TeamRoster.Text.Decimal

/-!
# What JSON text looks like

Writers put a text in front of a rest. `Json.Plain` says that the text is the same for every rest
and has no control characters; it holds of every part of `Json.write` and passes from parts to the
whole. Main statement: `Json.plain_write`.
-/

namespace TeamRoster

namespace Json

/-- Induction over values: over the items of an array and the fields of an object. -/
theorem induct {P : Json → Prop} (null : P .null) (bool : ∀ b, P (.bool b))
    (number : ∀ m e, P (.number m e)) (string : ∀ s, P (.string s))
    (array : ∀ items, (∀ j ∈ items, P j) → P (.array items))
    (object : ∀ fields, (∀ f ∈ fields, P f.2) → P (.object fields)) (j : Json) : P j := by
  refine @Json.rec P (fun items => ∀ j ∈ items, P j) (fun fields => ∀ f ∈ fields, P f.2)
    (fun f => P f.2) null bool number string array object ?_ ?_ ?_ ?_ ?_ j
  · simp
  · intro item items hitem hitems
    exact List.forall_mem_cons.2 ⟨hitem, hitems⟩
  · simp
  · intro field fields hfield hfields
    exact List.forall_mem_cons.2 ⟨hfield, hfields⟩
  · intro key value hvalue
    exact hvalue

/-- What a writer puts in front of a rest is the same for every rest, and has no control
characters. -/
def Plain (write : List Char → List Char) : Prop :=
  ∃ text, (∀ rest, write rest = text ++ rest) ∧ ∀ c ∈ text, 0x20 ≤ c.toNat

namespace Plain

variable {write before : List Char → List Char}

theorem nothing : Plain fun rest => rest :=
  ⟨[], fun _ => rfl, by simp⟩

theorem comp (hbefore : Plain before) (hwrite : Plain write) :
    Plain fun rest => before (write rest) := by
  obtain ⟨first, hfirst, hfirst'⟩ := hbefore
  obtain ⟨second, hsecond, hsecond'⟩ := hwrite
  refine ⟨first ++ second, fun rest => ?_, List.forall_mem_append.2 ⟨hfirst', hsecond'⟩⟩
  simp only [hfirst, hsecond, List.append_assoc]

theorem cons {c : Char} (hc : 0x20 ≤ c.toNat) (hwrite : Plain write) :
    Plain fun rest => c :: write rest :=
  comp ⟨[c], fun _ => rfl, by simpa using hc⟩ hwrite

/-- A text without control characters, as it is. -/
theorem append (cs : List Char) (hcs : ∀ c ∈ cs, 0x20 ≤ c.toNat) : Plain fun rest => cs ++ rest :=
  ⟨cs, fun _ => rfl, hcs⟩

end Plain

theorem toNat_of_isDigit {c : Char} (h : c.isDigit = true) : 0x20 ≤ c.toNat := by
  simp only [Char.isDigit, Bool.and_eq_true, decide_eq_true_eq] at h
  exact Nat.le_trans (by decide) h.1

theorem toNat_hexOf (n : Nat) : 0x20 ≤ (hexOf n).toNat := by
  have hdigits : ∀ d : Fin 16, 0x20 ≤ (Nat.digitChar d.val).toNat := by decide
  exact hdigits ⟨n % 16, Nat.mod_lt n (by decide)⟩

theorem plain_writeChar (c : Char) : Plain (writeChar c) := by
  refine ⟨writeChar c [], fun rest => ?_, ?_⟩
  · unfold writeChar
    repeat' split
    all_goals rfl
  · unfold writeChar
    repeat' split
    all_goals simp [toNat_hexOf]
    omega

theorem plain_writeString (s : String) : Plain (writeString s) := by
  refine .cons (by decide) ?_
  induction s.toList with
  | nil => exact .cons (by decide) .nothing
  | cons c cs ih => exact (plain_writeChar c).comp ih

theorem plain_writeInt (n : Int) : Plain (writeInt n) := by
  have hdigits (n : Nat) : Plain fun rest => Nat.toDigits 10 n ++ rest :=
    .append _ fun c hc => toNat_of_isDigit (Text.isDigit_of_mem_digits hc)
  cases n with
  | ofNat n => exact hdigits n
  | negSucc n => exact .cons (by decide) (hdigits (n + 1))

theorem plain_writeNumber (mantissa exponent : Int) : Plain (writeNumber mantissa exponent) := by
  unfold writeNumber
  by_cases hzero : exponent = 0
  · simpa [hzero] using plain_writeInt mantissa
  · simpa [hzero] using (plain_writeInt mantissa).comp (.cons (by decide) (plain_writeInt exponent))

theorem plain_writeItems {items : List Json} (h : ∀ j ∈ items, Plain j.write) :
    Plain (writeItems items) := by
  induction items with
  | nil => exact .cons (by decide) .nothing
  | cons item items ih =>
      rw [List.forall_mem_cons] at h
      exact .cons (by decide) (h.1.comp (ih h.2))

theorem plain_writeFields {fields : List (String × Json)} (h : ∀ f ∈ fields, Plain f.2.write) :
    Plain (writeFields fields) := by
  induction fields with
  | nil => exact .cons (by decide) .nothing
  | cons field fields ih =>
      rw [List.forall_mem_cons] at h
      exact .cons (by decide)
        ((plain_writeString field.1).comp (.cons (by decide) (h.1.comp (ih h.2))))

/-- The text of a value has no control characters, and is the same whatever comes after it. -/
theorem plain_write (j : Json) : Plain j.write := by
  induction j using induct with
  | null => exact .append ['n', 'u', 'l', 'l'] (by simp)
  | bool b =>
      cases b with
      | true => exact .append ['t', 'r', 'u', 'e'] (by simp)
      | false => exact .append ['f', 'a', 'l', 's', 'e'] (by simp)
  | number mantissa exponent => exact plain_writeNumber mantissa exponent
  | string s => exact plain_writeString s
  | array items h =>
      cases items with
      | nil => exact .append ['[', ']'] (by simp)
      | cons item items =>
          rw [List.forall_mem_cons] at h
          exact .cons (by decide) (h.1.comp (plain_writeItems h.2))
  | object fields h =>
      cases fields with
      | nil => exact .append ['\x7b', '\x7d'] (by simp)
      | cons field fields =>
          rw [List.forall_mem_cons] at h
          exact .cons (by decide) ((plain_writeString field.1).comp
            (.cons (by decide) (h.1.comp (plain_writeFields h.2))))

/-- The text of a value has no control characters, and so no line breaks. -/
theorem toNat_of_mem_toText {j : Json} {c : Char} (h : c ∈ j.toText.toList) : 0x20 ≤ c.toNat := by
  obtain ⟨text, htext, hplain⟩ := j.plain_write
  rw [toText, String.toList_ofList, htext, List.append_nil] at h
  exact hplain c h

end Json

end TeamRoster
