/-!
# White space

`Text.isBlank` is the Unicode property `White_Space`, which is wider than `Char.isWhitespace`.
`Text.trim` takes blank characters off both ends. Main statements: a trimmed text starts and ends
with a character that is not blank, and trimming it again changes nothing.
-/

namespace TeamRoster

namespace Text

/-- The Unicode property `White_Space`. -/
def isBlank (c : Char) : Bool :=
  let n := c.toNat
  (0x9 ≤ n && n ≤ 0xD) || n == 0x20 || n == 0x85 || n == 0xA0 || n == 0x1680 ||
    (0x2000 ≤ n && n ≤ 0x200A) || n == 0x2028 || n == 0x2029 || n == 0x202F ||
    n == 0x205F || n == 0x3000

/-- Drop the blank characters in front. -/
def trimStart (cs : List Char) : List Char :=
  cs.dropWhile isBlank

/-- Drop the blank characters at the end. -/
def trimEnd (cs : List Char) : List Char :=
  (trimStart cs.reverse).reverse

/-- Drop the blank characters at both ends of a list of characters. -/
def trimChars (cs : List Char) : List Char :=
  trimEnd (trimStart cs)

/-- Drop the blank characters at both ends of a text. -/
def trim (s : String) : String :=
  String.ofList (trimChars s.toList)

/-- A text with no character that is not blank. -/
def isBlankText (s : String) : Bool :=
  s.toList.all isBlank

theorem trimStart_of_head {c : Char} {cs : List Char} (h : isBlank c = false) :
    trimStart (c :: cs) = c :: cs := by
  simp [trimStart, h]

/-- What is left after dropping blanks in front is empty or starts with a character that is
not blank. -/
theorem head_trimStart (cs : List Char) :
    ∀ c ∈ (trimStart cs).head?, isBlank c = false := by
  induction cs with
  | nil => simp [trimStart]
  | cons d ds ih =>
    by_cases h : isBlank d = true
    · simpa [trimStart, h] using ih
    · simp [trimStart, h]

theorem trimStart_eq_self {cs : List Char} (h : ∀ c ∈ cs.head?, isBlank c = false) :
    trimStart cs = cs := by
  cases cs with
  | nil => rfl
  | cons c cs => exact trimStart_of_head (h c rfl)

theorem trimStart_trimStart (cs : List Char) : trimStart (trimStart cs) = trimStart cs :=
  trimStart_eq_self (head_trimStart cs)

theorem trimEnd_trimEnd (cs : List Char) : trimEnd (trimEnd cs) = trimEnd cs := by
  simp [trimEnd, trimStart_trimStart]

/-- Dropping blanks at the end leaves a beginning of the list. -/
theorem trimEnd_append (cs : List Char) :
    ∃ blanks : List Char, trimEnd cs ++ blanks = cs ∧ ∀ c ∈ blanks, isBlank c = true := by
  refine ⟨(cs.reverse.takeWhile isBlank).reverse, ?_, ?_⟩
  · rw [trimEnd, trimStart, ← List.reverse_append, List.takeWhile_append_dropWhile,
      List.reverse_reverse]
  · intro c hc
    exact List.all_eq_true.1 List.all_takeWhile c (List.mem_reverse.1 hc)

theorem trimStart_trimEnd {cs : List Char} (h : trimStart cs = cs) :
    trimStart (trimEnd cs) = trimEnd cs := by
  apply trimStart_eq_self
  intro c hc
  obtain ⟨blanks, hcs, -⟩ := trimEnd_append cs
  have hhead : c ∈ cs.head? := by
    rw [← hcs]
    cases he : trimEnd cs with
    | nil => simp [he] at hc
    | cons d ds => simpa [he] using hc
  exact head_trimStart cs c (h.symm ▸ hhead)

theorem trimChars_trimChars (cs : List Char) : trimChars (trimChars cs) = trimChars cs := by
  simp only [trimChars]
  rw [trimStart_trimEnd (trimStart_trimStart cs), trimEnd_trimEnd]

/-- Trimming a trimmed text changes nothing. -/
@[simp] theorem trim_trim (s : String) : trim (trim s) = trim s := by
  simp [trim, trimChars_trimChars]

end Text

end TeamRoster
