import CSE550.Lib.Text
import Mathlib.Algebra.Field.Rat
import Mathlib.Algebra.Order.Ring.Unbundled.Rat

/-!
Owns decimal fractions as text: printing a rational number to twelve places and
reading a number with at most one decimal point.

Does not own exponents, nor binary rounding.
-/

namespace CSE550.Lib.Text

/-- The digits after the point. -/
def fractionText (part : ℚ) : Text :=
  match rstrip ['0'] ((natText (part * 1000000000000).floor.toNat).leftpad 12 '0') with
  | [] => ['0']
  | digits => digits

/-- A number that is not negative. -/
def unsignedText (number : ℚ) : Text :=
  natText number.floor.toNat ++ '.' :: fractionText (number - number.floor)

/-- `str(number)` of a number with at most twelve decimal places. -/
def decimalText (number : ℚ) : Text :=
  if number < 0 then '-' :: unsignedText (-number) else unsignedText number

/-- The value of digits with at most one point between them. -/
def readUnsigned (text : Text) : Option ℚ :=
  match text.splitOn '.' with
  | [whole] => (readNat whole).map fun number => (number : ℚ)
  | [whole, fraction] =>
      (readNat whole).bind fun number =>
        (readNat fraction).map fun digits => number + digits / 10 ^ fraction.length
  | _ => none

/-- `float(text)` of a number without an exponent. -/
def readDecimal (text : Text) : Option ℚ :=
  match strip blanks text with
  | '-' :: digits => (readUnsigned digits).map fun number => -number
  | '+' :: digits => readUnsigned digits
  | digits => readUnsigned digits

/-! ### The characters of a decimal -/

theorem isDigit_of_mem_fractionText {part : ℚ} {char : Char} (member : char ∈ fractionText part) :
    char.isDigit = true := by
  unfold fractionText at member
  split at member
  · rw [List.mem_singleton.mp member]
    decide
  · have inside := mem_of_mem_rstrip member
    rw [List.leftpad, List.mem_append, List.mem_replicate] at inside
    rcases inside with ⟨_, rfl⟩ | digit
    · decide
    · exact isDigit_of_mem_natText digit

theorem fractionText_ne_nil (part : ℚ) : fractionText part ≠ [] := by
  unfold fractionText
  split
  · exact List.cons_ne_nil _ _
  · assumption

theorem mem_unsignedText {number : ℚ} {char : Char} (member : char ∈ unsignedText number) :
    char.isDigit = true ∨ char = '.' := by
  rw [unsignedText, List.mem_append, List.mem_cons] at member
  rcases member with whole | point | fraction
  · exact .inl (isDigit_of_mem_natText whole)
  · exact .inr point
  · exact .inl (isDigit_of_mem_fractionText fraction)

theorem mem_decimalText {number : ℚ} {char : Char} (member : char ∈ decimalText number) :
    char.isDigit = true ∨ char = '.' ∨ char = '-' := by
  unfold decimalText at member
  split at member
  · rcases List.mem_cons.mp member with sign | inside
    · exact .inr (.inr sign)
    · exact (mem_unsignedText inside).imp_right .inl
  · exact (mem_unsignedText member).imp_right .inl

theorem decimalText_ne_nil (number : ℚ) : decimalText number ≠ [] := by
  unfold decimalText unsignedText
  split <;> simp

/-! ### Reading back -/

theorem readNat_of_digits {digits : Text} (nonempty : digits ≠ [])
    (all : ∀ char ∈ digits, char.isDigit = true) : ∃ number, readNat digits = some number := by
  have allDigits : digits.all Char.isDigit = true := List.all_eq_true.mpr all
  exact ⟨_, by rw [readNat, if_pos ⟨nonempty, allDigits⟩]⟩

theorem readUnsigned_natText (number : ℕ) : readUnsigned (natText number) = some (number : ℚ) := by
  have noPoint : '.' ∉ natText number := not_mem_natText (by decide)
  unfold readUnsigned
  rw [List.splitOn_eq_singleton noPoint]
  simp

theorem exists_readUnsigned (number : ℚ) :
    ∃ value, readUnsigned (unsignedText number) = some value := by
  have noPoint : '.' ∉ natText number.floor.toNat := not_mem_natText (by decide)
  have noOther : '.' ∉ fractionText (number - number.floor) := by
    intro member
    exact absurd (isDigit_of_mem_fractionText member) (by decide)
  rcases readNat_of_digits (fractionText_ne_nil (number - number.floor))
    (fun char member => isDigit_of_mem_fractionText member) with ⟨digits, read⟩
  unfold readUnsigned unsignedText
  rw [List.splitOn_append_cons_self_of_not_mem noPoint, List.splitOn_eq_singleton noOther]
  simp [read]

/-- Blanks before a number are passed over. -/
theorem readDecimal_blank (text : Text) : readDecimal (' ' :: text) = readDecimal text := by
  have skipped : strip blanks (' ' :: text) = strip blanks text := by
    unfold strip
    rw [List.dropWhile_cons_of_pos (by decide)]
  unfold readDecimal
  rw [skipped]

/-- A text without a sign in front is read as it is. -/
theorem readDecimal_of_digit {first : Char} {rest : Text} (digit : first.isDigit = true)
    (bare : Bare blanks (first :: rest)) :
    readDecimal (first :: rest) = readUnsigned (first :: rest) := by
  unfold readDecimal
  rw [strip_bare bare]
  split
  · rename_i same
    rw [(List.cons.inj same).1] at digit
    exact absurd digit (by decide)
  · rename_i same
    rw [(List.cons.inj same).1] at digit
    exact absurd digit (by decide)
  · rfl

theorem readDecimal_negative {digits : Text} (bare : Bare blanks ('-' :: digits)) :
    readDecimal ('-' :: digits) = (readUnsigned digits).map fun number => -number := by
  unfold readDecimal
  rw [strip_bare bare]
  rfl

theorem readDecimal_intText (number : ℤ) : readDecimal (intText number) = some (number : ℚ) := by
  have bare := bare_intText number
  cases number with
  | ofNat number =>
      cases digits : natText number with
      | nil => exact absurd digits (natText_ne_nil number)
      | cons first rest =>
          have digit : first.isDigit = true := @isDigit_of_mem_natText number _ (by simp [digits])
          simp only [intText, digits] at bare ⊢
          rw [readDecimal_of_digit digit bare, ← digits, readUnsigned_natText]
          rfl
  | negSucc number =>
      simp only [intText] at bare ⊢
      rw [readDecimal_negative bare, readUnsigned_natText, Option.map_some, Int.cast_negSucc]

theorem exists_readDecimal (number : ℚ) :
    ∃ value, readDecimal (decimalText number) = some value := by
  have bare : Bare blanks (decimalText number) := .of_all fun char member => by
    rcases mem_decimalText member with digit | rfl | rfl
    · exact not_mem_of_isDigit (by simp [blanks]) digit
    · decide
    · decide
  unfold decimalText at bare ⊢
  split at bare
  · rename_i negative
    rcases exists_readUnsigned (-number) with ⟨value, read⟩
    rw [if_pos negative, readDecimal_negative bare, read]
    exact ⟨-value, rfl⟩
  · rename_i negative
    rw [if_neg negative]
    rcases exists_readUnsigned number with ⟨value, read⟩
    unfold unsignedText at bare read ⊢
    cases digits : natText number.floor.toNat with
    | nil => exact absurd digits (natText_ne_nil _)
    | cons first rest =>
        have digit : first.isDigit = true := isDigit_of_mem_natText (by rw [digits]; simp)
        rw [digits, List.cons_append] at bare read
        rw [List.cons_append, readDecimal_of_digit digit bare, read]
        exact ⟨value, rfl⟩

example : decimalText (-5 / 2) = "-2.5".toList := by decide +kernel

example : readDecimal " 0.125".toList = some (1 / 8) := by decide +kernel

end CSE550.Lib.Text
