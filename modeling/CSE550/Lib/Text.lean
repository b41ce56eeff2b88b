import Mathlib.Data.List.DropRight
import Mathlib.Data.List.Infix

/-!
Owns text as the scripting language of the programs sees it: stripping blanks,
splitting at a separator, the lines of a file, and decimal integers with the
round trip between the two directions.

Does not own any record format.
-/

namespace CSE550.Lib

/-- A string, character by character. -/
abbrev Text := List Char

namespace Text

/-! ### Stripping -/

/-- `text.strip(chars)`. -/
def strip (chars : List Char) (text : Text) : Text :=
  (text.dropWhile (· ∈ chars)).rdropWhile (· ∈ chars)

/-- `text.rstrip(chars)`. -/
def rstrip (chars : List Char) (text : Text) : Text := text.rdropWhile (· ∈ chars)

/-- Neither end of the text is one of the characters. -/
structure Bare (chars : List Char) (text : Text) : Prop where
  first : ∀ char ∈ text.head?, char ∉ chars
  last : ∀ char ∈ text.getLast?, char ∉ chars

/-- The ends of a text without blanks are no blanks. -/
theorem Bare.of_all {chars : List Char} {text : Text} (all : ∀ char ∈ text, char ∉ chars) :
    Bare chars text :=
  ⟨fun char member => all char (List.mem_of_mem_head? member),
    fun char member => all char (List.mem_of_mem_getLast? member)⟩

/-- A text is bare when it starts and ends with parts that are. -/
theorem Bare.of_ends {chars : List Char} {first middle last : Text} (begins : first ≠ [])
    (ends : last ≠ []) (left : Bare chars first) (right : Bare chars last) :
    Bare chars (first ++ (middle ++ last)) := by
  constructor
  · intro char member
    rw [List.head?_append_of_ne_nil _ begins] at member
    exact left.first char member
  · intro char member
    rw [← List.append_assoc, List.getLast?_append_of_ne_nil _ ends] at member
    exact right.last char member

theorem rdropWhile_of_last {chars : List Char} {text : Text}
    (last : ∀ char ∈ text.getLast?, char ∉ chars) : text.rdropWhile (· ∈ chars) = text := by
  rw [List.rdropWhile_eq_self_iff]
  intro nonempty
  simpa using last _ (List.getLast?_eq_some_getLast nonempty)

theorem dropWhile_of_first {chars : List Char} {text : Text}
    (first : ∀ char ∈ text.head?, char ∉ chars) : text.dropWhile (· ∈ chars) = text := by
  cases text with
  | nil => rfl
  | cons char rest => exact List.dropWhile_cons_of_neg (by simpa using first char rfl)

theorem rdropWhile_append_of_all {chars : List Char} {text pad : Text}
    (all : ∀ char ∈ pad, char ∈ chars) :
    (text ++ pad).rdropWhile (· ∈ chars) = text.rdropWhile (· ∈ chars) := by
  induction pad using List.reverseRecOn with
  | nil => rw [List.append_nil]
  | append_singleton pad char inductionHypothesis =>
      rw [← List.append_assoc, List.rdropWhile_concat_pos _ _ _ (by simpa using all char (by simp))]
      exact inductionHypothesis fun other member => all other (by simp [member])

/-- Blanks on both sides go, the text between them stays. -/
theorem strip_pad {chars : List Char} {left text right : Text}
    (allLeft : ∀ char ∈ left, char ∈ chars) (allRight : ∀ char ∈ right, char ∈ chars)
    (bare : Bare chars text) : strip chars (left ++ (text ++ right)) = text := by
  unfold strip
  rw [List.dropWhile_append_of_pos (by simpa using allLeft)]
  cases text with
  | nil =>
      have none : (right.dropWhile (· ∈ chars)) = [] := by
        rw [List.dropWhile_eq_nil_iff]
        simpa using allRight
      rw [List.nil_append, none, List.rdropWhile_nil]
  | cons char rest =>
      have kept : (char :: rest ++ right).dropWhile (· ∈ chars) = char :: rest ++ right :=
        dropWhile_of_first (by simpa using bare.first)
      rw [kept, rdropWhile_append_of_all allRight, rdropWhile_of_last bare.last]

theorem strip_bare {chars : List Char} {text : Text} (bare : Bare chars text) :
    strip chars text = text := by
  have pad := @strip_pad chars [] text [] (by simp) (by simp) bare
  rwa [List.nil_append, List.append_nil] at pad

/-- What stripping takes off are blanks. -/
theorem strip_decompose (chars : List Char) (text : Text) :
    ∃ left right, (∀ char ∈ left, char ∈ chars) ∧ (∀ char ∈ right, char ∈ chars) ∧
      text = left ++ (strip chars text ++ right) := by
  refine ⟨text.takeWhile (· ∈ chars), (text.dropWhile (· ∈ chars)).rtakeWhile (· ∈ chars),
    fun char member => ?_, fun char member => ?_, ?_⟩
  · simpa using List.mem_takeWhile_imp member
  · simpa using List.mem_rtakeWhile_imp member
  · rw [strip, List.rdropWhile_append_rtakeWhile, List.takeWhile_append_dropWhile]

/-- A stripped text has no blanks at its ends. -/
theorem bare_strip (chars : List Char) (text : Text) : Bare chars (strip chars text) := by
  unfold strip
  constructor
  · intro char member
    rcases List.rdropWhile_prefix (· ∈ chars) (text.dropWhile (· ∈ chars)) with ⟨rest, split⟩
    have first := List.head?_dropWhile_not (fun char => decide (char ∈ chars)) text
    have isFirst : (text.dropWhile (· ∈ chars)).head? = some char := by
      rw [← split, List.head?_append, Option.mem_def.mp member, Option.some_or]
    rw [isFirst] at first
    simpa using first
  · intro char member
    rcases List.mem_getLast?_eq_getLast member with ⟨nonempty, rfl⟩
    simpa using List.rdropWhile_last_not (· ∈ chars) (text.dropWhile (· ∈ chars)) nonempty

/-- Nothing is stripped off the right end from a text that ends in no blank. -/
theorem rstrip_append {chars : List Char} {text right : Text}
    (last : ∀ char ∈ text.getLast?, char ∉ chars) :
    rstrip chars (text ++ right) = text ++ rstrip chars right := by
  unfold rstrip
  induction right using List.reverseRecOn with
  | nil => rw [List.append_nil, rdropWhile_of_last last, List.rdropWhile_nil, List.append_nil]
  | append_singleton right char inductionHypothesis =>
      rw [← List.append_assoc]
      by_cases blank : char ∈ chars
      · rw [List.rdropWhile_concat_pos _ _ _ (by simpa using blank),
          List.rdropWhile_concat_pos _ _ _ (by simpa using blank), inductionHypothesis]
      · rw [List.rdropWhile_concat_neg _ _ _ (by simpa using blank),
          List.rdropWhile_concat_neg _ _ _ (by simpa using blank), List.append_assoc]

theorem mem_of_mem_rstrip {chars : List Char} {text : Text} {char : Char}
    (member : char ∈ rstrip chars text) : char ∈ text :=
  (List.rdropWhile_prefix _ _).subset member

/-! ### Splitting -/

/-- Splitting gives one part more than there are separators. -/
theorem length_splitOn (text : Text) (sep : Char) :
    (text.splitOn sep).length = text.count sep + 1 := by
  induction text with
  | nil => rfl
  | cons char text inductionHypothesis =>
      rw [List.splitOn_cons_eq_if_modifyHead]
      by_cases same : char = sep
      · subst same
        rw [if_pos (by simp), List.length_cons, inductionHypothesis, List.count_cons_self]
      · rw [if_neg (by simpa using same), List.length_modifyHead, inductionHypothesis,
          List.count_cons_of_ne same]

/-! ### Lines -/

/-- The lines a file object yields, each with its newline. -/
def lines : Text → List Text
  | [] => []
  | char :: rest =>
      if char = '\n' then ['\n'] :: lines rest
      else
        match lines rest with
        | [] => [[char]]
        | line :: others => (char :: line) :: others

theorem lines_cons_newline {line rest : Text} (oneLine : '\n' ∉ line) :
    lines (line ++ '\n' :: rest) = (line ++ ['\n']) :: lines rest := by
  induction line with
  | nil => rfl
  | cons char line inductionHypothesis =>
      rw [List.mem_cons, not_or] at oneLine
      rw [List.cons_append, lines, if_neg (Ne.symm oneLine.1), inductionHypothesis oneLine.2]
      rfl

/-- A file written line by line is read back line by line. -/
theorem lines_flatMap {written : List Text} (oneLine : ∀ line ∈ written, '\n' ∉ line) :
    lines (written.flatMap fun line => line ++ ['\n']) =
      written.map fun line => line ++ ['\n'] := by
  induction written with
  | nil => rfl
  | cons line written inductionHypothesis =>
      rw [List.flatMap_cons, List.append_assoc, List.singleton_append,
        lines_cons_newline (oneLine line (by simp)),
        inductionHypothesis fun other member => oneLine other (by simp [member])]
      rfl

/-! ### Decimal integers -/

/-- `str(number)` of a number that is not negative. -/
def natText (number : ℕ) : Text := Nat.toDigits 10 number

/-- `str(number)`. -/
def intText : ℤ → Text
  | .ofNat number => natText number
  | .negSucc number => '-' :: natText (number + 1)

/-- The characters `int` passes over at both ends. -/
def blanks : List Char := [' ', '\t', '\n', '\x0b', '\x0c', '\r']

/-- The value of a sequence of digits. -/
def readNat (text : Text) : Option ℕ :=
  if text ≠ [] ∧ text.all Char.isDigit then some (Nat.ofDigitChars 10 text 0) else none

/-- `int(text)`; `none` is a `ValueError`. -/
def readInt (text : Text) : Option ℤ :=
  match strip blanks text with
  | '-' :: digits => (readNat digits).map fun number => -(number : ℤ)
  | '+' :: digits => (readNat digits).map fun number => (number : ℤ)
  | digits => (readNat digits).map fun number => (number : ℤ)

theorem isDigit_of_mem_natText {number : ℕ} {char : Char} (member : char ∈ natText number) :
    char.isDigit = true :=
  Nat.isDigit_of_mem_toDigits (by decide) (by decide) member

theorem natText_ne_nil (number : ℕ) : natText number ≠ [] := Nat.toDigits_ne_nil

theorem intText_ne_nil (number : ℤ) : intText number ≠ [] := by
  cases number with
  | ofNat number => exact natText_ne_nil number
  | negSucc number => exact List.cons_ne_nil _ _

/-- A negative number starts with its sign. -/
theorem intText_of_neg {number : ℤ} (negative : number < 0) :
    ∃ digits, intText number = '-' :: digits := by
  cases number with
  | ofNat number => exact absurd negative (Int.not_lt.mpr (Int.natCast_nonneg number))
  | negSucc number => exact ⟨_, rfl⟩

/-- A character that is no digit does not occur in a natural number. -/
theorem not_mem_natText {number : ℕ} {char : Char} (other : char.isDigit = false) :
    char ∉ natText number := by
  intro member
  rw [isDigit_of_mem_natText member] at other
  cases other

/-- A character that is neither a digit nor the sign does not occur in an integer. -/
theorem not_mem_intText {number : ℤ} {char : Char} (other : char.isDigit = false)
    (unsigned : char ≠ '-') : char ∉ intText number := by
  cases number with
  | ofNat number => exact not_mem_natText other
  | negSucc number => simp [intText, unsigned, not_mem_natText other]

theorem not_mem_of_isDigit {chars : List Char} (none : ∀ blank ∈ chars, blank.isDigit = false)
    {char : Char} (digit : char.isDigit = true) : char ∉ chars := by
  intro member
  rw [none char member] at digit
  cases digit

theorem not_mem_of_mem_intText {chars : List Char}
    (none : ∀ blank ∈ chars, blank.isDigit = false ∧ blank ≠ '-') {number : ℤ} {char : Char}
    (member : char ∈ intText number) : char ∉ chars := fun inside =>
  not_mem_intText (none char inside).1 (none char inside).2 member

@[simp] theorem readNat_natText (number : ℕ) : readNat (natText number) = some number := by
  have digits : (natText number).all Char.isDigit = true := by
    rw [List.all_eq_true]
    exact fun char member => isDigit_of_mem_natText member
  rw [readNat, if_pos ⟨natText_ne_nil number, digits⟩]
  exact congrArg some Nat.ofDigitChars_ten_toDigits

theorem bare_intText (number : ℤ) : Bare blanks (intText number) :=
  .of_all fun _ member => not_mem_of_mem_intText (by simp [blanks]) member

/-- `int` reads what `str` writes, with any blanks around it. -/
theorem readInt_pad {left right : Text} (number : ℤ) (allLeft : ∀ char ∈ left, char ∈ blanks)
    (allRight : ∀ char ∈ right, char ∈ blanks) :
    readInt (left ++ (intText number ++ right)) = some number := by
  unfold readInt
  rw [strip_pad allLeft allRight (bare_intText number)]
  cases number with
  | ofNat number =>
      cases digits : natText number with
      | nil => exact absurd digits (natText_ne_nil number)
      | cons first rest =>
          have isDigit : first.isDigit = true :=
            @isDigit_of_mem_natText number _ (by simp [digits])
          have read := readNat_natText number
          rw [digits] at read
          have notMinus : first ≠ '-' := by rintro rfl; revert isDigit; decide
          have notPlus : first ≠ '+' := by rintro rfl; revert isDigit; decide
          simp only [intText, digits]
          split
          · rename_i same
            exact absurd (List.cons.inj same).1 notMinus
          · rename_i same
            exact absurd (List.cons.inj same).1 notPlus
          · rw [read]
            rfl
  | negSucc number =>
      simp only [intText, readNat_natText]
      rfl

theorem readInt_intText (number : ℤ) : readInt (intText number) = some number := by
  have read := @readInt_pad [] [] number (by simp) (by simp)
  rwa [List.nil_append, List.append_nil] at read

theorem intText_injective : Function.Injective intText := by
  intro left right same
  have read := congrArg readInt same
  rw [readInt_intText, readInt_intText] at read
  exact Option.some.inj read

example : readInt " -42\n".toList = some (-42) := by decide

end Text

end CSE550.Lib
