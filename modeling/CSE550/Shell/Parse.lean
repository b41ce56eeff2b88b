import CSE550.Lib.Text
import Mathlib.Data.List.TakeWhile

/-!
Owns the parsing of a command line: `trim`, `parse_commands` and the tokenizer
`strtok` that it calls.

A failed assertion ends the shell and is `none`. The counters are natural numbers: a
line is shorter than the range of `int`.
-/

namespace CSE550.Shell

open CSE550.Lib

/-- `DELIMITERS`. -/
def delimiters : List Char := ['|']

/-- What `trim` removes. -/
def whitespace : List Char := [' ', '\t', '\n']

/-- A counting loop of `trim`. -/
def countWhitespace : Text → ℕ
  | [] => 0
  | char :: rest =>
      if char = ' ' ∨ char = '\t' ∨ char = '\n' then countWhitespace rest + 1 else 0

/-- `trim`. The second loop runs over the text from its end. -/
def trim (input : Text) : Option Text :=
  let startIndex := countWhitespace input
  let endIndex := input.length - countWhitespace input.reverse
  if startIndex ≤ endIndex then some ((input.drop startIndex).take (endIndex - startIndex))
  else none

/-- `strtok`: the next token, and where the next call starts. -/
def strtok (rest : Text) : Option (Text × Text) :=
  match rest.dropWhile (· ∈ delimiters) with
  | [] => none
  | char :: later =>
      some ((char :: later).takeWhile (· ∉ delimiters),
        ((char :: later).dropWhile (· ∉ delimiters)).drop 1)

theorem strtok_shorter {rest token later : Text} (found : strtok rest = some (token, later)) :
    later.length < rest.length := by
  unfold strtok at found
  cases skipped : rest.dropWhile (· ∈ delimiters) with
  | nil => simp [skipped] at found
  | cons char remaining =>
      have within := (List.dropWhile_suffix (· ∈ delimiters) (l := rest)).length_le
      have after := (List.dropWhile_suffix (· ∉ delimiters) (l := char :: remaining)).length_le
      simp only [skipped, Option.some.injEq, Prod.mk.injEq] at found within
      rw [← found.2, List.length_drop]
      rw [List.length_cons] at within after
      omega

/-- The loop of `parse_commands` over the tokens. -/
def parseTokens (commands : List Text) (rest : Text) : Option (List Text) :=
  match _ : strtok rest with
  | none => some commands
  | some (token, later) =>
      match trim token with
      | none => none
      | some command => parseTokens (commands ++ [command]) later
termination_by rest.length
decreasing_by exact strtok_shorter ‹_›

/-- `c_str`: the text up to the first NUL. -/
def cStr (text : Text) : Text := text.takeWhile (· ≠ '\x00')

/-- `parse_commands`. -/
def parseCommands (rawInput : Text) : Option (List Text) := parseTokens [] (cStr rawInput)

/-! ### Trimming -/

/-- Some character of the text is not removed. -/
def Visible (text : Text) : Prop := ∃ char ∈ text, char ∉ whitespace

theorem countWhitespace_append {pad text : Text} (all : ∀ char ∈ pad, char ∈ whitespace)
    (stops : ∀ char ∈ text.head?, char ∉ whitespace) :
    countWhitespace (pad ++ text) = pad.length := by
  induction pad with
  | nil =>
      cases text with
      | nil => rfl
      | cons char rest => exact if_neg (by simpa [whitespace] using stops char rfl)
  | cons char pad inductionHypothesis =>
      rcases List.forall_mem_cons.mp all with ⟨blank, others⟩
      rw [List.cons_append, countWhitespace, if_pos (by simpa [whitespace] using blank),
        inductionHypothesis others, List.length_cons]

/-- A text with a visible character in it is stripped. -/
theorem trim_of_visible {input : Text} (visible : Visible input) :
    trim input = some (Text.strip whitespace input) := by
  rcases Text.strip_decompose whitespace input with ⟨left, right, allLeft, allRight, split⟩
  have bare := Text.bare_strip whitespace input
  have nonempty : Text.strip whitespace input ≠ [] := by
    intro empty
    rcases visible with ⟨char, member, isVisible⟩
    rw [split, empty, List.nil_append] at member
    rcases List.mem_append.mp member with inLeft | inRight
    · exact isVisible (allLeft char inLeft)
    · exact isVisible (allRight char inRight)
  generalize Text.strip whitespace input = core at split bare nonempty
  subst split
  have front : countWhitespace (left ++ (core ++ right)) = left.length := by
    apply countWhitespace_append allLeft
    rw [List.head?_append_of_ne_nil _ nonempty]
    exact bare.first
  have back : countWhitespace (left ++ (core ++ right)).reverse = right.length := by
    rw [List.reverse_append, List.reverse_append, List.append_assoc, ← List.length_reverse]
    apply countWhitespace_append
    · simpa using allRight
    · rw [List.head?_append_of_ne_nil _ (by simpa using nonempty), List.head?_reverse]
      exact bare.last
  have width : (left ++ (core ++ right)).length - right.length - left.length = core.length := by
    simp only [List.length_append]
    omega
  have ordered : left.length ≤ (left ++ (core ++ right)).length - right.length := by
    simp only [List.length_append]
    omega
  unfold trim
  dsimp only
  rw [front, back, if_pos ordered, width, List.drop_left, List.take_left]

/-- The assertion fails on whitespace alone. -/
theorem trim_of_blank {input : Text} (nonempty : input ≠ []) (blank : ¬ Visible input) :
    trim input = none := by
  have all : ∀ char ∈ input, char ∈ whitespace := by
    intro char member
    by_contra isVisible
    exact blank ⟨char, member, isVisible⟩
  have front := @countWhitespace_append input [] all (by simp)
  have back := @countWhitespace_append input.reverse [] (by simpa using all) (by simp)
  rw [List.append_nil] at front back
  have positive := List.length_pos_of_ne_nil nonempty
  unfold trim
  dsimp only
  rw [front, back, List.length_reverse]
  exact if_neg (by omega)

/-! ### Tokens -/

/-- The segments between the delimiters that are not empty. -/
def segments (line : Text) : List Text := (line.splitOn '|').filter (· ≠ [])

theorem segments_delimiter (line : Text) : segments ('|' :: line) = segments line := by
  have split : ('|' :: line).splitOn '|' = [].splitOn '|' ++ line.splitOn '|' :=
    List.splitOn_append_cons_self [] line
  rw [segments, split, List.splitOn_nil, List.singleton_append, List.filter_cons_of_neg (by simp)]
  rfl

/-- Delimiters before a segment change nothing. -/
theorem segments_dropWhile (line : Text) :
    segments (line.dropWhile (· ∈ delimiters)) = segments line := by
  induction line with
  | nil => rfl
  | cons char rest inductionHypothesis =>
      by_cases isDelimiter : char = '|'
      · subst isDelimiter
        rw [List.dropWhile_cons_of_pos (by simp [delimiters]), inductionHypothesis,
          segments_delimiter]
      · rw [List.dropWhile_cons_of_neg (by simpa [delimiters] using isDelimiter)]

/-- A token is the next segment. -/
theorem segments_takeWhile {line : Text} (begins : ∀ char ∈ line.head?, char ∉ delimiters)
    (nonempty : line ≠ []) :
    segments line = line.takeWhile (· ∉ delimiters) ::
      segments ((line.dropWhile (· ∉ delimiters)).drop 1) := by
  have tokenNonempty : line.takeWhile (· ∉ delimiters) ≠ [] := by
    cases line with
    | nil => exact absurd rfl nonempty
    | cons char rest =>
        rw [List.takeWhile_cons_of_pos (by simpa using begins char rfl)]
        exact List.cons_ne_nil _ _
  have absent : '|' ∉ line.takeWhile (· ∉ delimiters) := by
    intro member
    have kept := List.mem_takeWhile_imp member
    simp [delimiters] at kept
  have whole : line.takeWhile (· ∉ delimiters) ++ line.dropWhile (· ∉ delimiters) = line :=
    List.takeWhile_append_dropWhile
  generalize line.takeWhile (· ∉ delimiters) = token at tokenNonempty absent whole
  have first := List.head?_dropWhile_not (fun char => decide (char ∉ delimiters)) line
  generalize line.dropWhile (· ∉ delimiters) = remaining at whole first
  subst whole
  cases remaining with
  | nil =>
      rw [List.append_nil, segments, List.splitOn_eq_singleton absent,
        List.filter_cons_of_pos (by simpa using tokenNonempty)]
      rfl
  | cons char later =>
      obtain rfl : char = '|' := by simpa [delimiters] using first
      rw [segments, List.splitOn_append_cons_self_of_not_mem absent,
        List.filter_cons_of_pos (by simpa using tokenNonempty)]
      rfl

/-- `strtok` gives the segments one by one. -/
theorem segments_of_strtok (line : Text) :
    segments line = match strtok line with
      | none => []
      | some (token, later) => token :: segments later := by
  rw [← segments_dropWhile]
  unfold strtok
  cases skipped : line.dropWhile (· ∈ delimiters) with
  | nil => rfl
  | cons char rest =>
      refine segments_takeWhile ?_ (List.cons_ne_nil char rest)
      have first := List.head?_dropWhile_not (fun char => decide (char ∈ delimiters)) line
      rw [skipped] at first
      simpa using first

/-- The commands are the segments, trimmed one after the other. -/
theorem parseTokens_eq (commands : List Text) (rest : Text) :
    parseTokens commands rest = ((segments rest).mapM trim).map (commands ++ ·) := by
  fun_induction parseTokens commands rest with
  | case1 commands rest found => simp [segments_of_strtok rest, found]
  | case2 commands rest token later found failed =>
      simp [segments_of_strtok rest, found, failed]
  | case3 commands rest token later found command trimmed inductionHypothesis =>
      rw [inductionHypothesis, segments_of_strtok rest, found]
      simp only [List.mapM_cons, trimmed]
      cases (segments later).mapM trim with
      | none => rfl
      | some others => simp

/-- Segments are trimmed when each has a visible character. -/
theorem mapM_trim_iff {tokens : List Text} (nonempty : ∀ token ∈ tokens, token ≠ []) :
    tokens.mapM trim = some (tokens.map (Text.strip whitespace)) ↔
      ∀ token ∈ tokens, Visible token := by
  induction tokens with
  | nil => simp
  | cons token rest inductionHypothesis =>
      rcases List.forall_mem_cons.mp nonempty with ⟨tokenNonempty, restNonempty⟩
      rw [List.forall_mem_cons, ← inductionHypothesis restNonempty, List.mapM_cons]
      by_cases visible : Visible token
      · rw [trim_of_visible visible]
        cases rest.mapM trim with
        | none => simp
        | some others => simp [visible]
      · rw [trim_of_blank tokenNonempty visible]
        simp [visible]

/-- A line without NUL is split into its trimmed segments exactly when every segment
that is not empty has a visible character. -/
theorem commands_parsed_iff {line : Text} (noNul : '\x00' ∉ line) :
    parseCommands line = some ((segments line).map (Text.strip whitespace)) ↔
      ∀ segment ∈ segments line, Visible segment := by
  have whole : cStr line = line := by
    rw [cStr, List.takeWhile_eq_self_iff]
    exact fun char member => decide_eq_true fun isNul => noNul (isNul ▸ member)
  have nonempty : ∀ segment ∈ segments line, segment ≠ [] := by
    intro segment member
    simpa using (List.mem_filter.mp member).2
  rw [← mapM_trim_iff nonempty, parseCommands, whole, parseTokens_eq]
  simp only [List.nil_append, Option.map_id']

/-- Two commands with blanks around them. -/
theorem commands_parsed_iff_two : '\x00' ∉ " ls|| wc\t".toList ∧
    (parseCommands " ls|| wc\t".toList =
        some ((segments " ls|| wc\t".toList).map (Text.strip whitespace)) ↔
      ∀ segment ∈ segments " ls|| wc\t".toList, Visible segment) :=
  ⟨by decide, commands_parsed_iff (by decide)⟩

/-- A line of blanks fails the assertion of `trim`. -/
theorem blank_line_aborts : '\x00' ∉ "  ".toList ∧ parseCommands "  ".toList = none := by
  refine ⟨by decide, ?_⟩
  rw [parseCommands, parseTokens_eq]
  decide

end CSE550.Shell
