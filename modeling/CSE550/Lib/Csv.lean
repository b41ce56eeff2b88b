import Mathlib.Data.List.Nodup
import Mathlib.Data.List.TakeWhile

/-!
Owns delimiter-separated files with quoting: a writer that quotes what has to be quoted, a
reader that goes through a file symbol by symbol, and the round trip between them.

A dialect fixes the symbols with a meaning. The reader is told when a line ends, and a
record goes on in the next line only within quotes.

Does not own the values behind the cells.
-/

namespace CSE550.Lib.Csv

variable {Symbol : Type}

/-- The symbols with a meaning, and the length of the longest field. -/
structure Dialect (Symbol : Type) where
  delimiter : Symbol
  quotechar : Symbol
  carriageReturn : Symbol
  newline : Symbol
  null : Symbol
  fieldLimit : ℕ
  distinct : [delimiter, quotechar, carriageReturn, newline, null].Nodup

theorem Dialect.pairs (dialect : Dialect Symbol) :
    (dialect.delimiter ≠ dialect.quotechar ∧ dialect.delimiter ≠ dialect.carriageReturn ∧
      dialect.delimiter ≠ dialect.newline ∧ dialect.delimiter ≠ dialect.null) ∧
    (dialect.quotechar ≠ dialect.carriageReturn ∧ dialect.quotechar ≠ dialect.newline ∧
      dialect.quotechar ≠ dialect.null) ∧
    (dialect.carriageReturn ≠ dialect.newline ∧ dialect.carriageReturn ≠ dialect.null) ∧
    dialect.newline ≠ dialect.null := by
  have distinct := dialect.distinct
  simpa [List.nodup_cons, and_assoc] using distinct

/-- Where the reader is in a record. -/
inductive Point where
  | startRecord
  | startField
  | inField
  | inQuotedField
  | quoteInQuotedField
  /-- After a carriage return or a newline. -/
  | eatNewlines
deriving DecidableEq

/-- Why a file is not read. -/
inductive Failure where
  | nullByte
  | fieldLimit
  /-- A symbol after a carriage return that no newline follows. -/
  | newlineInUnquoted
deriving DecidableEq

/-- The reader within a record: the field so far and the fields before it. -/
structure Reader (Symbol : Type) where
  point : Point
  field : List Symbol
  fields : List (List Symbol)

/-! ### The reader -/

variable [DecidableEq Symbol]

namespace Reader

def start : Reader Symbol := ⟨.startRecord, [], []⟩

/-- The field is complete. -/
def save (reader : Reader Symbol) (point : Point) : Reader Symbol :=
  ⟨point, [], reader.fields ++ [reader.field]⟩

/-- One more symbol of the field. -/
def add (dialect : Dialect Symbol) (reader : Reader Symbol) (point : Point) (symbol : Symbol) :
    Except Failure (Reader Symbol) :=
  if dialect.fieldLimit ≤ reader.field.length then .error .fieldLimit
  else .ok ⟨point, reader.field ++ [symbol], reader.fields⟩

/-- The first symbol of a field. -/
def readFirst (dialect : Dialect Symbol) (reader : Reader Symbol) (symbol : Symbol) :
    Except Failure (Reader Symbol) :=
  if symbol = dialect.newline ∨ symbol = dialect.carriageReturn then
    .ok (reader.save .eatNewlines)
  else if symbol = dialect.quotechar then .ok { reader with point := .inQuotedField }
  else if symbol = dialect.delimiter then .ok (reader.save .startField)
  else reader.add dialect .inField symbol

/-- One symbol of a line. -/
def read (dialect : Dialect Symbol) (reader : Reader Symbol) (symbol : Symbol) :
    Except Failure (Reader Symbol) :=
  if symbol = dialect.null then .error .nullByte
  else
    match reader.point with
    | .startRecord =>
        if symbol = dialect.newline ∨ symbol = dialect.carriageReturn then
          .ok { reader with point := .eatNewlines }
        else reader.readFirst dialect symbol
    | .startField => reader.readFirst dialect symbol
    | .inField =>
        if symbol = dialect.newline ∨ symbol = dialect.carriageReturn then
          .ok (reader.save .eatNewlines)
        else if symbol = dialect.delimiter then .ok (reader.save .startField)
        else reader.add dialect .inField symbol
    | .inQuotedField =>
        if symbol = dialect.quotechar then .ok { reader with point := .quoteInQuotedField }
        else reader.add dialect .inQuotedField symbol
    | .quoteInQuotedField =>
        if symbol = dialect.quotechar then reader.add dialect .inQuotedField symbol
        else if symbol = dialect.delimiter then .ok (reader.save .startField)
        else if symbol = dialect.newline ∨ symbol = dialect.carriageReturn then
          .ok (reader.save .eatNewlines)
        else reader.add dialect .inField symbol
    | .eatNewlines =>
        if symbol = dialect.newline ∨ symbol = dialect.carriageReturn then .ok reader
        else .error .newlineInUnquoted

/-- The end of a line. -/
def endLine (reader : Reader Symbol) : Reader Symbol :=
  match reader.point with
  | .startRecord | .inQuotedField => reader
  | .startField | .inField | .quoteInQuotedField => reader.save .startRecord
  | .eatNewlines => { reader with point := .startRecord }

/-- The rows of what is left of a record when the file ends. -/
def finish (reader : Reader Symbol) : List (List (List Symbol)) :=
  if reader.field ≠ [] ∨ reader.point = .inQuotedField then [(reader.save .startRecord).fields]
  else []

end Reader

/-- The rows of a file, from a reader in its first record on. A line ends behind each
newline, and at the end of the file when there is something behind the last one. -/
def readRows (dialect : Dialect Symbol) :
    Reader Symbol → Bool → List Symbol → Except Failure (List (List (List Symbol)))
  | reader, midLine, [] =>
      .ok (if midLine then
        if reader.endLine.point = .startRecord then [reader.endLine.fields]
        else reader.endLine.finish
      else reader.finish)
  | reader, _, symbol :: rest =>
      match reader.read dialect symbol with
      | .error failure => .error failure
      | .ok next =>
          if symbol = dialect.newline then
            if next.endLine.point = .startRecord then
              (readRows dialect .start false rest).map (next.endLine.fields :: ·)
            else readRows dialect next.endLine false rest
          else readRows dialect next true rest

/-- The rows of a file. -/
def readFile (dialect : Dialect Symbol) (text : List Symbol) :
    Except Failure (List (List (List Symbol))) :=
  readRows dialect .start false text

/-! ### The writer -/

/-- A symbol that has to be quoted. -/
def Dialect.Special (dialect : Dialect Symbol) (symbol : Symbol) : Prop :=
  symbol = dialect.delimiter ∨ symbol = dialect.quotechar ∨ symbol = dialect.newline ∨
    symbol = dialect.carriageReturn

instance specialDecidable (dialect : Dialect Symbol) (symbol : Symbol) :
    Decidable (dialect.Special symbol) := by
  unfold Dialect.Special
  infer_instance

/-- Quotes within quotes are doubled. -/
def double (dialect : Dialect Symbol) (symbol : Symbol) : List Symbol :=
  if symbol = dialect.quotechar then [symbol, symbol] else [symbol]

/-- A cell is quoted when it has a symbol with a meaning, or when it is empty and the only
one of its row. What follows a null is not written. -/
def writeCell (dialect : Dialect Symbol) (alone : Bool) (cell : List Symbol) : List Symbol :=
  let text := cell.takeWhile (· ≠ dialect.null)
  if (∃ symbol ∈ text, dialect.Special symbol) ∨ (text = [] ∧ alone = true) then
    dialect.quotechar :: (text.flatMap (double dialect) ++ [dialect.quotechar])
  else text

/-- The cells with the delimiter between them, and the end of the line. -/
def writeRow (dialect : Dialect Symbol) (row : List (List Symbol)) : List Symbol :=
  [dialect.delimiter].intercalate (row.map (writeCell dialect (row.length = 1))) ++
    [dialect.carriageReturn, dialect.newline]

def writeRows (dialect : Dialect Symbol) (rows : List (List (List Symbol))) : List Symbol :=
  rows.flatMap (writeRow dialect)

/-- A cell that can be written and read. -/
structure Dialect.Fits (dialect : Dialect Symbol) (cell : List Symbol) : Prop where
  noNull : dialect.null ∉ cell
  short : cell.length ≤ dialect.fieldLimit

/-! ### Reading what was written -/

section RoundTrip

variable {dialect : Dialect Symbol} {symbol : Symbol} {reader next : Reader Symbol}
  {rest cell : List Symbol} {fields : List (List Symbol)} {midLine : Bool}

/-- A symbol that does not end the line is read, and the reader goes on in the line. -/
theorem readRows_cons (within : symbol ≠ dialect.newline)
    (reads : reader.read dialect symbol = .ok next) :
    readRows dialect reader midLine (symbol :: rest) = readRows dialect next true rest := by
  simp only [readRows, reads, if_neg within]

/-- At the end of the record the next one starts. -/
theorem readRows_eatNewlines :
    readRows dialect ⟨.eatNewlines, [], fields⟩ midLine (dialect.newline :: rest) =
      (readRows dialect .start false rest).map (fields :: ·) := by
  obtain ⟨_, _, _, notNull⟩ := dialect.pairs
  simp only [readRows, Reader.read, if_neg notNull, true_or, if_true, Reader.endLine]

/-- The symbols of a cell that is not quoted. -/
theorem readRows_plain {text : List Symbol} (plain : ∀ symbol ∈ text, ¬ dialect.Special symbol)
    (noNull : dialect.null ∉ text) {known : List Symbol}
    (short : (known ++ text).length ≤ dialect.fieldLimit) :
    readRows dialect ⟨.inField, known, fields⟩ midLine (text ++ symbol :: rest) =
      readRows dialect ⟨.inField, known ++ text, fields⟩ true (symbol :: rest) := by
  induction text generalizing known midLine with
  | nil =>
      rw [List.append_nil]
      rfl
  | cons first text inductionHypothesis =>
      obtain ⟨firstPlain, restPlain⟩ := List.forall_mem_cons.mp plain
      obtain ⟨firstNull, restNull⟩ := not_or.mp (List.mem_cons.not.mp noNull)
      simp only [Dialect.Special, not_or] at firstPlain
      obtain ⟨notDelimiter, _, notNewline, notReturn⟩ := firstPlain
      have room : ¬ dialect.fieldLimit ≤ known.length := by
        simp only [List.length_append, List.length_cons] at short
        omega
      have reads : Reader.read dialect ⟨.inField, known, fields⟩ first =
          .ok ⟨.inField, known ++ [first], fields⟩ := by
        simp only [Reader.read, if_neg (Ne.symm firstNull), notNewline, notReturn, or_self,
          if_neg notDelimiter, Reader.add, if_neg room, if_false]
      have split : known ++ first :: text = known ++ [first] ++ text := by simp
      rw [List.cons_append, readRows_cons notNewline reads, split]
      apply inductionHypothesis restPlain restNull
      rwa [← split]

/-- The symbols of a quoted cell, and the closing quote. -/
theorem readRows_quoted {text : List Symbol} (noNull : dialect.null ∉ text) {known : List Symbol}
    (short : (known ++ text).length ≤ dialect.fieldLimit) :
    readRows dialect ⟨.inQuotedField, known, fields⟩ midLine
        (text.flatMap (double dialect) ++ dialect.quotechar :: symbol :: rest) =
      readRows dialect ⟨.quoteInQuotedField, known ++ text, fields⟩ true (symbol :: rest) := by
  obtain ⟨_, ⟨_, quoteNewline, quoteNull⟩, _, newlineNull⟩ := dialect.pairs
  induction text generalizing known midLine with
  | nil =>
      rw [List.flatMap_nil, List.nil_append, List.append_nil]
      apply readRows_cons quoteNewline
      simp only [Reader.read, if_neg quoteNull, if_true]
  | cons first text inductionHypothesis =>
      obtain ⟨firstNull, restNull⟩ := not_or.mp (List.mem_cons.not.mp noNull)
      have room : ¬ dialect.fieldLimit ≤ known.length := by
        simp only [List.length_append, List.length_cons] at short
        omega
      have split : known ++ first :: text = known ++ [first] ++ text := by simp
      have later (midLine : Bool) := @inductionHypothesis midLine restNull (known ++ [first])
        (by rwa [← split])
      rw [List.flatMap_cons, split]
      by_cases isQuote : first = dialect.quotechar
      · subst isQuote
        have closes : Reader.read dialect ⟨.inQuotedField, known, fields⟩ dialect.quotechar =
            .ok ⟨.quoteInQuotedField, known, fields⟩ := by
          simp only [Reader.read, if_neg quoteNull, if_true]
        have reopens : Reader.read dialect ⟨.quoteInQuotedField, known, fields⟩
            dialect.quotechar = .ok ⟨.inQuotedField, known ++ [dialect.quotechar], fields⟩ := by
          simp only [Reader.read, if_neg quoteNull, if_true, Reader.add, if_neg room]
        simp only [double, if_true, List.cons_append, List.nil_append]
        rw [readRows_cons quoteNewline closes, readRows_cons quoteNewline reopens]
        exact later true
      · have reads : Reader.read dialect ⟨.inQuotedField, known, fields⟩ first =
            .ok ⟨.inQuotedField, known ++ [first], fields⟩ := by
          simp only [Reader.read, if_neg (Ne.symm firstNull), if_neg isQuote, Reader.add,
            if_neg room]
        simp only [double, if_neg isQuote, List.cons_append, List.nil_append]
        by_cases isNewline : first = dialect.newline
        · -- the record goes on in the next line
          have stays : readRows dialect ⟨.inQuotedField, known, fields⟩ midLine
              (first :: (text.flatMap (double dialect) ++
                dialect.quotechar :: symbol :: rest)) =
              readRows dialect ⟨.inQuotedField, known ++ [first], fields⟩ false
                (text.flatMap (double dialect) ++ dialect.quotechar :: symbol :: rest) := by
            rw [readRows, reads]
            simp only [if_pos isNewline, Reader.endLine]
            exact if_neg (by decide)
          rw [stays]
          exact later false
        · rw [readRows_cons isNewline reads]
          exact later true

/-- A cell leads to its end, where a cell that is not written leaves the reader alone. -/
theorem readRows_cell {point : Point} (first : point = .startRecord ∨ point = .startField)
    (fits : dialect.Fits cell) (alone : Bool) :
    ∃ ended, readRows dialect ⟨point, [], fields⟩ midLine
        (writeCell dialect alone cell ++ symbol :: rest) =
          readRows dialect ⟨ended, cell, fields⟩ true (symbol :: rest) ∧
      (ended = .inField ∨ ended = .quoteInQuotedField ∨
        ended = point ∧ cell = [] ∧ alone = false) := by
  obtain ⟨_, ⟨quoteReturn, quoteNewline, quoteNull⟩, _, _⟩ := dialect.pairs
  have whole : cell.takeWhile (· ≠ dialect.null) = cell := by
    rw [List.takeWhile_eq_self_iff]
    exact fun symbol member => decide_eq_true fun isNull => fits.noNull (isNull ▸ member)
  simp only [writeCell, whole]
  split
  · -- the opening quote is the first symbol of the field
    have opens : Reader.read dialect ⟨point, [], fields⟩ dialect.quotechar =
        .ok ⟨.inQuotedField, [], fields⟩ := by
      rcases first with rfl | rfl <;>
        simp [Reader.read, Reader.readFirst, quoteNull, quoteReturn, quoteNewline]
    refine ⟨.quoteInQuotedField, ?_, .inr (.inl rfl)⟩
    rw [List.cons_append, readRows_cons quoteNewline opens, List.append_assoc,
      List.singleton_append]
    exact readRows_quoted fits.noNull fits.short
  · rename_i unquoted
    obtain ⟨plain, notAlone⟩ := not_or.mp unquoted
    cases cell with
    | nil => exact ⟨point, rfl, .inr (.inr ⟨rfl, rfl, by simpa using notAlone⟩)⟩
    | cons begins text =>
        have allPlain : ∀ symbol ∈ begins :: text, ¬ dialect.Special symbol :=
          fun symbol member special => plain ⟨symbol, member, special⟩
        obtain ⟨firstPlain, restPlain⟩ := List.forall_mem_cons.mp allPlain
        obtain ⟨firstNull, restNull⟩ := not_or.mp (List.mem_cons.not.mp fits.noNull)
        simp only [Dialect.Special, not_or] at firstPlain
        obtain ⟨notDelimiter, notQuote, notNewline, notReturn⟩ := firstPlain
        have short := fits.short
        have room : ¬ dialect.fieldLimit ≤ 0 := by
          rw [List.length_cons] at short
          omega
        have reads : Reader.read dialect ⟨point, [], fields⟩ begins =
            .ok ⟨.inField, [begins], fields⟩ := by
          rcases first with rfl | rfl <;>
            simp only [Reader.read, Reader.readFirst, if_neg (Ne.symm firstNull), notNewline,
              notReturn, or_self, if_neg notQuote, if_neg notDelimiter, Reader.add,
              List.length_nil, if_neg room, List.nil_append, if_false]
        refine ⟨.inField, ?_, .inl rfl⟩
        rw [List.cons_append, readRows_cons notNewline reads]
        exact readRows_plain restPlain restNull short

/-- The delimiter ends a cell. -/
theorem read_delimiter {ended : Point} (atEnd : ended = .inField ∨ ended = .quoteInQuotedField ∨
    (ended = .startRecord ∨ ended = .startField) ∧ cell = []) :
    Reader.read dialect ⟨ended, cell, fields⟩ dialect.delimiter =
      .ok ⟨.startField, [], fields ++ [cell]⟩ := by
  obtain ⟨⟨notQuote, notReturn, notNewline, notNull⟩, _⟩ := dialect.pairs
  rcases atEnd with rfl | rfl | ⟨rfl | rfl, rfl⟩ <;>
    simp [Reader.read, Reader.readFirst, Reader.save, notQuote, notReturn, notNewline, notNull]

/-- And so does the end of the line. -/
theorem read_carriageReturn {ended : Point} (atEnd : ended = .inField ∨
    ended = .quoteInQuotedField ∨ ended = .startField) :
    Reader.read dialect ⟨ended, cell, fields⟩ dialect.carriageReturn =
      .ok ⟨.eatNewlines, [], fields ++ [cell]⟩ := by
  obtain ⟨⟨_, notDelimiter, _⟩, ⟨notQuote, _⟩, ⟨_, notNull⟩, _⟩ := dialect.pairs
  rcases atEnd with rfl | rfl | rfl <;>
    simp [Reader.read, Reader.readFirst, Reader.save, notNull, notQuote.symm, notDelimiter.symm]

/-- The cells of a row, from a reader that has read some. -/
theorem readRows_cells {cells : List (List Symbol)} (nonempty : cells ≠ [])
    (fits : ∀ cell ∈ cells, dialect.Fits cell) {alone : Bool} {point : Point}
    (first : point = .startField ∨
      point = .startRecord ∧ (alone = true ∨ 2 ≤ cells.length)) :
    readRows dialect ⟨point, [], fields⟩ midLine
        ([dialect.delimiter].intercalate (cells.map (writeCell dialect alone)) ++
          dialect.carriageReturn :: dialect.newline :: rest) =
      (readRows dialect .start false rest).map ((fields ++ cells) :: ·) := by
  obtain ⟨⟨_, _, delimiterNewline, _⟩, _, ⟨returnNewline, _⟩, _⟩ := dialect.pairs
  have starts : point = .startRecord ∨ point = .startField := by
    rcases first with isField | ⟨isRecord, _⟩
    · exact .inr isField
    · exact .inl isRecord
  induction cells generalizing point fields midLine with
  | nil => exact absurd rfl nonempty
  | cons cell others inductionHypothesis =>
      obtain ⟨cellFits, othersFit⟩ := List.forall_mem_cons.mp fits
      cases others with
      | nil =>
          rw [List.map_singleton, List.intercalate_singleton]
          obtain ⟨ended, reads, atEnd⟩ := @readRows_cell _ _ dialect dialect.carriageReturn
            (dialect.newline :: rest) cell fields midLine point starts cellFits alone
          rw [reads, readRows_cons returnNewline (read_carriageReturn ?_), readRows_eatNewlines]
          rcases atEnd with isField | isQuote | ⟨same, _, notAlone⟩
          · exact .inl isField
          · exact .inr (.inl isQuote)
          · refine .inr (.inr ?_)
            rcases first with isField | ⟨_, isAlone | long⟩
            · exact same.trans isField
            · rw [notAlone] at isAlone
              cases isAlone
            · simp at long
      | cons second others =>
          rw [List.map_cons, List.map_cons, List.intercalate_cons_cons, List.append_assoc,
            List.append_assoc, List.singleton_append, ← List.map_cons]
          obtain ⟨ended, reads, atEnd⟩ := @readRows_cell _ _ dialect dialect.delimiter
            ([dialect.delimiter].intercalate ((second :: others).map (writeCell dialect alone)) ++
              dialect.carriageReturn :: dialect.newline :: rest)
            cell fields midLine point starts cellFits alone
          rw [reads, readRows_cons delimiterNewline (read_delimiter ?_),
            @inductionHypothesis (fields ++ [cell]) true (by simp) othersFit .startField (.inl rfl)
              (.inr rfl), List.append_assoc, List.singleton_append]
          rcases atEnd with isField | isQuote | ⟨same, isEmpty, _⟩
          · exact .inl isField
          · exact .inr (.inl isQuote)
          · exact .inr (.inr ⟨same ▸ starts, isEmpty⟩)

/-- A row that was written is read. -/
theorem readRows_writeRow {row : List (List Symbol)} (fits : ∀ cell ∈ row, dialect.Fits cell) :
    readRows dialect .start false (writeRow dialect row ++ rest) =
      (readRows dialect .start false rest).map (row :: ·) := by
  obtain ⟨_, _, ⟨returnNewline, returnNull⟩, _⟩ := dialect.pairs
  unfold writeRow
  rw [List.append_assoc, List.cons_append, List.singleton_append]
  by_cases nothing : row = []
  · subst nothing
    have ends : Reader.read dialect .start dialect.carriageReturn = .ok ⟨.eatNewlines, [], []⟩ := by
      simp [Reader.read, Reader.start, returnNull]
    rw [List.map_nil, List.intercalate_nil, List.nil_append, readRows_cons returnNewline ends]
    exact readRows_eatNewlines
  · apply readRows_cells nothing fits
    refine .inr ⟨rfl, ?_⟩
    have positive := List.length_pos_iff.mpr nothing
    by_cases single : row.length = 1
    · exact .inl (by simp [single])
    · exact .inr (by omega)

/-- What was written is read back. -/
theorem readFile_writeRows {rows : List (List (List Symbol))}
    (fits : ∀ row ∈ rows, ∀ cell ∈ row, dialect.Fits cell) :
    readFile dialect (writeRows dialect rows) = .ok rows := by
  unfold readFile writeRows
  induction rows with
  | nil => rfl
  | cons row rows inductionHypothesis =>
      obtain ⟨rowFits, othersFit⟩ := List.forall_mem_cons.mp fits
      rw [List.flatMap_cons, readRows_writeRow rowFits, inductionHypothesis othersFit]
      rfl

end RoundTrip

/-! ### What is read can be written -/

section Fits

variable {dialect : Dialect Symbol} {symbol : Symbol} {reader next : Reader Symbol}
  {rows : List (List (List Symbol))}

/-- The fields of a reader can be written. -/
structure Reader.Fits (dialect : Dialect Symbol) (reader : Reader Symbol) : Prop where
  field : dialect.Fits reader.field
  fields : ∀ field ∈ reader.fields, dialect.Fits field

namespace Reader

omit [DecidableEq Symbol] in
theorem Fits.start : Fits dialect start where
  field := ⟨List.not_mem_nil, Nat.zero_le _⟩
  fields := fun _ member => absurd member List.not_mem_nil

omit [DecidableEq Symbol] in
theorem Fits.save (fits : reader.Fits dialect) (point : Point) :
    (reader.save point).Fits dialect where
  field := Fits.start.field
  fields := by
    intro field member
    rcases List.mem_append.mp member with before | last
    · exact fits.fields field before
    · rw [List.mem_singleton.mp last]
      exact fits.field

omit [DecidableEq Symbol] in
theorem Fits.add (fits : reader.Fits dialect) {point : Point} (notNull : symbol ≠ dialect.null)
    (added : reader.add dialect point symbol = .ok next) : next.Fits dialect := by
  unfold Reader.add at added
  split at added
  · cases added
  · rename_i room
    cases added
    refine ⟨⟨?_, ?_⟩, fits.fields⟩
    · simp [fits.field.noNull, Ne.symm notNull]
    · simp only [List.length_append, List.length_singleton]
      omega

theorem Fits.readFirst (fits : reader.Fits dialect) (notNull : symbol ≠ dialect.null)
    (reads : reader.readFirst dialect symbol = .ok next) : next.Fits dialect := by
  unfold Reader.readFirst at reads
  split at reads
  · cases reads
    exact fits.save _
  · split at reads
    · cases reads
      exact ⟨fits.field, fits.fields⟩
    · split at reads
      · cases reads
        exact fits.save _
      · exact fits.add notNull reads

/-- Reading a symbol keeps the fields short and without a null. -/
theorem Fits.read (fits : reader.Fits dialect) (reads : reader.read dialect symbol = .ok next) :
    next.Fits dialect := by
  unfold Reader.read at reads
  split at reads
  · cases reads
  · rename_i notNull
    split at reads
    · split at reads
      · cases reads
        exact ⟨fits.field, fits.fields⟩
      · exact fits.readFirst notNull reads
    · exact fits.readFirst notNull reads
    · split at reads
      · cases reads
        exact fits.save _
      · split at reads
        · cases reads
          exact fits.save _
        · exact fits.add notNull reads
    · split at reads
      · cases reads
        exact ⟨fits.field, fits.fields⟩
      · exact fits.add notNull reads
    · split at reads
      · exact fits.add notNull reads
      · split at reads
        · cases reads
          exact fits.save _
        · split at reads
          · cases reads
            exact fits.save _
          · exact fits.add notNull reads
    · split at reads
      · cases reads
        exact fits
      · cases reads

omit [DecidableEq Symbol] in
theorem Fits.endLine (fits : reader.Fits dialect) : reader.endLine.Fits dialect := by
  unfold Reader.endLine
  split
  · exact fits
  · exact fits
  · exact fits.save _
  · exact fits.save _
  · exact fits.save _
  · exact ⟨fits.field, fits.fields⟩

omit [DecidableEq Symbol] in
theorem Fits.finish (fits : reader.Fits dialect) :
    ∀ row ∈ reader.finish, ∀ cell ∈ row, dialect.Fits cell := by
  unfold Reader.finish
  split
  · intro row member
    rw [List.mem_singleton.mp member]
    exact (fits.save .startRecord).fields
  · intro row member
    cases member

end Reader

theorem fits_of_readRows {midLine : Bool} {text : List Symbol} (fits : reader.Fits dialect)
    (reads : readRows dialect reader midLine text = .ok rows) :
    ∀ row ∈ rows, ∀ cell ∈ row, dialect.Fits cell := by
  induction text generalizing reader midLine rows with
  | nil =>
      obtain rfl := Except.ok.inj reads
      split
      · split
        · intro row member
          rw [List.mem_singleton.mp member]
          exact fits.endLine.fields
        · exact fits.endLine.finish
      · exact fits.finish
  | cons symbol rest inductionHypothesis =>
      rw [readRows] at reads
      cases first : reader.read dialect symbol with
      | error failure =>
          rw [first] at reads
          cases reads
      | ok next =>
          rw [first] at reads
          have nextFits := fits.read first
          dsimp only at reads
          split at reads
          · split at reads
            · cases later : readRows dialect .start false rest with
              | error failure =>
                  rw [later] at reads
                  cases reads
              | ok others =>
                  rw [later] at reads
                  obtain rfl := Except.ok.inj reads
                  rw [List.forall_mem_cons]
                  exact ⟨nextFits.endLine.fields, inductionHypothesis .start later⟩
            · exact inductionHypothesis nextFits.endLine reads
          · exact inductionHypothesis nextFits reads

/-- The cells of a file that is read can be written. -/
theorem fits_of_readFile {text : List Symbol} (reads : readFile dialect text = .ok rows) :
    ∀ row ∈ rows, ∀ cell ∈ row, dialect.Fits cell :=
  fits_of_readRows .start reads

end Fits

end CSE550.Lib.Csv
