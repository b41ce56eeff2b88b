import CSE550.Lib.Csv
import CSE550.Lib.Lists
import CSE550.Lib.Text

/-!
Owns `cleandata.py`: the files of a folder are read as tables, empty cells get a default,
and all rows are written to one file.

The folder is what `os.listdir` returns, in its order; the output is in another folder. Does
not own what is on the disk after an exception.
-/

namespace CSE550.Trace

open CSE550.Lib

/-! ### The code -/

/-- The default dialect of the `csv` module. -/
def excel : Csv.Dialect Char where
  delimiter := ','
  quotechar := '"'
  carriageReturn := '\r'
  newline := '\n'
  null := '\x00'
  fieldLimit := 131072
  distinct := by decide

/-- A cell of a row: an empty one gets -1, or 0 in one column. -/
def cleanCell (zeroCol : ℤ) (index : ℕ) (cell : Text) : Text :=
  if cell = [] then if (index : ℤ) ≠ zeroCol then Text.intText (-1) else Text.intText 0
  else cell

/-- The loop over the cells and the check of their number. -/
def cleanLine (zeroCol numCols : ℤ) (line : List Text) : Option (List Text) :=
  let writeLine := line.mapIdx (cleanCell zeroCol)
  if (writeLine.length : ℤ) = numCols then some writeLine else none

/-- The loop over the rows of one file. -/
def cleanFile (zeroCol numCols : ℤ) (text : Text) : Option (List (List Text)) :=
  match Csv.readFile excel text with
  | .error _ => none
  | .ok lines => lines.mapM (cleanLine zeroCol numCols)

/-- `fname.endswith(".csv")`. -/
def IsCsv (fname : Text) : Prop := ".csv".toList <:+ fname

instance isCsvDecidable (fname : Text) : Decidable (IsCsv fname) := by
  unfold IsCsv
  infer_instance

/-- The rows that are written for the files of a folder, which are names with texts. -/
def cleanFolder (zeroCol numCols : ℤ) (folder : List (Text × Text)) :
    Option (List (List Text)) :=
  ((folder.filter fun file => IsCsv file.1).mapM fun file =>
    cleanFile zeroCol numCols file.2).map List.flatten

/-- `clean_data`: what is in the output file; none when an exception stops it. -/
def cleanData (folder : List (Text × Text)) (zeroCol numCols : ℤ) : Option Text :=
  (cleanFolder zeroCol numCols folder).map (Csv.writeRows excel)

/-! ### Clean rows -/

/-- A row as it is written. -/
structure Clean (numCols : ℤ) (row : List Text) : Prop where
  length : (row.length : ℤ) = numCols
  noEmpty : [] ∉ row
  fits : ∀ cell ∈ row, excel.Fits cell

section Rows

variable {zeroCol numCols : ℤ} {line row : List Text}

theorem cleanCell_ne_nil (zeroCol : ℤ) (index : ℕ) (cell : Text) :
    cleanCell zeroCol index cell ≠ [] := by
  unfold cleanCell
  split
  · split <;> exact Text.intText_ne_nil _
  · assumption

theorem fits_cleanCell {cell : Text} (fits : excel.Fits cell) (zeroCol : ℤ) (index : ℕ) :
    excel.Fits (cleanCell zeroCol index cell) := by
  unfold cleanCell
  split
  · split
    · exact ⟨by decide, by decide⟩
    · exact ⟨by decide, by decide⟩
  · exact fits

/-- The cells of a row with the empty ones filled. -/
def filled (zeroCol : ℤ) (line : List Text) : List Text := line.mapIdx (cleanCell zeroCol)

theorem cleanLine_eq_some_iff : cleanLine zeroCol numCols line = some row ↔
    (line.length : ℤ) = numCols ∧ row = filled zeroCol line := by
  unfold cleanLine filled
  dsimp only
  rw [List.length_mapIdx, Option.ite_none_right_eq_some, Option.some_inj]
  exact and_congr_right fun _ => eq_comm

/-- A row with its cells filled is clean. -/
theorem clean_filled (fits : ∀ cell ∈ line, excel.Fits cell) (length : (line.length : ℤ) = numCols)
    (zeroCol : ℤ) : Clean numCols (filled zeroCol line) where
  length := by rwa [filled, List.length_mapIdx]
  noEmpty := by
    intro member
    obtain ⟨index, inside, same⟩ := List.mem_mapIdx.mp member
    exact cleanCell_ne_nil zeroCol index _ same
  fits := by
    intro cell member
    obtain ⟨index, inside, rfl⟩ := List.mem_mapIdx.mp member
    exact fits_cleanCell (fits _ (List.getElem_mem inside)) zeroCol index

/-- A clean row stays as it is. -/
theorem Clean.filled_eq (clean : Clean numCols row) (zeroCol : ℤ) : filled zeroCol row = row := by
  unfold filled
  apply List.ext_getElem
  · rw [List.length_mapIdx]
  · intro index _ inside
    rw [List.getElem_mapIdx, cleanCell, if_neg]
    intro isEmpty
    exact clean.noEmpty (isEmpty ▸ List.getElem_mem inside)

/-- A file is cleaned when it is read and each row has the cells asked for. -/
theorem cleanFile_eq_some_iff {text : Text} {rows : List (List Text)} :
    cleanFile zeroCol numCols text = some rows ↔
      ∃ lines, Csv.readFile excel text = .ok lines ∧
        (∀ line ∈ lines, (line.length : ℤ) = numCols) ∧ rows = lines.map (filled zeroCol) := by
  unfold cleanFile
  cases reads : Csv.readFile excel text with
  | error failure => simp
  | ok lines =>
      simp only [Except.ok.injEq, exists_eq_left', mapM_eq_some_iff, cleanLine_eq_some_iff]
      exact forall₂_eq_map_iff

/-- Clean rows that were written are read and stay as they are. -/
theorem cleanFile_writeRows {rows : List (List Text)} (clean : ∀ row ∈ rows, Clean numCols row)
    (zeroCol : ℤ) : cleanFile zeroCol numCols (Csv.writeRows excel rows) = some rows := by
  have reads := Csv.readFile_writeRows fun row member => (clean row member).fits
  refine cleanFile_eq_some_iff.mpr ⟨rows, reads, fun row member => (clean row member).length, ?_⟩
  exact (List.map_id rows).symm.trans
    (List.map_congr_left fun row member => ((clean row member).filled_eq zeroCol).symm)

end Rows

/-! ### Folders -/

section Folders

variable {zeroCol numCols : ℤ} {folder : List (Text × Text)} {rows : List (List Text)}
  {text : Text}

theorem cleanFolder_append (zeroCol numCols : ℤ) (first second : List (Text × Text)) :
    cleanFolder zeroCol numCols (first ++ second) =
      (cleanFolder zeroCol numCols first).bind fun rows =>
        (cleanFolder zeroCol numCols second).map (rows ++ ·) := by
  unfold cleanFolder
  rw [List.filter_append, List.mapM_append]
  cases (first.filter fun file => IsCsv file.1).mapM fun file =>
      cleanFile zeroCol numCols file.2 with
  | none => rfl
  | some before =>
      cases (second.filter fun file => IsCsv file.1).mapM fun file =>
          cleanFile zeroCol numCols file.2 with
      | none => rfl
      | some after => simp

/-- A folder is cleaned when each of its files is read and each row has the cells asked for. -/
theorem cleanFolder_eq_some_iff : cleanFolder zeroCol numCols folder = some rows ↔
    ∃ tables, List.Forall₂ (fun file table => Csv.readFile excel file.2 = .ok table)
        (folder.filter fun file => IsCsv file.1) tables ∧
      (∀ line ∈ tables.flatten, (line.length : ℤ) = numCols) ∧
      rows = tables.flatten.map (filled zeroCol) := by
  have collected (files : List (Text × Text)) :
      (∃ cleaned, List.Forall₂ (fun file rows => cleanFile zeroCol numCols file.2 = some rows) files
          cleaned ∧ cleaned.flatten = rows) ↔
        ∃ tables, List.Forall₂ (fun file table => Csv.readFile excel file.2 = .ok table) files
          tables ∧ (∀ line ∈ tables.flatten, (line.length : ℤ) = numCols) ∧
          rows = tables.flatten.map (filled zeroCol) := by
    constructor
    · intro cleaning
      obtain ⟨cleaned, pairs, rfl⟩ := cleaning
      induction pairs with
      | nil => exact ⟨[], .nil, by simp, rfl⟩
      | @cons file first files cleaned firstCleaned _ inductionHypothesis =>
          obtain ⟨tables, reads, lengths, same⟩ := inductionHypothesis
          obtain ⟨lines, linesRead, lineLengths, rfl⟩ := cleanFile_eq_some_iff.mp firstCleaned
          refine ⟨lines :: tables, .cons linesRead reads, fun line member => ?_, ?_⟩
          · rcases List.mem_append.mp member with inFirst | later
            · exact lineLengths line inFirst
            · exact lengths line later
          · rw [List.flatten_cons, same, List.flatten_cons, List.map_append]
    · intro reading
      obtain ⟨tables, pairs, lengths, rfl⟩ := reading
      induction pairs with
      | nil => exact ⟨[], .nil, rfl⟩
      | @cons file lines files tables linesRead _ inductionHypothesis =>
          rw [List.flatten_cons, List.forall_mem_append] at lengths
          obtain ⟨cleaned, pairs, same⟩ := inductionHypothesis lengths.2
          refine ⟨lines.map (filled zeroCol) :: cleaned, .cons ?_ pairs, ?_⟩
          · exact cleanFile_eq_some_iff.mpr ⟨lines, linesRead, lengths.1, rfl⟩
          · rw [List.flatten_cons, same, List.flatten_cons, List.map_append]
  unfold cleanFolder
  rw [Option.map_eq_some_iff, ← collected]
  exact exists_congr fun cleaned => and_congr_left fun _ => mapM_eq_some_iff

/-- All the rows that are written are clean. -/
theorem clean_of_cleanFolder (cleaned : cleanFolder zeroCol numCols folder = some rows) :
    ∀ row ∈ rows, Clean numCols row := by
  obtain ⟨tables, reads, lengths, rfl⟩ := cleanFolder_eq_some_iff.mp cleaned
  intro row member
  obtain ⟨line, inTables, rfl⟩ := List.mem_map.mp member
  obtain ⟨table, isTable, inTable⟩ := List.mem_flatten.mp inTables
  have fits : ∀ cell ∈ line, excel.Fits cell := by
    obtain ⟨file, tableRead⟩ : ∃ file : Text × Text, Csv.readFile excel file.2 = .ok table := by
      clear lengths member inTables cleaned
      generalize (folder.filter fun file => IsCsv file.1) = files at reads
      induction reads with
      | nil => cases isTable
      | @cons file first files tables firstRead _ inductionHypothesis =>
          rcases List.mem_cons.mp isTable with rfl | later
          · exact ⟨file, firstRead⟩
          · exact inductionHypothesis later
    exact Csv.fits_of_readFile tableRead line inTable
  exact clean_filled fits (lengths line inTables) zeroCol

/-- The output is a file of clean rows. -/
theorem exists_rows (cleaned : cleanData folder zeroCol numCols = some text) :
    ∃ rows, cleanFolder zeroCol numCols folder = some rows ∧
      (∀ row ∈ rows, Clean numCols row) ∧ text = Csv.writeRows excel rows := by
  obtain ⟨rows, rowsCleaned, rfl⟩ := Option.map_eq_some_iff.mp cleaned
  exact ⟨rows, rowsCleaned, clean_of_cleanFolder rowsCleaned, rfl⟩

/-- An output that is in a folder of its own. -/
theorem cleanFolder_output {name : Text} (isCsv : IsCsv name)
    (clean : ∀ row ∈ rows, Clean numCols row) (zeroCol : ℤ) :
    cleanFolder zeroCol numCols [(name, Csv.writeRows excel rows)] = some rows := by
  unfold cleanFolder
  have only : [(name, Csv.writeRows excel rows)].filter (fun file => IsCsv file.1) =
      [(name, Csv.writeRows excel rows)] := by
    simp [isCsv]
  rw [only, List.mapM_cons, cleanFile_writeRows clean zeroCol]
  simp

/-- What is written is read back: the rows of the files in their order, each with its empty
cells filled, with as many cells as asked for, and none of them empty. -/
theorem output_reads_back (cleaned : cleanData folder zeroCol numCols = some text) :
    ∃ tables, List.Forall₂ (fun file table => Csv.readFile excel file.2 = .ok table)
        (folder.filter fun file => IsCsv file.1) tables ∧
      Csv.readFile excel text = .ok (tables.flatten.map (filled zeroCol)) ∧
      ∀ row ∈ tables.flatten.map (filled zeroCol), (row.length : ℤ) = numCols ∧ [] ∉ row := by
  obtain ⟨rows, rowsCleaned, clean, rfl⟩ := exists_rows cleaned
  obtain ⟨tables, reads, _, rfl⟩ := cleanFolder_eq_some_iff.mp rowsCleaned
  refine ⟨tables, reads, Csv.readFile_writeRows fun row member => (clean row member).fits, ?_⟩
  exact fun row member => ⟨(clean row member).length, (clean row member).noEmpty⟩

/-- A file with an empty cell, a comma within quotes and a name that is passed over. -/
def twoFiles : List (Text × Text) :=
  [("a.csv".toList, "1,,3\n\"x,\ny\",5,\r\n".toList), ("notes".toList, "no table".toList)]

theorem output_reads_back_two :
    cleanData twoFiles 1 3 = some "1,0,3\r\n\"x,\ny\",5,-1\r\n".toList ∧
      ∃ tables, List.Forall₂ (fun file table => Csv.readFile excel file.2 = .ok table)
          (twoFiles.filter fun file => IsCsv file.1) tables ∧
        Csv.readFile excel "1,0,3\r\n\"x,\ny\",5,-1\r\n".toList =
          .ok (tables.flatten.map (filled 1)) ∧
        ∀ row ∈ tables.flatten.map (filled 1), (row.length : ℤ) = 3 ∧ [] ∉ row := by
  have cleaned : cleanData twoFiles 1 3 = some "1,0,3\r\n\"x,\ny\",5,-1\r\n".toList := by
    decide +kernel
  exact ⟨cleaned, output_reads_back cleaned⟩

/-- Cleaning can be done in parts: the outputs for some folders, cleaned once more, give
the output for all their files. -/
theorem cleaned_in_parts {parts : List (List (Text × Text))} {outputs : List (Text × Text)}
    (cleaned : List.Forall₂ (fun part (output : Text × Text) => IsCsv output.1 ∧
      cleanData part zeroCol numCols = some output.2) parts outputs) (otherCol : ℤ) :
    cleanData outputs otherCol numCols = cleanData parts.flatten zeroCol numCols := by
  unfold cleanData
  congr 1
  induction cleaned with
  | nil => rfl
  | @cons part output parts outputs first _ inductionHypothesis =>
      obtain ⟨isCsv, partCleaned⟩ := first
      obtain ⟨rows, rowsCleaned, clean, same⟩ := exists_rows partCleaned
      obtain ⟨name, text⟩ := output
      obtain rfl : text = Csv.writeRows excel rows := same
      rw [List.flatten_cons, cleanFolder_append, rowsCleaned, ← inductionHypothesis,
        ← List.singleton_append, cleanFolder_append, cleanFolder_output isCsv clean otherCol]

/-- The output of one folder, cleaned again with another column. -/
theorem cleaned_in_parts_once :
    cleanData [("out.csv".toList, "1,0,3\r\n\"x,\ny\",5,-1\r\n".toList)] 7 3 =
      cleanData [twoFiles].flatten 1 3 :=
  cleaned_in_parts (.cons ⟨by decide, by decide +kernel⟩ .nil) 7

end Folders

end CSE550.Trace
