import RulesAnalyzer.Csv.Parser
import Mathlib.Data.List.Forall2

/-!
# The CSV reader

The reader takes the names of the columns from the first record and hands out one
row for each of the next records, with the columns in the configured order.  It
stops at the first record without fields.

## Main definitions

* `CsvReader`, `CsvReader.create`, `CsvReader.nextRow` — the reader.
* `Records` — the records of a text in which the parser finds no error.
* `Yields` — the rows of the successive calls of `nextRow`.

## Main results

* `CsvReader.yields_records_iff` — the reader hands out all records exactly when only the
  last one can be empty.
* `CsvReader.yields_nonempty_iff` — **when no record is dropped.**
-/

namespace RulesAnalyzer.Csv

/-- The comparison of names that ignores the case of letters.  The names of the library function
end at the first zero character. -/
def striEqual (lhs rhs : String) : Bool :=
  (lhs.toList.takeWhile (· ≠ '\x00')).map Char.toLower ==
    (rhs.toList.takeWhile (· ≠ '\x00')).map Char.toLower

/-- A column. -/
structure CsvColumn where
  name : String
  defaultValue : String
  optional : Bool
  deriving DecidableEq

/-- The errors of the reader. -/
inductive CsvError
  | runtimeError (message : String)
  | interruptError (message : String)
  deriving DecidableEq, Repr

/-- A reader on a stream. -/
structure CsvReader where
  /-- The stream that is left. -/
  stream : List Char
  /-- The columns of a row. -/
  columns : List CsvColumn
  /-- The column of each position of the first record, if it is configured. -/
  columnPosition : List (Option (Fin columns.length))
  /-- The number of the current row. -/
  rowNumber : ℕ
  /-- The end of the file was reached. -/
  eof : Bool

/-- The options of the parser the reader uses. -/
def readerOptions : CsvParserOptions := ⟨'"', '\\', ',', false, true⟩

namespace CsvReader

/-- The next record of the parser of a reader. -/
def parseRecord (stream : List Char) : Except CsvError (CsvValues × List Char) :=
  (nextRecord readerOptions stream).mapError .runtimeError

/-- The positions of the headers.  No column is ever noted as configured, so the test for a
column that is defined twice never fails. -/
def mapHeaders (columns : List CsvColumn) (columnConfigured : Fin columns.length → Bool) :
    CsvValues → Except CsvError (List (Option (Fin columns.length)))
  | [] => .ok []
  | header :: headers =>
    match columns.findFinIdx? fun column => striEqual column.name header with
    | none => (none :: ·) <$> mapHeaders columns columnConfigured headers
    | some idx =>
      if columnConfigured idx then
        .error (.runtimeError ("column '" ++ header ++ "' is defined more than once"))
      else (some idx :: ·) <$> mapHeaders columns columnConfigured headers

/-- A reader that has read the names of the columns. -/
def create (csvStream : List Char) (columns : List CsvColumn) : Except CsvError CsvReader := do
  let (headers, stream) ← parseRecord csvStream
  if headers.isEmpty then .error (.runtimeError "csv header not found")
  else
    let columnPosition ← mapHeaders columns (fun _ => false) headers
    return { stream := stream
             columns := columns
             columnPosition := columnPosition
             rowNumber := 1
             eof := false }

/-- The values before a record is read: the defaults of the optional columns. -/
def defaultValues (columns : List CsvColumn) : CsvValues :=
  columns.map fun column => if column.optional then column.defaultValue else ""

/-- Puts one value of a record into its column. -/
def assignValue (columns : List CsvColumn) (columnPosition : List (Option (Fin columns.length)))
    (values : CsvValues) (value : String × ℕ) : CsvValues :=
  match columnPosition[value.2]? with
  | some (some colPos) =>
    let column := columns[colPos]
    values.set colPos (if !column.optional ∧ value.1 = "" then column.defaultValue else value.1)
  | _ => values

/-- The row of a record. -/
def assignRecord (reader : CsvReader) (record : CsvValues) : CsvValues :=
  record.zipIdx.foldl (assignValue reader.columns reader.columnPosition)
    (defaultValues reader.columns)

/-- The next row, if there is one.  The callback may have interrupted the reader. -/
def nextRow (reader : CsvReader) (interrupted : Bool) :
    Except CsvError (Option CsvValues × CsvReader) :=
  if interrupted then .error (.interruptError "** interrupted **")
  else if reader.eof then .ok (none, reader)
  else do
    let (record, stream) ← parseRecord reader.stream
    if record.isEmpty then return (none, { reader with stream := stream, eof := true })
    else
      return (some (reader.assignRecord record),
        { reader with stream := stream, rowNumber := reader.rowNumber + 1 })

/-- The rows of the successive calls up to the first one that finds none, and the reader then. -/
inductive Yields : CsvReader → List CsvValues → CsvReader → Prop
  | stop {reader reader' : CsvReader} (h : reader.nextRow false = .ok (none, reader')) :
      Yields reader [] reader'
  | row {reader reader' reader'' : CsvReader} {values : CsvValues} {rows : List CsvValues}
      (h : reader.nextRow false = .ok (some values, reader'))
      (hrows : Yields reader' rows reader'') :
      Yields reader (values :: rows) reader''

end CsvReader

/-- The records of a text, in which the parser finds no error. -/
inductive Records : List Char → List CsvValues → Prop
  | nil : Records [] []
  | cons {text rest : List Char} {record : CsvValues} {records : List CsvValues} (hne : text ≠ [])
      (h : nextRecord readerOptions text = .ok (record, rest)) (hrest : Records rest records) :
      Records text (record :: records)

namespace CsvReader

variable {reader reader' reader'' : CsvReader} {rows : List CsvValues}

theorem parseRecord_eq_ok {stream rest : List Char} {record : CsvValues} :
    parseRecord stream = .ok (record, rest) ↔
      nextRecord readerOptions stream = .ok (record, rest) := by
  rw [parseRecord]
  cases nextRecord readerOptions stream with
  | error message => exact iff_of_false nofun nofun
  | ok result => rw [Except.mapError, Except.ok.injEq, Except.ok.injEq]

/-- The row of a record does not depend on the stream. -/
theorem assignRecord_next (reader : CsvReader) (stream : List Char) (rowNumber : ℕ) :
    ({ reader with stream := stream, rowNumber := rowNumber } : CsvReader).assignRecord =
      reader.assignRecord := rfl

/-- The call that reads a record. -/
theorem nextRow_record {rest : List Char} {record : CsvValues} (heof : reader.eof = false)
    (h : nextRecord readerOptions reader.stream = .ok (record, rest)) :
    reader.nextRow false = .ok (if record.isEmpty then
        (none, { reader with stream := rest, eof := true })
      else (some (reader.assignRecord record),
        { reader with stream := rest, rowNumber := reader.rowNumber + 1 })) := by
  rw [nextRow, if_neg Bool.false_ne_true, heof, if_neg Bool.false_ne_true,
    parseRecord_eq_ok.mpr h, ← heof]
  cases record with
  | nil => rfl
  | cons field fields => rfl

theorem yields_iff_of_none (h : reader.nextRow false = .ok (none, reader')) :
    Yields reader rows reader'' ↔ rows = [] ∧ reader'' = reader' := by
  constructor
  · intro hy
    cases hy with
    | stop h' =>
      rw [h] at h'
      exact ⟨rfl, (Prod.mk.inj (Except.ok.inj h')).2.symm⟩
    | row h' _ =>
      rw [h] at h'
      cases (Prod.mk.inj (Except.ok.inj h')).1
  · intro heq
    rw [heq.1, heq.2]
    exact .stop h

theorem yields_iff_of_some {values : CsvValues}
    (h : reader.nextRow false = .ok (some values, reader')) :
    Yields reader (values :: rows) reader'' ↔ Yields reader' rows reader'' := by
  constructor
  · intro hy
    cases hy with
    | row h' hrows =>
      rw [h] at h'
      rw [(Prod.mk.inj (Except.ok.inj h')).2]
      exact hrows
  · exact fun hrows => .row h hrows

end CsvReader

open CsvReader

/-- All but the last: the first one too, unless it is the last. -/
theorem forall_mem_dropLast_cons {α : Type} {P : α → Prop} {a : α} {l : List α} :
    (∀ x ∈ (a :: l).dropLast, P x) ↔ (l ≠ [] → P a) ∧ ∀ x ∈ l.dropLast, P x := by
  by_cases hnil : l = []
  · simp [hnil]
  · rw [List.dropLast_cons_of_ne_nil hnil, List.forall_mem_cons]
    simp [hnil]

/-- The reader hands out a row for each record that is not empty, and exhausts the stream,
exactly when only the last line is blank. -/
theorem yields_records_iff {text : List Char} {records : List CsvValues}
    (hrecords : Records text records) (reader : CsvReader) (hstream : reader.stream = text)
    (heof : reader.eof = false) :
    (∃ reader', Yields reader ((records.filter (!·.isEmpty)).map reader.assignRecord) reader' ∧
      reader'.stream = []) ↔ ∀ l ∈ (lines text).dropLast, ¬BlankLine l := by
  -- record by record; the text of each is a line of the file
  induction hrecords generalizing reader with
  | nil =>
    have hend : nextRecord readerOptions reader.stream = .ok ([], []) := by
      rw [hstream]
      rfl
    have hrow := nextRow_record heof hend
    refine iff_of_true ⟨_, .stop hrow, rfl⟩ ?_
    simp [lines]
  | @cons text rest record records hne h hrest ih =>
    obtain ⟨hrest_eq, hblank⟩ := nextRecord_strict rfl h
    have hlines : lines text = line text :: lines rest := by
      obtain ⟨c, t, rfl⟩ := List.exists_cons_of_ne_nil hne
      rw [lines, ← hrest_eq]
    have hrow := nextRow_record heof (hstream ▸ h)
    rw [hlines, forall_mem_dropLast_cons]
    by_cases hrecord : record = []
    · -- a blank line: nothing is read after it
      have hline := hblank.mp hrecord
      subst hrecord
      simp only [yields_iff_of_none hrow]
      constructor
      · intro hy
        obtain ⟨reader', ⟨-, rfl⟩, hnil⟩ := hy
        obtain rfl : rest = [] := hnil
        simp [lines]
      · intro hlast
        have hnil : lines rest = [] := by
          by_contra hnil
          exact hlast.1 hnil hline
        obtain rfl := lines_eq_nil_iff.mp hnil
        cases hrest with
        | nil => exact ⟨_, ⟨rfl, rfl⟩, rfl⟩
        | cons hne' => exact absurd rfl hne'
    · -- a row is handed out, and the rest is read by a reader that is one row further
      have hline : ¬BlankLine (line text) := mt hblank.mpr hrecord
      have hsome : record.isEmpty = false := by simpa using hrecord
      rw [hsome, if_neg Bool.false_ne_true] at hrow
      rw [List.filter_cons_of_pos (by simp [hsome]), List.map_cons]
      simp only [yields_iff_of_some hrow]
      have hnext := ih { reader with stream := rest, rowNumber := reader.rowNumber + 1 } rfl heof
      rw [assignRecord_next] at hnext
      exact hnext.trans (and_iff_right fun _ => hline).symm

namespace CsvReader

theorem create_eq_ok {text : List Char} {columns : List CsvColumn} {reader : CsvReader}
    (h : create text columns = .ok reader) :
    text ≠ [] ∧ reader.stream = restLines text ∧ reader.eof = false := by
  rw [create] at h
  rcases hparse : parseRecord text with message | ⟨headers, rest⟩
  · rw [hparse] at h
    cases h
  · obtain ⟨hrest, hblank⟩ := nextRecord_strict rfl (parseRecord_eq_ok.mp hparse)
    rw [hparse] at h
    cases hheaders : headers.isEmpty with
    | true =>
      simp only [bind, Except.bind, hheaders, if_true] at h
      cases h
    | false =>
      simp only [bind, Except.bind, hheaders, if_neg Bool.false_ne_true] at h
      rcases hmap : mapHeaders columns (fun _ => false) headers with message | columnPosition
      · rw [hmap] at h
        cases h
      · rw [hmap] at h
        obtain rfl := Except.ok.inj h
        refine ⟨?_, hrest, rfl⟩
        rintro rfl
        rw [hblank.mpr (Or.inl rfl)] at hheaders
        cases hheaders

/-- **When no record is dropped.**  After the header, the successive calls of `nextRow` hand
out one row for each record that is not empty, in order, and find no more rows only at the end
of the stream, exactly when no line but the last is blank. -/
theorem yields_nonempty_iff (text : List Char) (columns : List CsvColumn) (reader : CsvReader)
    (records : List CsvValues) (hcreate : create text columns = .ok reader)
    (hrecords : Records reader.stream records) :
    (∃ reader', Yields reader ((records.filter (!·.isEmpty)).map reader.assignRecord) reader' ∧
      reader'.stream = []) ↔ ∀ l ∈ (lines text).tail.dropLast, ¬BlankLine l := by
  obtain ⟨hne, hstream, heof⟩ := create_eq_ok hcreate
  obtain ⟨c, t, rfl⟩ := List.exists_cons_of_ne_nil hne
  rw [yields_records_iff hrecords reader rfl heof, hstream, lines, List.tail_cons]

theorem yields_nonempty_witness : ∃ reader, create "id\n1\n2\n".toList [⟨"id", "", false⟩] =
      .ok reader ∧
    ((∃ reader', Yields reader
        (([["1"], ["2"]].filter (!·.isEmpty)).map reader.assignRecord) reader' ∧
      reader'.stream = []) ↔ ∀ l ∈ (lines "id\n1\n2\n".toList).tail.dropLast, ¬BlankLine l) := by
  have hrecords : Records "1\n2\n".toList [["1"], ["2"]] :=
    .cons (by decide) rfl (.cons (by decide) rfl .nil)
  exact ⟨_, rfl, yields_nonempty_iff "id\n1\n2\n".toList [⟨"id", "", false⟩] _ [["1"], ["2"]] rfl
    hrecords⟩

/-- A reader for the column `id`. -/
def idReader (stream : List Char) (rowNumber : ℕ) (eof : Bool) : CsvReader :=
  ⟨stream, [⟨"id", "", false⟩], [some ⟨0, by decide⟩], rowNumber, eof⟩

/-- The row after a blank line is dropped. -/
theorem yields_drops :
    create "id\n1\n\n2\n".toList [⟨"id", "", false⟩] = .ok (idReader "1\n\n2\n".toList 1 false) ∧
    Records "1\n\n2\n".toList [["1"], [], ["2"]] ∧
    (idReader "1\n\n2\n".toList 1 false).Yields [["1"]] (idReader "2\n".toList 2 true) ∧
    ¬∃ reader', (idReader "1\n\n2\n".toList 1 false).Yields [["1"], ["2"]] reader' ∧
      reader'.stream = [] := by
  have hfirst : (idReader "1\n\n2\n".toList 1 false).nextRow false =
      .ok (some ["1"], idReader "\n2\n".toList 2 false) := rfl
  have hsecond : (idReader "\n2\n".toList 2 false).nextRow false =
      .ok (none, idReader "2\n".toList 2 true) := rfl
  have hrecords : Records "1\n\n2\n".toList [["1"], [], ["2"]] :=
    .cons (by decide) rfl (.cons (by decide) rfl (.cons (by decide) rfl .nil))
  refine ⟨rfl, hrecords, .row hfirst (.stop hsecond), fun hyields => ?_⟩
  obtain ⟨reader', hrows, -⟩ := hyields
  rw [yields_iff_of_some hfirst, yields_iff_of_none hsecond] at hrows
  exact List.cons_ne_nil _ _ hrows.1

end CsvReader

end RulesAnalyzer.Csv
