import RulesAnalyzer.Csv.Reader
import Mathlib.Data.List.FinRange
import Mathlib.Data.List.Induction

/-!
# The columns of a row

The constructor of the reader gives each position of the first record its column,
and `nextRow` puts the values of a record into the columns of their positions.

## Main definitions

* `ColumnOf`, `NamedTwice` — the column of a header, and headers that name one column twice.
* `fieldUnder`, `expectedValue` — the field under the header of a column, and the value the
  column gets from it.
* `Reached` — the readers of the successive calls of `nextRow`.

## Main results

* `create_rejects_iff` — **when a column that is named twice is refused.**
* `nextRow_values_iff` — **when a row has the expected values.**
-/

namespace RulesAnalyzer.Csv

namespace CsvReader

variable {columns : List CsvColumn} {headers record : CsvValues}

/-! ### The headers -/

/-- The column of a header: the first one of that name, if there is one. -/
def ColumnOf (columns : List CsvColumn) (header : String) : Option (Fin columns.length) → Prop
  | none => ∀ column ∈ columns, striEqual column.name header = false
  | some idx => striEqual (columns.get idx).name header = true ∧
      ∀ j < idx, striEqual (columns.get j).name header = false

/-- The headers name a column more than once. -/
def NamedTwice (columns : List CsvColumn) (headers : CsvValues) : Prop :=
  ∃ column ∈ columns, 2 ≤ headers.countP (striEqual column.name)

/-- The column of a header, as the reader finds it. -/
def findColumn (columns : List CsvColumn) (header : String) : Option (Fin columns.length) :=
  columns.findFinIdx? fun column => striEqual column.name header

theorem columnOf_findColumn (columns : List CsvColumn) (header : String) :
    ColumnOf columns header (findColumn columns header) := by
  unfold findColumn
  cases hfind : columns.findFinIdx? fun column => striEqual column.name header with
  | none => simpa [ColumnOf] using hfind
  | some idx => simpa [ColumnOf] using List.findFinIdx?_eq_some_iff.mp hfind

/-- No column is ever noted as configured, so every header gets its column. -/
theorem mapHeaders_eq (columns : List CsvColumn) (headers : CsvValues) :
    mapHeaders columns (fun _ => false) headers = .ok (headers.map (findColumn columns)) := by
  induction headers with
  | nil => rfl
  | cons header headers ih =>
    rw [mapHeaders, ih, List.map_cons]
    unfold findColumn
    cases columns.findFinIdx? fun column => striEqual column.name header <;> rfl

theorem create_eq {text rest : List Char} (columns : List CsvColumn)
    (h : nextRecord readerOptions text = .ok (headers, rest)) (hne : headers ≠ []) :
    create text columns = .ok ⟨rest, columns, headers.map (findColumn columns), 1, false⟩ := by
  unfold create
  rw [parseRecord_eq_ok.mpr h]
  show (if headers.isEmpty then _ else _) = _
  rw [if_neg (by simpa using hne), mapHeaders_eq]
  rfl

/-- **When a column that is named twice is refused.**  The constructor raises the error exactly
for the headers that name a configured column twice, and otherwise gives each header its
column, exactly when the headers name no configured column twice. -/
theorem create_rejects_iff {text rest : List Char} (columns : List CsvColumn)
    (h : nextRecord readerOptions text = .ok (headers, rest)) (hne : headers ≠ []) :
    (((∃ header, create text columns =
          .error (.runtimeError ("column '" ++ header ++ "' is defined more than once"))) ↔
        NamedTwice columns headers) ∧
      (¬NamedTwice columns headers → ∃ columnPosition,
        create text columns = .ok ⟨rest, columns, columnPosition, 1, false⟩ ∧
        List.Forall₂ (ColumnOf columns) headers columnPosition)) ↔
      ¬NamedTwice columns headers := by
  have hcreate := create_eq columns h hne
  constructor
  · intro hclaim htwice
    obtain ⟨header, herror⟩ := hclaim.1.mpr htwice
    rw [hcreate] at herror
    cases herror
  · intro honce
    refine ⟨iff_of_false ?_ honce, fun _ => ⟨_, hcreate, ?_⟩⟩
    · intro herror
      obtain ⟨header, herror⟩ := herror
      rw [hcreate] at herror
      cases herror
    · rw [List.forall₂_map_right_iff]
      exact List.forall₂_same.mpr fun header _ => columnOf_findColumn columns header

theorem create_rejects_witness :
    (((∃ header, create "id,name\n".toList [⟨"id", "", false⟩] =
          .error (.runtimeError ("column '" ++ header ++ "' is defined more than once"))) ↔
        NamedTwice [⟨"id", "", false⟩] ["id", "name"]) ∧
      (¬NamedTwice [⟨"id", "", false⟩] ["id", "name"] → ∃ columnPosition,
        create "id,name\n".toList [⟨"id", "", false⟩] =
          .ok ⟨[], [⟨"id", "", false⟩], columnPosition, 1, false⟩ ∧
        List.Forall₂ (ColumnOf [⟨"id", "", false⟩]) ["id", "name"] columnPosition)) ↔
      ¬NamedTwice [⟨"id", "", false⟩] ["id", "name"] :=
  create_rejects_iff [⟨"id", "", false⟩] rfl (by decide)

/-- Two columns of the name `id`, and nothing is raised. -/
theorem create_accepts_twice : NamedTwice [⟨"id", "", false⟩] ["id", "ID"] ∧
    nextRecord readerOptions "id,ID\n".toList = .ok (["id", "ID"], []) ∧
    create "id,ID\n".toList [⟨"id", "", false⟩] =
      .ok ⟨[], [⟨"id", "", false⟩], [some ⟨0, Nat.one_pos⟩, some ⟨0, Nat.one_pos⟩], 1, false⟩ :=
  ⟨⟨_, List.mem_singleton_self _, by decide⟩, rfl, rfl⟩

/-! ### The values of a record -/

/-- The field of a record under the header of a column, the last one if there are several. -/
def fieldUnder (columns : List CsvColumn) (headers record : CsvValues)
    (idx : Fin columns.length) : Option String :=
  (((headers.zip record).filter fun (header, _) =>
    findColumn columns header = some idx).getLast?).map Prod.snd

/-- The value a column should get: an optional column without a field gets its default. -/
def expectedValue (columns : List CsvColumn) (headers record : CsvValues)
    (idx : Fin columns.length) : String :=
  let field := (fieldUnder columns headers record idx).getD ""
  if (columns.get idx).optional ∧ field = "" then (columns.get idx).defaultValue else field

/-- The readers of a text: the new one, and those the calls of `nextRow` leave. -/
inductive Reached (text : List Char) (columns : List CsvColumn) : CsvReader → Prop
  | create {reader : CsvReader} (h : create text columns = .ok reader) : Reached text columns reader
  | next {reader reader' : CsvReader} {interrupted : Bool} {row : Option CsvValues}
      (hreader : Reached text columns reader)
      (h : reader.nextRow interrupted = .ok (row, reader')) : Reached text columns reader'

/-- What a column gets from a field. -/
def storedValue (column : CsvColumn) (value : String) : String :=
  if !column.optional ∧ value = "" then column.defaultValue else value

/-- Puts a field into its column. -/
def assignField (columns : List CsvColumn) (values : CsvValues)
    (field : Option (Fin columns.length) × String) : CsvValues :=
  match field.1 with
  | some colPos => values.set colPos (storedValue (columns.get colPos) field.2)
  | none => values

@[simp] theorem assignField_none (values : CsvValues) (value : String) :
    assignField columns values (none, value) = values := rfl

@[simp] theorem assignField_some (values : CsvValues) (colPos : Fin columns.length)
    (value : String) : assignField columns values (some colPos, value) =
      values.set colPos (storedValue (columns.get colPos) value) := rfl

theorem assignValue_foldl (columnPosition : List (Option (Fin columns.length))) (record : CsvValues)
    (k : ℕ) (values : CsvValues) :
    (record.zipIdx k).foldl (assignValue columns columnPosition) values =
      ((columnPosition.drop k).zip record).foldl (assignField columns) values := by
  induction record generalizing k values with
  | nil => simp
  | cons value record ih =>
    rw [List.zipIdx_cons, List.foldl_cons, ih]
    by_cases hk : k < columnPosition.length
    · rw [List.drop_eq_getElem_cons hk, List.zip_cons_cons, List.foldl_cons]
      congr 1
      unfold assignValue assignField storedValue
      rw [List.getElem?_eq_getElem hk]
      cases columnPosition[k] <;> rfl
    · -- the record is longer than the headers
      have hnone : columnPosition[k]? = none := List.getElem?_eq_none (by omega)
      rw [List.drop_eq_nil_of_le (by omega), List.drop_eq_nil_of_le (by omega)]
      unfold assignValue
      rw [hnone]
      rfl

theorem length_assignField_foldl (fields : List (Option (Fin columns.length) × String))
    (values : CsvValues) :
    (fields.foldl (assignField columns) values).length = values.length := by
  induction fields generalizing values with
  | nil => rfl
  | cons field fields ih =>
    rw [List.foldl_cons, ih]
    unfold assignField
    cases field.1 with
    | none => rfl
    | some colPos => exact List.length_set

/-- The last field of a column is the one that stays. -/
theorem getElem?_assignField_foldl (fields : List (Option (Fin columns.length) × String))
    (values : CsvValues) (hvalues : values.length = columns.length) (idx : Fin columns.length) :
    (fields.foldl (assignField columns) values)[idx.val]? =
      ((fields.filter fun field => field.1 = some idx).getLast?).elim values[idx.val]?
        fun field => some (storedValue (columns.get idx) field.2) := by
  induction fields using List.reverseRecOn with
  | nil => rfl
  | append_singleton fields field ih =>
    have hlength := length_assignField_foldl fields values
    rw [List.foldl_append, List.foldl_cons, List.foldl_nil, List.filter_append]
    obtain ⟨_ | colPos, value⟩ := field
    · simpa using ih
    · by_cases hidx : colPos = idx
      · subst hidx
        simp [hlength, hvalues]
      · simpa [hidx, List.getElem?_set_ne (fun h => hidx (Fin.ext h))] using ih

theorem length_defaultValues (columns : List CsvColumn) :
    (defaultValues columns).length = columns.length := by
  simp [defaultValues]

theorem length_assignRecord {stream : List Char}
    {columnPosition : List (Option (Fin columns.length))} {rowNumber : ℕ} {eof : Bool}
    (record : CsvValues) :
    (assignRecord ⟨stream, columns, columnPosition, rowNumber, eof⟩ record).length =
      columns.length := by
  unfold assignRecord
  show (List.foldl (assignValue columns columnPosition) (defaultValues columns)
    record.zipIdx).length = _
  rw [assignValue_foldl, length_assignField_foldl, length_defaultValues]

/-- The value a column gets. -/
def writtenValue (columns : List CsvColumn) (headers record : CsvValues)
    (idx : Fin columns.length) : String :=
  (fieldUnder columns headers record idx).elim
    (if (columns.get idx).optional then (columns.get idx).defaultValue else "")
    (storedValue (columns.get idx))

theorem getElem?_assignRecord {stream : List Char} {rowNumber : ℕ} {eof : Bool}
    (headers record : CsvValues) (idx : Fin columns.length) :
    (assignRecord ⟨stream, columns, headers.map (findColumn columns), rowNumber, eof⟩
        record)[idx.val]? = some (writtenValue columns headers record idx) := by
  have hdefault : (defaultValues columns)[idx.val]? =
      some (if (columns.get idx).optional then (columns.get idx).defaultValue else "") := by
    simp [defaultValues]
  unfold assignRecord
  show (List.foldl (assignValue columns (headers.map (findColumn columns)))
    (defaultValues columns) record.zipIdx)[idx.val]? = _
  rw [assignValue_foldl, getElem?_assignField_foldl _ _ (length_defaultValues columns), hdefault]
  unfold writtenValue fieldUnder
  rw [List.drop_zero, List.zip_map_left, List.filter_map, List.getLast?_map]
  show (Option.map _ ((List.filter (fun p => decide (findColumn columns p.1 = some idx))
    (headers.zip record)).getLast?)).elim _ _ = _
  cases (List.filter (fun p => decide (findColumn columns p.1 = some idx))
    (headers.zip record)).getLast? with
  | none => rfl
  | some field => rfl

theorem assignRecord_eq {stream : List Char} {rowNumber : ℕ} {eof : Bool}
    (headers record : CsvValues) :
    assignRecord ⟨stream, columns, headers.map (findColumn columns), rowNumber, eof⟩ record =
      (List.finRange columns.length).map (writtenValue columns headers record) := by
  apply List.ext_getElem?
  intro i
  by_cases hi : i < columns.length
  · rw [getElem?_assignRecord headers record ⟨i, hi⟩]
    simp [hi]
  · have hlength : (assignRecord ⟨stream, columns, headers.map (findColumn columns), rowNumber, eof⟩
        record).length = columns.length := length_assignRecord record
    rw [List.getElem?_eq_none (by omega), List.getElem?_eq_none (by simpa using hi)]

/-- An empty field is where the two differ: there the default goes to the wrong columns. -/
theorem writtenValue_eq_iff (columns : List CsvColumn) (headers record : CsvValues)
    (idx : Fin columns.length) :
    writtenValue columns headers record idx = expectedValue columns headers record idx ↔
      (fieldUnder columns headers record idx = some "" → (columns.get idx).defaultValue = "") := by
  unfold writtenValue expectedValue
  cases fieldUnder columns headers record idx with
  | none => cases (columns.get idx).optional <;> simp
  | some field =>
    unfold storedValue
    by_cases hfield : field = ""
    · subst hfield
      cases (columns.get idx).optional with
      | true => simp
      | false => simp
    · simp [hfield]

theorem nextRow_eq_ok {reader reader' : CsvReader} {interrupted : Bool} {row : Option CsvValues}
    (h : reader.nextRow interrupted = .ok (row, reader')) :
    ∃ stream rowNumber eof, reader' =
      { reader with stream := stream, rowNumber := rowNumber, eof := eof } := by
  unfold nextRow at h
  split at h
  · cases h
  split at h
  · obtain ⟨-, rfl⟩ := Prod.mk.inj (Except.ok.inj h)
    exact ⟨_, _, _, rfl⟩
  cases hparse : parseRecord reader.stream with
  | error message =>
    rw [hparse] at h
    cases h
  | ok result =>
    rw [hparse] at h
    obtain ⟨_ | ⟨field, fields⟩, stream⟩ := result
    · obtain ⟨-, rfl⟩ := Prod.mk.inj (Except.ok.inj h)
      exact ⟨_, _, _, rfl⟩
    · obtain ⟨-, rfl⟩ := Prod.mk.inj (Except.ok.inj h)
      exact ⟨_, _, _, rfl⟩

/-- The columns of the positions stay those of the headers. -/
theorem Reached.eq {text rest : List Char} {reader : CsvReader}
    (h : nextRecord readerOptions text = .ok (headers, rest))
    (hreader : Reached text columns reader) : ∃ stream rowNumber eof,
      reader = ⟨stream, columns, headers.map (findColumn columns), rowNumber, eof⟩ := by
  induction hreader with
  | @create reader hcreate =>
    by_cases hne : headers = []
    · subst hne
      unfold CsvReader.create at hcreate
      rw [parseRecord_eq_ok.mpr h] at hcreate
      cases hcreate
    · rw [create_eq columns h hne] at hcreate
      obtain rfl := Except.ok.inj hcreate
      exact ⟨_, _, _, rfl⟩
  | next _ hrow ih =>
    obtain ⟨stream, rowNumber, eof, rfl⟩ := ih
    obtain ⟨stream', rowNumber', eof', rfl⟩ := nextRow_eq_ok hrow
    exact ⟨_, _, _, rfl⟩

/-- **When a row has the expected values.**  Each column of a row has its field of the record,
with the default for an optional column that has none or an empty one, exactly when no column
with a default that is not empty has an empty field in the record. -/
theorem nextRow_values_iff {text rest stream : List Char} {reader reader' : CsvReader}
    {values : CsvValues} (h : nextRecord readerOptions text = .ok (headers, rest))
    (hreader : Reached text columns reader)
    (hrecord : nextRecord readerOptions reader.stream = .ok (record, stream))
    (hrow : reader.nextRow false = .ok (some values, reader')) :
    values = (List.finRange columns.length).map (expectedValue columns headers record) ↔
      ∀ idx : Fin columns.length, fieldUnder columns headers record idx = some "" →
        (columns.get idx).defaultValue = "" := by
  obtain ⟨stream', rowNumber, eof, rfl⟩ := hreader.eq h
  have hvalues : values = assignRecord
      ⟨stream', columns, headers.map (findColumn columns), rowNumber, eof⟩ record := by
    cases eof with
    | true =>
      unfold nextRow at hrow
      cases hrow
    | false =>
      rw [nextRow_record rfl hrecord] at hrow
      cases record with
      | nil => cases (Prod.mk.inj (Except.ok.inj hrow)).1
      | cons field fields => exact (Option.some.inj (Prod.mk.inj (Except.ok.inj hrow)).1).symm
  rw [hvalues, assignRecord_eq, List.map_inj_left]
  constructor
  · intro hwritten idx
    exact (writtenValue_eq_iff columns headers record idx).mp (hwritten idx (List.mem_finRange idx))
  · intro hempty idx _
    exact (writtenValue_eq_iff columns headers record idx).mpr (hempty idx)

/-- A mandatory column, and an optional one with a default. -/
def statusColumns : List CsvColumn := [⟨"id", "", false⟩, ⟨"status", "enabled", true⟩]

/-- A reader for the columns `id` and `status`. -/
def statusReader (stream : List Char) (rowNumber : ℕ) : CsvReader :=
  ⟨stream, statusColumns, [some ⟨0, by decide⟩, some ⟨1, by decide⟩], rowNumber, false⟩

theorem nextRow_values_witness :
    ["1", "disabled"] = (List.finRange statusColumns.length).map
        (expectedValue statusColumns ["id", "status"] ["1", "disabled"]) ↔
      ∀ idx : Fin statusColumns.length,
        fieldUnder statusColumns ["id", "status"] ["1", "disabled"] idx = some "" →
        (statusColumns.get idx).defaultValue = "" := by
  have hcreate : create "id,status\n1,disabled\n".toList statusColumns =
      .ok (statusReader "1,disabled\n".toList 1) := rfl
  have hrow : (statusReader "1,disabled\n".toList 1).nextRow false =
      .ok (some ["1", "disabled"], statusReader [] 2) := rfl
  exact nextRow_values_iff rfl (.create hcreate) rfl hrow

/-- An empty status stays empty. -/
theorem nextRow_no_default :
    nextRecord readerOptions "id,status\n1,\n".toList = .ok (["id", "status"], "1,\n".toList) ∧
    create "id,status\n1,\n".toList statusColumns = .ok (statusReader "1,\n".toList 1) ∧
    nextRecord readerOptions "1,\n".toList = .ok (["1", ""], []) ∧
    (statusReader "1,\n".toList 1).nextRow false = .ok (some ["1", ""], statusReader [] 2) ∧
    ["1", ""] ≠ (List.finRange statusColumns.length).map
      (expectedValue statusColumns ["id", "status"] ["1", ""]) :=
  ⟨rfl, rfl, rfl, rfl, by decide⟩

end CsvReader

end RulesAnalyzer.Csv
