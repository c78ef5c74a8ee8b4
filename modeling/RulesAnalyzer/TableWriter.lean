import RulesAnalyzer.Csv.Stored
import RulesAnalyzer.Strutil

/-!
# Tables in CSV files

A table is written with every field between quotes, and with the quotes in it doubled.  The reader
of this program expects backslashes there, so it does not read back all tables.

## Main definitions

* `Cell`, `Table` — tables.
* `TableCsvWriter.write` — the text of a table.
* `Csv.Verbatim` — a text that is read back.

## Main results

* `Csv.stores_of_not_mem` — what the parser stores of a text between quotes.
* `Csv.verbatim_of_nextRecord` — a record that is read back has only texts that are.
* `TableCsvWriter.write_decodes_iff` — **which tables are read back.**
-/

namespace RulesAnalyzer

open Csv

/-! ### Tables -/

/-- A cell, which has any number of lines. -/
structure Cell where
  lines : List String
  deriving DecidableEq

/-- The lines of a cell, with a delimiter between them. -/
def Cell.toString (cell : Cell) (delim : String) : String := stringsJoin cell.lines delim false

/-- A table.  A row has a cell for each header. -/
structure Table where
  headers : List String
  rows : List (List Cell)
  length_row : ∀ row ∈ rows, row.length = headers.length

/-- The strings of a table, from the headers to the last row. -/
def Table.strings (table : Table) (nlDelimiter : String) : List CsvValues :=
  table.headers :: table.rows.map fun row => row.map fun cell => cell.toString nlDelimiter

/-- A writer of tables. -/
structure TableCsvWriter where
  table : Table
  separator : String
  nlDelimiter : String

/-- The writer of a table, with its default separators. -/
def TableCsvWriter.create (table : Table) : TableCsvWriter := ⟨table, ",", "\n"⟩

/-- The text of a table. -/
def TableCsvWriter.write (writer : TableCsvWriter) : List Char :=
  (writer.table.strings writer.nlDelimiter).flatMap fun values =>
    (stringsJoin values writer.separator true).toList ++ ['\n']

namespace Csv

/-! ### Fields between quotes -/

/-- Every backslash of the text stands before a character that it does not escape. -/
def Kept : List Char → Prop
  | [] => True
  | c :: text => (c = '\\' → ∃ d, text.head? = some d ∧ d ≠ '\\' ∧ d ≠ ',') ∧ Kept text

/-- The text has no quote and no line end, and its backslashes are kept. -/
def Verbatim (text : List Char) : Prop := (∀ c ∈ text, c ≠ '"' ∧ Inline c) ∧ Kept text

/-- What the parser stores of a text between quotes, and in which state it is then: it stores the
text itself exactly when all backslashes are kept. -/
def Stores (text : List Char) : Prop :=
  ∀ (builder : String) (fields : CsvValues), ∃ state out,
    Parsing.run ⟨.inQuotedField, builder, fields⟩ text =
        ⟨state, builder ++ String.ofList out, fields⟩ ∧
      (state = .inQuotedField ∨ state = .escapeInQuotedField) ∧ out.length ≤ text.length ∧
      (state = .inQuotedField ∧ out = text ↔ Kept text)

theorem stores_nil : Stores [] := fun _ _ =>
  ⟨.inQuotedField, [], congrArg (Parsing.mk _ · _) String.append_empty.symm, Or.inl rfl,
    Nat.le_refl _, iff_of_true ⟨rfl, rfl⟩ trivial⟩

/-- The backslash at the end escapes the quote that ends the field. -/
theorem stores_backslash : Stores ['\\'] := fun _ _ =>
  ⟨.escapeInQuotedField, [], rfl, Or.inr rfl, Nat.zero_le _,
    iff_of_false (fun h => nomatch h.1) (fun h => nomatch h.1 rfl)⟩

theorem Stores.cons {text : List Char} {c : Char} (h : Stores text) (hquote : c ≠ '"')
    (hescape : c ≠ '\\') : Stores (c :: text) := by
  intro builder fields
  have hmove : move .inQuotedField c = .push [c] .inQuotedField := by
    rw [move, if_neg hescape, if_neg hquote]
  obtain ⟨state, out, hrun, hstate, hlength, hkept⟩ := h (builder ++ String.ofList [c]) fields
  refine ⟨state, c :: out, ?_, hstate, Nat.succ_le_succ hlength, ?_⟩
  · rw [Parsing.run_cons, hmove, Parsing.moved, hrun, ofList_cons]
  · rw [List.cons_inj_right, hkept, Kept]
    exact (and_iff_right fun heq => absurd heq hescape).symm

theorem run_backslash (text : List Char) (builder : String) (fields : CsvValues) :
    Parsing.run ⟨.inQuotedField, builder, fields⟩ ('\\' :: text) =
      Parsing.run ⟨.escapeInQuotedField, builder, fields⟩ text :=
  congrArg (fun b => Parsing.run ⟨.escapeInQuotedField, b, fields⟩ text) String.append_empty

/-- The character after a backslash.  When it is special the backslash is lost. -/
theorem Stores.escaped {text : List Char} {c : Char} (h : Stores text) (hquote : c ≠ '"') :
    Stores ('\\' :: c :: text) := by
  intro builder fields
  by_cases hspecial : c = '\\' ∨ c = ','
  · -- the backslash is lost, so what is stored is shorter than the text
    have hmove : move .escapeInQuotedField c = .push [c] .inQuotedField := by
      rw [move, moveEscaped, if_pos (hspecial.imp_right Or.inl)]
    obtain ⟨state, out, hrun, hstate, hlength, -⟩ := h (builder ++ String.ofList [c]) fields
    refine ⟨state, c :: out, ?_, hstate, ?_, iff_of_false ?_ ?_⟩
    · rw [run_backslash, Parsing.run_cons, hmove, Parsing.moved, hrun, ofList_cons]
    · exact Nat.succ_le_succ (hlength.trans (Nat.le_succ _))
    · rintro ⟨-, hout⟩
      have hlonger := congrArg List.length hout
      simp only [List.length_cons] at hlonger
      omega
    · rintro ⟨hkept, -⟩
      obtain ⟨d, hd, hne, hne'⟩ := hkept rfl
      obtain rfl := Option.some.inj hd
      exact hspecial.elim hne hne'
  · -- the backslash is stored with the character
    obtain ⟨hescape, hseparator⟩ := not_or.mp hspecial
    have hmove : move .escapeInQuotedField c = .push ['\\', c] .inQuotedField := by
      rw [move, moveEscaped, if_neg (by tauto)]
    obtain ⟨state, out, hrun, hstate, hlength, hkept⟩ :=
      h (builder ++ String.ofList ['\\', c]) fields
    refine ⟨state, '\\' :: c :: out, ?_, hstate, ?_, ?_⟩
    · rw [run_backslash, Parsing.run_cons, hmove, Parsing.moved, hrun, String.append_assoc,
        ← String.ofList_append]
      rfl
    · exact Nat.succ_le_succ (Nat.succ_le_succ hlength)
    · rw [List.cons_inj_right, List.cons_inj_right, hkept, Kept, Kept]
      have hfirst : ∃ d, (c :: text).head? = some d ∧ d ≠ '\\' ∧ d ≠ ',' :=
        ⟨c, rfl, hescape, hseparator⟩
      rw [and_iff_right fun _ => hfirst, and_iff_right fun heq => absurd heq hescape]

theorem stores_of_not_mem {text : List Char} (hquote : '"' ∉ text) : Stores text := by
  -- the text is taken apart in pairs: both a text and the text after a backslash
  suffices h : Stores text ∧ Stores ('\\' :: text) from h.1
  induction text with
  | nil => exact ⟨stores_nil, stores_backslash⟩
  | cons c text ih =>
    obtain ⟨hc, hquote⟩ := not_or.mp (List.mem_cons.not.mp hquote)
    obtain ⟨htext, hescaped⟩ := ih hquote
    refine ⟨?_, htext.escaped (Ne.symm hc)⟩
    by_cases hescape : c = '\\'
    · exact hescape ▸ hescaped
    · exact htext.cons (Ne.symm hc) hescape

/-! ### The text of a record -/

/-- A field is written between quotes, with its quotes doubled. -/
def Quoted (field : String) (text : List Char) : Prop := text = (quote field).toList

/-- The quotes of a list are doubled. -/
theorem count_doubled (field : List Char) :
    (field.flatMap fun c => if c = '"' then ['"', '"'] else [c]).count '"' =
      2 * field.count '"' := by
  induction field with
  | nil => rfl
  | cons c field ih =>
    rw [List.flatMap_cons, List.count_append, ih]
    by_cases hc : c = '"'
    · have hboth : ['"', '"'].count '"' = 2 := rfl
      rw [if_pos hc, hc, hboth, List.count_cons_self]
      omega
    · rw [if_neg hc, List.count_cons_of_ne hc, List.count_cons_of_ne hc, List.count_nil,
        Nat.zero_add]

theorem count_quote (field : String) :
    (quote field).toList.count '"' = 2 * field.toList.count '"' + 2 := by
  rw [quote, String.toList_ofList, List.cons_append, List.count_cons_self, List.count_append,
    count_doubled]
  rfl

theorem toList_quote {field : String} (h : '"' ∉ field.toList) :
    (quote field).toList = '"' :: field.toList ++ ['"'] := by
  have hsame : (field.toList.flatMap fun c => if c = '"' then ['"', '"'] else [c]) =
      field.toList.flatMap fun c => [c] :=
    List.flatMap_congr fun c hc => if_neg (ne_of_mem_of_not_mem hc h)
  rw [quote, String.toList_ofList, hsame, List.flatMap_singleton']

/-- The characters between the quotes of a field. -/
theorem mem_quote {field : String} {c : Char} :
    c ∈ (quote field).toList ↔ c = '"' ∨ c ∈ field.toList := by
  rw [quote, String.toList_ofList, List.cons_append, List.mem_cons, List.mem_append,
    List.mem_flatMap, List.mem_singleton]
  constructor
  · rintro (hc | ⟨d, hd, hc⟩ | hc)
    · exact Or.inl hc
    · split at hc
      · exact Or.inl (by simpa using hc)
      · exact Or.inr (List.mem_singleton.mp hc ▸ hd)
    · exact Or.inl hc
  · rintro (hc | hc)
    · exact Or.inl hc
    · by_cases hquote : c = '"'
      · exact Or.inl hquote
      · exact Or.inr (Or.inl ⟨c, hc, by rw [if_neg hquote]; exact List.mem_singleton_self c⟩)

/-- The last delimiter is cut off. -/
theorem toList_stringsJoin {strings : List String} {delim : String} {quoted : Bool}
    {text : List Char} (h : (strings.flatMap fun str =>
      (if quoted then quote str else str).toList ++ delim.toList) = text ++ delim.toList)
    (hne : text ≠ []) : (stringsJoin strings delim quoted).toList = text := by
  have hlength : (text ++ delim.toList).length > delim.length := by
    rw [List.length_append, String.length_toList]
    exact Nat.lt_add_of_pos_left (List.length_pos_iff.mpr hne)
  have hcut : (text ++ delim.toList).length - delim.length = text.length := by
    rw [List.length_append, String.length_toList, Nat.add_sub_cancel]
  simp only [stringsJoin, h]
  rw [if_pos hlength, hcut, List.take_left' rfl, String.toList_ofList]

/-- A list of strings is written as a record. -/
theorem recordText_stringsJoin {values : CsvValues} (hne : values ≠ []) :
    RecordText Quoted values (stringsJoin values "," true).toList ∧
      (stringsJoin values "," true).toList ≠ [] := by
  have hjoined : ∃ text, text ≠ [] ∧ RecordText Quoted values text ∧
      (values.flatMap fun value => (quote value).toList ++ [',']) = text ++ [','] := by
    induction values with
    | nil => exact absurd rfl hne
    | cons value values ih =>
      have hquote : (quote value).toList ≠ [] := by
        rw [quote, String.toList_ofList]
        exact List.cons_ne_nil _ _
      by_cases hvalues : values = []
      · subst hvalues
        exact ⟨_, hquote, .last rfl, by rw [List.flatMap_singleton]⟩
      · obtain ⟨text, -, hrecord, htext⟩ := ih hvalues
        refine ⟨_, ?_, .cons rfl hrecord, ?_⟩
        · exact List.append_ne_nil_of_left_ne_nil hquote _
        · rw [List.flatMap_cons, htext]
          simp
  obtain ⟨text, htext, hrecord, hjoined⟩ := hjoined
  have hjoin : (stringsJoin values "," true).toList = text := toList_stringsJoin hjoined htext
  rw [hjoin]
  exact ⟨hrecord, htext⟩

section Record

variable {values : CsvValues} {text : List Char} (h : RecordText Quoted values text)

include h

/-- The characters of a record. -/
theorem RecordText.mem_quoted {c : Char} (hc : c ∈ text) :
    c = '"' ∨ c = ',' ∨ c ∈ values.flatMap String.toList := by
  induction h with
  | last h =>
    rw [List.flatMap_singleton]
    exact (mem_quote.mp (h ▸ hc)).imp_right Or.inr
  | cons h _ ih =>
    rw [List.flatMap_cons, List.mem_append]
    rcases List.mem_append.mp hc with hc | hc
    · exact (mem_quote.mp (h ▸ hc)).imp_right fun hc => Or.inr (Or.inl hc)
    · rcases List.mem_cons.mp hc with rfl | hc
      · exact Or.inr (Or.inl rfl)
      · exact (ih hc).imp_right (Or.imp_right Or.inr)

theorem RecordText.mem_of_quoted {c : Char} (hc : c ∈ values.flatMap String.toList) : c ∈ text := by
  induction h with
  | last h =>
    rw [List.flatMap_singleton] at hc
    exact h ▸ mem_quote.mpr (Or.inr hc)
  | cons h _ ih =>
    rw [List.flatMap_cons, List.mem_append] at hc
    rcases hc with hc | hc
    · exact List.mem_append_left _ (h ▸ mem_quote.mpr (Or.inr hc))
    · exact List.mem_append_right _ (List.mem_cons_of_mem _ (ih hc))

/-- The quotes of a record. -/
theorem RecordText.count_quoted : text.count '"' =
    2 * (values.flatMap String.toList).count '"' + 2 * values.length := by
  induction h with
  | @last field text h =>
    rw [List.flatMap_singleton, show text = _ from h, count_quote]
    rfl
  | @cons field fields text rest h _ ih =>
    rw [List.count_append, List.count_cons_of_ne (by decide), ih, show text = _ from h, count_quote,
      List.flatMap_cons, List.count_append, List.length_cons]
    omega

theorem RecordText.getLast_quoted : text.getLast? = some '"' := by
  induction h with
  | last h => rw [show _ = _ from h, quote, String.toList_ofList, List.getLast?_concat]
  | @cons field fields text rest _ hrest ih =>
    have hne : rest ≠ [] := by
      rintro rfl
      cases ih
    rw [List.getLast?_append_of_ne_nil _ (List.cons_ne_nil _ _),
      List.getLast?_cons_of_ne_nil hne, ih]

end Record

/-! ### Records that are read back -/

/-- The parser after a quoted field that has no quotes: it has read the field exactly when all
backslashes are kept, and it has stored a quote when the last backslash is not. -/
theorem run_quote {p : Parsing} (hstart : p.state = .startRecord ∨ p.state = .startField)
    (hbuilder : p.fieldBuilder = "") {field : String} (hquote : '"' ∉ field.toList) :
    (∃ out, p.run (quote field).toList = ⟨.inField, out, p.fieldList⟩ ∧
      (out = field ↔ Kept field.toList)) ∨ '"' ∈ (p.run (quote field).toList).stored := by
  obtain ⟨state, out, hrun, rfl | rfl, -, hkept⟩ := stores_of_not_mem hquote "" p.fieldList
  · refine Or.inl ⟨String.ofList out, ?_, ?_⟩
    · rw [toList_quote hquote, List.cons_append, run_open hstart hbuilder, Parsing.run_append, hrun,
        String.empty_append]
      exact congrArg (Parsing.mk _ · _) String.append_empty
    · rw [← hkept, and_iff_right rfl, ← String.toList_inj, String.toList_ofList]
  · right
    rw [toList_quote hquote, List.cons_append, run_open hstart hbuilder, Parsing.run_append, hrun]
    simp [move, moveEscaped, Parsing.moved, Parsing.stored]

/-- In a record that is read back without quotes, all backslashes are kept.  A field is complete
at its separator, so the fields can be compared one by one. -/
theorem kept_of_run {values : CsvValues} {text : List Char} (h : RecordText Quoted values text)
    {p : Parsing} (hstart : p.state = .startRecord ∨ p.state = .startField)
    (hbuilder : p.fieldBuilder = "") (hquote : ∀ value ∈ values, '"' ∉ value.toList)
    (hstored : '"' ∉ (p.run text).stored) (hvalues : (p.run text).values = p.fieldList ++ values) :
    ∀ value ∈ values, Kept value.toList := by
  induction h generalizing p with
  | @last field text h =>
    obtain rfl : text = _ := h
    rcases run_quote hstart hbuilder (hquote field List.mem_cons_self) with
      ⟨out, hrun, hkept⟩ | hmem
    · rw [hrun] at hvalues
      have hout : [out] = [field] := List.append_cancel_left hvalues
      intro value hvalue
      obtain rfl := List.mem_singleton.mp hvalue
      exact hkept.mp (List.singleton_inj.mp hout)
    · exact absurd hmem hstored
  | @cons field fields text rest h _ ih =>
    obtain rfl : text = _ := h
    rw [Parsing.run_append] at hstored hvalues
    rcases run_quote hstart hbuilder (hquote field List.mem_cons_self) with
      ⟨out, hrun, hkept⟩ | hmem
    · have hsave : (Parsing.mk .inField out p.fieldList).run (',' :: rest) =
          (Parsing.mk .startField "" (p.fieldList ++ [out])).run rest := rfl
      rw [hrun, hsave] at hstored hvalues
      -- the field is complete, and the rest of the record does not change it
      have hprefix := (Parsing.mk .startField "" (p.fieldList ++ [out])).prefix_run_values rest
      rw [hvalues, List.prefix_append_right_inj] at hprefix
      obtain rfl : out = field := (List.cons_prefix_cons.mp hprefix).1
      intro value hvalue
      rcases List.mem_cons.mp hvalue with rfl | hvalue
      · exact hkept.mp rfl
      · refine ih (p := ⟨.startField, "", p.fieldList ++ [out]⟩) (Or.inr rfl) rfl
          (fun other hother => hquote other (List.mem_cons_of_mem _ hother)) hstored ?_ value hvalue
        rw [hvalues, List.append_assoc]
        rfl
    · exact absurd ((Parsing.prefix_run_stored _ _).subset hmem) hstored

/-- A record that is read back has no line ends: a line feed is in no field, and a carriage return
inside a line is an error. -/
theorem inline_of_nextRecord {values : CsvValues} {text rest stream : List Char}
    (h : RecordText Quoted values text)
    (hread : nextRecord readerOptions (text ++ '\n' :: rest) = .ok (values, stream)) :
    ∀ c ∈ text, Inline c := by
  have hlf : '\n' ∉ text := by
    intro hmem
    rcases h.mem_quoted hmem with heq | heq | hmem
    · exact absurd heq (by decide)
    · exact absurd heq (by decide)
    · exact not_mem_lf_of_readRecord (p := .init) nofun List.not_mem_nil hread hmem
  have hcr := (not_mem_cr_of_readRecord (p := .init) nofun hlf h.getLast_quoted hread).1
  exact fun c hc => ⟨ne_of_mem_of_not_mem hc hlf, ne_of_mem_of_not_mem hc hcr⟩

/-- A record that is read back has no quotes in its fields: its text has two quotes for each
field, and two more for each quote in a field, and no quote is lost. -/
theorem not_mem_quote_of_run {values : CsvValues} {text : List Char}
    (h : RecordText Quoted values text) (hvalues : (Parsing.init.run text).values = values) :
    '"' ∉ values.flatMap String.toList := by
  have hquotes := Parsing.init.quotes_run text
  have hstored : (Parsing.init.run text).stored = values.flatMap String.toList := by
    rw [← Parsing.stored_values, hvalues]
  have hlength : (Parsing.init.run text).fieldList.length + 1 = values.length := by
    rw [← hvalues, Parsing.values, List.length_append]
    rfl
  have hused : (Parsing.init.run text).state.quotes ≤ 2 := by
    cases (Parsing.init.run text).state <;> decide
  have hinit : Parsing.init.quotes = 0 := rfl
  rw [hinit, h.count_quoted, Parsing.quotes, hstored] at hquotes
  exact List.count_eq_zero.mp (by omega)

/-- **A record that is read back has only texts that are.** -/
theorem verbatim_of_nextRecord {values : CsvValues} {text rest stream : List Char}
    (h : RecordText Quoted values text)
    (hread : nextRecord readerOptions (text ++ '\n' :: rest) = .ok (values, stream)) :
    stream = rest ∧ ∀ value ∈ values, Verbatim value.toList := by
  have hinline := inline_of_nextRecord h hread
  have hline : readRecord readerOptions ('\n' :: rest) (Parsing.init.run text) false =
      .ok (values, stream) := (readRecord_run hinline _ (p := .init) nofun).symm.trans hread
  have hne : text ≠ [] := by
    rintro rfl
    cases h.getLast_quoted
  obtain ⟨hstream, hvalues⟩ := values_of_readRecord_lf (Parsing.state_run hne _) hline
  have hquote := not_mem_quote_of_run h hvalues.symm
  refine ⟨hstream, fun value hvalue => ⟨fun c hc => ?_, ?_⟩⟩
  · have hmem : c ∈ values.flatMap String.toList := List.mem_flatMap.mpr ⟨value, hvalue, hc⟩
    exact ⟨ne_of_mem_of_not_mem hmem hquote, hinline c (h.mem_of_quoted hmem)⟩
  · refine kept_of_run h (p := .init) (Or.inl rfl) rfl ?_ ?_ hvalues.symm value hvalue
    · exact fun other hother hmem => hquote (List.mem_flatMap.mpr ⟨other, hother, hmem⟩)
    · rwa [← Parsing.stored_values, ← hvalues]

/-- A verbatim field is read from its quoted text. -/
theorem Verbatim.reads {field : String} (h : Verbatim field.toList) :
    Reads field (quote field).toList := by
  have hquote : '"' ∉ field.toList := fun hmem => (h.1 '"' hmem).1 rfl
  refine ⟨fun c hc => ?_, fun p hstart hbuilder => ?_⟩
  · rcases mem_quote.mp hc with rfl | hc
    · exact ⟨by decide, by decide⟩
    · exact (h.1 c hc).2
  · obtain ⟨state, out, hrun, -, -, hkept⟩ := stores_of_not_mem hquote "" p.fieldList
    obtain ⟨rfl, rfl⟩ := hkept.mpr h.2
    rw [toList_quote hquote, List.cons_append, run_open hstart hbuilder, Parsing.run_append, hrun,
      if_neg (List.cons_ne_nil _ _), String.ofList_toList, String.empty_append]
    exact congrArg (Parsing.mk _ · _) String.append_empty

end Csv

namespace TableCsvWriter

/-- The records of some lines that are read back. -/
theorem decodes_lines_iff {records : List CsvValues} (hne : ∀ record ∈ records, record ≠ []) :
    Decodes readerOptions (records.flatMap fun values =>
        (stringsJoin values "," true).toList ++ ['\n']) records ↔
      ∀ record ∈ records, ∀ value ∈ record, Verbatim value.toList := by
  constructor
  · intro h
    induction records with
    | nil => exact fun _ hrecord => absurd hrecord List.not_mem_nil
    | cons record records ih =>
      cases h with
      | record hread _ hrest =>
        obtain ⟨htext, -⟩ := recordText_stringsJoin (hne record List.mem_cons_self)
        rw [List.flatMap_cons, List.append_assoc] at hread
        -- the text fixes the values, whether or not they are what was written
        obtain ⟨rfl, hverbatim⟩ := verbatim_of_nextRecord htext hread
        intro other hother
        rcases List.mem_cons.mp hother with rfl | hother
        · exact hverbatim
        · exact ih (fun r hr => hne r (List.mem_cons_of_mem _ hr)) hrest other hother
  · intro h
    refine decodes_of_reads (F := Reads) (fun _ _ h => h) ?_
    induction records with
    | nil => exact .nil
    | cons record records ih =>
      obtain ⟨htext, hnonempty⟩ := recordText_stringsJoin (hne record List.mem_cons_self)
      rw [List.flatMap_cons, List.append_assoc]
      refine .lf (htext.mono fun value hvalue text hquoted => ?_) hnonempty
        (ih (fun r hr => hne r (List.mem_cons_of_mem _ hr))
          fun r hr => h r (List.mem_cons_of_mem _ hr))
      exact (show text = _ from hquoted) ▸ (h record List.mem_cons_self value hvalue).reads

/-- **Which tables are read back.**  The text of a table with the default separators is read as
the header and the rows exactly when there is a column, and no string of the table has a quote,
a line end or a backslash that would escape the character after it. -/
theorem write_decodes_iff (table : Table) :
    Decodes readerOptions (create table).write (table.strings "\n") ↔
      table.headers ≠ [] ∧
        ∀ values ∈ table.strings "\n", ∀ value ∈ values, Verbatim value.toList := by
  by_cases hheaders : table.headers = []
  · refine iff_of_false (fun h => ?_) (fun h => h.1 hheaders)
    cases h with
    | record _ hne _ => exact hne hheaders
  · rw [and_iff_right hheaders]
    refine decodes_lines_iff fun values hvalues => ?_
    rcases List.mem_cons.mp hvalues with rfl | hvalues
    · exact hheaders
    · obtain ⟨row, hrow, rfl⟩ := List.mem_map.mp hvalues
      intro hnil
      have hlength := table.length_row row hrow
      rw [List.map_eq_nil_iff.mp hnil] at hlength
      exact hheaders (List.length_eq_zero_iff.mp hlength.symm)

/-- A table whose only header has a quote in it. -/
def quotedHeader : Table := ⟨["a\"b"], [], nofun⟩

example : (create quotedHeader).write = "\"a\"\"b\"\n".toList := by decide

/-- The parser takes the first of two quotes for the end of the quoted part, and keeps the quote
at the end of the field. -/
theorem write_not_decodes :
    ¬Decodes readerOptions (create quotedHeader).write (quotedHeader.strings "\n") := by
  intro h
  cases h with
  | record hread _ _ =>
    have hfields : nextRecord readerOptions (create quotedHeader).write =
        .ok (["a\"b\""], []) := by decide
    have hsame := (Prod.mk.inj (Except.ok.inj (hfields.symm.trans hread))).1
    exact absurd hsame (by decide)

end TableCsvWriter

end RulesAnalyzer
