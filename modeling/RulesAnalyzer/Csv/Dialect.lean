import RulesAnalyzer.Csv.Reader

/-!
# The dialect of the reader

A field is written between quotes, with a backslash before every quote and every backslash, or
as it is when it has none of the special characters.  The parser of the reader is an automaton:
what it does at a character of a line only depends on its state.

## Main definitions

* `RecordText`, `DocumentText` — how records and lists of records are written, for any way to
  write a field.
* `FieldText` — how a field is written in the dialect.
* `Decodes` — the records of the successive calls of `nextRecord`.
* `Move`, `move`, `Parsing.run` — the automaton.
* `Reads` — a field is read from its text, wherever the text stands in a record.

## Main results

* `processChar_eq` — what the parser does at a character is one move of the automaton.
* `decodes_of_reads` — **records are read, when their fields are.**
* `decodes_documentText` — **the parser decodes the whole dialect.**
-/

namespace RulesAnalyzer.Csv

/-! ### Texts -/

section Texts

variable (F : String → List Char → Prop)

/-- The texts of a record whose fields are written in one of the ways `F`: the fields are
separated by commas. -/
inductive RecordText : CsvValues → List Char → Prop
  | last {field : String} {text : List Char} (h : F field text) : RecordText [field] text
  | cons {field : String} {fields : CsvValues} {text rest : List Char} (h : F field text)
      (hrest : RecordText fields rest) : RecordText (field :: fields) (text ++ ',' :: rest)

/-- The texts of a list of records.  Every record ends with a line feed, possibly after a
carriage return, and the last one may also end with the stream.  A record is not written as
nothing at all. -/
inductive DocumentText : List CsvValues → List Char → Prop
  | nil : DocumentText [] []
  | last {record : CsvValues} {text : List Char} (h : RecordText F record text) (hne : text ≠ []) :
      DocumentText [record] text
  | lf {record : CsvValues} {records : List CsvValues} {text rest : List Char}
      (h : RecordText F record text) (hne : text ≠ []) (hrest : DocumentText records rest) :
      DocumentText (record :: records) (text ++ '\n' :: rest)
  | crlf {record : CsvValues} {records : List CsvValues} {text rest : List Char}
      (h : RecordText F record text) (hne : text ≠ []) (hrest : DocumentText records rest) :
      DocumentText (record :: records) (text ++ '\r' :: '\n' :: rest)

end Texts

/-- A field between quotes: every quote and every backslash has a backslash before it. -/
def escaped (field : List Char) : List Char :=
  field.flatMap fun c => if c = '"' ∨ c = '\\' then ['\\', c] else [c]

/-- The texts of a field. -/
inductive FieldText (field : String) : List Char → Prop
  | quoted : FieldText field ('"' :: escaped field.toList ++ ['"'])
  | plain (h : ∀ c ∈ field.toList, c ≠ '"' ∧ c ≠ ',' ∧ c ≠ '\\') : FieldText field field.toList

/-- The character ends no line. -/
def Inline (c : Char) : Prop := c ≠ '\n' ∧ c ≠ '\r'

/-- Successive calls of `nextRecord` return these records, and then find no more. -/
inductive Decodes (options : CsvParserOptions) : List Char → List CsvValues → Prop
  | stop {stream rest : List Char} (h : nextRecord options stream = .ok ([], rest)) :
      Decodes options stream []
  | record {stream rest : List Char} {values : CsvValues} {records : List CsvValues}
      (h : nextRecord options stream = .ok (values, rest)) (hne : values ≠ [])
      (hrest : Decodes options rest records) : Decodes options stream (values :: records)

/-! ### The automaton -/

/-- What the parser does at a character of a line: it adds characters to the field, or completes
the field. -/
inductive Move
  | push (cs : List Char) (next : ParserState)
  | save
  deriving DecidableEq

/-- The move at the character after a backslash. -/
def moveEscaped (next : ParserState) (c : Char) : Move :=
  .push (if c = '\\' ∨ c = ',' ∨ c = '"' then [c] else ['\\', c]) next

/-- The moves of the parser of the reader, which never is in the last state. -/
def move : ParserState → Char → Move
  | .startRecord, c | .startField, c =>
    if c = '"' then .push [] .inQuotedField
    else if c = '\\' then .push [] .escapedChar
    else if c = ',' then .save
    else .push [c] .inField
  | .escapedChar, c => moveEscaped .inField c
  | .inField, c =>
    if c = '\\' then .push [] .escapedChar else if c = ',' then .save else .push [c] .inField
  | .inQuotedField, c =>
    if c = '\\' then .push [] .escapeInQuotedField
    else if c = '"' then .push [] .inField
    else .push [c] .inQuotedField
  | .escapeInQuotedField, c => moveEscaped .inQuotedField c
  | .quoteInQuotedField, c => .push [c] .inField

namespace Parsing

/-- The parser after a move. -/
def moved (p : Parsing) : Move → Parsing
  | .push cs next => ⟨next, p.fieldBuilder ++ String.ofList cs, p.fieldList⟩
  | .save => p.save.enter .startField

/-- The parser after the characters of a text. -/
def run (p : Parsing) (text : List Char) : Parsing :=
  text.foldl (fun p c => p.moved (move p.state c)) p

/-- The fields when the record ends. -/
def values (p : Parsing) : CsvValues := p.fieldList ++ [p.fieldBuilder]

@[simp] theorem run_nil (p : Parsing) : p.run [] = p := rfl

@[simp] theorem run_cons (p : Parsing) (c : Char) (text : List Char) :
    p.run (c :: text) = (p.moved (move p.state c)).run text := rfl

@[simp] theorem run_append (p : Parsing) (text rest : List Char) :
    p.run (text ++ rest) = (p.run text).run rest := List.foldl_append ..

end Parsing

/-- The three special characters. -/
theorem special_cases (c : Char) :
    c = '"' ∨ c = '\\' ∨ c = ',' ∨ c ≠ '"' ∧ c ≠ '\\' ∧ c ≠ ',' := by tauto

theorem processStartField_eq {c : Char} (hc : c ≠ '\n') (builder : String) (fields : CsvValues) :
    processStartField readerOptions c ⟨.startField, builder, fields⟩ =
      .ok (Parsing.moved ⟨.startField, builder, fields⟩ (move .startField c), false) := by
  rcases special_cases c with rfl | rfl | rfl | ⟨hquote, hescape, hseparator⟩
  · simp [processStartField, readerOptions, move, Parsing.moved, Parsing.enter]
  · simp [processStartField, readerOptions, move, Parsing.moved, Parsing.enter]
  · rfl
  · simp [processStartField, readerOptions, move, Parsing.moved, Parsing.push, Parsing.enter, *]

theorem processEscaped_eq {c : Char} (hc : c ≠ '\n') (p : Parsing) (next : ParserState) :
    processEscaped readerOptions c p next = .ok (p.moved (moveEscaped next c), false) := by
  rcases special_cases c with rfl | rfl | rfl | ⟨hquote, hescape, hseparator⟩
  · rfl
  · rfl
  · rfl
  · have hkept : (p.fieldBuilder.push '\\').push c = p.fieldBuilder ++ String.ofList ['\\', c] := by
      simp [← String.toList_inj]
    simp [processEscaped, readerOptions, moveEscaped, Parsing.moved, Parsing.push, Parsing.enter,
      hkept, hc, hquote, hescape, hseparator]

theorem processInField_eq {c : Char} (hc : c ≠ '\n') (builder : String) (fields : CsvValues) :
    processInField readerOptions c ⟨.inField, builder, fields⟩ =
      .ok (Parsing.moved ⟨.inField, builder, fields⟩ (move .inField c), false) := by
  rcases special_cases c with rfl | rfl | rfl | ⟨hquote, hescape, hseparator⟩
  · rfl
  · simp [processInField, readerOptions, move, Parsing.moved, Parsing.enter]
  · rfl
  · simp [processInField, readerOptions, move, Parsing.moved, Parsing.push, *]

theorem processInQuotedField_eq {c : Char} (hc : c ≠ '\n') (builder : String)
    (fields : CsvValues) : processInQuotedField readerOptions c ⟨.inQuotedField, builder, fields⟩ =
      .ok (Parsing.moved ⟨.inQuotedField, builder, fields⟩ (move .inQuotedField c), false) := by
  rcases special_cases c with rfl | rfl | rfl | ⟨hquote, hescape, hseparator⟩
  · simp [processInQuotedField, readerOptions, move, Parsing.moved, Parsing.enter]
  · simp [processInQuotedField, readerOptions, move, Parsing.moved, Parsing.enter]
  · rfl
  · simp [processInQuotedField, readerOptions, move, Parsing.moved, Parsing.push, *]

/-- **What the parser of the reader does at a character of a line is one move.** -/
theorem processChar_eq {p : Parsing} {c : Char} (hc : c ≠ '\n')
    (hstate : p.state ≠ .quoteInQuotedField) :
    processChar readerOptions c p = .ok (p.moved (move p.state c), false) := by
  obtain ⟨state, builder, fields⟩ := p
  cases state with
  | startRecord =>
    have hstart := processStartField_eq hc builder fields
    simp only [processChar, if_neg hc, Parsing.enter, hstart]
    rfl
  | startField => exact processStartField_eq hc builder fields
  | escapedChar => exact processEscaped_eq hc _ _
  | inField => exact processInField_eq hc builder fields
  | inQuotedField => exact processInQuotedField_eq hc builder fields
  | escapeInQuotedField => exact processEscaped_eq hc _ _
  | quoteInQuotedField => exact absurd rfl hstate

/-- A move neither leads to the state that the parser of the reader does not use, nor back to the
start of a record. -/
theorem state_moved (p : Parsing) (c : Char) :
    (p.moved (move p.state c)).state ≠ .quoteInQuotedField ∧
      (p.moved (move p.state c)).state ≠ .startRecord := by
  cases p.state with
  | quoteInQuotedField => exact ⟨nofun, nofun⟩
  | _ =>
    simp only [move, moveEscaped]
    split_ifs <;> exact ⟨nofun, nofun⟩

/-- The parser reads a text without line ends as the automaton does. -/
theorem readRecord_run {text : List Char} (htext : ∀ c ∈ text, Inline c) (rest : List Char)
    {p : Parsing} (hp : p.state ≠ .quoteInQuotedField) :
    readRecord readerOptions (text ++ rest) p false =
      readRecord readerOptions rest (p.run text) false := by
  induction text generalizing p with
  | nil => rfl
  | cons c text ih =>
    obtain ⟨hlf, hcr⟩ := htext c List.mem_cons_self
    rw [List.cons_append, readRecord, if_neg (fun h => Bool.false_ne_true h.1),
      if_neg (fun h => hcr h.1), processChar_eq hlf hp]
    exact ih (fun d hd => htext d (List.mem_cons_of_mem c hd)) (state_moved p c).1

/-- The record can end in this state. -/
def Ends (p : Parsing) : Prop := p.state = .startField ∨ p.state = .inField

section Ends

variable {p : Parsing} (rest : List Char)

theorem readRecord_lf (h : Ends p) :
    readRecord readerOptions ('\n' :: rest) p false = .ok (p.values, rest) := by
  obtain ⟨state, builder, fields⟩ := p
  rcases h with h | h <;> cases h <;> rfl

theorem readRecord_crlf (h : Ends p) :
    readRecord readerOptions ('\r' :: '\n' :: rest) p false = .ok (p.values, rest) := by
  obtain ⟨state, builder, fields⟩ := p
  rcases h with h | h <;> cases h <;> rfl

theorem readRecord_eof (h : Ends p) :
    readRecord readerOptions [] p false = .ok (p.values, []) := by
  obtain ⟨state, builder, fields⟩ := p
  rcases h with h | h <;> cases h <;> rfl

end Ends

/-! ### Texts that are read -/

/-- At the start of a field, the parser reads the field from the text.  It does not leave the
start of the field when there is nothing to read. -/
structure Reads (field : String) (text : List Char) : Prop where
  inline : ∀ c ∈ text, Inline c
  run : ∀ p : Parsing, p.state = .startRecord ∨ p.state = .startField → p.fieldBuilder = "" →
    p.run text = ⟨if text = [] then p.state else .inField, field, p.fieldList⟩

section Reads

variable {F : String → List Char → Prop} (hF : ∀ field text, F field text → Reads field text)

include hF

theorem RecordText.inline {fields : CsvValues} {text : List Char} (h : RecordText F fields text) :
    ∀ c ∈ text, Inline c := by
  induction h with
  | last h => exact (hF _ _ h).inline
  | cons h _ ih =>
    intro c hc
    rcases List.mem_append.mp hc with hc | hc
    · exact (hF _ _ h).inline c hc
    · rcases List.mem_cons.mp hc with rfl | hc
      · exact ⟨by decide, by decide⟩
      · exact ih c hc

/-- The parser reads the fields of a record one after the other. -/
theorem RecordText.run {fields : CsvValues} {text : List Char} (h : RecordText F fields text)
    {p : Parsing} (hstart : p.state = .startRecord ∨ p.state = .startField)
    (hbuilder : p.fieldBuilder = "") : (p.run text).values = p.fieldList ++ fields ∧
      (text ≠ [] ∨ p.state = .startField → Ends (p.run text)) := by
  induction h generalizing p with
  | last h =>
    rw [(hF _ _ h).run p hstart hbuilder]
    refine ⟨rfl, fun hends => ?_⟩
    split
    · next htext => exact Or.inl (hends.resolve_left (not_not_intro htext))
    · exact Or.inr rfl
  | @cons field fields text rest h hrest ih =>
    rw [Parsing.run_append, (hF _ _ h).run p hstart hbuilder, Parsing.run_cons]
    -- the comma saves the field, whether anything was read or not
    have hsave : Parsing.moved ⟨if text = [] then p.state else .inField, field, p.fieldList⟩
        (move (if text = [] then p.state else .inField) ',') =
          ⟨.startField, "", p.fieldList ++ [field]⟩ := by
      split
      · rcases hstart with hstate | hstate <;> rw [hstate] <;> rfl
      · rfl
    rw [hsave]
    obtain ⟨hvalues, hends⟩ := ih (p := ⟨.startField, "", p.fieldList ++ [field]⟩) (Or.inr rfl) rfl
    refine ⟨?_, fun _ => hends (Or.inr rfl)⟩
    rw [hvalues, List.append_assoc]
    rfl

/-- **Records are read, when their fields are.**  The induction is on the document: a line leaves
a record, and the parser at the start of the next line. -/
theorem decodes_of_reads {records : List CsvValues} {text : List Char}
    (h : DocumentText F records text) : Decodes readerOptions text records := by
  -- a line has a record, and the parser is ready for the line end after it
  have hrun : ∀ {record text}, RecordText F record text → text ≠ [] →
      record ≠ [] ∧ (Parsing.init.run text).values = record ∧ Ends (Parsing.init.run text) := by
    intro record text h hne
    obtain ⟨hvalues, hends⟩ := h.run hF (p := .init) (Or.inl rfl) rfl
    refine ⟨?_, hvalues, hends (Or.inl hne)⟩
    cases h <;> exact List.cons_ne_nil _ _
  have hstop : Decodes readerOptions [] [] :=
    .stop (show nextRecord readerOptions [] = .ok ([], []) from rfl)
  induction h with
  | nil => exact hstop
  | @last record text h hne =>
    obtain ⟨hrecord, hvalues, hends⟩ := hrun h hne
    refine .record ?_ hrecord hstop
    have hread := readRecord_run (h.inline hF) [] (p := .init) nofun
    rw [List.append_nil] at hread
    rw [nextRecord, hread, readRecord_eof hends, hvalues]
  | lf h hne _ ih =>
    obtain ⟨hrecord, hvalues, hends⟩ := hrun h hne
    refine .record ?_ hrecord ih
    rw [nextRecord, readRecord_run (h.inline hF) _ (p := .init) nofun, readRecord_lf _ hends,
      hvalues]
  | crlf h hne _ ih =>
    obtain ⟨hrecord, hvalues, hends⟩ := hrun h hne
    refine .record ?_ hrecord ih
    rw [nextRecord, readRecord_run (h.inline hF) _ (p := .init) nofun, readRecord_crlf _ hends,
      hvalues]

end Reads

/-! ### The fields of the dialect -/

theorem ofList_cons (builder : String) (c : Char) (field : List Char) :
    builder ++ String.ofList [c] ++ String.ofList field =
      builder ++ String.ofList (c :: field) := by
  rw [String.append_assoc, ← String.ofList_append]
  rfl

/-- Between quotes, the parser drops the backslashes. -/
theorem run_escaped (field : List Char) (builder : String) (fields : CsvValues) :
    Parsing.run ⟨.inQuotedField, builder, fields⟩ (escaped field) =
      ⟨.inQuotedField, builder ++ String.ofList field, fields⟩ := by
  induction field generalizing builder with
  | nil => exact congrArg (Parsing.mk _ · _) String.append_empty.symm
  | cons c field ih =>
    have hstep : Parsing.run ⟨.inQuotedField, builder, fields⟩
        (if c = '"' ∨ c = '\\' then ['\\', c] else [c]) =
          ⟨.inQuotedField, builder ++ String.ofList [c], fields⟩ := by
      rcases special_cases c with rfl | rfl | rfl | ⟨hquote, hescape, -⟩
      · simp [move, moveEscaped, Parsing.moved]
      · simp [move, moveEscaped, Parsing.moved]
      · rfl
      · simp [move, Parsing.moved, hquote, hescape]
    rw [escaped, List.flatMap_cons, Parsing.run_append, hstep, ← escaped, ih, ofList_cons]

/-- Without quotes, the parser keeps what is not special. -/
theorem run_plain {field : List Char} (h : ∀ c ∈ field, c ≠ '"' ∧ c ≠ ',' ∧ c ≠ '\\')
    (builder : String) (fields : CsvValues) : Parsing.run ⟨.inField, builder, fields⟩ field =
      ⟨.inField, builder ++ String.ofList field, fields⟩ := by
  induction field generalizing builder with
  | nil => exact congrArg (Parsing.mk _ · _) String.append_empty.symm
  | cons c field ih =>
    obtain ⟨-, hseparator, hescape⟩ := h c List.mem_cons_self
    have hmove : move .inField c = .push [c] .inField := by
      rw [move, if_neg hescape, if_neg hseparator]
    rw [Parsing.run_cons, hmove, Parsing.moved, ih (fun d hd => h d (List.mem_cons_of_mem c hd)),
      ofList_cons]

/-- The first character after the start of a field. -/
theorem move_start {p : Parsing} (hstart : p.state = .startRecord ∨ p.state = .startField)
    (c : Char) : move p.state c = move .startField c := by
  rcases hstart with h | h
  · rw [h]
    rfl
  · rw [h]

/-- A quote at the start of a field. -/
theorem run_open {p : Parsing} (hstart : p.state = .startRecord ∨ p.state = .startField)
    (hbuilder : p.fieldBuilder = "") (text : List Char) :
    p.run ('"' :: text) = Parsing.run ⟨.inQuotedField, "", p.fieldList⟩ text := by
  rw [Parsing.run_cons, move_start hstart, ← hbuilder]
  exact congrArg (fun b => Parsing.run ⟨.inQuotedField, b, p.fieldList⟩ text) String.append_empty

/-- A field is read from every text of the dialect.  In quotes each quote is doubled; a plain
text has no character with a meaning of its own. -/
theorem FieldText.reads {field : String} {text : List Char} (h : FieldText field text)
    (hinline : ∀ c ∈ field.toList, Inline c) : Reads field text := by
  cases h with
  | quoted =>
    refine ⟨fun c hc => ?_, fun p hstart hbuilder => ?_⟩
    · simp only [List.cons_append, List.mem_cons, List.mem_append, List.not_mem_nil, or_false] at hc
      rcases hc with rfl | hc | rfl
      · exact ⟨by decide, by decide⟩
      · obtain ⟨d, hd, hc⟩ := List.mem_flatMap.mp hc
        split at hc
        · rcases List.mem_cons.mp hc with rfl | hc
          · exact ⟨by decide, by decide⟩
          · exact List.mem_singleton.mp hc ▸ hinline d hd
        · exact List.mem_singleton.mp hc ▸ hinline d hd
      · exact ⟨by decide, by decide⟩
    · rw [List.cons_append, run_open hstart hbuilder, Parsing.run_append, run_escaped,
        if_neg (List.cons_ne_nil _ _), String.ofList_toList, String.empty_append]
      exact congrArg (Parsing.mk _ · _) String.append_empty
  | plain hplain =>
    refine ⟨hinline, fun p hstart hbuilder => ?_⟩
    -- only a field without characters leaves the parser where it was
    rcases hfield : field.toList with _ | ⟨c, rest⟩
    · obtain rfl : field = "" := String.toList_eq_nil_iff.mp hfield
      rw [if_pos rfl, ← hbuilder]
      rfl
    · rw [hfield] at hplain
      obtain ⟨hquote, hseparator, hescape⟩ := hplain c List.mem_cons_self
      have hmove : move p.state c = .push [c] .inField := by
        rw [move_start hstart, move, if_neg hquote, if_neg hescape, if_neg hseparator]
      rw [Parsing.run_cons, hmove, Parsing.moved, if_neg (List.cons_ne_nil _ _), hbuilder,
        run_plain (fun d hd => hplain d (List.mem_cons_of_mem c hd)), ofList_cons, ← hfield,
        String.ofList_toList, String.empty_append]

/-- A record whose fields can all be written in another way. -/
theorem RecordText.mono {F G : String → List Char → Prop} {fields : CsvValues} {text : List Char}
    (h : RecordText F fields text) (hFG : ∀ field ∈ fields, ∀ text, F field text → G field text) :
    RecordText G fields text := by
  induction h with
  | last h => exact .last (hFG _ List.mem_cons_self _ h)
  | cons h _ ih =>
    exact .cons (hFG _ List.mem_cons_self _ h)
      (ih fun field hfield => hFG field (List.mem_cons_of_mem _ hfield))

theorem DocumentText.mono {F G : String → List Char → Prop} {records : List CsvValues}
    {text : List Char} (h : DocumentText F records text)
    (hFG : ∀ record ∈ records, ∀ field ∈ record, ∀ text, F field text → G field text) :
    DocumentText G records text := by
  induction h with
  | nil => exact .nil
  | last h hne => exact .last (h.mono (hFG _ List.mem_cons_self)) hne
  | lf h hne _ ih =>
    exact .lf (h.mono (hFG _ List.mem_cons_self)) hne
      (ih fun record hrecord => hFG record (List.mem_cons_of_mem _ hrecord))
  | crlf h hne _ ih =>
    exact .crlf (h.mono (hFG _ List.mem_cons_self)) hne
      (ih fun record hrecord => hFG record (List.mem_cons_of_mem _ hrecord))

/-- **The parser decodes the whole dialect.**  For every list of records, whose fields have no
line ends, and every way to write it in the dialect, successive calls return these records in
order, and then find no more. -/
theorem decodes_documentText (records : List CsvValues) (text : List Char)
    (hinline : ∀ record ∈ records, ∀ field ∈ record, ∀ c ∈ field.toList, Inline c)
    (h : DocumentText FieldText records text) : Decodes readerOptions text records := by
  have hreads : DocumentText Reads records text :=
    h.mono fun record hrecord field hfield _ htext =>
      htext.reads (hinline record hrecord field hfield)
  exact decodes_of_reads (fun _ _ h => h) hreads

/-- Both ways to write a field, empty fields, and all ways to end a record. -/
theorem decodes_documentText_witness :
    Decodes readerOptions "\"a,\\\"\",\r\n\"\"\nb".toList [["a,\"", ""], [""], ["b"]] := by
  have hempty : FieldText "" [] := .plain nofun
  have hb : FieldText "b" ['b'] := .plain fun c hc => by
    obtain rfl := List.mem_singleton.mp hc
    decide
  have hfirst : RecordText FieldText ["a,\"", ""] "\"a,\\\"\",".toList :=
    .cons (@FieldText.quoted "a,\"") (.last hempty)
  have hsecond : RecordText FieldText [""] "\"\"".toList := .last (@FieldText.quoted "")
  have hinline : ∀ record ∈ [["a,\"", ""], [""], ["b"]], ∀ field ∈ record, ∀ c ∈ field.toList,
      Inline c := by simp [Inline]
  exact decodes_documentText _ _ hinline (.crlf hfirst (by decide) (.lf hsecond (by decide)
    (.last (.last hb) (by decide))))

end RulesAnalyzer.Csv
