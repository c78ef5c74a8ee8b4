import Mathlib.Data.List.Basic

/-!
# The CSV parser

The parser reads a stream character by character until a record is complete.  In
a strict parser a line feed always ends the record, or is an error.

## Main definitions

* `processChar` — the state machine.
* `nextRecord` — reads one record and leaves the rest of the stream.
* `line`, `restLines`, `lines`, `BlankLine` — the lines of a text.

## Main results

* `processChar_continues` — what one character does in a strict parser.
* `nextRecord_strict` — **a record is one line, and only a blank line is an empty record.**
-/

namespace RulesAnalyzer.Csv

/-- The options of the parser. -/
structure CsvParserOptions where
  quoteChar : Char
  escapeChar : Char
  separatorChar : Char
  msDoubleQuote : Bool
  strictParsing : Bool
  deriving DecidableEq

/-- The states of the parser. -/
inductive ParserState
  | startRecord
  | startField
  | escapedChar
  | inField
  | inQuotedField
  | escapeInQuotedField
  | quoteInQuotedField
  deriving DecidableEq, Repr

/-- The fields of a record. -/
abbrev CsvValues := List String

/-- The state of the parser, the field it is building and the fields of the record so far. -/
structure Parsing where
  state : ParserState
  fieldBuilder : String
  fieldList : CsvValues
  deriving DecidableEq

namespace Parsing

/-- The parser at the start of a record. -/
def init : Parsing := ⟨.startRecord, "", []⟩

/-- The parser in another state. -/
def enter (p : Parsing) (state : ParserState) : Parsing := { p with state := state }

/-- Appends a character to the field. -/
def push (p : Parsing) (c : Char) : Parsing := { p with fieldBuilder := p.fieldBuilder.push c }

/-- Completes the field. -/
def save (p : Parsing) : Parsing :=
  { p with fieldBuilder := "", fieldList := p.fieldList ++ [p.fieldBuilder] }

end Parsing

/-- The error a strict parser raises at a line feed inside a field. -/
def unexpectedEndOfLine : String := "csv : unexpected end of line in field"

section ProcessChar

variable (options : CsvParserOptions) (c : Char) (p : Parsing)

/-- A field is expected. -/
def processStartField : Except String (Parsing × Bool) :=
  if c = '\n' then .ok (p.save.enter .startRecord, true)
  else if c = options.quoteChar then .ok (p.enter .inQuotedField, false)
  else if c = options.escapeChar then .ok (p.enter .escapedChar, false)
  else if c = options.separatorChar then .ok (p.save, false)
  else .ok ((p.push c).enter .inField, false)

/-- The character after an escape character, which is kept unless it escapes a special
character.  The two states of this kind differ in the state that follows. -/
def processEscaped (next : ParserState) : Except String (Parsing × Bool) :=
  if c = '\n' then
    if !options.strictParsing then .ok ((p.save.push c).enter next, true)
    else .error unexpectedEndOfLine
  else if c ≠ options.escapeChar ∧ c ≠ options.separatorChar ∧ c ≠ options.quoteChar then
    .ok (((p.push options.escapeChar).push c).enter next, false)
  else .ok ((p.push c).enter next, false)

/-- In an unquoted field. -/
def processInField : Except String (Parsing × Bool) :=
  if c = '\n' then .ok (p.save.enter .startRecord, true)
  else if c = options.escapeChar then .ok (p.enter .escapedChar, false)
  else if c = options.separatorChar then .ok (p.save.enter .startField, false)
  else .ok (p.push c, false)

/-- In a quoted field. -/
def processInQuotedField : Except String (Parsing × Bool) :=
  if c = '\n' then
    if !options.strictParsing then .ok (p.push c, true) else .error unexpectedEndOfLine
  else if c = options.escapeChar then .ok (p.enter .escapeInQuotedField, false)
  else if c = options.quoteChar then
    .ok (p.enter (if options.msDoubleQuote then .quoteInQuotedField else .inField), false)
  else .ok (p.push c, false)

/-- After a quote in a quoted field, with quotes that are doubled. -/
def processQuoteInQuotedField : Except String (Parsing × Bool) :=
  if c = '\n' then .ok (p.save.enter .startRecord, true)
  else if c = options.quoteChar then .ok ((p.push c).enter .inQuotedField, false)
  else if c = options.separatorChar then .ok (p.save.enter .startField, false)
  else if !options.strictParsing then .ok ((p.push c).enter .inField, false)
  else .error ("unexpected character " ++ c.toString ++ " after " ++ options.quoteChar.toString)

/-- Processes one character.  The answer says whether the record is complete. -/
def processChar : Except String (Parsing × Bool) :=
  match p.state with
  | .startRecord =>
    -- the answer of the recursive call of the source is dropped, it is never true here
    if c = '\n' then .ok (p, true)
    else (fun r => (r.1, false)) <$> processStartField options c (p.enter .startField)
  | .startField => processStartField options c p
  | .escapedChar => processEscaped options c p .inField
  | .inField => processInField options c p
  | .inQuotedField => processInQuotedField options c p
  | .escapeInQuotedField => processEscaped options c p .inQuotedField
  | .quoteInQuotedField => processQuoteInQuotedField options c p

end ProcessChar

/-- The loop of `next_record`: the stream that is left, the state, and whether a carriage
return was read. -/
def readRecord (options : CsvParserOptions) :
    List Char → Parsing → Bool → Except String (CsvValues × List Char)
  | [], p, _ =>
    if p.state ≠ .startRecord then do
      let (p', _) ← processChar options '\n' p
      return (p'.fieldList, [])
    else return (p.fieldList, [])
  | c :: stream, p, crDetected =>
    if crDetected ∧ c ≠ '\r' ∧ c ≠ '\n' then
      .error "csv : invalid end of line characters"
    else if c = '\r' ∧ !crDetected then readRecord options stream p true
    else do
      let (p', eol) ← processChar options c p
      if eol then return (p'.fieldList, stream)
      else readRecord options stream p' (crDetected && c = '\r')

/-- The next record of the stream, and the rest of the stream. -/
def nextRecord (options : CsvParserOptions) (stream : List Char) :
    Except String (CsvValues × List Char) :=
  readRecord options stream .init false

/-! ### Lines -/

/-- The text up to the first line feed. -/
def line (text : List Char) : List Char := text.takeWhile (· ≠ '\n')

/-- The text after the first line feed. -/
def restLines (text : List Char) : List Char := (text.dropWhile (· ≠ '\n')).tail

/-- Nothing, or a lone carriage return. -/
def BlankLine (l : List Char) : Prop := l = [] ∨ l = ['\r']

@[simp] theorem line_newline (text : List Char) : line ('\n' :: text) = [] := rfl

@[simp] theorem restLines_newline (text : List Char) : restLines ('\n' :: text) = text := rfl

theorem line_cons {c : Char} (h : c ≠ '\n') (text : List Char) :
    line (c :: text) = c :: line text := List.takeWhile_cons_of_pos (by simpa using h)

theorem restLines_cons {c : Char} (h : c ≠ '\n') (text : List Char) :
    restLines (c :: text) = restLines text := by
  rw [restLines, restLines, List.dropWhile_cons_of_pos (by simpa using h)]

theorem length_restLines_lt (c : Char) (text : List Char) :
    (restLines (c :: text)).length < (c :: text).length := by
  by_cases hc : c = '\n'
  · subst hc
    exact Nat.lt_succ_self _
  · rw [restLines_cons hc, restLines, List.length_tail, List.length_cons]
    have hle := (List.dropWhile_suffix (l := text) (· ≠ '\n')).length_le
    omega

/-- The lines of a text. -/
def lines : List Char → List (List Char)
  | [] => []
  | c :: text => line (c :: text) :: lines (restLines (c :: text))
termination_by text => text.length
decreasing_by exact length_restLines_lt c text

theorem lines_eq_nil_iff {text : List Char} : lines text = [] ↔ text = [] := by
  cases text with
  | nil => simp [lines]
  | cons c text => simp [lines]

/-! ### Records of a strict parser -/

section Strict

variable {options : CsvParserOptions} {c : Char} {p p' : Parsing} {eol : Bool}
  {stream rest : List Char} {values : CsvValues} {crDetected : Bool}

/-- Within a record, a strict parser completes the field at a line feed and goes on with the
record at any other character. -/
def Continues (c : Char) (result : Except String (Parsing × Bool)) : Prop :=
  ∀ p' eol, result = .ok (p', eol) → (c = '\n' → eol = true ∧ p'.fieldList ≠ []) ∧
    (c ≠ '\n' → eol = false ∧ p'.state ≠ .startRecord)

theorem Continues.error {message : String} : Continues c (.error message) := nofun

theorem Continues.ok_newline (h : p.fieldList ≠ []) : Continues '\n' (.ok (p, true)) := by
  intro p' eol heq
  obtain ⟨rfl, rfl⟩ := Prod.mk.inj (Except.ok.inj heq)
  exact ⟨fun _ => ⟨rfl, h⟩, fun hne => absurd rfl hne⟩

theorem Continues.ok_char (hc : c ≠ '\n') (h : p.state ≠ .startRecord) :
    Continues c (.ok (p, false)) := by
  intro p' eol heq
  obtain ⟨rfl, rfl⟩ := Prod.mk.inj (Except.ok.inj heq)
  exact ⟨fun hn => absurd hn hc, fun _ => ⟨rfl, h⟩⟩

theorem save_ne_nil (p : Parsing) (state : ParserState) : (p.save.enter state).fieldList ≠ [] :=
  List.append_ne_nil_of_right_ne_nil _ (List.cons_ne_nil _ _)

theorem processStartField_continues (h : p.state ≠ .startRecord) :
    Continues c (processStartField options c p) := by
  unfold processStartField
  split
  · next hc =>
    subst hc
    exact .ok_newline (save_ne_nil p _)
  · next hc =>
    split_ifs
    · exact .ok_char hc nofun
    · exact .ok_char hc nofun
    · exact .ok_char hc h
    · exact .ok_char hc nofun

theorem processEscaped_continues (hs : options.strictParsing = true) {next : ParserState}
    (hnext : next ≠ .startRecord) : Continues c (processEscaped options c p next) := by
  unfold processEscaped
  rw [hs]
  split
  · exact .error
  · next hc =>
    split_ifs
    · exact .ok_char hc hnext
    · exact .ok_char hc hnext

theorem processInField_continues (h : p.state ≠ .startRecord) :
    Continues c (processInField options c p) := by
  unfold processInField
  split
  · next hc =>
    subst hc
    exact .ok_newline (save_ne_nil p _)
  · next hc =>
    split_ifs
    · exact .ok_char hc nofun
    · exact .ok_char hc nofun
    · exact .ok_char hc h

theorem processInQuotedField_continues (hs : options.strictParsing = true)
    (h : p.state ≠ .startRecord) : Continues c (processInQuotedField options c p) := by
  unfold processInQuotedField
  rw [hs]
  split
  · exact .error
  · next hc =>
    split_ifs
    · exact .ok_char hc nofun
    · exact .ok_char hc nofun
    · exact .ok_char hc nofun
    · exact .ok_char hc h

theorem processQuoteInQuotedField_continues (hs : options.strictParsing = true) :
    Continues c (processQuoteInQuotedField options c p) := by
  unfold processQuoteInQuotedField
  rw [hs]
  split
  · next hc =>
    subst hc
    exact .ok_newline (save_ne_nil p _)
  · next hc =>
    split_ifs with hquote hseparator hlax
    · exact .ok_char hc nofun
    · exact .ok_char hc nofun
    · exact absurd hlax (by decide)
    · exact .error

theorem processChar_continues (hs : options.strictParsing = true) (h : p.state ≠ .startRecord) :
    Continues c (processChar options c p) := by
  unfold processChar
  split
  · next hstate => exact absurd hstate h
  · exact processStartField_continues h
  · exact processEscaped_continues hs nofun
  · exact processInField_continues h
  · exact processInQuotedField_continues hs h
  · exact processEscaped_continues hs nofun
  · exact processQuoteInQuotedField_continues hs

/-- At the start of a record, a line feed ends it without a field. -/
theorem processChar_startRecord_newline (h : p.state = .startRecord) :
    processChar options '\n' p = .ok (p, true) := by
  rw [processChar, h]
  rfl

/-- At the start of a record, any other character begins the first field. -/
theorem processChar_startRecord_char (h : p.state = .startRecord) (hc : c ≠ '\n')
    (hok : processChar options c p = .ok (p', eol)) : eol = false ∧ p'.state ≠ .startRecord := by
  rw [processChar, h] at hok
  simp only [if_neg hc] at hok
  have hfield : (p.enter .startField).state ≠ .startRecord := nofun
  rcases hstart : processStartField options c (p.enter .startField) with message | ⟨q, b⟩
  · rw [hstart] at hok
    cases hok
  · rw [hstart] at hok
    obtain ⟨rfl, rfl⟩ := Prod.mk.inj (Except.ok.inj hok)
    exact ⟨rfl, ((processStartField_continues hfield q b hstart).2 hc).2⟩

/-- What the loop does with one character: it notes a carriage return, or the character ends
the record, or the record goes on. -/
theorem readRecord_cons_cases
    (hok : readRecord options (c :: stream) p crDetected = .ok (values, rest)) :
    (c = '\r' ∧ crDetected = false ∧ readRecord options stream p true = .ok (values, rest)) ∨
    (c = '\r' → crDetected = true) ∧
      ((∃ q, processChar options c p = .ok (q, true) ∧ values = q.fieldList ∧ rest = stream) ∨
        ∃ q cr, processChar options c p = .ok (q, false) ∧
          readRecord options stream q cr = .ok (values, rest)) := by
  rw [readRecord] at hok
  split at hok
  · cases hok
  · split at hok
    · next hcr => exact Or.inl ⟨hcr.1, by simpa using hcr.2, hok⟩
    · next hcr =>
      refine Or.inr ⟨fun hc => by simpa [hc] using hcr, ?_⟩
      rcases hchar : processChar options c p with message | ⟨q, eol⟩
      · rw [hchar] at hok
        cases hok
      · rw [hchar] at hok
        cases eol with
        | true =>
          obtain ⟨rfl, rfl⟩ := Prod.mk.inj (Except.ok.inj hok)
          exact Or.inl ⟨q, rfl, rfl, rfl⟩
        | false => exact Or.inr ⟨q, _, rfl, hok⟩

/-- Within a record, a strict parser reads up to the end of the line and finds a field. -/
theorem readRecord_continues (hs : options.strictParsing = true) (h : p.state ≠ .startRecord)
    (hok : readRecord options stream p crDetected = .ok (values, rest)) :
    rest = restLines stream ∧ values ≠ [] := by
  induction stream generalizing p crDetected with
  | nil =>
    -- the end of the file ends the line
    rw [readRecord, if_pos h] at hok
    rcases hchar : processChar options '\n' p with message | ⟨q, eol⟩
    · rw [hchar] at hok
      cases hok
    · rw [hchar] at hok
      obtain ⟨rfl, rfl⟩ := Prod.mk.inj (Except.ok.inj hok)
      exact ⟨rfl, ((processChar_continues hs h q eol hchar).1 rfl).2⟩
  | cons c stream ih =>
    rcases readRecord_cons_cases hok with
      ⟨rfl, -, hrest⟩ | ⟨-, ⟨q, hchar, rfl, rfl⟩ | ⟨q, cr, hchar, hrest⟩⟩
    · rw [restLines_cons (by decide)]
      exact ih h hrest
    · obtain ⟨hnewline, hother⟩ := processChar_continues hs h q true hchar
      by_cases hc : c = '\n'
      · subst hc
        exact ⟨rfl, (hnewline rfl).2⟩
      · exact absurd (hother hc).1 (by decide)
    · obtain ⟨hnewline, hother⟩ := processChar_continues hs h q false hchar
      by_cases hc : c = '\n'
      · exact absurd (hnewline hc).1 (by decide)
      · rw [restLines_cons hc]
        exact ih (hother hc).2 hrest

/-- At the start of a record, only a line feed or the end of the stream, with at most one
carriage return before, makes an empty record. -/
theorem readRecord_init (hs : options.strictParsing = true)
    (hok : readRecord options stream .init crDetected = .ok (values, rest)) :
    rest = restLines stream ∧
      (values = [] ↔ line stream = [] ∨ crDetected = false ∧ line stream = ['\r']) := by
  induction stream generalizing crDetected with
  | nil =>
    obtain ⟨rfl, rfl⟩ := Prod.mk.inj (Except.ok.inj hok)
    exact ⟨rfl, iff_of_true rfl (Or.inl rfl)⟩
  | cons c stream ih =>
    rcases readRecord_cons_cases hok with
      ⟨rfl, rfl, hrest⟩ | ⟨hcr, ⟨q, hchar, rfl, rfl⟩ | ⟨q, cr, hchar, hrest⟩⟩
    · -- a carriage return is skipped
      obtain ⟨heq, hvalues⟩ := ih hrest
      rw [restLines_cons (by decide), line_cons (by decide), hvalues]
      exact ⟨heq, by simp⟩
    · -- the character ends the record, which only a line feed does
      by_cases hc : c = '\n'
      · subst hc
        rw [processChar_startRecord_newline rfl] at hchar
        obtain ⟨rfl, -⟩ := Prod.mk.inj (Except.ok.inj hchar)
        exact ⟨rfl, iff_of_true rfl (Or.inl rfl)⟩
      · exact absurd (processChar_startRecord_char rfl hc hchar).1 (by decide)
    · -- the character starts a value, so the record is not empty
      by_cases hc : c = '\n'
      · subst hc
        rw [processChar_startRecord_newline rfl] at hchar
        exact absurd (Prod.mk.inj (Except.ok.inj hchar)).2 (by decide)
      · obtain ⟨heq, hvalues⟩ :=
          readRecord_continues hs (processChar_startRecord_char rfl hc hchar).2 hrest
        rw [restLines_cons hc, line_cons hc]
        refine ⟨heq, iff_of_false hvalues fun h => ?_⟩
        rcases h with h | ⟨hfalse, h⟩
        · exact List.cons_ne_nil _ _ h
        · -- a carriage return is only processed after another one
          rw [hcr (List.cons.inj h).1] at hfalse
          exact absurd hfalse (by decide)

/-- **A record of a strict parser is one line, and only a blank line is an empty record.** -/
theorem nextRecord_strict (hs : options.strictParsing = true)
    (hok : nextRecord options stream = .ok (values, rest)) :
    rest = restLines stream ∧ (values = [] ↔ BlankLine (line stream)) := by
  obtain ⟨hrest, hvalues⟩ := readRecord_init hs hok
  exact ⟨hrest, hvalues.trans (or_congr_right (and_iff_right rfl))⟩

end Strict

end RulesAnalyzer.Csv
