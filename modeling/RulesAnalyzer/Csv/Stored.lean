import RulesAnalyzer.Csv.Dialect

/-!
# What the parser stores

The characters of a text end up in the fields of a record, or are used up: by commas, by line
ends, by at most two quotes of a field, and by backslashes.

## Main definitions

* `Parsing.stored` — the characters that are in the fields so far.
* `Parsing.quotes` — the quotes that are stored, or that the fields so far can have used up.

## Main results

* `Parsing.quotes_run` — **no quote of a text is lost.**
* `Parsing.prefix_run_stored`, `Parsing.prefix_run_values` — what is stored stays.
* `not_mem_lf_of_readRecord` — no field has a line feed.
* `not_mem_cr_of_readRecord` — a carriage return inside a line is an error.
-/

namespace RulesAnalyzer.Csv

/-! ### Moves -/

namespace Move

/-- The characters a move adds to the field. -/
def pushed : Move → List Char
  | .push cs _ => cs
  | .save => []

/-- The fields a move completes. -/
def saves : Move → ℕ
  | .push _ _ => 0
  | .save => 1

/-- The state after a move. -/
def next : Move → ParserState
  | .push _ next => next
  | .save => .startField

end Move

/-- The quotes of the current field that can have been used up. -/
def ParserState.quotes : ParserState → ℕ
  | .startRecord | .startField => 0
  | .inQuotedField | .escapeInQuotedField => 1
  | _ => 2

/-- A quote is stored or used up, and a field uses up two quotes at most. -/
theorem move_quotes (state : ParserState) (c : Char) :
    state.quotes + (if c = '"' then 1 else 0) ≤ (move state c).pushed.count '"' +
      2 * (move state c).saves + (move state c).next.quotes := by
  rcases special_cases c with rfl | rfl | rfl | ⟨hquote, hescape, hseparator⟩
  · cases state <;> decide
  · cases state <;> decide
  · cases state <;> decide
  · cases state <;> simp [move, moveEscaped, Move.pushed, Move.saves, Move.next,
      ParserState.quotes, hquote, hescape, hseparator]

/-- A move stores the character, possibly after a backslash. -/
theorem mem_pushed {state : ParserState} {c d : Char} (h : d ∈ (move state c).pushed) :
    d = c ∨ d = '\\' := by
  rcases special_cases c with rfl | rfl | rfl | ⟨hquote, hescape, hseparator⟩
  · cases state <;> simp_all [move, moveEscaped, Move.pushed]
  · cases state <;> simp_all [move, moveEscaped, Move.pushed]
  · cases state <;> simp_all [move, moveEscaped, Move.pushed]
  · cases state <;> simp_all [move, moveEscaped, Move.pushed] <;> tauto

namespace Parsing

variable (p : Parsing)

/-- The characters in the fields so far. -/
def stored : List Char := p.fieldList.flatMap String.toList ++ p.fieldBuilder.toList

/-- The quotes that are stored, or that the fields so far can have used up. -/
def quotes : ℕ := p.stored.count '"' + 2 * p.fieldList.length + p.state.quotes

theorem stored_values : p.values.flatMap String.toList = p.stored := by
  rw [values, List.flatMap_append, List.flatMap_singleton, stored]

variable (m : Move)

@[simp] theorem state_moved_eq : (p.moved m).state = m.next := by cases m <;> rfl

@[simp] theorem stored_moved : (p.moved m).stored = p.stored ++ m.pushed := by
  cases m with
  | push cs next => simp [stored, moved, Move.pushed]
  | save => simp [stored, moved, save, enter, Move.pushed]

@[simp] theorem length_moved :
    (p.moved m).fieldList.length = p.fieldList.length + m.saves := by
  cases m with
  | push cs next => rfl
  | save => exact List.length_append

theorem fieldList_moved : p.fieldList <+: (p.moved m).fieldList := by
  cases m with
  | push cs next => exact List.prefix_rfl
  | save => exact List.prefix_append ..

variable (text : List Char)

/-- **What is stored stays.** -/
theorem prefix_run_stored : p.stored <+: (p.run text).stored := by
  induction text generalizing p with
  | nil => exact List.prefix_rfl
  | cons c text ih =>
    refine List.IsPrefix.trans ?_ (ih _)
    rw [stored_moved]
    exact List.prefix_append ..

/-- A field that is complete stays. -/
theorem prefix_run_values : p.fieldList <+: (p.run text).values := by
  refine List.IsPrefix.trans ?_ (List.prefix_append ..)
  induction text generalizing p with
  | nil => exact List.prefix_rfl
  | cons c text ih => exact (p.fieldList_moved _).trans (ih _)

/-- **No quote of a text is lost.** -/
theorem quotes_run : p.quotes + text.count '"' ≤ (p.run text).quotes := by
  induction text generalizing p with
  | nil => exact Nat.le_refl _
  | cons c text ih =>
    -- one move accounts for its character, and the rest of the text for the others
    have hmove := move_quotes p.state c
    have hrest := ih (p.moved (move p.state c))
    have hcount : (c :: text).count '"' = text.count '"' + if c = '"' then 1 else 0 := by
      rw [List.count_cons]
      simp only [beq_iff_eq]
    have hnext : (p.moved (move p.state c)).quotes =
        p.stored.count '"' + (move p.state c).pushed.count '"' +
          2 * (p.fieldList.length + (move p.state c).saves) + (move p.state c).next.quotes := by
      rw [quotes, stored_moved, length_moved, state_moved_eq, List.count_append]
    rw [hnext] at hrest
    rw [run_cons, hcount, quotes]
    omega

end Parsing

/-! ### Line ends -/

/-- At a line feed, the fields are complete. -/
theorem processChar_lf {p q : Parsing} {eol : Bool}
    (h : processChar readerOptions '\n' p = .ok (q, eol)) :
    eol = true ∧ (q.fieldList = p.values ∨ q.fieldList = p.fieldList ∧ p.state = .startRecord) := by
  obtain ⟨state, builder, fields⟩ := p
  cases state with
  | startRecord =>
    obtain ⟨rfl, rfl⟩ := Prod.mk.inj (Except.ok.inj h)
    exact ⟨rfl, Or.inr ⟨rfl, rfl⟩⟩
  | startField | inField | quoteInQuotedField =>
    obtain ⟨rfl, rfl⟩ := Prod.mk.inj (Except.ok.inj h)
    exact ⟨rfl, Or.inl rfl⟩
  | escapedChar | inQuotedField | escapeInQuotedField => exact nomatch h

/-- Only a line without characters leaves the parser at the start of a record. -/
theorem Parsing.state_run {text : List Char} (hne : text ≠ []) (p : Parsing) :
    (p.run text).state ≠ .startRecord := by
  obtain ⟨init, c, rfl⟩ := List.eq_nil_or_concat' text |>.resolve_left hne
  rw [run_append]
  exact (state_moved (p.run init) c).2

/-- A record that ends with a line feed has the fields that were read before. -/
theorem values_of_readRecord_lf {p : Parsing} {rest stream : List Char} {cr : Bool}
    {values : CsvValues} (hstate : p.state ≠ .startRecord)
    (h : readRecord readerOptions ('\n' :: rest) p cr = .ok (values, stream)) :
    stream = rest ∧ values = p.values := by
  rcases readRecord_cons_cases h with
    ⟨heq, -, -⟩ | ⟨-, ⟨q, hchar, rfl, rfl⟩ | ⟨q, cr', hchar, -⟩⟩
  · exact absurd heq (by decide)
  · exact ⟨rfl, (processChar_lf hchar).2.resolve_right fun hq => hstate hq.2⟩
  · exact absurd (processChar_lf hchar).1 Bool.false_ne_true

/-- What is read at a line feed has no line feed in its fields. -/
theorem not_mem_lf_of_processChar {p q : Parsing} {eol : Bool} (hp : '\n' ∉ p.stored)
    (h : processChar readerOptions '\n' p = .ok (q, eol)) :
    '\n' ∉ q.fieldList.flatMap String.toList := by
  rcases (processChar_lf h).2 with hvalues | ⟨hvalues, -⟩
  · rwa [hvalues, Parsing.stored_values]
  · rw [hvalues]
    exact fun hmem => hp (List.mem_append_left _ hmem)

/-- No field has a line feed.  It ends the record in every state but one, which the dialect does
not reach. -/
theorem not_mem_lf_of_readRecord {stream rest : List Char} {p : Parsing} {cr : Bool}
    {values : CsvValues} (hstate : p.state ≠ .quoteInQuotedField) (hp : '\n' ∉ p.stored)
    (h : readRecord readerOptions stream p cr = .ok (values, rest)) :
    '\n' ∉ values.flatMap String.toList := by
  induction stream generalizing p cr with
  | nil =>
    -- at the end of the file the last line is ended
    rw [readRecord] at h
    split at h
    · rcases hq : processChar readerOptions '\n' p with message | ⟨q, eol⟩
      · rw [hq] at h
        cases h
      · rw [hq] at h
        obtain ⟨rfl, -⟩ := Prod.mk.inj (Except.ok.inj h)
        exact not_mem_lf_of_processChar hp hq
    · obtain ⟨rfl, -⟩ := Prod.mk.inj (Except.ok.inj h)
      exact fun hmem => hp (List.mem_append_left _ hmem)
  | cons c stream ih =>
    rcases readRecord_cons_cases h with
      ⟨-, -, hrest⟩ | ⟨-, ⟨q, hchar, rfl, rfl⟩ | ⟨q, cr', hchar, hrest⟩⟩
    · exact ih hstate hp hrest
    · by_cases hc : c = '\n'
      · exact not_mem_lf_of_processChar hp (hc ▸ hchar)
      · rw [processChar_eq hc hstate] at hchar
        cases hchar
    · by_cases hc : c = '\n'
      · exact absurd (processChar_lf (hc ▸ hchar)).1 Bool.false_ne_true
      · rw [processChar_eq hc hstate] at hchar
        obtain ⟨rfl, -⟩ := Prod.mk.inj (Except.ok.inj hchar)
        refine ih (state_moved p c).1 ?_ hrest
        rw [Parsing.stored_moved, List.mem_append, not_or]
        refine ⟨hp, fun hmem => ?_⟩
        rcases mem_pushed hmem with heq | heq
        · exact hc heq.symm
        · exact absurd heq (by decide)

/-- A carriage return inside a line is an error: a line that ends with a quote has none.  After
one, only a line feed or another carriage return may follow. -/
theorem not_mem_cr_of_readRecord {text rest stream : List Char} {p : Parsing} {cr : Bool}
    {values : CsvValues} (hstate : p.state ≠ .quoteInQuotedField) (hlf : '\n' ∉ text)
    (hlast : text.getLast? = some '"')
    (h : readRecord readerOptions (text ++ rest) p cr = .ok (values, stream)) :
    '\r' ∉ text ∧ cr = false := by
  -- the flag of a carriage return is only true before a line feed, and there is none
  induction text generalizing p cr with
  | nil => cases hlast
  | cons c text ih =>
    obtain ⟨hc, hlf⟩ := not_or.mp (List.mem_cons.not.mp hlf)
    have hrest : c = '\r' → text.getLast? = some '"' := by
      rintro rfl
      cases text with
      | nil => cases hlast
      | cons d text => exact hlast
    rw [List.cons_append, readRecord] at h
    split at h
    · cases h
    · next hvalid =>
      split at h
      · next hcr => exact absurd (ih hstate hlf (hrest hcr.1) h).2 (by decide)
      · next hcr =>
        rw [processChar_eq (Ne.symm hc) hstate] at h
        have hread : readRecord readerOptions (text ++ rest) (p.moved (move p.state c))
            (cr && c = '\r') = .ok (values, stream) := h
        cases cr with
        | true =>
          -- the next character would have to be another carriage return
          have hcr : c = '\r' := by
            by_contra hne
            exact hvalid ⟨rfl, hne, Ne.symm hc⟩
          have hflag := (ih (state_moved p c).1 hlf (hrest hcr) hread).2
          exact absurd hflag (by rw [hcr]; decide)
        | false =>
          have hne : c ≠ '\r' := fun heq => hcr ⟨heq, rfl⟩
          refine ⟨fun hmem => ?_, rfl⟩
          rcases List.mem_cons.mp hmem with heq | hmem
          · exact hne heq.symm
          · have hlast' : text.getLast? = some '"' := by
              rwa [List.getLast?_cons_of_ne_nil (List.ne_nil_of_mem hmem)] at hlast
            exact (ih (state_moved p c).1 hlf hlast' hread).1 hmem

end RulesAnalyzer.Csv
