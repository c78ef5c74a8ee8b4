import RulesAnalyzer.Csv.Parser
import RulesAnalyzer.Strutil
import Mathlib.Data.Finset.Lattice.Lemmas

/-!
# The command line

A line is cut into tokens by the parser of comma-separated values, with a space as the
separator; the tokens are then sorted into arguments and options.

## Main definitions

* `splitArgs` — the tokens of a line.
* `LineText` — the texts of a list of tokens: spaces, and tokens with or without quotes.
* `CliArgs`, `CliArgs.create` — the arguments and the options of a list of tokens.
* `Arranged` — the lists of tokens with given arguments and options.

## Main results

* `splitArgs_lineText` — **every text of a list of tokens is cut into these tokens.**
* `create_iff_arranged` — **which lists of tokens have which arguments and options.**
-/

namespace RulesAnalyzer.Cli

open Csv

/-! ### Tokens -/

/-- `default_parser_option`. -/
def defaultParserOption : CsvParserOptions := ⟨'"', '\\', ' ', false, true⟩

/-- `Cli::split_args`: spaces that follow each other make empty tokens, which are removed. -/
def splitArgs (line : List Char) : Except Fault (List String) :=
  match nextRecord defaultParserOption line with
  | .ok (tokens, _) => .ok (tokens.filter fun token => token.length > 0)
  | .error what => .error (.runtimeError what)

/-- The token between quotes: a backslash before quotes and backslashes. -/
def quoted (token : List Char) : List Char :=
  '"' :: token.flatMap (fun c => if c = '"' ∨ c = '\\' then ['\\', c] else [c]) ++ ['"']

/-- The texts of a token. -/
inductive TokenText (token : String) : List Char → Prop
  | quoted : TokenText token (quoted token.toList)
  | plain (h : ∀ c ∈ token.toList, c ≠ '"' ∧ c ≠ ' ' ∧ c ≠ '\\') : TokenText token token.toList

/-- The texts of a list of tokens, with spaces around them. -/
inductive LineText : List String → List Char → Prop
  | spaces (n : ℕ) : LineText [] (List.replicate n ' ')
  | last {token : String} {text : List Char} (n : ℕ) (h : TokenText token text) :
      LineText [token] (List.replicate n ' ' ++ text)
  | cons {token : String} {tokens : List String} {text rest : List Char} (n : ℕ)
      (h : TokenText token text) (hrest : LineText tokens rest) :
      LineText (token :: tokens) (List.replicate n ' ' ++ text ++ ' ' :: rest)

/-! ### Options -/

/-- The flags that a command may accept: a file for its output, rules that accept anything, and the
zones to look at. -/
inductive CliCommandFlag
  | outputToFile
  | includeAny
  | zoneFilter
  deriving DecidableEq

/-- `CliCommandFlags::to_string`. -/
def CliCommandFlag.text : CliCommandFlag → String
  | outputToFile => "-o"
  | includeAny => "-any"
  | zoneFilter => "-z"

/-- The arguments that are left, and the options. -/
structure CliArgs where
  args : List String := []
  outputFilename : String := ""
  srcZone : String := ""
  dstZone : String := ""
  flags : Finset CliCommandFlag := ∅

namespace CliArgs

/-- The state of the loop of the constructor. -/
structure Scan where
  result : CliArgs := {}
  /-- The last token was a `-o`. -/
  outputOption : Bool := false
  /-- The zones that are missing after a `-z`. -/
  zoneOption : ℕ := 0

/-- A token of the command line. -/
def scan (s : Scan) (arg : String) : Except Fault Scan :=
  let r := s.result
  if s.outputOption then
    .ok { s with result := { r with outputFilename := arg }, outputOption := false }
  else if s.zoneOption = 2 then .ok { s with result := { r with srcZone := arg }, zoneOption := 1 }
  else if s.zoneOption = 1 then .ok { s with result := { r with dstZone := arg }, zoneOption := 0 }
  else if arg = "-o" then
    if .outputToFile ∈ r.flags then .error (.runtimeError "duplicate -o option")
    else .ok { s with
      result := { r with flags := insert .outputToFile r.flags }, outputOption := true }
  else if arg = "-any" then
    if .includeAny ∈ r.flags then .error (.runtimeError "duplicate -any option")
    else .ok { s with result := { r with flags := insert .includeAny r.flags } }
  else if arg = "-z" then
    -- the counter is zero here, whether there was a `-z` before or not
    if s.zoneOption ≠ 0 then .error (.runtimeError "duplicate -z option")
    else .ok { s with result := { r with flags := insert .zoneFilter r.flags }, zoneOption := 2 }
  else if arg.front = '-' then
    .error (.runtimeError ("invalid command line option " ++ arg))
  else .ok { s with result := { r with args := r.args ++ [arg] } }

/-- The constructor. -/
def create (tokens : List String) : Except Fault CliArgs := do
  let s ← tokens.foldlM scan {}
  if s.outputOption then throw (.runtimeError "missing filename in option -o")
  if s.zoneOption > 0 then throw (.runtimeError "missing zone in option -z")
  return s.result

end CliArgs

/-- The lists of tokens with given arguments and options.  A `-z` that is followed by another one
has no effect. -/
inductive Arranged : List String → CliArgs → Prop
  | nil : Arranged [] {}
  | arg {tokens : List String} {a : CliArgs} {arg : String} (h : arg.front ≠ '-')
      (hrest : Arranged tokens a) : Arranged (arg :: tokens) { a with args := arg :: a.args }
  | output {tokens : List String} {a : CliArgs} (filename : String) (h : .outputToFile ∉ a.flags)
      (hrest : Arranged tokens a) : Arranged ("-o" :: filename :: tokens)
        { a with outputFilename := filename, flags := insert .outputToFile a.flags }
  | any {tokens : List String} {a : CliArgs} (h : .includeAny ∉ a.flags)
      (hrest : Arranged tokens a) : Arranged ("-any" :: tokens)
        { a with flags := insert .includeAny a.flags }
  | zones {tokens : List String} {a : CliArgs} (src dst : String)
      (hrest : Arranged tokens a) : Arranged ("-z" :: src :: dst :: tokens)
        { a with
          srcZone := if .zoneFilter ∈ a.flags then a.srcZone else src
          dstZone := if .zoneFilter ∈ a.flags then a.dstZone else dst
          flags := insert .zoneFilter a.flags }

/-! ### Tokens are read -/

section Tokens

variable {fields : List String} {rest : List Char}

/-- One character that does not end the record. -/
theorem readRecord_step {c : Char} {p q : Parsing} (hcr : c ≠ '\r')
    (h : processChar defaultParserOption c p = .ok (q, false)) :
    readRecord defaultParserOption (c :: rest) p false =
      readRecord defaultParserOption rest q false := by
  rw [readRecord, if_neg (fun h => Bool.false_ne_true h.1), if_neg (fun h => hcr h.1), h]
  rfl

/-- The parser is at the start of a field. -/
def AtStart (state : ParserState) : Prop := state = .startRecord ∨ state = .startField

theorem readRecord_space {state : ParserState} (hstart : AtStart state) :
    readRecord defaultParserOption (' ' :: rest) ⟨state, "", fields⟩ false =
      readRecord defaultParserOption rest ⟨.startField, "", fields ++ [""]⟩ false := by
  apply readRecord_step (by decide)
  rcases hstart with rfl | rfl <;> rfl

/-- Every space makes an empty field. -/
theorem readRecord_spaces (n : ℕ) (fields : List String) (rest : List Char) {state : ParserState}
    (hstart : AtStart state) :
    ∃ state', AtStart state' ∧
      readRecord defaultParserOption (List.replicate n ' ' ++ rest) ⟨state, "", fields⟩ false =
        readRecord defaultParserOption rest ⟨state', "", fields ++ List.replicate n ""⟩ false := by
  induction n generalizing state fields with
  | zero => exact ⟨state, hstart, by simp⟩
  | succ n ih =>
    obtain ⟨state', hstart', heq⟩ := ih (fields ++ [""]) (Or.inr rfl)
    refine ⟨state', hstart', ?_⟩
    rw [List.replicate_succ, List.cons_append, readRecord_space hstart, heq, List.append_assoc]
    rfl

theorem ofList_cons (builder : String) (c : Char) (token : List Char) :
    builder.push c ++ String.ofList token = builder ++ String.ofList (c :: token) := by
  rw [String.push_eq_append, String.append_assoc]
  exact congrArg (builder ++ ·) (@String.ofList_append [c] token).symm

/-- Between quotes. -/
theorem readRecord_escaped {token : List Char} (hinline : ∀ c ∈ token, c ≠ '\n' ∧ c ≠ '\r')
    (builder : String) :
    readRecord defaultParserOption
        (token.flatMap (fun c => if c = '"' ∨ c = '\\' then ['\\', c] else [c]) ++ rest)
        ⟨.inQuotedField, builder, fields⟩ false =
      readRecord defaultParserOption rest
        ⟨.inQuotedField, builder ++ String.ofList token, fields⟩ false := by
  induction token generalizing builder with
  | nil => simp
  | cons c token ih =>
    obtain ⟨hlf, hcr⟩ := hinline c List.mem_cons_self
    have ih := ih (fun d hd => hinline d (List.mem_cons_of_mem c hd)) (builder.push c)
    rw [ofList_cons] at ih
    rw [List.flatMap_cons, List.append_assoc, ← ih]
    split
    · next hspecial =>
      rw [List.cons_append, List.cons_append, List.nil_append]
      rw [readRecord_step (q := ⟨.escapeInQuotedField, builder, fields⟩) (by decide) rfl]
      apply readRecord_step hcr
      rcases hspecial with rfl | rfl <;> rfl
    · next hspecial =>
      obtain ⟨hquote, hescape⟩ := not_or.mp hspecial
      apply readRecord_step hcr
      simp [processChar, processInQuotedField, defaultParserOption, hlf, hquote, hescape,
        Parsing.push]

/-- Without quotes. -/
theorem readRecord_plain {token : List Char} (hinline : ∀ c ∈ token, c ≠ '\n' ∧ c ≠ '\r')
    (h : ∀ c ∈ token, c ≠ '"' ∧ c ≠ ' ' ∧ c ≠ '\\') (builder : String) :
    readRecord defaultParserOption (token ++ rest) ⟨.inField, builder, fields⟩ false =
      readRecord defaultParserOption rest
        ⟨.inField, builder ++ String.ofList token, fields⟩ false := by
  induction token generalizing builder with
  | nil => simp
  | cons c token ih =>
    obtain ⟨hlf, hcr⟩ := hinline c List.mem_cons_self
    obtain ⟨-, hspace, hescape⟩ := h c List.mem_cons_self
    have ih := ih (fun d hd => hinline d (List.mem_cons_of_mem c hd))
      (fun d hd => h d (List.mem_cons_of_mem c hd)) (builder.push c)
    rw [ofList_cons] at ih
    rw [List.cons_append, ← ih]
    apply readRecord_step hcr
    simp [processChar, processInField, defaultParserOption, hlf, hspace, hescape, Parsing.push]

/-- A token is read from each of its texts. -/
theorem TokenText.read {token : String} {text : List Char} (h : TokenText token text)
    (hinline : token.length > 0 ∧ ∀ c ∈ token.toList, c ≠ '\n' ∧ c ≠ '\r')
    (fields : List String) (rest : List Char) {state : ParserState} (hstart : AtStart state) :
    readRecord defaultParserOption (text ++ rest) ⟨state, "", fields⟩ false =
      readRecord defaultParserOption rest ⟨.inField, token, fields⟩ false := by
  obtain ⟨hne, hinline⟩ := hinline
  cases h with
  | quoted =>
    -- in quotes: spaces are read as text up to the closing quote
    have hopen : processChar defaultParserOption '"' ⟨state, "", fields⟩ =
        .ok (⟨.inQuotedField, "", fields⟩, false) := by
      rcases hstart with rfl | rfl <;> rfl
    rw [Cli.quoted, List.append_assoc, List.cons_append, readRecord_step (by decide) hopen,
      readRecord_escaped hinline, String.ofList_toList, String.empty_append]
    exact readRecord_step (by decide) rfl
  | plain hplain =>
    -- without quotes: the first character opens the field, the others are added to it
    rcases htoken : token.toList with _ | ⟨c, chars⟩
    · rw [← String.length_toList, htoken] at hne
      cases hne
    rw [htoken] at hinline hplain
    obtain ⟨hlf, hcr⟩ := hinline c List.mem_cons_self
    obtain ⟨hquote, hspace, hescape⟩ := hplain c List.mem_cons_self
    have hfirst : processChar defaultParserOption c ⟨state, "", fields⟩ =
        .ok (⟨.inField, "".push c, fields⟩, false) := by
      rcases hstart with rfl | rfl <;>
        simp [processChar, processStartField, defaultParserOption, hlf, hquote, hspace, hescape,
          Parsing.push, Parsing.enter]
    rw [List.cons_append, readRecord_step hcr hfirst,
      readRecord_plain (fun d hd => hinline d (List.mem_cons_of_mem c hd))
        (fun d hd => hplain d (List.mem_cons_of_mem c hd)), ofList_cons, ← htoken,
      String.ofList_toList, String.empty_append]

theorem filter_spaces (n : ℕ) (tokens : List String) :
    (List.replicate n "" ++ tokens).filter (fun token => decide (token.length > 0)) =
      tokens.filter fun token => decide (token.length > 0) := by
  rw [List.filter_append, List.filter_replicate_of_neg (by decide), List.nil_append]

theorem filter_token {token : String} (h : token.length > 0) (tokens : List String) :
    (token :: tokens).filter (fun token => decide (token.length > 0)) =
      token :: tokens.filter fun token => decide (token.length > 0) :=
  List.filter_cons_of_pos (p := fun token : String => decide (token.length > 0)) (decide_eq_true h)

/-- A line leaves the tokens, and empty fields that are removed.  Each space before a token ends
an empty field, and so does each space at the end. -/
theorem LineText.read {tokens : List String} {text : List Char} (h : LineText tokens text)
    (hinline : ∀ token ∈ tokens, token.length > 0 ∧ ∀ c ∈ token.toList, c ≠ '\n' ∧ c ≠ '\r')
    (fields : List String) {state : ParserState} (hstart : AtStart state) :
    ∃ values, readRecord defaultParserOption text ⟨state, "", fields⟩ false =
        .ok (fields ++ values, []) ∧
      values.filter (fun token => decide (token.length > 0)) = tokens := by
  induction h generalizing fields state with
  | spaces n =>
    obtain ⟨state', hstart', heq⟩ := readRecord_spaces n fields [] hstart
    rw [List.append_nil] at heq
    rw [heq]
    -- after the last space a field is open when there was a token before it
    rcases hstart' with rfl | rfl
    · exact ⟨List.replicate n "", rfl, by simp⟩
    · refine ⟨List.replicate n "" ++ [""], ?_, by rw [filter_spaces]; rfl⟩
      rw [← List.append_assoc]
      rfl
  | @last token text n htext =>
    have htoken := hinline token List.mem_cons_self
    obtain ⟨state', hstart', heq⟩ := readRecord_spaces n fields text hstart
    have hread := htext.read htoken (fields ++ List.replicate n "") [] hstart'
    rw [List.append_nil] at hread
    rw [heq, hread]
    refine ⟨List.replicate n "" ++ [token], ?_, ?_⟩
    · rw [← List.append_assoc]
      rfl
    · rw [filter_spaces, filter_token htoken.1, List.filter_nil]
  | @cons token tokens text rest n htext _ ih =>
    have htoken := hinline token List.mem_cons_self
    obtain ⟨state', hstart', heq⟩ := readRecord_spaces n fields (text ++ ' ' :: rest) hstart
    -- the space behind the token ends the field, and the rest starts anew
    obtain ⟨values, hvalues, hfilter⟩ :=
      ih (fun t ht => hinline t (List.mem_cons_of_mem token ht))
        (fields ++ List.replicate n "" ++ [token]) (Or.inr rfl)
    rw [List.append_assoc (List.replicate n ' '), heq,
      htext.read htoken _ _ hstart', readRecord_step (by decide) rfl]
    refine ⟨List.replicate n "" ++ token :: values, ?_, ?_⟩
    · refine hvalues.trans ?_
      simp only [List.append_assoc, List.cons_append, List.nil_append]
    · rw [filter_spaces, filter_token htoken.1, hfilter]

end Tokens

/-- **Every text of a list of tokens is cut into these tokens**: a token may be written with or
without quotes, and spaces may stand before, between and after the tokens. -/
theorem splitArgs_lineText {tokens : List String} {text : List Char} (h : LineText tokens text)
    (hinline : ∀ token ∈ tokens, token.length > 0 ∧
      ∀ c ∈ token.toList, c ≠ '\n' ∧ c ≠ '\r') : splitArgs text = .ok tokens := by
  obtain ⟨values, hread, hfilter⟩ := h.read hinline [] (Or.inl rfl)
  have hnext : nextRecord defaultParserOption text = .ok (values, []) := hread
  rw [splitArgs, hnext]
  exact congrArg Except.ok hfilter

theorem splitArgs_quoted_name : splitArgs "fw  select \"my \\\"fw\\\"\" ".toList =
    .ok ["fw", "select", "my \"fw\""] := by
  apply splitArgs_lineText
  · exact .cons 0 (.plain (by simp)) (.cons 1 (.plain (by simp)) (.cons 0 .quoted (.spaces 0)))
  · simp only [List.forall_mem_cons]
    exact ⟨⟨by decide, by simp⟩, ⟨by decide, by simp⟩, ⟨by decide, by simp⟩,
      List.forall_mem_nil _⟩

/-! ### Options stand anywhere -/

namespace CliArgs

/-- The arguments and the options of the tokens before, then of the tokens after.  What an option
says last counts. -/
def merge (r a : CliArgs) : CliArgs where
  args := r.args ++ a.args
  outputFilename := if .outputToFile ∈ a.flags then a.outputFilename else r.outputFilename
  srcZone := if .zoneFilter ∈ a.flags then a.srcZone else r.srcZone
  dstZone := if .zoneFilter ∈ a.flags then a.dstZone else r.dstZone
  flags := r.flags ∪ a.flags

/-- No option that may be given once is given before and after. -/
def Apart (r a : CliArgs) : Prop :=
  ¬(.outputToFile ∈ r.flags ∧ .outputToFile ∈ a.flags) ∧
    ¬(.includeAny ∈ r.flags ∧ .includeAny ∈ a.flags)

theorem merge_empty (r : CliArgs) : r.merge {} = r := by
  simp [merge]

theorem empty_merge {tokens : List String} {a : CliArgs} (h : Arranged tokens a) :
    merge {} a = a := by
  -- an option that is not given has no value
  have hdefault : (.outputToFile ∉ a.flags → a.outputFilename = "") ∧
      (.zoneFilter ∉ a.flags → a.srcZone = "" ∧ a.dstZone = "") := by
    induction h with
    | nil => exact ⟨fun _ => rfl, fun _ => ⟨rfl, rfl⟩⟩
    | arg _ _ ih => exact ih
    | output filename _ _ ih =>
      exact ⟨fun h => absurd (Finset.mem_insert_self _ _) h,
        fun h => ih.2 fun hmem => h (Finset.mem_insert_of_mem hmem)⟩
    | any _ _ ih =>
      exact ⟨fun h => ih.1 fun hmem => h (Finset.mem_insert_of_mem hmem),
        fun h => ih.2 fun hmem => h (Finset.mem_insert_of_mem hmem)⟩
    | zones src dst _ ih =>
      exact ⟨fun h => ih.1 fun hmem => h (Finset.mem_insert_of_mem hmem),
        fun h => absurd (Finset.mem_insert_self _ _) h⟩
  obtain ⟨houtput, hzones⟩ := hdefault
  obtain ⟨args, outputFilename, srcZone, dstZone, flags⟩ := a
  simp only [merge, List.nil_append, Finset.empty_union, CliArgs.mk.injEq, true_and, and_true]
  refine ⟨?_, ?_, ?_⟩
  · split
    · rfl
    · next h => exact (houtput h).symm
  · split
    · rfl
    · next h => exact (hzones h).1.symm
  · split
    · rfl
    · next h => exact (hzones h).2.symm

/-- An argument, between two options. -/
theorem scan_arg (r : CliArgs) {arg : String} (h : arg.front ≠ '-') :
    scan ⟨r, false, 0⟩ arg = .ok ⟨{ r with args := r.args ++ [arg] }, false, 0⟩ := by
  have hne (option : String) (hoption : option.front = '-') : arg ≠ option := by
    intro heq
    rw [heq] at h
    exact h hoption
  simp only [scan]
  rw [if_neg Bool.false_ne_true, if_neg (by decide), if_neg (by decide), if_neg (hne "-o" rfl),
    if_neg (hne "-any" rfl), if_neg (hne "-z" rfl), if_neg h]

/-- **The options of a line are sorted out wherever they stand.**  The induction is on the way
the tokens are arranged, with any tokens read before. -/
theorem foldlM_scan_of_arranged {tokens : List String} {a : CliArgs} (h : Arranged tokens a)
    {r : CliArgs} (hapart : Apart r a) :
    tokens.foldlM scan ⟨r, false, 0⟩ = .ok ⟨r.merge a, false, 0⟩ := by
  induction h generalizing r with
  | nil => rw [merge_empty]; rfl
  | @arg tokens a arg h hrest ih =>
    rw [List.foldlM_cons, scan_arg r h]
    refine (ih (r := { r with args := r.args ++ [arg] }) hapart).trans ?_
    rw [merge, merge, List.append_assoc]
    rfl
  | @output tokens a filename h hrest ih =>
    -- an option that is there once has not been seen yet
    have hr : .outputToFile ∉ r.flags := fun hr => hapart.1 ⟨hr, Finset.mem_insert_self _ _⟩
    have hfirst : scan ⟨r, false, 0⟩ "-o" =
        .ok ⟨{ r with flags := insert .outputToFile r.flags }, true, 0⟩ := if_neg hr
    have hrest := ih (r := { r with
      outputFilename := filename, flags := insert .outputToFile r.flags }) ⟨fun h' => h h'.2, by
        simpa [Apart] using hapart.2⟩
    rw [List.foldlM_cons, hfirst]
    refine hrest.trans ?_
    simp [merge, h, Finset.insert_union, Finset.union_insert]
  | @any tokens a h hrest ih =>
    have hr : .includeAny ∉ r.flags := fun hr => hapart.2 ⟨hr, Finset.mem_insert_self _ _⟩
    have hfirst : scan ⟨r, false, 0⟩ "-any" =
        .ok ⟨{ r with flags := insert .includeAny r.flags }, false, 0⟩ := if_neg hr
    have hrest := ih (r := { r with flags := insert .includeAny r.flags })
      ⟨by simpa [Apart] using hapart.1, fun h' => h h'.2⟩
    rw [List.foldlM_cons, hfirst]
    refine hrest.trans ?_
    simp [merge, Finset.insert_union, Finset.union_insert]
  | @zones tokens a src dst hrest ih =>
    have hrest := ih (r := { r with
      srcZone := src, dstZone := dst, flags := insert .zoneFilter r.flags })
      (by simpa [Apart] using hapart)
    refine Eq.trans ?_ (hrest.trans ?_)
    · rfl
    · by_cases h : .zoneFilter ∈ a.flags <;>
        simp [merge, h, Finset.insert_union, Finset.union_insert]

/-- The three options, other tokens that start with a dash, and arguments. -/
theorem token_cases (arg : String) :
    arg = "-o" ∨ arg = "-any" ∨ arg = "-z" ∨
      (arg ≠ "-o" ∧ arg ≠ "-any" ∧ arg ≠ "-z" ∧ arg.front = '-') ∨ arg.front ≠ '-' := by
  by_cases h : arg.front = '-' <;> tauto

/-- **What the loop accepts is sorted into arguments and options.**  The loop has read some
tokens before; their options must be apart from those of the other tokens, since a second one is
refused. -/
theorem arranged_of_foldlM_scan {tokens : List String} {r r' : CliArgs}
    (h : tokens.foldlM scan ⟨r, false, 0⟩ = .ok ⟨r', false, 0⟩) :
    ∃ a, Arranged tokens a ∧ Apart r a ∧ r' = r.merge a := by
  -- an option takes up to three tokens, so the induction is on the length
  induction hn : tokens.length using Nat.strong_induction_on generalizing tokens r with
  | _ n ih =>
    subst hn
    rcases tokens with _ | ⟨arg, tokens⟩
    · cases h
      exact ⟨{}, .nil, ⟨by simp, by simp⟩, (merge_empty _).symm⟩
    rw [List.foldlM_cons] at h
    rcases token_cases arg with rfl | rfl | rfl | ⟨ho, hany, hz, hdash⟩ | harg
    · -- `-o`: a second one is refused, and a file name must follow
      by_cases hr : .outputToFile ∈ r.flags
      · have hfirst : scan ⟨r, false, 0⟩ "-o" = .error (.runtimeError "duplicate -o option") :=
          if_pos hr
        rw [hfirst] at h
        cases h
      have hfirst : scan ⟨r, false, 0⟩ "-o" =
          .ok ⟨{ r with flags := insert .outputToFile r.flags }, true, 0⟩ := if_neg hr
      rw [hfirst] at h
      rcases tokens with _ | ⟨filename, tokens⟩
      · cases h
      have hlt : tokens.length < tokens.length + 1 + 1 := by omega
      obtain ⟨a, harranged, hapart, rfl⟩ := ih tokens.length hlt (r := { r with
        outputFilename := filename, flags := insert .outputToFile r.flags }) h rfl
      have ha : .outputToFile ∉ a.flags := fun ha => hapart.1 ⟨Finset.mem_insert_self _ _, ha⟩
      refine ⟨_, .output filename ha harranged, ⟨fun h => hr h.1, ?_⟩, ?_⟩
      · simpa [Apart] using hapart.2
      · simp [merge, ha, Finset.insert_union, Finset.union_insert]
    · -- `-any`: a second one is refused
      by_cases hr : .includeAny ∈ r.flags
      · have hfirst : scan ⟨r, false, 0⟩ "-any" =
            .error (.runtimeError "duplicate -any option") := if_pos hr
        rw [hfirst] at h
        cases h
      have hfirst : scan ⟨r, false, 0⟩ "-any" =
          .ok ⟨{ r with flags := insert .includeAny r.flags }, false, 0⟩ := if_neg hr
      rw [hfirst] at h
      obtain ⟨a, harranged, hapart, rfl⟩ := ih tokens.length (by simp)
        (r := { r with flags := insert .includeAny r.flags }) h rfl
      have ha : .includeAny ∉ a.flags := fun ha => hapart.2 ⟨Finset.mem_insert_self _ _, ha⟩
      refine ⟨_, .any ha harranged, ⟨?_, fun h => hr h.1⟩, ?_⟩
      · simpa [Apart] using hapart.1
      · simp [merge, Finset.insert_union, Finset.union_insert]
    · -- `-z`: two zones must follow; it may be repeated
      rcases tokens with _ | ⟨src, _ | ⟨dst, tokens⟩⟩
      · cases h
      · cases h
      have hlt : tokens.length < tokens.length + 1 + 1 + 1 := by omega
      obtain ⟨a, harranged, hapart, rfl⟩ := ih tokens.length hlt (r := { r with
        srcZone := src, dstZone := dst, flags := insert .zoneFilter r.flags }) h rfl
      refine ⟨_, .zones src dst harranged, by simpa [Apart] using hapart, ?_⟩
      by_cases ha : .zoneFilter ∈ a.flags <;>
        simp [merge, ha, Finset.insert_union, Finset.union_insert]
    · -- any other token with a dash is refused
      have hfirst : scan ⟨r, false, 0⟩ arg =
          .error (.runtimeError ("invalid command line option " ++ arg)) := by
        simp only [scan]
        rw [if_neg Bool.false_ne_true, if_neg (by decide), if_neg (by decide), if_neg ho,
          if_neg hany, if_neg hz, if_pos hdash]
      rw [hfirst] at h
      cases h
    · -- an argument
      rw [scan_arg r harg] at h
      obtain ⟨a, harranged, hapart, rfl⟩ := ih tokens.length (by simp)
        (r := { r with args := r.args ++ [arg] }) h rfl
      refine ⟨_, .arg harg harranged, hapart, ?_⟩
      rw [merge, merge, List.append_assoc]
      rfl

/-- The constructor returns when the loop ends between two options. -/
theorem create_eq_ok {tokens : List String} {a : CliArgs} :
    create tokens = .ok a ↔ tokens.foldlM scan {} = .ok ⟨a, false, 0⟩ := by
  rw [create]
  rcases tokens.foldlM scan {} with fault | ⟨r, outputOption, zoneOption⟩
  · exact iff_of_false nofun nofun
  rcases outputOption
  · rcases zoneOption with _ | n
    · exact ⟨fun h => by cases h; rfl, fun h => by cases h; rfl⟩
    · exact iff_of_false nofun nofun
  · exact iff_of_false nofun nofun

end CliArgs

/-- **Which lines have which arguments and options.**  Options may stand anywhere, `-o` and
`-any` at most once; the last `-z` counts; what follows an option is its value, also when it
looks like an option. -/
theorem create_iff_arranged (tokens : List String) (a : CliArgs) :
    CliArgs.create tokens = .ok a ↔ Arranged tokens a := by
  rw [CliArgs.create_eq_ok]
  constructor
  · intro h
    obtain ⟨a', harranged, -, rfl⟩ := CliArgs.arranged_of_foldlM_scan h
    rwa [CliArgs.empty_merge harranged]
  · intro h
    have hscan := CliArgs.foldlM_scan_of_arranged (r := {}) h ⟨by simp, by simp⟩
    rwa [CliArgs.empty_merge h] at hscan

example : (CliArgs.create ["-z", "a", "b", "fw", "-o", "-any", "-z", "c", "d", "check"]).map
    (fun a => (a.args, a.outputFilename, a.srcZone, a.dstZone)) =
      .ok (["fw", "check"], "-any", "c", "d") := rfl

end RulesAnalyzer.Cli
