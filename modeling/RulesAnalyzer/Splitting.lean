import RulesAnalyzer.Strutil

/-!
# Splitting a list of names

The loop of `split` looks for the next character that is not a delimiter, takes
the text up to the next delimiter, and appends it unless it is blank.

## Main definitions

* `splitInto` — `split` with the list it appends to.
* `trimmedSegments` — the segments without the blanks around them.

## Main results

* `splitInto_eq` — the loop appends the segments of `split`.
* `split_ofList` — the parts of a text whose segments are known.
* `splitInto_eq_trimmed_iff` — **when the names are the trimmed segments.**
-/

namespace RulesAnalyzer

/-! ### The loop -/

theorem length_dropWhile_lt {p q : Char → Bool} {str rest : List Char} {c : Char}
    (h : str.dropWhile p = c :: rest) : (rest.dropWhile q).length < str.length := by
  have hrest := (List.dropWhile_sublist q (l := rest)).length_le
  have hstr := (List.dropWhile_sublist p (l := str)).length_le
  rw [h, List.length_cons] at hstr
  omega

/-- Appends a segment unless it is blank.  It is tested without its blanks, but kept with them. -/
def appendPart (parts : List String) (value : List Char) : List String :=
  if (trim value).isEmpty then parts else parts ++ [String.ofList value]

/-- The loop of `split` on the text that is left. -/
def splitLoop (delim : Char) (parts : List String) (str : List Char) : List String :=
  match _h : str.dropWhile (· == delim) with
  | [] => parts
  | c :: rest =>
    splitLoop delim (appendPart parts (c :: rest.takeWhile (· != delim)))
      (rest.dropWhile (· != delim))
termination_by str.length
decreasing_by exact length_dropWhile_lt _h

/-- `split` with a list it appends to: the number of new parts, and all of them. -/
def splitInto (str : String) (delim : Char) (parts : List String) : ℕ × List String :=
  let output := splitLoop delim parts str.toList
  (output.length - parts.length, output)

/-- The segments that are not blank. -/
def segments (delim : Char) (str : List Char) : List (List Char) :=
  (str.splitOn delim).filter fun value => !(trim value).isEmpty

theorem split_eq_map_segments (str : String) (delim : Char) :
    split str delim = (segments delim str.toList).map String.ofList := rfl

theorem segments_delim_cons (delim : Char) (str : List Char) :
    segments delim (delim :: str) = segments delim str := by
  unfold segments
  rw [List.splitOn_cons_eq_if_modifyHead, if_pos (beq_self_eq_true delim), List.filter_cons_of_neg]
  simp [trim]

theorem segments_dropWhile (delim : Char) (str : List Char) :
    segments delim (str.dropWhile (· == delim)) = segments delim str := by
  induction str with
  | nil => rfl
  | cons c str ih =>
    by_cases hc : c = delim
    · rw [List.dropWhile_cons_of_pos (by simpa using hc), ih, hc, segments_delim_cons]
    · rw [List.dropWhile_cons_of_neg (by simpa using hc)]

theorem head_dropWhile {p : Char → Bool} {str rest : List Char} {c : Char}
    (h : str.dropWhile p = c :: rest) : p c = false := by
  have hhead := List.head_dropWhile_not (p := p) (l := str) (by rw [h]; simp)
  simpa [h] using hhead

theorem notMem_takeWhile_ne (delim : Char) (str : List Char) :
    delim ∉ str.takeWhile (· != delim) := by
  intro h
  simpa using List.mem_takeWhile_imp h

/-- The first segment, and the segments of what follows the next delimiter. -/
theorem segments_cons {delim c : Char} (hc : c ≠ delim) (str : List Char) :
    segments delim (c :: str) =
      ([c :: str.takeWhile (· != delim)].filter fun value => !(trim value).isEmpty) ++
        segments delim (str.dropWhile (· != delim)) := by
  have hmem : delim ∉ c :: str.takeWhile (· != delim) := by
    simp [hc.symm, notMem_takeWhile_ne]
  have hstr : c :: str = c :: str.takeWhile (· != delim) ++ str.dropWhile (· != delim) := by
    rw [List.cons_append, List.takeWhile_append_dropWhile]
  cases hrest : str.dropWhile (· != delim) with
  | nil =>
    rw [hstr, hrest, List.append_nil]
    unfold segments
    rw [List.splitOn_eq_singleton hmem, List.splitOn_nil]
    simp [trim]
  | cons d rest =>
    -- the text stops at the delimiter
    obtain rfl : d = delim := by
      simpa using head_dropWhile hrest
    rw [hstr, hrest, segments_delim_cons]
    unfold segments
    rw [List.splitOn_append_cons_self_of_not_mem hmem, ← List.filter_append, List.singleton_append]

theorem splitLoop_eq (delim : Char) (parts : List String) (str : List Char) :
    splitLoop delim parts str = parts ++ (segments delim str).map String.ofList := by
  induction parts, str using splitLoop.induct delim with
  | case1 parts str h =>
    rw [splitLoop, ← segments_dropWhile, h]
    simp [segments, trim]
  | case2 parts str c rest h ih =>
    have hc : c ≠ delim := by simpa using head_dropWhile h
    rw [splitLoop, ← segments_dropWhile delim str, h, segments_cons hc]
    show splitLoop delim (appendPart parts _) _ = _
    rw [ih]
    unfold appendPart
    by_cases hvalue : (trim (c :: rest.takeWhile (· != delim))).isEmpty = true <;> simp [hvalue]

/-- The loop appends the segments that are not blank, as they stand, and counts them. -/
theorem splitInto_eq (str : String) (delim : Char) (parts : List String) :
    splitInto str delim parts = ((split str delim).length, parts ++ split str delim) := by
  unfold splitInto
  simp [splitLoop_eq, split_eq_map_segments]

/-! ### Blanks around the names -/

theorem trim_eq_nil_iff {s : List Char} : trim s = [] ↔ ∀ c ∈ s, isBlank c = true := by
  unfold trim
  rw [List.dropWhile_eq_nil_iff]
  constructor
  · intro h c hc
    rw [← List.rdropWhile_append_rtakeWhile (p := isBlank) (l := s)] at hc
    rcases List.mem_append.mp hc with hc | hc
    · exact h c hc
    · exact List.mem_rtakeWhile_imp hc
  · intro h c hc
    exact h c ((List.rdropWhile_prefix isBlank s).subset hc)

theorem trim_eq_self_iff {s : List Char} :
    trim s = s ↔ ∀ c, s.head? = some c ∨ s.getLast? = some c → isBlank c = false := by
  unfold trim
  constructor
  · intro h
    -- both steps only take characters away, so neither does
    have hlast : s.rdropWhile isBlank = s := by
      apply (List.rdropWhile_prefix isBlank s).sublist.eq_of_length_le
      have hle := (List.dropWhile_sublist isBlank (l := s.rdropWhile isBlank)).length_le
      rwa [h] at hle
    rw [hlast] at h
    have hlast' := List.rdropWhile_eq_self_iff.mp hlast
    intro c hc
    rcases hc with hc | hc
    · obtain ⟨rest, rfl⟩ := List.head?_eq_some_iff.mp hc
      exact head_dropWhile h
    · obtain ⟨rest, rfl⟩ := List.getLast?_eq_some_iff.mp hc
      simpa using hlast' (by simp)
  · intro h
    have hlast : s.rdropWhile isBlank = s := by
      refine List.rdropWhile_eq_self_iff.mpr fun hne => ?_
      simp [h _ (Or.inr (List.getLast?_eq_some_getLast hne))]
    rw [hlast]
    cases s with
    | nil => rfl
    | cons c s => exact List.dropWhile_cons_of_neg (by simp [h c (Or.inl rfl)])

/-! ### Texts whose segments are known -/

/-- Where no segment is blank, the parts are the segments. -/
theorem split_ofList {text : List Char} {delim : Char} {parts : List (List Char)}
    (hparts : text.splitOn delim = parts) (h : ∀ part ∈ parts, trim part ≠ []) :
    split (String.ofList text) delim = parts.map String.ofList := by
  unfold split
  rw [String.toList_ofList, hparts, List.filter_eq_self.mpr]
  intro part hpart
  simpa using h part hpart

/-- A text without the delimiter is one segment. -/
theorem splitOn_one {text : List Char} {delim : Char} (h : delim ∉ text) :
    text.splitOn delim = [text] := List.splitOn_eq_singleton h

theorem splitOn_two {first second : List Char} {delim : Char} (hfirst : delim ∉ first)
    (hsecond : delim ∉ second) :
    (first ++ delim :: second).splitOn delim = [first, second] := by
  rw [List.splitOn_append_cons_self_of_not_mem hfirst, splitOn_one hsecond]

/-! ### Trimmed segments -/

/-- The segments between delimiters without the blanks around them; empty ones are left out. -/
def trimmedSegments (str : String) (delim : Char) : List String :=
  (((str.toList.splitOn delim).map trim).filter fun value => !value.isEmpty).map String.ofList

/-- **When the names are the trimmed segments.**  The loop appends them exactly when no segment
with a character that is not blank begins or ends with a blank. -/
theorem splitInto_eq_trimmed_iff (str : String) (delim : Char) (parts : List String) :
    splitInto str delim parts =
        ((trimmedSegments str delim).length, parts ++ trimmedSegments str delim) ↔
      ∀ value ∈ str.toList.splitOn delim, (∃ c ∈ value, isBlank c = false) →
        ∀ c, value.head? = some c ∨ value.getLast? = some c → isBlank c = false := by
  have htrimmed : trimmedSegments str delim =
      ((segments delim str.toList).map trim).map String.ofList := by
    unfold trimmedSegments segments
    rw [List.filter_map]
    rfl
  -- the two lists agree just when trimming leaves each segment as it is
  have hself : (segments delim str.toList).map trim = segments delim str.toList ↔
      ∀ value ∈ segments delim str.toList, trim value = value := by
    conv_lhs => rw [← List.map_id (segments delim str.toList), List.map_map]
    exact List.map_inj_left
  rw [splitInto_eq, htrimmed, split_eq_map_segments]
  simp only [Prod.mk.injEq, List.length_map, true_and, List.append_cancel_left_eq]
  have hinj : Function.Injective String.ofList := fun _ _ h => String.ofList_injective h
  rw [eq_comm, (List.map_injective_iff.mpr hinj).eq_iff, hself]
  constructor
  · intro h value hvalue hc
    obtain ⟨c, hc, hblank⟩ := hc
    apply trim_eq_self_iff.mp
    apply h
    apply List.mem_filter.mpr
    refine ⟨hvalue, ?_⟩
    -- a segment with a character that is not blank is kept by the test
    have hne : trim value ≠ [] := by
      intro hnil
      rw [trim_eq_nil_iff.mp hnil c hc] at hblank
      cases hblank
    simpa using hne
  · intro h value hvalue
    obtain ⟨hvalue, hne⟩ := List.mem_filter.mp hvalue
    refine trim_eq_self_iff.mpr (h value hvalue ?_)
    by_contra hblank
    have hnil : trim value = [] := by
      apply trim_eq_nil_iff.mpr
      intro c hc
      by_contra hnot
      exact hblank ⟨c, hc, by simpa using hnot⟩
    simp [hnil] at hne

/-- A name keeps the blank before the delimiter. -/
theorem splitInto_keeps_blank :
    splitInto "a ; b" ';' [] = (2, ["a ", " b"]) ∧ trimmedSegments "a ; b" ';' = ["a", "b"] ∧
      splitInto "a ; b" ';' [] ≠
        ((trimmedSegments "a ; b" ';').length, [] ++ trimmedSegments "a ; b" ';') := by
  have hsplit : splitInto "a ; b" ';' [] = (2, ["a ", " b"]) := by
    rw [splitInto_eq]
    decide
  have htrimmed : trimmedSegments "a ; b" ';' = ["a", "b"] := by decide
  refine ⟨hsplit, htrimmed, ?_⟩
  rw [hsplit, htrimmed]
  decide

end RulesAnalyzer
