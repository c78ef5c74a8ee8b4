import RulesAnalyzer.Splitting

/-!
# Word wrapping

A cell of a text table is wrapped: its words are written one after the other, and
a word that does not fit in the rest of the line starts the next one.  A line is
made longer for such a word, but not for the first word of the text.  The code
counts in numbers of 32 bits.

## Main definitions

* `words` — the words of a text, as a stream reads them.
* `WrapState`, `WrapState.wrap` — the loop.
* `wordWrap` — the wrapped text, and the length of its lines.

## Main results

* `words_eq` — the words are what stands between blanks.
* `separated_wordWrap` — **no word is lost**, whatever the text and the length are.
* `wordWrap_iff` — **when no line is longer than the length that is left.**
-/

namespace RulesAnalyzer

/-! ### Words -/

/-- The words that are read from a stream. -/
def words (stream : List Char) : List (List Char) :=
  match _h : stream.dropWhile isSpace with
  | [] => []
  | c :: rest => (c :: rest.takeWhile (!isSpace ·)) :: words (rest.dropWhile (!isSpace ·))
termination_by stream.length
decreasing_by exact length_dropWhile_lt _h

/-- What stands between blanks. -/
def unspaced (text : List Char) : List (List Char) :=
  (text.splitOnP isSpace).filter fun word => !word.isEmpty

theorem unspaced_dropWhile (text : List Char) :
    unspaced (text.dropWhile isSpace) = unspaced text := by
  induction text with
  | nil => rfl
  | cons c text ih =>
    cases hc : isSpace c with
    | true =>
      rw [List.dropWhile_cons_of_pos hc, ih]
      unfold unspaced
      rw [List.splitOnP_cons_eq_if_modifyHead, if_pos hc, List.filter_cons_of_neg (by simp)]
    | false => rw [List.dropWhile_cons_of_neg (by simp [hc])]

theorem isSpace_of_mem_takeWhile {text : List Char} {c : Char}
    (h : c ∈ text.takeWhile (!isSpace ·)) : isSpace c = false := by
  simpa using List.mem_takeWhile_imp h

/-- The first word, and the words behind it. -/
theorem unspaced_cons {c : Char} (hc : isSpace c = false) (text : List Char) :
    unspaced (c :: text) = (c :: text.takeWhile (!isSpace ·)) ::
      unspaced (text.dropWhile (!isSpace ·)) := by
  have hword : ∀ d ∈ c :: text.takeWhile (!isSpace ·), isSpace d = false := by
    intro d hd
    rcases List.mem_cons.mp hd with rfl | hd
    · exact hc
    · exact isSpace_of_mem_takeWhile hd
  have htext : c :: text = c :: text.takeWhile (!isSpace ·) ++ text.dropWhile (!isSpace ·) := by
    rw [List.cons_append, List.takeWhile_append_dropWhile]
  cases hrest : text.dropWhile (!isSpace ·) with
  | nil =>
    rw [htext, hrest, List.append_nil]
    unfold unspaced
    rw [List.splitOnP_eq_singleton hword]
    simp
  | cons d rest =>
    have hd : isSpace d = true := by simpa using head_dropWhile hrest
    rw [htext, hrest, ← unspaced_dropWhile (d :: rest), List.dropWhile_cons_of_pos hd,
      unspaced_dropWhile]
    unfold unspaced
    rw [List.splitOnP_append_cons_of_forall_mem hword d hd, List.filter_cons_of_pos (by simp)]

/-- The words are what stands between blanks. -/
theorem words_eq (text : List Char) : words text = unspaced text := by
  induction text using words.induct with
  | case1 text h =>
    rw [words, ← unspaced_dropWhile, h]
    rfl
  | case2 text c rest h ih =>
    rw [words, ← unspaced_dropWhile text, h, unspaced_cons (head_dropWhile h)]
    exact congrArg _ ih

theorem isSpace_of_mem_words {text word : List Char} (h : word ∈ words text) :
    ∀ c ∈ word, isSpace c = false := by
  induction text using words.induct with
  | case1 text hnil =>
    rw [words, hnil] at h
    cases h
  | case2 text c rest hcons ih =>
    rw [words, hcons] at h
    rcases List.mem_cons.mp h with rfl | h
    · intro d hd
      rcases List.mem_cons.mp hd with rfl | hd
      · exact head_dropWhile hcons
      · exact isSpace_of_mem_takeWhile hd
    · exact ih h

/-! ### The numbers of the loop -/

/-- The conversion to `int`, of 32 bits. -/
def toInt (z : ℤ) : ℤ := z.bmod (2 ^ 32)

/-- The conversion to `size_t`, of 64 bits. -/
def toSize (z : ℤ) : ℕ := (z % 2 ^ 64).toNat

theorem toInt_spec (z : ℤ) :
    ∃ k : ℤ, toInt z = z + 2 ^ 32 * k ∧ -2 ^ 31 ≤ toInt z ∧ toInt z < 2 ^ 31 := by
  refine ⟨-(z.bdiv (2 ^ 32)), ?_, Int.le_bmod (by decide), Int.bmod_lt (by decide)⟩
  have h := Int.bmod_add_bdiv z (2 ^ 32)
  have hpow : ((2 ^ 32 : ℕ) : ℤ) = 2 ^ 32 := rfl
  rw [hpow] at h
  unfold toInt
  omega

theorem toInt_eq_self {z : ℤ} (h : -2 ^ 31 ≤ z) (h' : z < 2 ^ 31) : toInt z = z := by
  obtain ⟨k, hk, hlow, hhigh⟩ := toInt_spec z
  omega

attribute [irreducible] toInt

/-- A number that is not negative is not smaller than its conversion. -/
theorem toInt_sub_le {a b : ℤ} (h : b ≤ a) : toInt (toInt a - b) ≤ a - b := by
  obtain ⟨k, hk, hlow, hhigh⟩ := toInt_spec a
  obtain ⟨k', hk', hlow', hhigh'⟩ := toInt_spec (toInt a - b)
  omega

theorem toSize_natCast {n : ℕ} (h : n < 2 ^ 64) : toSize n = n := by
  unfold toSize
  omega

/-! ### The loop -/

/-- The variables of the loop. -/
structure WrapState where
  wrapped : List Char
  spaceLeft : ℤ
  lineLength : ℕ
  deriving DecidableEq

/-- The length of a word. -/
def wordLen (word : List Char) : ℤ := toInt word.length

/-- One turn of the loop: a word that does not fit starts a line, which is made longer for it. -/
def WrapState.wrap (s : WrapState) (word : List Char) : WrapState :=
  if s.spaceLeft < toInt (wordLen word + 1) then
    let lineLength :=
      if toSize (toInt (wordLen word + 1)) > s.lineLength then toSize (wordLen word)
      else s.lineLength
    ⟨s.wrapped ++ '\n' :: word, toInt (toInt lineLength - wordLen word), lineLength⟩
  else ⟨s.wrapped ++ ' ' :: word, toInt (s.spaceLeft - toInt (wordLen word + 1)), s.lineLength⟩

/-- `TableTxtWriter::word_wrap`: the text, and the length of a line. -/
def wordWrap (text : List Char) (lineLength : ℕ) : List Char × ℕ :=
  match words text with
  | [] => ([], lineLength)
  | word :: later =>
    let s := later.foldl WrapState.wrap
      ⟨word, toInt (toInt lineLength - wordLen word), lineLength⟩
    (s.wrapped, s.lineLength)

/-! ### No word is lost -/

/-- The words follow each other, with a space or a line break before each. -/
def Follow : List (List Char) → List Char → Prop
  | [], out => out = []
  | word :: words, out =>
    ∃ sep rest, (sep = ' ' ∨ sep = '\n') ∧ out = sep :: (word ++ rest) ∧ Follow words rest

/-- The text is made of the words, with a space or a line break between each and the next. -/
def Separated : List (List Char) → List Char → Prop
  | [], out => out = []
  | word :: words, out => ∃ rest, out = word ++ rest ∧ Follow words rest

theorem WrapState.wrapped_wrap (s : WrapState) (word : List Char) :
    ∃ sep, (sep = ' ' ∨ sep = '\n') ∧ (s.wrap word).wrapped = s.wrapped ++ sep :: word := by
  unfold wrap
  split
  · exact ⟨'\n', .inr rfl, rfl⟩
  · exact ⟨' ', .inl rfl, rfl⟩

theorem WrapState.wrapped_foldl (later : List (List Char)) (s : WrapState) :
    ∃ rest, (later.foldl wrap s).wrapped = s.wrapped ++ rest ∧ Follow later rest := by
  induction later generalizing s with
  | nil => exact ⟨[], (List.append_nil _).symm, rfl⟩
  | cons word later ih =>
    obtain ⟨sep, hsep, hword⟩ := s.wrapped_wrap word
    obtain ⟨rest, hrest, hfollow⟩ := ih (s.wrap word)
    refine ⟨sep :: (word ++ rest), ?_, sep, rest, hsep, rfl, hfollow⟩
    rw [List.foldl_cons, hrest, hword, List.append_assoc, List.cons_append]

/-- No word is lost or broken. -/
theorem separated_wordWrap (text : List Char) (lineLength : ℕ) :
    Separated (words text) (wordWrap text lineLength).1 := by
  unfold wordWrap
  cases words text with
  | nil => rfl
  | cons word later => exact WrapState.wrapped_foldl later _

/-! ### The lines -/

/-- Full lines and a last one. -/
def layout (full : List (List Char)) (line : List Char) : List Char :=
  full.flatMap (· ++ ['\n']) ++ line

theorem splitOn_layout {full : List (List Char)} {line : List Char}
    (hfull : ∀ l ∈ full, '\n' ∉ l) (hline : '\n' ∉ line) :
    (layout full line).splitOn '\n' = full ++ [line] := by
  induction full with
  | nil =>
    refine List.splitOnP_eq_singleton fun c hc => ?_
    exact beq_eq_false_iff_ne.mpr fun h => hline (h ▸ hc)
  | cons l full ih =>
    have hl : ∀ c ∈ l, (c == '\n') = false := fun c hc =>
      beq_eq_false_iff_ne.mpr fun h => hfull l (by simp) (h ▸ hc)
    have hsplit : layout (l :: full) line = l ++ '\n' :: layout full line := by
      simp [layout]
    rw [hsplit]
    have hrest := ih fun l' hl' => hfull l' (List.mem_cons_of_mem _ hl')
    unfold List.splitOn at hrest ⊢
    rw [List.splitOnP_append_cons_of_forall_mem hl '\n' rfl, hrest, List.cons_append]

theorem layout_line (full : List (List Char)) (line out : List Char) :
    layout full line ++ out = layout full (line ++ out) := by
  unfold layout
  rw [List.append_assoc]

theorem layout_full (full : List (List Char)) (line out : List Char) :
    layout full line ++ '\n' :: out = layout (full ++ [line]) out := by
  simp [layout]

/-- The length of the word is a number of the loop. -/
def Countable (word : List Char) : Prop := word.length < 2 ^ 31 - 1

theorem wordLen_eq {word : List Char} (h : Countable word) : wordLen word = word.length := by
  unfold Countable at h
  exact toInt_eq_self (by omega) (by omega)

theorem toInt_wordLen_succ {word : List Char} (h : Countable word) :
    toInt (wordLen word + 1) = word.length + 1 := by
  rw [wordLen_eq h]
  unfold Countable at h
  exact toInt_eq_self (by omega) (by omega)

/-- The text is made of these lines, and the numbers of the loop are right about them. -/
structure Laid (first : List Char) (s : WrapState) (full : List (List Char))
    (line : List Char) : Prop where
  wrapped : s.wrapped = layout full line
  full_lines : ∀ l ∈ full, '\n' ∉ l
  last_line : '\n' ∉ line
  low : -2 ^ 31 ≤ s.spaceLeft
  high : s.spaceLeft < 2 ^ 31
  room : s.spaceLeft ≤ s.lineLength - line.length
  short : ∀ l ∈ full ++ [line], l.length ≤ max first.length s.lineLength
  first : ∃ l ∈ full ++ [line], first.length ≤ l.length

theorem laid_first {first : List Char} (h : Countable first) (hnl : '\n' ∉ first) (n : ℕ) :
    Laid first ⟨first, toInt (toInt n - wordLen first), n⟩ [] first where
  wrapped := rfl
  full_lines := by simp
  last_line := hnl
  low := by
    obtain ⟨-, -, hlow, -⟩ := toInt_spec (toInt n - wordLen first)
    exact hlow
  high := by
    obtain ⟨-, -, -, hhigh⟩ := toInt_spec (toInt n - wordLen first)
    exact hhigh
  room := by
    rw [wordLen_eq h]
    show toInt (toInt n - first.length) ≤ n - first.length
    unfold Countable at h
    rcases Nat.lt_or_ge n first.length with hn | hn
    · rw [toInt_eq_self (z := n) (by omega) (by omega), toInt_eq_self (by omega) (by omega)]
    · exact toInt_sub_le (by omega)
  short := by
    intro l hl
    rw [List.mem_singleton.mp hl]
    exact le_max_left _ _
  first := ⟨first, by simp, le_rfl⟩

section Turn

variable {first word : List Char} {s : WrapState} {full : List (List Char)} {line : List Char}

/-- A line break, and a line that the word fits in.  The line before is complete then, and its
words are kept. -/
theorem Laid.newLine (h : Laid first s full line) (hnl : '\n' ∉ word) {n : ℕ}
    (hline : s.lineLength ≤ n) (hword : word.length ≤ n) :
    Laid first ⟨s.wrapped ++ '\n' :: word, toInt (toInt n - word.length), n⟩ (full ++ [line])
      word where
  wrapped := by
    rw [← layout_full, ← h.wrapped]
  full_lines := by
    intro l hl
    rcases List.mem_append.mp hl with hl | hl
    · exact h.full_lines l hl
    · exact List.mem_singleton.mp hl ▸ h.last_line
  last_line := hnl
  low := by
    -- the space left is an `int`, also where it wraps
    obtain ⟨-, -, hlow, -⟩ := toInt_spec (toInt n - word.length)
    exact hlow
  high := by
    obtain ⟨-, -, -, hhigh⟩ := toInt_spec (toInt n - word.length)
    exact hhigh
  room := toInt_sub_le (by omega)
  short := by
    intro l hl
    show l.length ≤ max first.length n
    rcases List.mem_append.mp hl with hl | hl
    · have hshort := h.short l hl
      omega
    · rw [List.mem_singleton.mp hl]
      omega
  first := by
    obtain ⟨l, hl, hfirst⟩ := h.first
    exact ⟨l, List.mem_append_left _ hl, hfirst⟩

/-- A space, and a word that the rest of the line has room for.  Only the last line grows. -/
theorem Laid.sameLine (h : Laid first s full line) (hnl : '\n' ∉ word)
    (hfits : word.length + 1 ≤ s.spaceLeft) :
    Laid first ⟨s.wrapped ++ ' ' :: word, toInt (s.spaceLeft - (word.length + 1)), s.lineLength⟩
      full (line ++ ' ' :: word) := by
  have hlow := h.low
  have hhigh := h.high
  have hroom := h.room
  -- no overflow: the word fits into the room that is left
  have hleft : toInt (s.spaceLeft - (word.length + 1)) = s.spaceLeft - (word.length + 1) :=
    toInt_eq_self (by omega) (by omega)
  have hlength : (line ++ ' ' :: word).length = line.length + (word.length + 1) := by
    rw [List.length_append, List.length_cons]
  rw [hleft]
  constructor
  case wrapped => rw [← layout_line, ← h.wrapped]
  case full_lines => exact h.full_lines
  case last_line => simp [h.last_line, hnl]
  case low =>
    show -2 ^ 31 ≤ s.spaceLeft - (word.length + 1)
    omega
  case high =>
    show s.spaceLeft - (word.length + 1) < 2 ^ 31
    omega
  case room =>
    show s.spaceLeft - (word.length + 1) ≤ s.lineLength - (line ++ ' ' :: word).length
    omega
  case short =>
    intro l hl
    show l.length ≤ max first.length s.lineLength
    rcases List.mem_append.mp hl with hl | hl
    · exact h.short l (List.mem_append_left _ hl)
    · rw [List.mem_singleton.mp hl]
      omega
  case first =>
    obtain ⟨l, hl, hfirst⟩ := h.first
    rcases List.mem_append.mp hl with hl | hl
    · exact ⟨l, List.mem_append_left _ hl, hfirst⟩
    · refine ⟨line ++ ' ' :: word, by simp, ?_⟩
      rw [List.mem_singleton.mp hl] at hfirst
      omega

/-- **One turn of the loop.** -/
theorem Laid.wrap (h : Laid first s full line) (hword : Countable word) (hnl : '\n' ∉ word) :
    (s.wrap word).lineLength = max s.lineLength word.length ∧
      ∃ full' line', Laid first (s.wrap word) full' line' := by
  have hlen := toInt_wordLen_succ hword
  unfold WrapState.wrap
  rw [hlen, wordLen_eq hword]
  unfold Countable at hword
  split
  · -- A new line, which is made longer for the word.
    have hsize : toSize ((word.length : ℤ) + 1) = word.length + 1 := by
      exact_mod_cast toSize_natCast (n := word.length + 1) (by omega)
    rw [hsize, toSize_natCast (by omega)]
    have hlength : (if word.length + 1 > s.lineLength then word.length else s.lineLength)
        = max s.lineLength word.length := by
      split <;> omega
    rw [hlength]
    exact ⟨rfl, full ++ [line], word, h.newLine hnl (le_max_left _ _) (le_max_right _ _)⟩
  · -- The rest of the line has room for the word.
    have hroom := h.room
    refine ⟨?_, full, line ++ ' ' :: word, h.sameLine hnl (by omega)⟩
    show s.lineLength = _
    omega

end Turn

/-- All turns of the loop. -/
theorem Laid.foldl {first : List Char} {s : WrapState} {full : List (List Char)}
    {line : List Char} (later : List (List Char)) (h : Laid first s full line)
    (hlater : ∀ word ∈ later, Countable word ∧ '\n' ∉ word) :
    (∀ n, n ≤ (later.foldl WrapState.wrap s).lineLength ↔
      n ≤ s.lineLength ∨ ∃ word ∈ later, n ≤ word.length) ∧
      ∃ full' line', Laid first (later.foldl WrapState.wrap s) full' line' := by
  induction later generalizing s full line with
  | nil => exact ⟨fun n => by simp, full, line, h⟩
  | cons word later ih =>
    obtain ⟨hword, hnl⟩ := hlater word List.mem_cons_self
    obtain ⟨hlength, full', line', h'⟩ := h.wrap hword hnl
    obtain ⟨hle, hlaid⟩ := ih h' fun w hw => hlater w (List.mem_cons_of_mem _ hw)
    refine ⟨fun n => ?_, hlaid⟩
    have hmax : n ≤ max s.lineLength word.length ↔ n ≤ s.lineLength ∨ n ≤ word.length := by omega
    rw [List.foldl_cons, hle n, hlength, hmax, or_assoc, List.exists_mem_cons_iff]

theorem Laid.short_iff {first : List Char} {s : WrapState} {full : List (List Char)}
    {line : List Char} (h : Laid first s full line) :
    (∀ l ∈ s.wrapped.splitOn '\n', l.length ≤ s.lineLength) ↔ first.length ≤ s.lineLength := by
  rw [h.wrapped, splitOn_layout h.full_lines h.last_line]
  constructor
  · intro hall
    obtain ⟨l, hl, hfirst⟩ := h.first
    exact hfirst.trans (hall l hl)
  · intro hfirst l hl
    have := h.short l hl
    omega

/-- Every line is within the length. -/
def WithinLength (wrapped : List Char × ℕ) : Prop :=
  ∀ line ∈ wrapped.1.splitOn '\n', line.length ≤ wrapped.2

instance (wrapped : List Char × ℕ) : Decidable (WithinLength wrapped) :=
  inferInstanceAs (Decidable (∀ line ∈ wrapped.1.splitOn '\n', line.length ≤ wrapped.2))

/-- The first word fits in a line, or a word behind it is as long. -/
def FirstFits (lineLength : ℕ) : List (List Char) → Prop
  | [] => True
  | first :: later => first.length ≤ lineLength ∨ ∃ word ∈ later, first.length ≤ word.length

/-- No word is lost, and when the words are not too long to be counted, no line is too long just
when the first word is not. -/
theorem wordWrap_iff (text : List Char) (lineLength : ℕ) :
    Separated (words text) (wordWrap text lineLength).1 ∧
      ((∀ word ∈ words text, Countable word) →
        (WithinLength (wordWrap text lineLength) ↔ FirstFits lineLength (words text))) := by
  refine ⟨separated_wordWrap text lineLength, fun hcount => ?_⟩
  have hnl : ∀ word ∈ words text, '\n' ∉ word := fun word hword hc =>
    absurd (isSpace_of_mem_words hword '\n' hc) (by decide)
  unfold wordWrap WithinLength
  cases htext : words text with
  | nil => simp [FirstFits, List.splitOn]
  | cons first later =>
    rw [htext] at hcount hnl
    obtain ⟨hle, full, line, hlaid⟩ :=
      (laid_first (hcount first List.mem_cons_self) (hnl first List.mem_cons_self)
        lineLength).foldl later fun word hword =>
          ⟨hcount word (List.mem_cons_of_mem _ hword), hnl word (List.mem_cons_of_mem _ hword)⟩
    exact hlaid.short_iff.trans (hle first.length)

/-- The line is not made longer for the first word. -/
theorem wordWrap_abcdef :
    ¬ (Separated (words "abcdef".toList) (wordWrap "abcdef".toList 3).1 ∧
      WithinLength (wordWrap "abcdef".toList 3)) := by
  unfold wordWrap
  rw [words_eq]
  exact fun h => absurd h.2 (by decide)

end RulesAnalyzer
