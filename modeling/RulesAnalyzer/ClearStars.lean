import RulesAnalyzer.Match

/-!
# Stars that face no star of the text

The loop takes a star of the pattern for a character exactly when it faces a star of the text.
Where that happens is a matter of the words between the stars: the first word stands at the
beginning of the text, and each other word at the leftmost place behind the one before where it
fits.  As long as the text has no star right behind one of these places, the loop is right.

## Main definitions

* `front`, `behind` — what the text has behind a word at its beginning, or at the leftmost place.
* `clear` — the words in front of a star are not followed by a star of the text.

## Main results

* `clear_iff` — a pattern is clear of the text when no star is taken for a character.
* `ratMatch_of_clear` — **the loop ends, its positive answers are right, and all of them are when
  the pattern is clear of the text.**
* `clear_of_notMem` — it is when one of the two has no star.
-/

namespace RulesAnalyzer

/-! ### The places of the words -/

/-- The word fits the beginning of the text. -/
def fitsPrefix : List Char → List Char → Bool
  | [], _ => true
  | _ :: _, [] => false
  | x :: word, c :: text => fits x c && fitsPrefix word text

/-- What the text has behind the word, when the word fits its beginning. -/
def front (word text : List Char) : Option (List Char) :=
  if fitsPrefix word text then some (text.drop word.length) else none

/-- What the text has behind the leftmost place where the word fits. -/
def behind (word : List Char) : List Char → Option (List Char)
  | [] => front word []
  | c :: text => if fitsPrefix word (c :: text) then some ((c :: text).drop word.length)
      else behind word text

/-- No word that stands in front of a star of the pattern is followed by a star of the text.  The
first word is looked for as given, the others at the leftmost place. -/
def clearWords (place : List Char → List Char → Option (List Char)) :
    List (List Char) → List Char → Bool
  | word :: next :: words, text =>
    (place word text).all fun rest =>
      rest.head? != some '*' && clearWords behind (next :: words) rest
  | _, _ => true

/-- The words between the stars of the pattern are not followed by stars of the text. -/
def clear (pattern text : List Char) : Bool := clearWords front (pattern.splitOn '*') text

section Words

variable {word next text rest : List Char} {x c : Char}

/-- One word after the other. -/
theorem fitsPrefix_append : fitsPrefix (word ++ next) text =
    (fitsPrefix word text && fitsPrefix next (text.drop word.length)) := by
  induction word generalizing text with
  | nil => simp [fitsPrefix]
  | cons x word ih =>
    cases text with
    | nil => simp [fitsPrefix]
    | cons c text => simp [fitsPrefix, ih, Bool.and_assoc]

theorem length_le_of_fitsPrefix (h : fitsPrefix word text = true) : word.length ≤ text.length := by
  induction word generalizing text with
  | nil => exact Nat.zero_le _
  | cons x word ih =>
    cases text with
    | nil => cases h
    | cons c text =>
      rw [fitsPrefix, Bool.and_eq_true] at h
      exact Nat.succ_le_succ (ih h.2)

/-- One more character fits. -/
theorem fitsPrefix_concat {n : ℕ} (h : fitsPrefix word (text.drop n) = true)
    (hc : text[n + word.length]? = some c) (hfits : fits x c = true) :
    fitsPrefix (word ++ [x]) (text.drop n) = true := by
  rw [fitsPrefix_append, h, List.drop_drop, drop_of_getElem? hc, fitsPrefix, hfits]
  rfl

/-- The next character of the word does not fit. -/
theorem not_fitsPrefix {n : ℕ} (hc : text[n + word.length]? = some c) (hmiss : fits x c = false) :
    fitsPrefix (word ++ x :: next) (text.drop n) = false := by
  rw [fitsPrefix_append, List.drop_drop, drop_of_getElem? hc, fitsPrefix, hmiss]
  exact Bool.and_false _

theorem front_of_fits (h : fitsPrefix word text = true) :
    front word text = some (text.drop word.length) := if_pos h

theorem behind_of_fits (h : fitsPrefix word text = true) :
    behind word text = some (text.drop word.length) := by
  cases text with
  | nil => exact front_of_fits h
  | cons c text => exact if_pos h

/-- A word that does not fit here is looked for one character further on. -/
theorem behind_drop_of_not_fits {n : ℕ} (hn : n < text.length)
    (h : fitsPrefix word (text.drop n) = false) :
    behind word (text.drop n) = behind word (text.drop (n + 1)) := by
  rw [List.drop_eq_getElem_cons hn] at h ⊢
  rw [behind, h]
  rfl

theorem length_le_of_front (h : front word text = some rest) : word.length ≤ text.length := by
  unfold front at h
  split at h
  · next hfits => exact length_le_of_fitsPrefix hfits
  · cases h

theorem length_le_of_behind (h : behind word text = some rest) : word.length ≤ text.length := by
  induction text with
  | nil => exact length_le_of_front h
  | cons c text ih =>
    rw [behind] at h
    split at h
    · next hfits => exact length_le_of_fitsPrefix hfits
    · exact (ih h).trans (Nat.le_succ _)

/-- At the end of the text there is nothing to face. -/
theorem clearWords_nil (words : List (List Char)) : clearWords behind words [] = true := by
  induction words with
  | nil => rfl
  | cons word words ih =>
    cases words with
    | nil => rfl
    | cons next words =>
      rw [clearWords, behind, front]
      split
      · simp [ih]
      · rfl

/-! ### The words of a pattern -/

theorem splitOn_eq_singleton (h : '*' ∉ word) : word.splitOn '*' = [word] := by
  refine List.splitOnP_eq_singleton fun x hx => ?_
  exact beq_eq_false_iff_ne.mpr fun heq => h (heq ▸ hx)

theorem splitOn_star (h : '*' ∉ word) (rest : List Char) :
    (word ++ '*' :: rest).splitOn '*' = word :: rest.splitOn '*' := by
  refine List.splitOnP_append_cons_of_forall_mem (fun x hx => ?_) '*' rfl rest
  exact beq_eq_false_iff_ne.mpr fun heq => h (heq ▸ hx)

/-- The first word of a pattern begins with the characters in front of the first star. -/
theorem exists_splitOn (h : '*' ∉ word) (rest : List Char) :
    ∃ more words, (word ++ rest).splitOn '*' = (word ++ more) :: words := by
  induction word with
  | nil => exact List.exists_cons_of_ne_nil (List.splitOnP_ne_nil _ rest)
  | cons x word ih =>
    rw [List.mem_cons, not_or] at h
    obtain ⟨more, words, heq⟩ := ih h.2
    have hx : (x == '*') = false := beq_eq_false_iff_ne.mpr (Ne.symm h.1)
    refine ⟨more, words, ?_⟩
    rw [List.splitOn] at heq ⊢
    rw [List.cons_append, List.splitOnP_cons_eq_if_modifyHead, hx, heq]
    rfl

/-- The first word in front of a star is clear, and so are the others behind its place. -/
theorem clearWords_star {place : List Char → List Char → Option (List Char)} (h : '*' ∉ word)
    (pattern : List Char) (hplace : place word text = some rest) :
    clearWords place ((word ++ '*' :: pattern).splitOn '*') text = true ↔
      rest.head? ≠ some '*' ∧ clearWords behind (pattern.splitOn '*') rest = true := by
  obtain ⟨next, words, hwords⟩ :=
    List.exists_cons_of_ne_nil (List.splitOnP_ne_nil (· == '*') pattern)
  rw [← List.splitOn] at hwords
  rw [splitOn_star h, hwords, clearWords, hplace]
  simp

end Words

/-! ### The states of the loop -/

section States

variable {pattern text : List Char} {s s' : MatchState} {c : Char}

/-- Where the word behind the last star is looked for. -/
def MatchState.place (s : MatchState) : List Char → List Char → Option (List Char) :=
  s.startIndex.elim front fun _ => behind

/-- What is left of the pattern and the text at the last star is clear. -/
def ClearFrom (pattern text : List Char) (s : MatchState) : Prop :=
  clearWords s.place ((pattern.drop (s.startIndex.elim 0 (· + 1))).splitOn '*')
    (text.drop s.found) = true

/-- What was taken since the last star has no star, and fits. -/
structure Fitting (pattern text : List Char) (s : MatchState) : Prop where
  noStar : '*' ∉ taken pattern s
  fits : fitsPrefix (taken pattern s) (text.drop s.found) = true
  i_eq : s.i = s.found + (taken pattern s).length

theorem fitting_start : Fitting pattern text .start := by
  constructor <;> simp [taken, MatchState.start, fitsPrefix]

/-- The pattern behind the last star. -/
theorem drop_eq_taken_append (h : Aligned pattern text s) :
    pattern.drop (s.startIndex.elim 0 (· + 1)) = taken pattern s ++ pattern.drop s.j := by
  cases hstart : s.startIndex with
  | none => simp [taken, hstart]
  | some start => exact drop_start_eq h hstart

/-- A place where the word fits is found. -/
theorem place_of_fits {word rest : List Char} (h : fitsPrefix word rest = true) :
    s.place word rest = some (rest.drop word.length) := by
  unfold MatchState.place
  cases s.startIndex with
  | none => exact front_of_fits h
  | some start => exact behind_of_fits h

theorem length_le_of_place {word rest rest' : List Char} (h : s.place word rest = some rest') :
    word.length ≤ rest.length := by
  unfold MatchState.place at h
  cases hstart : s.startIndex with
  | none =>
    rw [hstart] at h
    exact length_le_of_front h
  | some start =>
    rw [hstart] at h
    exact length_le_of_behind h

/-- The characters that are left of the text. -/
theorem drop_taken (h : Fitting pattern text s) :
    (text.drop s.found).drop (taken pattern s).length = text.drop s.i := by
  rw [List.drop_drop, h.i_eq]

theorem head?_drop {n : ℕ} : (text.drop n).head? = text[n]? := List.head?_drop

/-- **At a star**: it faces no star of the text, and the rest is clear. -/
theorem clearFrom_star (h : Aligned pattern text s) (hfit : Fitting pattern text s)
    (hx : pattern[s.j]? = some '*') : ClearFrom pattern text s ↔
      text[s.i]? ≠ some '*' ∧ ClearFrom pattern text ⟨s.i, s.j + 1, some s.j, s.i⟩ := by
  have hplace := place_of_fits (s := s) hfit.fits
  rw [drop_taken hfit] at hplace
  unfold ClearFrom
  rw [drop_eq_taken_append h, drop_of_getElem? hx, clearWords_star hfit.noStar _ hplace,
    head?_drop]
  exact Iff.rfl

/-- At the end of the pattern, what was taken is the last word. -/
theorem lastWord_eq (h : Aligned pattern text s) (hfit : Fitting pattern text s)
    (hx : pattern[s.j]? = none) :
    (pattern.drop (s.startIndex.elim 0 (· + 1))).splitOn '*' = [taken pattern s] := by
  rw [drop_eq_taken_append h, List.drop_eq_nil_of_le (List.getElem?_eq_none_iff.mp hx),
    List.append_nil, splitOn_eq_singleton hfit.noStar]

/-- What was taken goes on to a word with the next character of the pattern, unless that is a
star. -/
theorem exists_firstWord (h : Aligned pattern text s) (hfit : Fitting pattern text s) {x : Char}
    (hx : pattern[s.j]? = some x) (hstar : x ≠ '*') :
    ∃ more words, (pattern.drop (s.startIndex.elim 0 (· + 1))).splitOn '*' =
      (taken pattern s ++ x :: more) :: words := by
  have htaken : '*' ∉ taken pattern s ++ [x] := by
    rw [List.mem_append, List.mem_singleton, not_or]
    exact ⟨hfit.noStar, hstar.symm⟩
  obtain ⟨more, words, hwords⟩ := exists_splitOn htaken (pattern.drop (s.j + 1))
  refine ⟨more, words, ?_⟩
  rw [drop_eq_taken_append h, drop_of_getElem? hx, List.append_cons, hwords, List.append_assoc]
  rfl

/-- A word does not fit where its next character does not. -/
theorem not_fitsPrefix_taken (hfit : Fitting pattern text s) {x : Char} (hc : text[s.i]? = some c)
    (hmiss : fits x c = false) (more : List Char) :
    fitsPrefix (taken pattern s ++ x :: more) (text.drop s.found) = false := by
  rw [hfit.i_eq] at hc
  exact not_fitsPrefix hc hmiss

/-- **When the next character does not fit**, the word behind the last star is looked for further
on. -/
theorem clearFrom_back (h : Aligned pattern text s) (hfit : Fitting pattern text s)
    (hc : text[s.i]? = some c)
    (hmiss : ∀ x, pattern[s.j]? = some x → fits x c = false ∧ x ≠ '*') {start : ℕ}
    (hstart : s.startIndex = some start) : ClearFrom pattern text s ↔
      ClearFrom pattern text ⟨s.found + 1, start + 1, some start, s.found + 1⟩ := by
  have hfound : s.found < text.length := h.found_le.trans_lt (lt_of_getElem? hc)
  have hbehind : s.place = behind := by
    rw [MatchState.place, hstart]
    rfl
  have hwords {words : List (List Char)}
      (heq : (pattern.drop (s.startIndex.elim 0 (· + 1))).splitOn '*' = words) :
      (pattern.drop (start + 1)).splitOn '*' = words := by
    rwa [hstart] at heq
  unfold ClearFrom
  show _ ↔ clearWords behind ((pattern.drop (start + 1)).splitOn '*') _ = true
  rw [hbehind]
  cases hx : pattern[s.j]? with
  | none =>
    -- the last word stands in front of no star
    rw [lastWord_eq h hfit hx, hwords (lastWord_eq h hfit hx)]
    exact Iff.rfl
  | some x =>
    obtain ⟨hfits, hstar⟩ := hmiss x hx
    obtain ⟨more, words, heq⟩ := exists_firstWord h hfit hx hstar
    rw [heq, hwords heq]
    cases words with
    | nil => exact Iff.rfl
    | cons next words =>
      rw [clearWords, clearWords,
        behind_drop_of_not_fits hfound (not_fitsPrefix_taken hfit hc hfits more)]

/-- **When nothing fits**, the first word does not stand at the beginning of the text. -/
theorem clearFrom_of_stuck (h : Aligned pattern text s) (hfit : Fitting pattern text s)
    (hc : text[s.i]? = some c) (hstep : s.step pattern c = none) : ClearFrom pattern text s := by
  obtain ⟨hmiss, hnone⟩ := of_step_none hstep
  have hfront : s.place = front := by
    rw [MatchState.place, hnone]
    rfl
  unfold ClearFrom
  rw [hfront]
  cases hx : pattern[s.j]? with
  | none =>
    rw [lastWord_eq h hfit hx]
    rfl
  | some x =>
    obtain ⟨hfits, hstar⟩ := hmiss x hx
    obtain ⟨more, words, heq⟩ := exists_firstWord h hfit hx hstar
    rw [heq]
    cases words with
    | nil => rfl
    | cons next words =>
      rw [clearWords, front, not_fitsPrefix_taken hfit hc hfits more]
      rfl

/-- **At the end of the text** there is nothing to face. -/
theorem clearFrom_of_end (h : Aligned pattern text s) (hfit : Fitting pattern text s)
    (hc : text[s.i]? = none) : ClearFrom pattern text s := by
  have hi := List.getElem?_eq_none_iff.mp hc
  cases hx : pattern[s.j]? with
  | none =>
    unfold ClearFrom
    rw [lastWord_eq h hfit hx]
    rfl
  | some x =>
    -- a star is behind the last word, which nothing has to follow
    by_cases hstar : x = '*'
    · subst hstar
      rw [clearFrom_star h hfit hx, hc]
      refine ⟨nofun, ?_⟩
      unfold ClearFrom
      rw [show text.drop (MatchState.mk s.i (s.j + 1) (some s.j) s.i).found = [] from
        List.drop_eq_nil_of_le hi]
      exact clearWords_nil _
    · -- the word is longer than what is left of the text
      obtain ⟨more, words, heq⟩ := exists_firstWord h hfit hx hstar
      unfold ClearFrom
      rw [heq]
      cases words with
      | nil => rfl
      | cons next words =>
        rw [clearWords]
        cases hplace : s.place (taken pattern s ++ x :: more) (text.drop s.found) with
        | none => rfl
        | some rest =>
          have hle := length_le_of_place hplace
          have hcount := hfit.i_eq
          rw [List.length_append, List.length_cons, List.length_drop] at hle
          omega

/-! ### The run of the loop -/

theorem fitting_character {x : Char} (h : Aligned pattern text s) (hfit : Fitting pattern text s)
    (hc : text[s.i]? = some c) (hx : pattern[s.j]? = some x) (hfits : fits x c = true)
    (hstar : x ≠ '*') : Fitting pattern text { s with i := s.i + 1, j := s.j + 1 } := by
  have htaken : taken pattern { s with i := s.i + 1, j := s.j + 1 } = taken pattern s ++ [x] := by
    have hle : s.startIndex.elim 0 (· + 1) ≤ (pattern.take s.j).length := by
      rw [List.length_take, min_eq_left h.j_le]
      cases hstart : s.startIndex with
      | none => exact Nat.zero_le _
      | some start => exact (h.start start hstart).2.1
    unfold taken
    rw [List.take_add_one, hx]
    exact List.drop_append_of_le_length hle
  refine ⟨?_, ?_, ?_⟩
  · rw [htaken, List.mem_append, List.mem_singleton, not_or]
    exact ⟨hfit.noStar, hstar.symm⟩
  · rw [htaken]
    exact fitsPrefix_concat hfit.fits (by rwa [← hfit.i_eq]) hfits
  · rw [htaken, List.length_append, List.length_singleton]
    show s.i + 1 = s.found + _
    rw [hfit.i_eq, Nat.add_assoc]

/-- Behind a star nothing was taken yet. -/
theorem fitting_star {i start : ℕ} : Fitting pattern text ⟨i, start + 1, some start, i⟩ := by
  have htaken : taken pattern ⟨i, start + 1, some start, i⟩ = [] := by simp [taken]
  constructor
  · rw [htaken]
    exact List.not_mem_nil
  · rw [htaken]
    rfl
  · rw [htaken]
    rfl

theorem starTaken_iff (hfit : Fitting pattern text s) : StarTaken pattern text s ↔
    pattern[s.j]? = some '*' ∧ text[s.i]? = some '*' :=
  ⟨fun h => h.resolve_left hfit.noStar, Or.inr⟩

/-- What is left is clear when no star is taken for a character from here on.  The induction
follows the loop, whose steps have a smaller and smaller rank. -/
theorem clearFrom_iff (h : Aligned pattern text s) (hfit : Fitting pattern text s) :
    ClearFrom pattern text s ↔
      ∀ s', Relation.ReflTransGen (Next pattern text) s s' → ¬StarTaken pattern text s' := by
  -- every step has a smaller rank
  induction hrank : s.rank pattern text using Nat.strong_induction_on generalizing s with
  | _ n ih =>
    subst hrank
    have hnot (hmiss : pattern[s.j]? = some '*' → text[s.i]? ≠ some '*') :
        ¬StarTaken pattern text s := by
      rw [starTaken_iff hfit]
      exact fun htaken => hmiss htaken.1 htaken.2
    cases hc : text[s.i]? with
    | none =>
      rw [forall_reached_of_stuck fun t => not_next_of_end hc]
      exact iff_of_true (clearFrom_of_end h hfit hc) (hnot fun _ => by rw [hc]; nofun)
    | some c =>
      cases hstep : s.step pattern c with
      | none =>
        have hstuck : ∀ t, ¬Next pattern text s t := by
          intro t hnext
          rw [next_iff hc, hstep] at hnext
          cases hnext
        rw [forall_reached_of_stuck hstuck]
        refine iff_of_true (clearFrom_of_stuck h hfit hc hstep) (hnot fun hx => ?_)
        exact absurd rfl ((of_step_none hstep).1 '*' hx).2
      | some t =>
        have hnext : Next pattern text s t := ⟨c, hc, hstep⟩
        have hih := fun hfit' => ih _ (rank_next h hnext) (aligned_next h hnext) hfit' rfl
        rw [forall_reached_of_next hnext]
        cases steps_of_step hstep with
        | @character x hx hfits =>
          by_cases hstar : x = '*'
          · -- the star faces a star of the text
            subst hstar
            have hface : text[s.i]? = some '*' := by rw [hc, eq_star_of_fits hfits]
            rw [clearFrom_star h hfit hx]
            exact iff_of_false (fun hclear => hclear.1 hface)
              fun hnone => hnone.1 (Or.inr ⟨hx, hface⟩)
          · have hfree := hnot fun hx' => absurd (Option.some.inj (hx.symm.trans hx')) hstar
            rw [← hih (fitting_character h hfit hc hx hfits hstar), and_iff_right hfree]
            exact Iff.rfl
        | star hx hfits =>
          have hface : text[s.i]? ≠ some '*' := by
            rw [hc]
            intro heq
            obtain rfl := Option.some.inj heq
            exact absurd hfits (by decide)
          rw [clearFrom_star h hfit hx, and_iff_right hface, ← hih fitting_star,
            and_iff_right (hnot fun _ => hface)]
        | @back start hmiss hstart =>
          have hfree := hnot fun hx => absurd rfl (hmiss '*' hx).2
          rw [clearFrom_back h hfit hc hmiss hstart, ← hih fitting_star, and_iff_right hfree]

end States

/-! ### The answer -/

/-- **A pattern is clear of the text exactly when the loop takes no star for a character.** -/
theorem clear_iff {pattern text : List Char} : clear pattern text = true ↔
    ∀ s, ReachedState pattern text s → ¬StarTaken pattern text s :=
  clearFrom_iff aligned_start fitting_start

/-- **The loop ends, and it is right when the pattern is clear of the text.**  Its positive answers
are always right. -/
theorem ratMatch_of_clear (pattern text : String) : ∃ result, ratMatch pattern text = some result ∧
    (result = true → PatternMatches pattern.toList text.toList) ∧
    (clear pattern.toList text.toList = true →
      (result = true ↔ PatternMatches pattern.toList text.toList)) := by
  obtain ⟨result, hrun, hsound, hiff⟩ := exists_ratMatch pattern text
  refine ⟨result, hrun, hsound, fun hclear => hiff.mpr fun s hs => ?_⟩
  exact not_loses (aligned_of_reached hs) (clear_iff.mp hclear s hs)

/-- The star of the pattern is taken for that of the text, and there is none to go back to. -/
theorem ratMatch_loses : ratMatch "*a" "*ba" = some false ∧
    PatternMatches "*a".toList "*ba".toList :=
  ⟨by decide, "*b".toList, "a".toList, rfl, 'a', [], rfl, rfl, rfl⟩

/-- A text with stars of its own: the words `a` and `b` are not followed by one. -/
example : clear "a*b*".toList "ax*b-*".toList = true := by decide

/-- The pattern is clear when one of the two has no star. -/
theorem clear_of_notMem {pattern text : List Char} (h : '*' ∉ pattern ∨ '*' ∉ text) :
    clear pattern text = true :=
  clear_iff.mpr fun _ hs => not_starTaken h hs

end RulesAnalyzer
