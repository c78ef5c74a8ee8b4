import RulesAnalyzer.Shared.Wildcard
import Mathlib.Logic.Relation
import Mathlib.Algebra.Order.Ring.Nat
import Mathlib.Tactic.Ring

/-!
# Matching of names with wildcards

The queries of the object store compare names with a pattern.  The loop keeps the
last star and where its text ends, and goes back there when a character does not
fit.  A character that fits is taken first, also a star of the pattern that faces a
star of the text: such a star is not kept.

## Main definitions

* `MatchState`, `MatchState.step`, `ratMatch` — the loop.
* `Open` — a match is still possible, from a state or from its last star.
* `StarTaken` — a star of the pattern is taken for a character.
* `Loses` — the loop loses a match that is possible.

## Main results

* `loop_isSome` — the loop ends.
* `not_loses` — a match is only lost where a star is taken for a character.
* `exists_ratMatch` — **the loop agrees with the patterns when it loses no match.**
* `not_starTaken` — no star is taken for a character when the pattern or the text has none.
-/

namespace RulesAnalyzer

open Shared

/-! ### The loop -/

/-- The comparison that ignores the case. -/
def sameLetter (a c : Char) : Bool := a.toLower == c.toLower

/-- The first test of the loop: the character of the pattern fits. -/
def fits (x c : Char) : Bool := x == '?' || sameLetter x c

/-- The variables of the loop. -/
structure MatchState where
  /-- The position in the text. -/
  i : ℕ
  /-- The position in the pattern. -/
  j : ℕ
  /-- The position of the last star. -/
  startIndex : Option ℕ
  /-- Where the text of the last star ends, the variable `match`. -/
  found : ℕ
  deriving DecidableEq

namespace MatchState

/-- Goes back to the last star, which takes one more character. -/
def backtrack (s : MatchState) : Option MatchState :=
  s.startIndex.map fun start => ⟨s.found + 1, start + 1, some start, s.found + 1⟩

/-- One step, with the next character of the text; `none` when the text is not matched. -/
def step (pattern : List Char) (s : MatchState) (c : Char) : Option MatchState :=
  match pattern[s.j]? with
  | some x =>
    if fits x c then some { s with i := s.i + 1, j := s.j + 1 }
    else if x = '*' then some ⟨s.i, s.j + 1, some s.j, s.i⟩
    else s.backtrack
  | none => s.backtrack

end MatchState

/-- Only stars are left of the pattern. -/
def onlyStars (pattern : List Char) : Bool := (pattern.dropWhile (· == '*')).isEmpty

/-- The loop, with a bound on the number of its steps. -/
def matchLoop (pattern text : List Char) : ℕ → MatchState → Option Bool
  | 0, _ => none
  | fuel + 1, s =>
    match text[s.i]? with
    | some c =>
      match s.step pattern c with
      | some s' => matchLoop pattern text fuel s'
      | none => some false
    | none => some (onlyStars (pattern.drop s.j))

theorem matchLoop_of_end {pattern text : List Char} {s : MatchState} (fuel : ℕ)
    (hc : text[s.i]? = none) :
    matchLoop pattern text (fuel + 1) s = some (onlyStars (pattern.drop s.j)) := by
  unfold matchLoop
  rw [hc]

theorem matchLoop_of_step {pattern text : List Char} {s : MatchState} {c : Char} (fuel : ℕ)
    (hc : text[s.i]? = some c) : matchLoop pattern text (fuel + 1) s =
      (s.step pattern c).elim (some false) (matchLoop pattern text fuel) := by
  conv_lhs => unfold matchLoop
  rw [hc]
  cases hstep : s.step pattern c <;> simp [hstep]

/-- The state at the start of the loop. -/
def MatchState.start : MatchState := ⟨0, 0, none, 0⟩

/-- `rat::match`. -/
def ratMatch (pattern text : String) : Option Bool :=
  matchLoop pattern.toList text.toList
    ((pattern.toList.length + 1) * ((text.toList.length + 1) * (text.toList.length + 1))) .start

/-! ### The steps -/

variable {pattern text : List Char} {s s' : MatchState} {c : Char}

/-- What a step can do. -/
inductive Steps (pattern : List Char) (s : MatchState) (c : Char) : MatchState → Prop
  | character {x : Char} (hx : pattern[s.j]? = some x) (hfits : fits x c = true) :
      Steps pattern s c { s with i := s.i + 1, j := s.j + 1 }
  | star (hx : pattern[s.j]? = some '*') (hfits : fits '*' c = false) :
      Steps pattern s c ⟨s.i, s.j + 1, some s.j, s.i⟩
  | back {start : ℕ} (hmiss : ∀ x, pattern[s.j]? = some x → fits x c = false ∧ x ≠ '*')
      (hstart : s.startIndex = some start) :
      Steps pattern s c ⟨s.found + 1, start + 1, some start, s.found + 1⟩

theorem steps_of_step (h : s.step pattern c = some s') : Steps pattern s c s' := by
  unfold MatchState.step at h
  split at h
  · next x hx =>
    split at h
    · next hfits =>
      obtain rfl := Option.some.inj h
      exact .character hx hfits
    split at h
    · next hfits hstar =>
      obtain rfl := Option.some.inj h
      subst hstar
      exact .star hx (by simpa using hfits)
    · next hfits hstar =>
      obtain ⟨start, hstart, rfl⟩ := Option.map_eq_some_iff.mp h
      refine .back ?_ hstart
      intro y hy
      obtain rfl := Option.some.inj (hx.symm.trans hy)
      exact ⟨by simpa using hfits, hstar⟩
  · next hx =>
    obtain ⟨start, hstart, rfl⟩ := Option.map_eq_some_iff.mp h
    refine .back ?_ hstart
    intro y hy
    rw [hx] at hy
    cases hy

theorem of_step_none (h : s.step pattern c = none) :
    (∀ x, pattern[s.j]? = some x → fits x c = false ∧ x ≠ '*') ∧ s.startIndex = none := by
  unfold MatchState.step MatchState.backtrack at h
  split at h
  · next x hx =>
    split at h
    · cases h
    split at h
    · cases h
    · next hfits hstar =>
      refine ⟨?_, by simpa using h⟩
      intro y hy
      obtain rfl := Option.some.inj (hx.symm.trans hy)
      exact ⟨by simpa using hfits, hstar⟩
  · next hx => simpa [hx] using h

/-- A step of the loop, on the character it is at. -/
def Next (pattern text : List Char) (s s' : MatchState) : Prop :=
  ∃ c, text[s.i]? = some c ∧ s.step pattern c = some s'

/-- The states the loop goes through. -/
def ReachedState (pattern text : List Char) : MatchState → Prop :=
  Relation.ReflTransGen (Next pattern text) .start

/-- The positions of a state: as many characters were taken since the last star in the pattern as
in the text. -/
structure Aligned (pattern text : List Char) (s : MatchState) : Prop where
  i_le : s.i ≤ text.length
  j_le : s.j ≤ pattern.length
  found_le : s.found ≤ s.i
  start : ∀ start, s.startIndex = some start →
    pattern[start]? = some '*' ∧ start + 1 ≤ s.j ∧ s.i + (start + 1) = s.found + s.j

theorem aligned_start : Aligned pattern text .start := by
  constructor <;> simp [MatchState.start]

theorem lt_of_getElem? {l : List Char} {n : ℕ} (h : l[n]? = some c) : n < l.length := by
  obtain ⟨hlt, -⟩ := List.getElem?_eq_some_iff.mp h
  exact hlt

/-- A step keeps the places in the pattern and the text aligned. -/
theorem aligned_next (h : Aligned pattern text s) (hnext : Next pattern text s s') :
    Aligned pattern text s' := by
  obtain ⟨c, hc, hstep⟩ := hnext
  have hi := lt_of_getElem? hc
  obtain ⟨-, hj, hfound, hstart⟩ := h
  cases steps_of_step hstep with
  | character hx _ =>
    refine ⟨hi, lt_of_getElem? hx, ?_, ?_⟩
    · show s.found ≤ s.i + 1
      omega
    · -- both places move by one, so the distance to the last star stays
      intro start heq
      obtain ⟨hstar, hle, heq⟩ := hstart start heq
      refine ⟨hstar, ?_, ?_⟩
      · show start + 1 ≤ s.j + 1
        omega
      · show s.i + 1 + (start + 1) = s.found + (s.j + 1)
        omega
  | star hx _ =>
    refine ⟨hi.le, lt_of_getElem? hx, le_rfl, ?_⟩
    intro start heq
    obtain rfl := Option.some.inj heq
    exact ⟨hx, le_rfl, rfl⟩
  | @back start _ heq =>
    obtain ⟨hstar, hle, -⟩ := hstart start heq
    refine ⟨?_, ?_, le_rfl, ?_⟩
    · show s.found + 1 ≤ text.length
      omega
    · show start + 1 ≤ pattern.length
      omega
    · intro start' heq'
      obtain rfl := Option.some.inj heq'
      exact ⟨hstar, le_rfl, rfl⟩

/-! ### The end of the loop -/

/-- How many steps are possible, counted in the stars, the texts of a star and the characters. -/
def MatchState.rank (pattern text : List Char) (s : MatchState) : ℕ :=
  (pattern.length - s.startIndex.elim 0 (· + 1)) * ((text.length + 1) * (text.length + 1)) +
    ((text.length - s.found) * (text.length + 1) + (text.length - s.i))

theorem rank_next (h : Aligned pattern text s) (hnext : Next pattern text s s') :
    s'.rank pattern text < s.rank pattern text := by
  obtain ⟨c, hc, hstep⟩ := hnext
  have hi := lt_of_getElem? hc
  obtain ⟨-, hj, hfound, hstart⟩ := h
  unfold MatchState.rank
  cases steps_of_step hstep with
  | character _ _ =>
    dsimp only
    omega
  | star hx _ =>
    -- a star more is worth more than any text and any characters
    have hstars : pattern.length - (s.j + 1) + 1 ≤
        pattern.length - s.startIndex.elim 0 (· + 1) := by
      have hlt := lt_of_getElem? hx
      cases hs : s.startIndex with
      | none =>
        simp only [Option.elim]
        omega
      | some start =>
        obtain ⟨-, hle, -⟩ := hstart start hs
        simp only [Option.elim]
        omega
    have hmul := Nat.mul_le_mul_right ((text.length + 1) * (text.length + 1)) hstars
    have htext : (text.length - s.i) * (text.length + 1) ≤ text.length * (text.length + 1) :=
      Nat.mul_le_mul_right _ (Nat.sub_le _ _)
    rw [Nat.add_mul, Nat.one_mul, Nat.add_mul text.length 1, Nat.one_mul] at hmul
    simp only [Option.elim, Nat.add_mul text.length 1, Nat.one_mul] at hmul ⊢
    omega
  | @back start _ heq =>
    have hmul : (text.length - (s.found + 1) + 1) * (text.length + 1) ≤
        (text.length - s.found) * (text.length + 1) := Nat.mul_le_mul_right _ (by omega)
    rw [Nat.add_mul, Nat.one_mul] at hmul
    simp only [heq, Option.elim]
    omega

theorem loop_isSome (h : Aligned pattern text s) {fuel : ℕ} (hfuel : s.rank pattern text < fuel) :
    (matchLoop pattern text fuel s).isSome = true := by
  induction fuel generalizing s with
  | zero => exact absurd hfuel (Nat.not_lt_zero _)
  | succ fuel ih =>
    cases hc : text[s.i]? with
    | none =>
      rw [matchLoop_of_end fuel hc]
      rfl
    | some c =>
      rw [matchLoop_of_step fuel hc]
      cases hstep : s.step pattern c with
      | none => rfl
      | some s' =>
        have hnext : Next pattern text s s' := ⟨c, hc, hstep⟩
        have hrank := rank_next h hnext
        exact ih (aligned_next h hnext) (by omega)

/-! ### Matches that are possible -/

/-- The symbol of a character of a pattern. -/
def symbol (c : Char) : Symbol Char := if c = '*' then .star else if c = '?' then .one else .char c

/-- The text is matched by the pattern. -/
def PatternMatches (pattern text : List Char) : Prop :=
  Matches sameLetter (pattern.map symbol) text

theorem patternMatches_star {rest : List Char} :
    PatternMatches ('*' :: rest) text ↔ Matches sameLetter (.star :: rest.map symbol) text :=
  Iff.rfl

/-- A character of the pattern that is no star takes one that fits. -/
theorem patternMatches_cons {x : Char} {rest : List Char} (hx : x ≠ '*') :
    PatternMatches (x :: rest) (c :: text) ↔ fits x c = true ∧ PatternMatches rest text := by
  unfold PatternMatches fits
  rw [List.map_cons, symbol, if_neg hx]
  by_cases hone : x = '?'
  · simp [hone]
  · simp [hone]

theorem not_patternMatches_nil {x : Char} {rest : List Char} (hx : x ≠ '*') :
    ¬PatternMatches (x :: rest) [] := by
  unfold PatternMatches
  rw [List.map_cons, symbol, if_neg hx]
  split <;> simp

/-- A character that fits can be taken, also by a star. -/
theorem patternMatches_of_fits {x : Char} {rest : List Char} (hfits : fits x c = true)
    (h : PatternMatches rest text) : PatternMatches (x :: rest) (c :: text) := by
  by_cases hx : x = '*'
  · subst hx
    rw [patternMatches_star, matches_star_cons, matches_star_iff_suffix]
    exact Or.inr ⟨text, List.suffix_rfl, h⟩
  · exact (patternMatches_cons hx).mpr ⟨hfits, h⟩

theorem patternMatches_nil_iff : PatternMatches pattern [] ↔ onlyStars pattern = true := by
  unfold onlyStars
  induction pattern with
  | nil => simp [PatternMatches]
  | cons x rest ih =>
    by_cases hx : x = '*'
    · subst hx
      rw [patternMatches_star, matches_star_nil]
      exact ih
    · simp [not_patternMatches_nil hx, hx]

/-- A match is still possible: what is left matches, or the last star takes more. -/
def Open (pattern text : List Char) (s : MatchState) : Prop :=
  PatternMatches (pattern.drop s.j) (text.drop s.i) ∨
    ∃ start, s.startIndex = some start ∧
      PatternMatches (pattern.drop start) (text.drop (s.found + 1))

theorem open_start : Open pattern text .start ↔ PatternMatches pattern text := by
  simp [Open, MatchState.start]

theorem drop_of_getElem? {l : List Char} {n : ℕ} (h : l[n]? = some c) :
    l.drop n = c :: l.drop (n + 1) := by
  obtain ⟨hlt, hget⟩ := List.getElem?_eq_some_iff.mp h
  rw [List.drop_eq_getElem_cons hlt, hget]

/-- A match that is possible after a step is possible before it.  What the step has taken is put
back in front of what is left. -/
theorem open_of_next (h : Aligned pattern text s) (hnext : Next pattern text s s')
    (hopen : Open pattern text s') : Open pattern text s := by
  obtain ⟨c, hc, hstep⟩ := hnext
  cases steps_of_step hstep with
  | character hx hfits =>
    rcases hopen with hrest | hback
    · left
      rw [drop_of_getElem? hx, drop_of_getElem? hc]
      exact patternMatches_of_fits hfits hrest
    · exact Or.inr hback
  | star hx _ =>
    left
    rw [drop_of_getElem? hx, patternMatches_star]
    rcases hopen with hrest | ⟨start, heq, hback⟩
    · -- the star takes nothing, or one character more than the step before
      exact matches_star_iff_suffix.mpr ⟨_, List.suffix_rfl, hrest⟩
    · obtain rfl := Option.some.inj heq
      rw [drop_of_getElem? hx] at hback
      exact Matches.star_of_suffix hback (List.drop_suffix_drop_left _ (Nat.le_succ _))
  | @back start _ heq =>
    right
    obtain ⟨hstar, -⟩ := h.start start heq
    refine ⟨start, heq, ?_⟩
    rw [drop_of_getElem? hstar, patternMatches_star]
    rcases hopen with hrest | ⟨start', heq', hback⟩
    · exact matches_star_iff_suffix.mpr ⟨_, List.suffix_rfl, hrest⟩
    · obtain rfl := Option.some.inj heq'
      rw [drop_of_getElem? hstar] at hback
      exact Matches.star_of_suffix hback (List.drop_suffix_drop_left _ (Nat.le_succ _))

/-! ### Where a match is lost -/

/-- The part of the pattern that was taken since the last star. -/
def taken (pattern : List Char) (s : MatchState) : List Char :=
  (pattern.take s.j).drop (s.startIndex.elim 0 (· + 1))

/-- A star of the pattern was taken for a character since the last star that is kept, or it faces
a star of the text now. -/
def StarTaken (pattern text : List Char) (s : MatchState) : Prop :=
  '*' ∈ taken pattern s ∨ (pattern[s.j]? = some '*' ∧ text[s.i]? = some '*')

/-- The loop loses a match: it is possible, but after the step it is not, or the loop ends with
another answer. -/
def Loses (pattern text : List Char) (s : MatchState) : Prop :=
  Open pattern text s ∧
    match text[s.i]? with
    | some c => ∀ s', s.step pattern c = some s' → ¬Open pattern text s'
    | none => onlyStars (pattern.drop s.j) = false

theorem drop_start_eq (h : Aligned pattern text s) {start : ℕ}
    (hstart : s.startIndex = some start) :
    pattern.drop (start + 1) = taken pattern s ++ pattern.drop s.j := by
  obtain ⟨-, hle, -⟩ := h.start start hstart
  have hj := h.j_le
  unfold taken
  rw [hstart]
  show _ = (pattern.take s.j).drop (start + 1) ++ _
  rw [← List.drop_append_of_le_length, List.take_append_drop]
  rw [List.length_take]
  omega

theorem eq_star_of_fits (h : fits '*' c = true) : c = '*' := by
  have hlower : '*' = c.toLower := by
    unfold fits sameLetter at h
    simpa using h
  unfold Char.toLower at hlower
  split at hlower
  · next hupper =>
    -- the lower case of a letter is a letter
    have hval := congrArg (fun c : Char => c.val.toNat) hlower
    have hlow : 65 ≤ c.val.toNat := hupper.1
    have hhigh : c.val.toNat ≤ 90 := hupper.2
    have hstar : '*'.val.toNat = 42 := rfl
    have hshift : ('a'.val - 'A'.val).toNat = 32 := rfl
    simp only [UInt32.toNat_add] at hval
    omega
  · exact hlower.symm

theorem star_notMem_map_symbol (h : '*' ∉ pattern) : Symbol.star ∉ pattern.map symbol := by
  intro hmem
  obtain ⟨x, hx, hsymbol⟩ := List.mem_map.mp hmem
  unfold symbol at hsymbol
  split at hsymbol
  · next hstar => exact h (hstar ▸ hx)
  · split at hsymbol <;> cases hsymbol

/-- The star takes nothing more, or one more character. -/
theorem patternMatches_star_drop {rest : List Char} {n : ℕ}
    (h : PatternMatches ('*' :: rest) (text.drop n)) : PatternMatches rest (text.drop n) ∨
      PatternMatches ('*' :: rest) (text.drop (n + 1)) := by
  cases hn : text[n]? with
  | none =>
    rw [List.getElem?_eq_none_iff] at hn
    rw [List.drop_eq_nil_of_le hn, patternMatches_star, matches_star_nil] at h
    rw [List.drop_eq_nil_of_le hn]
    exact Or.inl h
  | some d =>
    rw [drop_of_getElem? hn, patternMatches_star, matches_star_cons] at h
    rw [drop_of_getElem? hn]
    exact h

/-- What the last star can still take, with the part of the pattern behind it. -/
theorem exists_of_back (h : Aligned pattern text s) {start : ℕ} (hstart : s.startIndex = some start)
    (hback : PatternMatches (pattern.drop start) (text.drop (s.found + 1))) :
    ∃ later, later <:+ text.drop (s.found + 1) ∧
      Matches sameLetter ((taken pattern s).map symbol ++ (pattern.drop s.j).map symbol) later := by
  obtain ⟨hstar, -⟩ := h.start start hstart
  rw [drop_of_getElem? hstar, drop_start_eq h hstart, patternMatches_star, List.map_append,
    matches_star_iff_suffix] at hback
  exact hback

theorem length_taken (h : Aligned pattern text s) {start : ℕ} (hstart : s.startIndex = some start) :
    (taken pattern s).length + s.found = s.i := by
  obtain ⟨-, hle, heq⟩ := h.start start hstart
  have hj := h.j_le
  unfold taken
  rw [hstart, List.length_drop, List.length_take]
  show min s.j pattern.length - (start + 1) + s.found = s.i
  omega

theorem not_patternMatches_of_miss (hc : text[s.i]? = some c)
    (hmiss : ∀ x, pattern[s.j]? = some x → fits x c = false ∧ x ≠ '*') :
    ¬PatternMatches (pattern.drop s.j) (text.drop s.i) := by
  rw [drop_of_getElem? hc]
  intro h
  cases hx : pattern[s.j]? with
  | none =>
    rw [List.drop_eq_nil_of_le (List.getElem?_eq_none_iff.mp hx)] at h
    cases h
  | some x =>
    obtain ⟨hfits, hstar⟩ := hmiss x hx
    rw [drop_of_getElem? hx, patternMatches_cons hstar, hfits] at h
    cases h.1

/-- At the end of the text, only stars are left of the pattern. -/
theorem onlyStars_of_open (h : Aligned pattern text s) (htaken : '*' ∉ taken pattern s)
    (hi : text[s.i]? = none) (hopen : Open pattern text s) :
    onlyStars (pattern.drop s.j) = true := by
  have hi := List.getElem?_eq_none_iff.mp hi
  apply patternMatches_nil_iff.mp
  rcases hopen with hrest | ⟨start, hstart, hback⟩
  · rwa [List.drop_eq_nil_of_le hi] at hrest
  · -- the last star cannot take more: the part behind it needs all that is left
    obtain ⟨later, hlater, hmatch⟩ := exists_of_back h hstart hback
    obtain ⟨first, rest, rfl, hlength, hmatch⟩ :=
      matches_append (star_notMem_map_symbol htaken) hmatch
    have hle := hlater.length_le
    have hcount := length_taken h hstart
    have hi' := h.i_le
    rw [List.length_append, List.length_drop, hlength, List.length_map] at hle
    obtain rfl : rest = [] := List.eq_nil_of_length_eq_zero (by omega)
    exact hmatch

/-- What the star before can still take, the next star can take. -/
theorem patternMatches_of_open (h : Aligned pattern text s) (htaken : '*' ∉ taken pattern s)
    (hx : pattern[s.j]? = some '*') (hopen : Open pattern text s) :
    PatternMatches ('*' :: pattern.drop (s.j + 1)) (text.drop s.i) := by
  rw [← drop_of_getElem? hx]
  rcases hopen with hrest | ⟨start, hstart, hback⟩
  · exact hrest
  · obtain ⟨later, hlater, hmatch⟩ := exists_of_back h hstart hback
    rw [drop_of_getElem? hx] at hmatch ⊢
    have hcount := length_taken h hstart
    have htext : text.drop s.found =
        (text.drop s.found).take (taken pattern s).length ++ text.drop s.i := by
      rw [← hcount, Nat.add_comm, ← List.drop_drop, List.take_append_drop]
    have hsuffix := hlater.trans (List.drop_suffix_drop_left text (Nat.le_succ s.found))
    rw [htext] at hsuffix
    refine hmatch.star_of_shift (star_notMem_map_symbol htaken) ?_ hsuffix
    have hi := h.i_le
    rw [List.length_take, List.length_drop, List.length_map]
    omega

/-- A step that takes no star for a character keeps a match possible.  A miss goes back to the
last star, which is the only one that has to be tried again. -/
theorem open_next (h : Aligned pattern text s) (htaken : ¬StarTaken pattern text s)
    (hnext : Next pattern text s s') (hopen : Open pattern text s) : Open pattern text s' := by
  obtain ⟨hbefore, hnow⟩ := not_or.mp htaken
  obtain ⟨c, hc, hstep⟩ := hnext
  cases steps_of_step hstep with
  | @character x hx hfits =>
    -- a star that faces a star would be taken for a character
    have hstar : x ≠ '*' := by
      intro heq
      subst heq
      exact hnow ⟨hx, by rw [hc, eq_star_of_fits hfits]⟩
    rcases hopen with hrest | hback
    · left
      rw [drop_of_getElem? hx, drop_of_getElem? hc, patternMatches_cons hstar] at hrest
      exact hrest.2
    · exact Or.inr hback
  | star hx hfits =>
    rcases patternMatches_star_drop (patternMatches_of_open h hbefore hx hopen) with hrest | hmore
    · exact Or.inl hrest
    · refine Or.inr ⟨s.j, rfl, ?_⟩
      rw [drop_of_getElem? hx]
      exact hmore
  -- the next try takes one more character behind the last star
  | @back start hmiss hstart =>
    obtain ⟨hstar, -⟩ := h.start start hstart
    rcases hopen with hrest | ⟨start', hstart', hback⟩
    · exact absurd hrest (not_patternMatches_of_miss hc hmiss)
    · obtain rfl := Option.some.inj (hstart.symm.trans hstart')
      rw [drop_of_getElem? hstar] at hback
      rcases patternMatches_star_drop hback with hrest | hmore
      · exact Or.inl hrest
      · refine Or.inr ⟨start, rfl, ?_⟩
        rw [drop_of_getElem? hstar]
        exact hmore

/-- Where no star is left to go back to and the character does not fit, nothing is possible. -/
theorem not_open_of_step_none (hc : text[s.i]? = some c) (hstep : s.step pattern c = none) :
    ¬Open pattern text s := by
  obtain ⟨hmiss, hnone⟩ := of_step_none hstep
  intro hopen
  rcases hopen with hrest | ⟨start, hstart, -⟩
  · exact not_patternMatches_of_miss hc hmiss hrest
  · rw [hnone] at hstart
    cases hstart

/-- **A match is only lost where a star is taken for a character.** -/
theorem not_loses (h : Aligned pattern text s) (htaken : ¬StarTaken pattern text s) :
    ¬Loses pattern text s := by
  intro hloses
  obtain ⟨hopen, hloses⟩ := hloses
  cases hc : text[s.i]? with
  | none =>
    rw [hc, onlyStars_of_open h (not_or.mp htaken).1 hc hopen] at hloses
    cases hloses
  | some c =>
    rw [hc] at hloses
    cases hstep : s.step pattern c with
    | none => exact not_open_of_step_none hc hstep hopen
    | some s' => exact hloses s' hstep (open_next h htaken ⟨c, hc, hstep⟩ hopen)

/-! ### The answer -/

theorem loses_of_none (hc : text[s.i]? = none) : Loses pattern text s ↔
    Open pattern text s ∧ onlyStars (pattern.drop s.j) = false := by
  unfold Loses
  rw [hc]

theorem loses_of_some (hc : text[s.i]? = some c) : Loses pattern text s ↔
    Open pattern text s ∧ ∀ s', s.step pattern c = some s' → ¬Open pattern text s' := by
  unfold Loses
  rw [hc]

theorem loses_of_next (hnext : Next pattern text s s') : Loses pattern text s ↔
    Open pattern text s ∧ ¬Open pattern text s' := by
  obtain ⟨c, hc, hstep⟩ := hnext
  rw [loses_of_some hc]
  simp [hstep]

theorem next_iff (hc : text[s.i]? = some c) :
    Next pattern text s s' ↔ s.step pattern c = some s' := by
  unfold Next
  simp [hc]

theorem not_next_of_end (hc : text[s.i]? = none) : ¬Next pattern text s s' := by
  unfold Next
  simp [hc]

/-- The loop has one way on. -/
theorem eq_of_next {t : MatchState} (h : Next pattern text s s') (h' : Next pattern text s t) :
    t = s' := by
  obtain ⟨c, hc, hstep⟩ := h
  rw [next_iff hc] at h'
  exact Option.some.inj (h'.symm.trans hstep)

/-- A property of the states from here on: of this one, and of those from the next one on. -/
theorem forall_reached_iff {P : MatchState → Prop} :
    (∀ s', Relation.ReflTransGen (Next pattern text) s s' → P s') ↔
      P s ∧ ∀ t, Next pattern text s t →
        ∀ s', Relation.ReflTransGen (Next pattern text) t s' → P s' := by
  constructor
  · intro h
    exact ⟨h s .refl, fun t ht s' hs' => h s' (.head ht hs')⟩
  · intro h s' hs'
    obtain ⟨hself, hnext⟩ := h
    rcases Relation.ReflTransGen.cases_head hs' with rfl | ⟨t, ht, hs'⟩
    · exact hself
    · exact hnext t ht s' hs'

theorem forall_reached_of_stuck {P : MatchState → Prop} (hstuck : ∀ t, ¬Next pattern text s t) :
    (∀ s', Relation.ReflTransGen (Next pattern text) s s' → P s') ↔ P s := by
  rw [forall_reached_iff]
  simp [hstuck]

theorem forall_reached_of_next {P : MatchState → Prop} {t : MatchState}
    (hnext : Next pattern text s t) :
    (∀ s', Relation.ReflTransGen (Next pattern text) s s' → P s') ↔
      P s ∧ ∀ s', Relation.ReflTransGen (Next pattern text) t s' → P s' := by
  rw [forall_reached_iff]
  constructor
  · intro h
    exact ⟨h.1, h.2 t hnext⟩
  · intro h
    refine ⟨h.1, fun t' hnext' => ?_⟩
    obtain rfl := eq_of_next hnext hnext'
    exact h.2

/-- Where only stars are left of the pattern at the end of the text, they match. -/
theorem open_of_onlyStars (hc : text[s.i]? = none)
    (hstars : onlyStars (pattern.drop s.j) = true) : Open pattern text s := by
  left
  rw [List.drop_eq_nil_of_le (List.getElem?_eq_none_iff.mp hc)]
  exact patternMatches_nil_iff.mpr hstars

/-- From a state on, a positive answer is right, and the answer is right when no match is lost.
The answer is that of the next state, so it is right here when the step loses no match. -/
theorem matchLoop_iff (h : Aligned pattern text s) {fuel : ℕ} {result : Bool}
    (hrun : matchLoop pattern text fuel s = some result) :
    (result = true → Open pattern text s) ∧
      ((result = true ↔ Open pattern text s) ↔
        ∀ s', Relation.ReflTransGen (Next pattern text) s s' → ¬Loses pattern text s') := by
  induction fuel generalizing s with
  | zero => cases hrun
  | succ fuel ih =>
    cases hc : text[s.i]? with
    | none =>
      rw [matchLoop_of_end fuel hc] at hrun
      obtain rfl := Option.some.inj hrun
      refine ⟨open_of_onlyStars hc, ?_⟩
      rw [forall_reached_of_stuck fun t => not_next_of_end hc, loses_of_none hc]
      cases hstars : onlyStars (pattern.drop s.j) with
      | true => simp [open_of_onlyStars hc hstars]
      | false => simp
    | some c =>
      rw [matchLoop_of_step fuel hc] at hrun
      cases hstep : s.step pattern c with
      | none =>
        rw [hstep] at hrun
        obtain rfl := Option.some.inj hrun
        have hstuck : ∀ t, ¬Next pattern text s t := by
          intro t hnext
          rw [next_iff hc, hstep] at hnext
          cases hnext
        rw [forall_reached_of_stuck hstuck, loses_of_some hc]
        simp [not_open_of_step_none hc hstep]
      | some t =>
        rw [hstep] at hrun
        have hnext : Next pattern text s t := ⟨c, hc, hstep⟩
        have hback := open_of_next h hnext
        obtain ⟨hsound, hiff⟩ := ih (aligned_next h hnext) hrun
        refine ⟨fun hresult => hback (hsound hresult), ?_⟩
        rw [forall_reached_of_next hnext, loses_of_next hnext, ← hiff]
        -- the answer is that of the next state, so it is right here when this step loses nothing
        constructor
        · intro hright
          refine ⟨fun hloses => ?_, hsound, fun hopen => hright.mpr (hback hopen)⟩
          exact hloses.2 (hsound (hright.mpr hloses.1))
        · intro hnone
          obtain ⟨hkept, hright⟩ := hnone
          refine ⟨fun hresult => hback (hsound hresult), fun hopen => hright.mpr ?_⟩
          by_contra hlost
          exact hkept ⟨hopen, hlost⟩

theorem rank_start : MatchState.start.rank pattern text <
    (pattern.length + 1) * ((text.length + 1) * (text.length + 1)) := by
  unfold MatchState.rank MatchState.start
  simp only [Option.elim, Nat.sub_zero, Nat.add_mul pattern.length 1, Nat.one_mul,
    Nat.add_mul text.length 1 (text.length + 1)]
  omega

theorem aligned_of_reached (hs : ReachedState pattern text s) : Aligned pattern text s := by
  induction hs with
  | refl => exact aligned_start
  | tail _ hnext ih => exact aligned_next ih hnext

/-- The loop ends.  Its positive answers are right, and all of them are when no match is lost. -/
theorem exists_ratMatch (pattern text : String) : ∃ result, ratMatch pattern text = some result ∧
    (result = true → PatternMatches pattern.toList text.toList) ∧
    ((result = true ↔ PatternMatches pattern.toList text.toList) ↔
      ∀ s, ReachedState pattern.toList text.toList s → ¬Loses pattern.toList text.toList s) := by
  obtain ⟨result, hrun⟩ := Option.isSome_iff_exists.mp (loop_isSome aligned_start rank_start)
  refine ⟨result, hrun, ?_⟩
  rw [← open_start]
  exact matchLoop_iff aligned_start hrun

/-! ### Texts and patterns without stars -/

theorem notMem_taken_next (hnext : Next pattern text s s') (htext : '*' ∉ text)
    (htaken : '*' ∉ taken pattern s) : '*' ∉ taken pattern s' := by
  obtain ⟨c, hc, hstep⟩ := hnext
  unfold taken at htaken ⊢
  cases steps_of_step hstep with
  | @character x hx hfits =>
    have hstar : '*' ≠ x := by
      intro heq
      subst heq
      exact htext (eq_star_of_fits hfits ▸ List.mem_of_getElem? hc)
    rw [List.take_add_one, hx, List.drop_append]
    intro hmem
    rcases List.mem_append.mp hmem with hmem | hmem
    · exact htaken hmem
    · exact hstar (List.mem_singleton.mp (List.mem_of_mem_drop hmem))
  | star hx hfits => simp
  | back hmiss hstart => simp

/-- No star is taken for a character when one of the two has none. -/
theorem not_starTaken (h : '*' ∉ pattern ∨ '*' ∉ text) (hs : ReachedState pattern text s) :
    ¬StarTaken pattern text s := by
  rcases h with hpattern | htext
  · rintro (hmem | hface)
    · exact hpattern (List.mem_of_mem_take (List.mem_of_mem_drop hmem))
    · exact hpattern (List.mem_of_getElem? hface.1)
  · have htaken : '*' ∉ taken pattern s := by
      induction hs with
      | refl => simp [taken, MatchState.start]
      | tail _ hnext ih => exact notMem_taken_next hnext htext ih
    rintro (hmem | hface)
    · exact htaken hmem
    · exact htext (List.mem_of_getElem? hface.2)

end RulesAnalyzer
