import Mathlib.Data.List.Basic
import Mathlib.Data.List.Infix

/-!
# Patterns with wildcards

A pattern is a list of symbols: one for any text, one for any character, and the
characters themselves.  What a pattern matches is defined by recursion on it.

## Main definitions

* `Symbol`, `Matches` — the symbols, and the texts a pattern matches.

## Main results

* `matches_star_iff_suffix` — a star leaves any suffix of the text to the rest.
* `matches_append` — the text of a pattern in two parts.
* `Matches.star_of_shift` — **the leftmost match is enough**: a pattern without stars that ends
  further to the right leaves less of the text to the star behind it.
-/

namespace RulesAnalyzer.Shared

/-- The symbols of a pattern. -/
inductive Symbol (α : Type)
  /-- Any text. -/
  | star
  /-- Any character. -/
  | one
  /-- A character. -/
  | char (a : α)
  deriving DecidableEq

variable {α : Type} {same : α → α → Bool}

/-- The texts a pattern matches, with a comparison of characters. -/
def Matches (same : α → α → Bool) : List (Symbol α) → List α → Prop
  | [], text => text = []
  | .star :: pattern, text => ∃ taken rest, text = taken ++ rest ∧ Matches same pattern rest
  | .one :: pattern, text => ∃ c rest, text = c :: rest ∧ Matches same pattern rest
  | .char a :: pattern, text => ∃ c rest, text = c :: rest ∧ same a c ∧ Matches same pattern rest

variable {pattern word : List (Symbol α)} {text : List α} {a c : α}

@[simp] theorem matches_nil : Matches same [] text ↔ text = [] := Iff.rfl

@[simp] theorem matches_one_nil : ¬Matches same (.one :: pattern) [] := by
  simp [Matches]

@[simp] theorem matches_char_nil : ¬Matches same (.char a :: pattern) [] := by
  simp [Matches]

@[simp] theorem matches_one_cons :
    Matches same (.one :: pattern) (c :: text) ↔ Matches same pattern text := by
  simp [Matches]

@[simp] theorem matches_char_cons : Matches same (.char a :: pattern) (c :: text) ↔
    same a c = true ∧ Matches same pattern text := by
  simp [Matches]

theorem matches_star_iff_suffix :
    Matches same (.star :: pattern) text ↔ ∃ rest, rest <:+ text ∧ Matches same pattern rest := by
  constructor
  · intro h
    obtain ⟨taken, rest, rfl, hrest⟩ := h
    exact ⟨rest, List.suffix_append taken rest, hrest⟩
  · intro h
    obtain ⟨rest, ⟨taken, rfl⟩, hrest⟩ := h
    exact ⟨taken, rest, rfl, hrest⟩

@[simp] theorem matches_star_nil :
    Matches same (.star :: pattern) [] ↔ Matches same pattern [] := by
  simp [matches_star_iff_suffix]

/-- A star takes nothing, or the next character. -/
theorem matches_star_cons : Matches same (.star :: pattern) (c :: text) ↔
    Matches same pattern (c :: text) ∨ Matches same (.star :: pattern) text := by
  simp only [matches_star_iff_suffix, List.suffix_cons_iff]
  constructor
  · intro h
    obtain ⟨rest, rfl | hsuffix, hrest⟩ := h
    · exact Or.inl hrest
    · exact Or.inr ⟨rest, hsuffix, hrest⟩
  · intro h
    rcases h with h | ⟨rest, hsuffix, hrest⟩
    · exact ⟨_, Or.inl rfl, h⟩
    · exact ⟨rest, Or.inr hsuffix, hrest⟩

/-- The text behind a star may be longer. -/
theorem Matches.star_of_suffix {rest : List α} (h : Matches same (.star :: pattern) rest)
    (hsuffix : rest <:+ text) : Matches same (.star :: pattern) text := by
  rw [matches_star_iff_suffix] at h ⊢
  obtain ⟨last, hlast, hmatch⟩ := h
  exact ⟨last, hlast.trans hsuffix, hmatch⟩

/-- A pattern without stars takes as many characters as it has symbols. -/
theorem matches_append (hword : .star ∉ word) (h : Matches same (word ++ pattern) text) :
    ∃ taken rest, text = taken ++ rest ∧ taken.length = word.length ∧
      Matches same pattern rest := by
  induction word generalizing text with
  | nil => exact ⟨[], text, rfl, rfl, h⟩
  | cons symbol word ih =>
    rw [List.mem_cons, not_or] at hword
    obtain ⟨hsymbol, hword⟩ := hword
    cases text with
    | nil => cases symbol <;> simp at h hsymbol
    | cons c text =>
      have hrest : Matches same (word ++ pattern) text := by
        cases symbol with
        | star => exact absurd rfl hsymbol
        | one => exact matches_one_cons.mp h
        | char a => exact (matches_char_cons.mp h).2
      obtain ⟨taken, rest, rfl, hlength, hmatch⟩ := ih hword hrest
      exact ⟨c :: taken, rest, rfl, congrArg (· + 1) hlength, hmatch⟩

/-- The leftmost match is enough: what a later one leaves, the star behind it takes too. -/
theorem Matches.star_of_shift {taken rest later : List α} (hword : .star ∉ word)
    (hlength : taken.length = word.length) (hlater : later <:+ taken ++ rest)
    (h : Matches same (word ++ .star :: pattern) later) : Matches same (.star :: pattern) rest := by
  obtain ⟨taken', rest', rfl, hlength', hmatch⟩ := matches_append hword h
  refine hmatch.star_of_suffix ?_
  have hsuffix : rest' <:+ taken ++ rest := (List.suffix_append taken' rest').trans hlater
  apply List.suffix_of_suffix_length_le hsuffix (List.suffix_append taken rest)
  have hle := hlater.length_le
  simp only [List.length_append] at hle
  omega

end RulesAnalyzer.Shared
