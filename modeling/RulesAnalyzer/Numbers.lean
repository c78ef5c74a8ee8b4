import RulesAnalyzer.Splitting

/-!
# Numbers in texts

What `str2num` accepts, apart from the bounds, is what the library function reads
as a number: blanks and a sign in front of the digits are read too.

## Main definitions

* `numberOf` — the number of a text.
* `IsNumeral` — a text of digits.

## Main results

* `str2num_eq_some_iff` — the numbers that are accepted.
* `str2i_eq_some_iff` — the number that is stored in 32 bits.
* `numberOf_numeral` — the number of a text of digits.
* `str2num_toString` — a number that is printed is read back.
-/

namespace RulesAnalyzer

/-- The number of a text, as the library function reads it. -/
def numberOf (text : String) : Option ℤ :=
  match strtol (text.toList.takeWhile (· ≠ '\x00')) with
  | some (number, []) => some number
  | _ => none

/-- The sign in front of the digits, and the text after it. -/
def readSign (str : List Char) : Bool × List Char :=
  match str.dropWhile isSpace with
  | '-' :: rest => (true, rest)
  | '+' :: rest => (false, rest)
  | rest => (false, rest)

/-- The number with a sign. -/
def signed (negative : Bool) (value : ℕ) : ℤ := if negative then -value else value

theorem strtol_eq (str : List Char) : strtol str =
    if ((readSign str).2.takeWhile Char.isDigit).isEmpty then some (0, str)
    else
      let value := signed (readSign str).1 (ofDigits ((readSign str).2.takeWhile Char.isDigit))
      if value < -2 ^ 63 ∨ 2 ^ 63 ≤ value then none
      else some (value, (readSign str).2.dropWhile Char.isDigit) := rfl

theorem strtol_lt {str rest : List Char} {number : ℤ} (h : strtol str = some (number, rest)) :
    number < 2 ^ 63 := by
  rw [strtol_eq] at h
  split at h
  · obtain ⟨rfl, -⟩ := Prod.mk.inj (Option.some.inj h)
    omega
  · dsimp only at h
    split at h
    · cases h
    · obtain ⟨rfl, -⟩ := Prod.mk.inj (Option.some.inj h)
      omega

theorem numberOf_lt {text : String} {number : ℤ} (h : numberOf text = some number) :
    number < 2 ^ 63 := by
  unfold numberOf at h
  split at h
  · next hread =>
    obtain rfl := Option.some.inj h
    exact strtol_lt hread
  · cases h

/-- The numbers between the bounds are accepted. -/
theorem str2num_eq_some_iff {text : String} {minval maxval number : ℤ} :
    str2num text minval maxval = some number ↔
      numberOf text = some number ∧ minval ≤ number ∧ number ≤ maxval := by
  unfold str2num numberOf
  generalize strtol (text.toList.takeWhile (· ≠ '\x00')) = result
  by_cases hempty : minval > maxval
  · rw [if_pos hempty]
    refine iff_of_false (Option.some_ne_none number).symm ?_
    omega
  rw [if_neg hempty]
  rcases result with _ | ⟨l, _ | ⟨c, rest⟩⟩
  · simp
  · by_cases hbounds : l < minval ∨ l > maxval
    · simp only [if_pos hbounds, Option.some.injEq]
      refine iff_of_false (Option.some_ne_none number).symm ?_
      omega
    · simp only [if_neg hbounds, Option.some.injEq]
      omega
  · simp

/-- A number that is not negative is accepted, and cut to 32 bits. -/
theorem str2i_eq_some_iff {text : String} {id : ℤ} :
    str2i text = some id ↔
      ∃ number, numberOf text = some number ∧ 0 ≤ number ∧ number.bmod (2 ^ 32) = id := by
  unfold str2i
  rw [Option.map_eq_some_iff]
  constructor
  · intro h
    obtain ⟨number, h, hid⟩ := h
    obtain ⟨hnumber, hmin, -⟩ := str2num_eq_some_iff.mp h
    exact ⟨number, hnumber, hmin, hid⟩
  · intro h
    obtain ⟨number, hnumber, hmin, hid⟩ := h
    have hlt := numberOf_lt hnumber
    exact ⟨number, str2num_eq_some_iff.mpr ⟨hnumber, hmin, by omega⟩, hid⟩

/-! ### Digits -/

/-- A text of digits. -/
def IsNumeral (text : List Char) : Prop := text ≠ [] ∧ ∀ c ∈ text, c.isDigit = true

instance (text : List Char) : Decidable (IsNumeral text) := inferInstanceAs (Decidable (_ ∧ _))

theorem ne_of_isDigit {c d : Char} (hc : c.isDigit = true) (hd : d.isDigit = false) : c ≠ d := by
  intro h
  rw [h, hd] at hc
  cases hc

theorem isSpace_of_isDigit {c : Char} (h : c.isDigit = true) : isSpace c = false := by
  unfold isSpace isBlank
  simp [ne_of_isDigit h]

theorem notMem_numeral {text : List Char} (h : IsNumeral text) {c : Char} (hc : c.isDigit = false) :
    c ∉ text := by
  intro hmem
  exact ne_of_isDigit (h.2 c hmem) hc rfl

theorem trim_numeral {text : List Char} (h : IsNumeral text) : trim text ≠ [] := by
  intro hnil
  obtain ⟨hne, hdigits⟩ := h
  obtain ⟨c, hc⟩ := List.exists_mem_of_ne_nil _ hne
  have hspace := isSpace_of_isDigit (hdigits c hc)
  unfold isSpace at hspace
  rw [trim_eq_nil_iff.mp hnil c hc] at hspace
  cases hspace

theorem readSign_numeral {text : List Char} (h : IsNumeral text) :
    readSign text = (false, text) := by
  obtain ⟨hne, hdigits⟩ := h
  obtain ⟨c, rest, rfl⟩ := List.exists_cons_of_ne_nil hne
  have hc := hdigits c List.mem_cons_self
  have hminus : c ≠ '-' := ne_of_isDigit hc (by decide)
  have hplus : c ≠ '+' := ne_of_isDigit hc (by decide)
  unfold readSign
  rw [List.dropWhile_cons_of_neg (by simp [isSpace_of_isDigit hc])]
  split
  · next heq => exact absurd (List.cons.inj heq).1 hminus
  · next heq => exact absurd (List.cons.inj heq).1 hplus
  · rfl

/-- The number of digits, when it fits in 64 bits. -/
theorem strtol_numeral {text : List Char} (h : IsNumeral text) :
    strtol text = if ofDigits text < 2 ^ 63 then some ((ofDigits text : ℤ), []) else none := by
  have htake : text.takeWhile Char.isDigit = text := List.takeWhile_eq_self_iff.mpr h.2
  have hdrop : text.dropWhile Char.isDigit = [] := List.dropWhile_eq_nil_iff.mpr h.2
  rw [strtol_eq, readSign_numeral h, htake, hdrop, if_neg (by simpa using h.1)]
  show (if (ofDigits text : ℤ) < -2 ^ 63 ∨ 2 ^ 63 ≤ (ofDigits text : ℤ) then none
    else some ((ofDigits text : ℤ), [])) = _
  by_cases hlt : ofDigits text < 2 ^ 63
  · rw [if_pos hlt, if_neg (by omega)]
  · rw [if_neg hlt, if_pos (by omega)]

theorem numberOf_numeral {text : String} (h : IsNumeral text.toList) : numberOf text =
    if ofDigits text.toList < 2 ^ 63 then some (ofDigits text.toList : ℤ) else none := by
  have htake : text.toList.takeWhile (· ≠ '\x00') = text.toList := by
    apply List.takeWhile_eq_self_iff.mpr
    intro c hc
    have hnul : c ≠ '\x00' := ne_of_isDigit (h.2 c hc) (by decide)
    simpa using hnul
  unfold numberOf
  rw [htake, strtol_numeral h]
  split
  · next hread =>
    split at hread
    · next hlt =>
      rw [if_pos hlt, (Prod.mk.inj (Option.some.inj hread)).1]
    · cases hread
  · next hread =>
    split
    · next hlt => exact absurd (if_pos hlt) (hread _)
    · rfl

/-! ### Numbers that are printed -/

theorem isNumeral_toString (n : ℕ) : IsNumeral (toString n).toList := by
  rw [Nat.toString_eq_repr, Nat.toList_repr]
  exact ⟨Nat.toDigits_ne_nil, fun c hc => Nat.isDigit_of_mem_toDigits (by decide) (by decide) hc⟩

theorem ofDigits_toString (n : ℕ) : ofDigits (toString n).toList = n := by
  rw [Nat.toString_eq_repr, Nat.toList_repr, ofDigits, ← Nat.ofDigitChars_eq_foldl]
  exact Nat.ofDigitChars_ten_toDigits

/-- A number that is printed is read back. -/
theorem str2num_toString {n : ℕ} {maxval : ℤ} (hle : (n : ℤ) ≤ maxval) (hmax : maxval < 2 ^ 63) :
    str2num (toString n) 0 maxval = some (n : ℤ) := by
  rw [str2num_eq_some_iff, numberOf_numeral (isNumeral_toString n), ofDigits_toString,
    if_pos (by omega)]
  exact ⟨rfl, by omega, hle⟩

end RulesAnalyzer
