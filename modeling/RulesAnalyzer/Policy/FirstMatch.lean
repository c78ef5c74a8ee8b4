import Mathlib.Data.Set.Basic
import Mathlib.Data.List.Basic

/-!
# First-match lists

A list of rules decides a point by the first rule that covers it.  This file is
about such lists in general: rules of any type `ρ`, points of any type `α`,
verdicts of any type `δ`.

## Main definitions

* `firstMatch` — the first rule of a list that covers a point.
* `decision` — its verdict.
* `decided`, `undecided` — the points with a given verdict, and those with none.

## Main results

* `decided_concat`, `undecided_concat` — what appending one rule changes.
* `firstMatch_filter` — rules that are never a first match can go together.
* `decision_remove_eq_iff` — when one rule can go.
* `decision_between_iff` — which rules can overrule a later rule.
* `decision_ne_iff` — when a list does not reach a verdict.
-/

namespace FirstMatch

variable {ρ α δ : Type*} (covers : ρ → α → Bool) (verdict : ρ → δ)

/-- The first rule of `l` that covers `x`. -/
def firstMatch (l : List ρ) (x : α) : Option ρ := l.find? (covers · x)

/-- The verdict of the first rule of `l` that covers `x`. -/
def decision (l : List ρ) (x : α) : Option δ := (firstMatch covers l x).map verdict

/-- The points `l` decides with the verdict `d`. -/
def decided (l : List ρ) (d : δ) : Set α := {x | decision covers verdict l x = some d}

/-- The points no rule of `l` covers. -/
def undecided (l : List ρ) : Set α := {x | ∀ r ∈ l, covers r x = false}

variable {covers verdict} {l l' : List ρ} {r : ρ} {x : α} {d : δ}

/-! ### The first match -/

@[simp] theorem firstMatch_nil : firstMatch covers [] x = none := rfl

theorem firstMatch_cons : firstMatch covers (r :: l) x =
    if covers r x then some r else firstMatch covers l x := by
  rw [firstMatch, List.find?_cons]
  cases covers r x <;> rfl

theorem firstMatch_append :
    firstMatch covers (l ++ l') x = (firstMatch covers l x).or (firstMatch covers l' x) :=
  List.find?_append

theorem firstMatch_eq_none_iff : firstMatch covers l x = none ↔ x ∈ undecided covers l := by
  simp [firstMatch, undecided]

theorem mem_of_firstMatch (h : firstMatch covers l x = some r) : r ∈ l :=
  List.mem_of_find?_eq_some h

theorem covers_of_firstMatch (h : firstMatch covers l x = some r) : covers r x = true := by
  simpa using List.find?_some h

/-- The first match splits the list: nothing before it covers the point. -/
theorem firstMatch_eq_some_iff : firstMatch covers l x = some r ↔
    covers r x = true ∧ ∃ as bs, l = as ++ r :: bs ∧ x ∈ undecided covers as := by
  rw [firstMatch, List.find?_eq_some_iff_append]
  simp [undecided]

/-- A first match stays the first match of every longer list. -/
theorem firstMatch_of_prefix (hp : l <+: l') (h : firstMatch covers l x = some r) :
    firstMatch covers l' x = some r := by
  obtain ⟨t, rfl⟩ := hp
  rw [firstMatch_append, h, Option.some_or]

/-- **Rules that are never a first match can be removed together.** -/
theorem firstMatch_filter {keep : ρ → Bool} (h : ∀ r, firstMatch covers l x = some r → keep r) :
    firstMatch covers (l.filter keep) x = firstMatch covers l x := by
  induction l with
  | nil => rfl
  | cons r l ih =>
    rw [firstMatch_cons] at h ⊢
    by_cases hx : covers r x
    · rw [if_pos hx] at h ⊢
      rw [List.filter_cons_of_pos (h r rfl), firstMatch_cons, if_pos hx]
    · rw [if_neg hx] at h ⊢
      by_cases hk : keep r
      · rw [List.filter_cons_of_pos hk, firstMatch_cons, if_neg hx, ih h]
      · rw [List.filter_cons_of_neg hk, ih h]

/-! ### Decisions -/

@[simp] theorem decision_nil : decision covers verdict [] x = none := rfl

theorem decision_eq_none_iff : decision covers verdict l x = none ↔ x ∈ undecided covers l := by
  rw [decision, Option.map_eq_none_iff, firstMatch_eq_none_iff]

theorem decision_eq_some_iff : decision covers verdict l x = some d ↔
    ∃ r, firstMatch covers l x = some r ∧ verdict r = d := by
  rw [decision, Option.map_eq_some_iff]

theorem decision_append : decision covers verdict (l ++ l') x =
    (decision covers verdict l x).or (decision covers verdict l' x) := by
  rw [decision, decision, decision, firstMatch_append]
  cases firstMatch covers l x <;> rfl

theorem decision_cons : decision covers verdict (r :: l) x =
    if covers r x then some (verdict r) else decision covers verdict l x := by
  rw [decision, firstMatch_cons]
  split <;> rfl

/-- **A rule that covers everything** decides what the rules before it leave, and ends the list. -/
theorem decision_of_covers_all (h : ∀ x, covers r x = true) :
    decision covers verdict (l ++ r :: l') x =
      some ((decision covers verdict l x).getD (verdict r)) := by
  rw [decision_append, decision_cons, if_pos (h x)]
  cases decision covers verdict l x <;> rfl

/-- Rules that are replaced by others, which cover the same with the same verdicts. -/
theorem decision_map {ρ' : Type*} {covers' : ρ' → α → Bool} {verdict' : ρ' → δ} {f : ρ → ρ'}
    (hcovers : ∀ r ∈ l, covers' (f r) x = covers r x)
    (hverdict : ∀ r ∈ l, verdict' (f r) = verdict r) :
    decision covers' verdict' (l.map f) x = decision covers verdict l x := by
  induction l with
  | nil => rfl
  | cons r l ih =>
    simp only [List.forall_mem_cons] at hcovers hverdict
    rw [List.map_cons, decision_cons, decision_cons, hcovers.1, hverdict.1,
      ih hcovers.2 hverdict.2]

theorem decision_of_prefix (hp : l <+: l') (h : decision covers verdict l x = some d) :
    decision covers verdict l' x = some d := by
  obtain ⟨r, hr, hd⟩ := decision_eq_some_iff.mp h
  exact decision_eq_some_iff.mpr ⟨r, firstMatch_of_prefix hp hr, hd⟩

/-- Some rule of the list covers a decided point, with its verdict. -/
theorem exists_of_decision (h : decision covers verdict l x = some d) :
    ∃ r ∈ l, covers r x = true ∧ verdict r = d := by
  obtain ⟨r, hr, hd⟩ := decision_eq_some_iff.mp h
  exact ⟨r, mem_of_firstMatch hr, covers_of_firstMatch hr, hd⟩

/-! ### Appending one rule -/

theorem mem_decided : x ∈ decided covers verdict l d ↔ decision covers verdict l x = some d :=
  Iff.rfl

theorem undecided_concat :
    undecided covers (l ++ [r]) = undecided covers l \ {x | covers r x = true} := by
  refine Set.ext fun x => ?_
  simp [undecided, or_imp, forall_and]

/-- **The rule appended last decides what it covers of the points still undecided.** -/
theorem decided_concat : decided covers verdict (l ++ [r]) d =
    decided covers verdict l d ∪
      {x | x ∈ undecided covers l ∧ covers r x = true ∧ verdict r = d} := by
  refine Set.ext fun x => ?_
  rw [mem_decided, decision_append, Set.mem_union, mem_decided, Set.mem_ofPred_eq,
    ← @decision_eq_none_iff _ _ _ covers verdict]
  cases h : decision covers verdict l x with
  | some e => simp
  | none => simp [decision_cons]

/-! ### Removing one rule -/

/-- **When one rule can be removed**: at every point it decides, the rules after it
must reach the same verdict. -/
theorem decision_remove_eq_iff : decision covers verdict (l ++ l') x =
      decision covers verdict (l ++ r :: l') x ↔
    (x ∈ undecided covers l → covers r x = true →
      decision covers verdict l' x = some (verdict r)) := by
  rw [decision_append, decision_append, ← @decision_eq_none_iff _ _ _ covers verdict]
  cases h : decision covers verdict l x with
  | some e => simp
  | none =>
    rw [Option.none_or, Option.none_or, decision_cons]
    by_cases hx : covers r x <;> simp [hx]

/-- **Which rules can overrule a later one.**  When `r` covers `x`, the list
`l ++ r :: l'` reaches the verdict of `r` at `x` exactly when every rule of `l`
that covers `x` with another verdict comes after one that has the verdict of `r`. -/
theorem decision_between_iff (hx : covers r x = true) :
    decision covers verdict (l ++ r :: l') x = some (verdict r) ↔
    ∀ as o bs, l = as ++ o :: bs → covers o x = true → verdict o ≠ verdict r →
      ∃ s ∈ as, covers s x = true ∧ verdict s = verdict r := by
  constructor
  · intro h as o bs hl ho hne
    subst hl
    rw [List.append_assoc, decision_append] at h
    -- if no rule before `o` decided, `o` would decide with another verdict
    cases hd : decision covers verdict as x with
    | some e =>
      rw [hd, Option.some_or, Option.some.injEq] at h
      subst h
      exact exists_of_decision hd
    | none =>
      rw [hd, Option.none_or, List.cons_append, decision_cons, if_pos ho, Option.some.injEq] at h
      exact absurd h hne
  · intro h
    rw [decision_append]
    cases hd : decision covers verdict l x with
    | none => rw [Option.none_or, decision_cons, if_pos hx]
    | some e =>
      rw [Option.some_or, Option.some.injEq]
      -- the first match has the right verdict, since a rule before it would match first
      obtain ⟨o, ho, rfl⟩ := decision_eq_some_iff.mp hd
      obtain ⟨hox, as, bs, hl, hu⟩ := firstMatch_eq_some_iff.mp ho
      by_contra hne
      obtain ⟨s, hs, hsx, -⟩ := h as o bs hl hox hne
      rw [hu s hs] at hsx
      exact absurd hsx (by simp)

/-- **When a list does not reach a verdict**: every rule that covers the point with that
verdict comes after one that covers it with another. -/
theorem decision_ne_iff : decision covers verdict l x ≠ some d ↔
    ∀ as o bs, l = as ++ o :: bs → covers o x = true → verdict o = d →
      ∃ s ∈ as, covers s x = true ∧ verdict s ≠ d := by
  constructor
  · intro h as o bs hl ho hd
    subst hl
    rw [decision_append] at h
    cases has : decision covers verdict as x with
    | none =>
      rw [has, Option.none_or, decision_cons, if_pos ho, hd] at h
      exact absurd rfl h
    | some e =>
      rw [has, Option.some_or] at h
      obtain ⟨s, hs, hsx, hse⟩ := exists_of_decision has
      refine ⟨s, hs, hsx, fun hsd => h ?_⟩
      rw [← hse, hsd]
  · intro h heq
    obtain ⟨o, ho, hd⟩ := decision_eq_some_iff.mp heq
    obtain ⟨hox, as, bs, hl, hu⟩ := firstMatch_eq_some_iff.mp ho
    obtain ⟨s, hs, hsx, -⟩ := h as o bs hl hox hd
    rw [hu s hs] at hsx
    exact Bool.false_ne_true hsx

end FirstMatch
