import Mathlib.Data.Set.Insert
import Mathlib.Logic.Relation

/-!
# Depth-first marking

A marking goes through a list of vertices; at a vertex that is not marked it sets
the mark and marks the successors before it goes on.  The order matters, because a
mark stops the search.  What gets marked does not depend on it.

## Main definitions

* `Marks` — from some marks, the search through a list ends with other marks.
* `Reaches` — a path of successors.

## Main results

* `Marks.closed` — the successors of what a search marks are marked.
* `Marks.eq_reaches` — **from no marks, a search marks what the list reaches.**
-/

namespace RulesAnalyzer.Shared

variable {α : Type}

/-- The search through a list of vertices. -/
inductive Marks (succ : α → List α) : Set α → List α → Set α → Prop
  /-- There is nothing to mark. -/
  | nil {M} : Marks succ M [] M
  /-- The mark stops the search. -/
  | seen {M M' i l} : i ∈ M → Marks succ M l M' → Marks succ M (i :: l) M'
  /-- The mark is set before the successors are searched. -/
  | new {M M₁ M₂ i l} : i ∉ M → Marks succ (insert i M) (succ i) M₁ → Marks succ M₁ l M₂ →
      Marks succ M (i :: l) M₂

/-- A path of successors. -/
def Reaches (succ : α → List α) : α → α → Prop := Relation.ReflTransGen fun i j => j ∈ succ i

variable {succ : α → List α} {M M' M'' : Set α} {l l' : List α}

theorem Marks.append (h : Marks succ M l M') (h' : Marks succ M' l' M'') :
    Marks succ M (l ++ l') M'' := by
  induction h with
  | nil => exact h'
  | seen hi _ ih => exact .seen hi (ih h')
  | new hi hsucc _ _ ih => exact .new hi hsucc (ih h')

/-- Marks stay. -/
theorem Marks.subset (h : Marks succ M l M') : M ⊆ M' := by
  induction h with
  | nil => exact fun _ => id
  | seen _ _ ih => exact ih
  | new _ _ _ ihsucc ih => exact fun j hj => ih (ihsucc (Set.mem_insert_of_mem _ hj))

/-- The list gets marked. -/
theorem Marks.mem (h : Marks succ M l M') : ∀ i ∈ l, i ∈ M' := by
  induction h with
  | nil => exact fun _ hi => nomatch hi
  | seen hi h ih => exact List.forall_mem_cons.mpr ⟨h.subset hi, ih⟩
  | new _ hsucc h _ ih =>
    exact List.forall_mem_cons.mpr ⟨h.subset (hsucc.subset (Set.mem_insert _ _)), ih⟩

/-- **The successors of what a search marks are marked.** -/
theorem Marks.closed (h : Marks succ M l M') : ∀ i ∈ M', i ∉ M → ∀ j ∈ succ i, j ∈ M' := by
  induction h with
  | nil => exact fun i hi hnot => absurd hi hnot
  | seen _ _ ih => exact ih
  | @new M M₁ M₂ i l _ hsucc h ihsucc ih =>
    intro k hk hnot j hj
    by_cases hk₁ : k ∈ M₁
    · by_cases hki : k = i
      · subst hki
        exact h.subset (hsucc.mem j hj)
      · exact h.subset (ihsucc k hk₁ (by simp [hki, hnot]) j hj)
    · exact ih k hk hk₁ j hj

/-- Only what the list reaches gets marked. -/
theorem Marks.reached (h : Marks succ M l M') :
    ∀ j ∈ M', j ∈ M ∨ ∃ i ∈ l, Reaches succ i j := by
  induction h with
  | nil => exact fun j hj => .inl hj
  | seen _ _ ih =>
    exact fun j hj => (ih j hj).imp_right fun ⟨k, hk, hreach⟩ =>
      ⟨k, List.mem_cons_of_mem _ hk, hreach⟩
  | @new M M₁ M₂ i l _ _ _ ihsucc ih =>
    intro j hj
    rcases ih j hj with hj | ⟨k, hk, hreach⟩
    · rcases ihsucc j hj with (rfl | hj) | ⟨k, hk, hreach⟩
      · exact .inr ⟨j, List.mem_cons_self, .refl⟩
      · exact .inl hj
      · exact .inr ⟨i, List.mem_cons_self, .head hk hreach⟩
    · exact .inr ⟨k, List.mem_cons_of_mem _ hk, hreach⟩

/-- **From no marks, a search marks what the list reaches.** -/
theorem Marks.eq_reaches (h : Marks succ ∅ l M') : M' = {j | ∃ i ∈ l, Reaches succ i j} := by
  ext j
  constructor
  · exact fun hj => (h.reached j hj).resolve_left (Set.notMem_empty j)
  · rintro ⟨i, hi, hreach⟩
    induction hreach with
    | refl => exact h.mem i hi
    | tail _ hstep ih => exact h.closed _ ih (Set.notMem_empty _) _ hstep

end RulesAnalyzer.Shared
