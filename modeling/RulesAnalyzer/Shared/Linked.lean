import Mathlib.Data.List.Nodup
import Mathlib.Logic.Function.Basic

/-!
# Linked lists in an array

Cells are numbered, `next` holds the number of the cell that follows, and the
number `0` ends a list.  A list that is reached from its head is determined by the
links, so it cannot visit a cell twice, and links outside of it may change.

## Main definitions

* `Linked` — the cells of a list, from its head.

## Main results

* `Linked.det`, `Linked.nodup` — a head has one list, without repetitions.
* `Linked.congr`, `Linked.push` — changes outside of a list, and a new head.
* `linked_range'` — cells that are linked in their order.
-/

namespace RulesAnalyzer.Shared

/-- From `head` the links run through the cells of the list and end. -/
def Linked (next : ℕ → ℕ) (head : ℕ) : List ℕ → Prop
  | [] => head = 0
  | n :: l => head = n ∧ n ≠ 0 ∧ Linked next (next n) l

variable {next next' : ℕ → ℕ} {head n : ℕ} {l l' : List ℕ}

@[simp] theorem linked_nil : Linked next head [] ↔ head = 0 := Iff.rfl

@[simp] theorem linked_cons :
    Linked next head (n :: l) ↔ head = n ∧ n ≠ 0 ∧ Linked next (next n) l := Iff.rfl

theorem Linked.det (h : Linked next head l) (h' : Linked next head l') : l = l' := by
  induction l generalizing head l' with
  | nil =>
    cases l' with
    | nil => rfl
    | cons m l' => exact absurd (h'.1.symm.trans h) h'.2.1
  | cons n l ih =>
    obtain ⟨rfl, hne, h⟩ := h
    cases l' with
    | nil => exact absurd h' hne
    | cons m l' =>
      obtain ⟨rfl, -, h'⟩ := h'
      rw [ih h h']

/-- What is linked behind a cell of a list. -/
theorem Linked.of_append {l₁ l₂ : List ℕ} (h : Linked next head (l₁ ++ n :: l₂)) :
    Linked next n (n :: l₂) := by
  induction l₁ generalizing head with
  | nil => exact ⟨rfl, h.2⟩
  | cons m l₁ ih => exact ih h.2.2

/-- **A linked list visits no cell twice.** -/
theorem Linked.nodup (h : Linked next head l) : l.Nodup := by
  induction l generalizing head with
  | nil => exact List.nodup_nil
  | cons n l ih =>
    refine List.nodup_cons.mpr ⟨fun hmem => ?_, ih h.2.2⟩
    -- a second visit would start a list that is shorter than itself
    obtain ⟨l₁, l₂, rfl⟩ := List.append_of_mem hmem
    have hlater : n :: l₂ = n :: (l₁ ++ n :: l₂) :=
      (h.2.2.of_append).det ⟨rfl, h.2⟩
    have hlength := congrArg List.length hlater
    simp only [List.length_cons, List.length_append] at hlength
    omega

/-- Links outside of a list may change. -/
theorem Linked.congr (h : Linked next head l) (heq : ∀ n ∈ l, next' n = next n) :
    Linked next' head l := by
  induction l generalizing head with
  | nil => exact h
  | cons n l ih =>
    refine ⟨h.1, h.2.1, ?_⟩
    rw [heq n List.mem_cons_self]
    exact ih h.2.2 fun m hm => heq m (List.mem_cons_of_mem n hm)

theorem Linked.update (h : Linked next head l) (hn : n ∉ l) (m : ℕ) :
    Linked (Function.update next n m) head l :=
  h.congr fun _ hmem => Function.update_of_ne (ne_of_mem_of_not_mem hmem hn) _ _

/-- A cell that is linked to the head becomes the head. -/
theorem Linked.push (h : Linked next head l) (hn : n ∉ l) (hpos : n ≠ 0) :
    Linked (Function.update next n head) n (n :: l) := by
  refine ⟨rfl, hpos, ?_⟩
  rw [Function.update_self]
  exact h.update hn head

/-- The list behind the head. -/
theorem Linked.pop (h : Linked next head l) (hpos : head ≠ 0) :
    ∃ l', l = head :: l' ∧ Linked next (next head) l' := by
  cases l with
  | nil => exact absurd h hpos
  | cons n l =>
    obtain ⟨rfl, -, h⟩ := h
    exact ⟨l, rfl, h⟩

/-- Cells that are linked in their order. -/
theorem linked_range' {start len : ℕ} (hpos : start ≠ 0)
    (hnext : ∀ n, start ≤ n → n + 1 < start + len → next n = n + 1)
    (hend : next (start + len - 1) = 0) (hlen : 0 < len) :
    Linked next start (List.range' start len) := by
  induction len generalizing start with
  | zero => exact absurd hlen (Nat.lt_irrefl 0)
  | succ len ih =>
    rw [List.range'_succ]
    refine ⟨rfl, hpos, ?_⟩
    rcases Nat.eq_zero_or_pos len with rfl | hlen
    · exact hend
    · rw [hnext start (Nat.le_refl start) (by omega)]
      exact ih (by omega) (fun n hn hlt => hnext n (by omega) (by omega))
        (by rwa [Nat.add_right_comm, Nat.add_assoc]) hlen

end RulesAnalyzer.Shared
