import RulesAnalyzer.Effect.Program

/-!
# Programs that raise before they write

What a program wrote stays when it raises.  A program that only reads until nothing can be raised
any more leaves the state as it was whenever it raises.

## Main definitions

* `Atomic` — a run that raises leaves the state as it was.

## Main results

* `atomic_bind` — after a part that only reads, the rest has to be atomic.
-/

namespace RulesAnalyzer.Effect

variable {σ ε α β : Type}

/-- A run that raises leaves the state as it was. -/
def Atomic (p : Program σ ε α) : Prop := ∀ s e, (exec p s).1 = .error e → (exec p s).2 = s

theorem atomic_modify (f : σ → σ) : Atomic (modify f : Program σ ε PUnit) := by
  intro s e h
  cases h

/-- A program that only reads leaves the state as it was. -/
theorem atomic_of_keeps {p : Program σ ε α} (hp : Keeps Eq p) : Atomic p :=
  fun s _ _ => (hp s).symm

theorem atomic_pure (a : α) : Atomic (pure a : Program σ ε α) := atomic_of_keeps (keeps_pure a)

theorem atomic_throw (e : ε) : Atomic (throw e : Program σ ε α) := atomic_of_keeps (keeps_throw e)

/-- The first part only reads, so what the second raises is raised in the same state. -/
theorem atomic_bind {p : Program σ ε α} {f : α → Program σ ε β} (hp : Keeps Eq p)
    (hf : ∀ a, Atomic (f a)) : Atomic (p >>= f) := by
  intro s e h
  have hstate := hp s
  rcases hrun : exec p s with ⟨e' | a, s'⟩
  · rw [hrun] at hstate
    rw [exec_bind_error hrun]
    exact hstate.symm
  · rw [hrun] at hstate
    obtain rfl : s = s' := hstate
    rw [exec_bind_ok hrun] at h ⊢
    exact hf a s e h

end RulesAnalyzer.Effect
