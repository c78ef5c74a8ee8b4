import RulesAnalyzer.Effect.Program

/-!
# Weakest preconditions

What must hold before a program for it to return into one postcondition or to
raise into another, where the second one sees the exception.  A proof goes
forward through the program: each part is replaced by what its specification
says, and the rest is proved from there.

## Main definitions

* `Wp` — the program returns into `Q` or raises into `E`.

## Main results

* `wp_bind`, `wp_ite`, … — the parts of a program.
* `Wp.mono` — the rule of consequence.
* `wp_forM` — loops over a list, with an invariant that knows what was passed.
-/

namespace RulesAnalyzer.Effect

variable {σ ε α β : Type}

/-- The run from `s` returns a value and a state of `Q`, or raises into `E`. -/
def Wp (p : Program σ ε α) (Q : α → σ → Prop) (E : ε → σ → Prop) (s : σ) : Prop :=
  match exec p s with
  | (.ok a, s') => Q a s'
  | (.error e, s') => E e s'

section Wp

variable {Q Q' : α → σ → Prop} {R : β → σ → Prop} {E E' : ε → σ → Prop} {s : σ}

@[simp] theorem wp_pure {a : α} : Wp (pure a : Program σ ε α) Q E s ↔ Q a s := Iff.rfl

@[simp] theorem wp_throw {e : ε} : Wp (throw e : Program σ ε α) Q E s ↔ E e s := Iff.rfl

@[simp] theorem wp_get {Q : σ → σ → Prop} : Wp (get : Program σ ε σ) Q E s ↔ Q s s := Iff.rfl

@[simp] theorem wp_modify {f : σ → σ} {Q : PUnit → σ → Prop} :
    Wp (modify f : Program σ ε PUnit) Q E s ↔ Q ⟨⟩ (f s) := Iff.rfl

/-- The rule of sequences. -/
@[simp] theorem wp_bind {p : Program σ ε α} {f : α → Program σ ε β} :
    Wp (p >>= f) R E s ↔ Wp p (fun a => Wp (f a) R E) E s := by
  unfold Wp
  rw [exec_bind]
  rcases exec p s with ⟨e | a, s'⟩ <;> rfl

@[simp] theorem wp_map {f : α → β} {p : Program σ ε α} :
    Wp (f <$> p) R E s ↔ Wp p (fun a => R (f a)) E s := by
  rw [map_eq_pure_bind, wp_bind]
  rfl

@[simp] theorem wp_ofExcept {r : Except ε α} :
    Wp (MonadExcept.ofExcept r : Program σ ε α) Q E s ↔
      (∀ a, r = .ok a → Q a s) ∧ (∀ e, r = .error e → E e s) := by
  unfold Wp
  rw [exec_ofExcept]
  cases r with
  | ok a => simp
  | error e => simp

theorem wp_ite {c : Prop} [Decidable c] {p q : Program σ ε α} (hp : c → Wp p Q E s)
    (hq : ¬c → Wp q Q E s) : Wp (if c then p else q) Q E s := by
  split
  · next h => exact hp h
  · next h => exact hq h

/-- The rule of consequence. -/
theorem Wp.mono {p : Program σ ε α} (h : Wp p Q E s) (hQ : ∀ a s', Q a s' → Q' a s')
    (hE : ∀ e s', E e s' → E' e s') : Wp p Q' E' s := by
  unfold Wp at h ⊢
  rcases hrun : exec p s with ⟨e | a, s'⟩
  · rw [hrun] at h
    exact hE e s' h
  · rw [hrun] at h
    exact hQ a s' h

/-- The rule of consequence for runs that return. -/
theorem Wp.imp {p : Program σ ε α} (h : Wp p Q E s) (hQ : ∀ a s', Q a s' → Q' a s') :
    Wp p Q' E s := h.mono hQ fun _ _ => id

/-- Two postconditions of one run. -/
theorem Wp.and {p : Program σ ε α} (h : Wp p Q E s) (h' : Wp p Q' E' s) :
    Wp p (fun a s' => Q a s' ∧ Q' a s') E s := by
  unfold Wp at h h' ⊢
  rcases hrun : exec p s with ⟨e | a, s'⟩
  · rwa [hrun] at h
  · rw [hrun] at h h'
    exact ⟨h, h'⟩

/-- What holds of a run that returns. -/
theorem Wp.returns {p : Program σ ε α} (h : Wp p Q E s) {a : α} {s' : σ}
    (hrun : Returns p s a s') : Q a s' := by
  unfold Wp at h
  rwa [hrun] at h

/-- What holds of a run that raises. -/
theorem Wp.raises {p : Program σ ε α} (h : Wp p Q E s) {e : ε} {s' : σ}
    (hrun : exec p s = (.error e, s')) : E e s' := by
  unfold Wp at h
  rwa [hrun] at h

/-- The rule of loops. -/
theorem wp_forM {f : β → Program σ ε PUnit} {I : List β → List β → σ → Prop}
    (hstep : ∀ passed b rest s, I passed (b :: rest) s →
      Wp (f b) (fun _ => I (passed ++ [b]) rest) E s) (passed : List β) {l : List β}
    (h : I passed l s) : Wp (l.forM f) (fun _ => I (passed ++ l) []) E s := by
  induction l generalizing passed s with
  | nil =>
    rw [List.append_nil]
    exact h
  | cons b l ih =>
    rw [List.forM, wp_bind, List.append_cons]
    exact (hstep passed b l s h).imp fun _ s' h' => ih _ h'

end Wp

end RulesAnalyzer.Effect
