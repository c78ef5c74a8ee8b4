import RulesAnalyzer.Effect.Program

/-!
# Triples

A triple says what holds after a program that starts in a state with the
precondition: one postcondition for runs that return, with the value, and one for
runs that raise.

## Main definitions

* `Outcome`, `Triple` — the two postconditions, of an outcome and of a program.

## Main results

* `triple_bind`, `triple_forM_append`, `triple_foldlM` — triples of sequences and of loops.
* `triple_zoom` — a triple of a program on a part of the state.
-/

namespace RulesAnalyzer.Effect

variable {σ τ ε α β : Type}

/-- What holds of the outcome of a program and of the state after it. -/
def Outcome (Q : α → σ → Prop) (E : σ → Prop) : Except ε α × σ → Prop
  | (.ok a, s) => Q a s
  | (.error _, s) => E s

theorem Outcome.mono {Q Q' : α → σ → Prop} {E E' : σ → Prop} {outcome : Except ε α × σ}
    (h : Outcome Q E outcome) (hQ : ∀ a s, Q a s → Q' a s) (hE : ∀ s, E s → E' s) :
    Outcome Q' E' outcome := by
  rcases outcome with ⟨e | a, s⟩
  · exact hE s h
  · exact hQ a s h

/-- What holds of the state after the program holds when it returns. -/
theorem Outcome.and_state {Q : α → σ → Prop} {E R : σ → Prop} {outcome : Except ε α × σ}
    (h : Outcome Q E outcome) (hR : R outcome.2) : Outcome (fun a s => Q a s ∧ R s) E outcome := by
  rcases outcome with ⟨e | a, s⟩
  · exact h
  · exact ⟨h, hR⟩

theorem Outcome.state {Q : α → σ → Prop} {E P : σ → Prop} {outcome : Except ε α × σ}
    (h : Outcome Q E outcome) (hQ : ∀ a s, Q a s → P s) (hE : ∀ s, E s → P s) : P outcome.2 := by
  rcases outcome with ⟨e | a, s⟩
  · exact hE s h
  · exact hQ a s h

/-- From the states of `P`, the program returns into `Q` or raises into `E`. -/
def Triple (P : σ → Prop) (p : Program σ ε α) (Q : α → σ → Prop) (E : σ → Prop) : Prop :=
  ∀ s, P s → Outcome Q E (exec p s)

section Triple

variable {P : σ → Prop} {Q : α → σ → Prop} {E : σ → Prop}

/-- What holds when a program of a triple returns. -/
theorem Triple.returns {p : Program σ ε α} (h : Triple P p Q E) {s s' : σ} {a : α} (hs : P s)
    (hrun : Returns p s a s') : Q a s' := by
  have houtcome := h s hs
  rwa [hrun] at houtcome

/-- A precondition that holds after all runs is preserved. -/
theorem Triple.preserves {p : Program σ ε α} (h : Triple P p Q E) (hQ : ∀ a s, Q a s → P s)
    (hE : ∀ s, E s → P s) : Keeps (Preserves P) p := by
  intro s hs
  exact (h s hs).state hQ hE

/-- The rule of consequence. -/
theorem Triple.mono {P' : σ → Prop} {Q' : α → σ → Prop} {E' : σ → Prop} {p : Program σ ε α}
    (h : Triple P p Q E) (hP : ∀ s, P' s → P s) (hQ : ∀ a s, Q a s → Q' a s)
    (hE : ∀ s, E s → E' s) : Triple P' p Q' E' := by
  exact fun s hs => (h s (hP s hs)).mono hQ hE

/-- The frame rule: what a relation preserves that the program keeps. -/
theorem Triple.frame {R : σ → σ → Prop} {F : σ → Prop} {p : Program σ ε α} (h : Triple P p Q E)
    (hkeeps : Keeps R p) (hF : ∀ s s', P s → R s s' → F s → F s') :
    Triple (fun s => P s ∧ F s) p (fun a s => Q a s ∧ F s) E := by
  intro s hs
  exact (h s hs.1).and_state (hF s _ hs.1 (hkeeps s) hs.2)

theorem triple_pure {a : α} (h : ∀ s, P s → Q a s) : Triple P (pure a : Program σ ε α) Q E := h

theorem triple_throw {e : ε} (h : ∀ s, P s → E s) : Triple P (throw e : Program σ ε α) Q E := h

theorem triple_ofExcept {r : Except ε α} (hok : ∀ a, r = .ok a → ∀ s, P s → Q a s)
    (herror : ∀ s, P s → E s) : Triple P (MonadExcept.ofExcept r : Program σ ε α) Q E := by
  intro s hs
  rw [exec_ofExcept]
  cases r with
  | ok a => exact hok a rfl s hs
  | error e => exact herror s hs

/-- A state that satisfies the precondition holds of the rest of the program. -/
theorem triple_get_bind {f : σ → Program σ ε α}
    (h : ∀ s, P s → Triple (fun t => t = s) (f s) Q E) : Triple P (get >>= f) Q E := by
  intro s hs
  rw [exec_get_bind]
  exact h s hs s rfl

variable {R : β → σ → Prop}

/-- The rule of sequences. -/
theorem triple_bind {p : Program σ ε α} {f : α → Program σ ε β} (hp : Triple P p Q E)
    (hf : ∀ a, Triple (Q a) (f a) R E) : Triple P (p >>= f) R E := by
  intro s hs
  have houtcome := hp s hs
  rcases hrun : exec p s with ⟨e | a, s'⟩
  · rw [hrun] at houtcome
    rwa [exec_bind_error hrun]
  · rw [hrun] at houtcome
    rw [exec_bind_ok hrun]
    exact hf a s' houtcome

theorem triple_map {f : α → β} {p : Program σ ε α} (hp : Triple P p (fun a => R (f a)) E) :
    Triple P (f <$> p) R E := by
  rw [map_eq_pure_bind]
  exact triple_bind hp fun _ => triple_pure fun _ h => h

/-- Loops over one list after the other. -/
theorem triple_forM_append {f : β → Program σ ε PUnit} {l l' : List β} {I J K : σ → Prop}
    (h : Triple I (l.forM f) (fun _ => J) E) (h' : Triple J (l'.forM f) (fun _ => K) E) :
    Triple I ((l ++ l').forM f) (fun _ => K) E := by
  induction l generalizing I with
  | nil =>
    intro s hs
    exact h' s (h s hs)
  | cons b l ih =>
    rw [List.cons_append, List.forM]
    rw [List.forM] at h
    intro s hs
    have houtcome := h s hs
    rcases hrun : exec (f b) s with ⟨e | a, t⟩
    · rw [exec_bind_error hrun] at houtcome ⊢
      exact houtcome
    · rw [exec_bind_ok hrun] at houtcome ⊢
      refine ih (I := fun u => u = t) ?_ t rfl
      rintro u rfl
      exact houtcome

/-- The loop over a single element. -/
theorem triple_forM_singleton {f : β → Program σ ε PUnit} {b : β} {I J : σ → Prop}
    (h : Triple I (f b) (fun _ => J) E) : Triple I ([b].forM f) (fun _ => J) E :=
  triple_bind h fun _ => triple_pure fun _ hs => hs

/-- The rule of folds; the invariant knows the part of the list that was passed. -/
theorem triple_foldlM {f : α → β → Program σ ε α} {I : List β → α → σ → Prop} {l : List β}
    (hstep : ∀ done b a, b ∈ l → Triple (I done a) (f a b) (I (done ++ [b])) E) {done : List β}
    {a : α} : Triple (I done a) (l.foldlM f a) (I (done ++ l)) E := by
  induction l generalizing done a with
  | nil =>
    rw [List.append_nil]
    exact triple_pure fun _ hs => hs
  | cons b l ih =>
    rw [List.foldlM_cons, List.append_cons]
    exact triple_bind (hstep done b a List.mem_cons_self)
      fun c => ih fun done b a hb => hstep done b a (List.mem_cons_of_mem _ hb)

/-- The rule of programs on a part of the state. -/
theorem triple_zoom {get : σ → τ} {set : τ → σ → σ} {p : Program τ ε α} {P' : τ → Prop}
    {Q' : α → τ → Prop} {E' : τ → Prop} (hp : Triple P' p Q' E') (hP : ∀ s, P s → P' (get s))
    (hQ : ∀ s, P s → ∀ a t, Q' a t → Q a (set t s)) (hE : ∀ s, P s → ∀ t, E' t → E (set t s)) :
    Triple P (zoom get set p) Q E := by
  intro s hs
  have houtcome := hp (get s) (hP s hs)
  rw [exec_zoom]
  revert houtcome
  rcases exec p (get s) with ⟨e | a, t⟩ <;> intro houtcome
  · exact hE s hs t houtcome
  · exact hQ s hs a t houtcome

end Triple

end RulesAnalyzer.Effect
