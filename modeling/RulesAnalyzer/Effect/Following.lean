import RulesAnalyzer.Effect.Program

/-!
# Programs with a second state

A program may read and write a second state beside its own, such as a cache.  As long
as the second state keeps an invariant under which what is read from it does not
depend on it, the program follows one that does without the second state.

## Main definitions

* `onFst`, `onSnd` — a program on one of two states.
* `zoomFst` — a program on a part of the first state, and on the second one.
* `Follows` — runs that return are those of a program without the second state.

## Main results

* `follows_bind`, `follows_zoomFst` — what follows part by part, follows.
-/

namespace RulesAnalyzer.Effect

variable {σ τ ρ ε α β : Type}

/-- A program on the first of two states. -/
def onFst (p : Program σ ε α) : Program (σ × ρ) ε α := zoom Prod.fst (fun t s => (t, s.2)) p

/-- A program on the second of two states. -/
def onSnd (p : Program ρ ε α) : Program (σ × ρ) ε α := zoom Prod.snd (fun r s => (s.1, r)) p

/-- A program on a part of the first state, and on the second state. -/
def zoomFst (get : σ → τ) (set : τ → σ → σ) (p : Program (τ × ρ) ε α) : Program (σ × ρ) ε α :=
  zoom (fun s => (get s.1, s.2)) (fun t s => (set t.1 s.1, t.2)) p

theorem returns_onFst {p : Program σ ε α} {s s' : σ × ρ} {a : α} :
    Returns (onFst p) s a s' ↔ Returns p s.1 a s'.1 ∧ s'.2 = s.2 := by
  rw [onFst, returns_zoom]
  constructor
  · rintro ⟨t, hrun, rfl⟩
    exact ⟨hrun, rfl⟩
  · intro ⟨hrun, hsame⟩
    exact ⟨s'.1, hrun, Prod.ext rfl hsame.symm⟩

/-- What is read from the second state does not matter under the invariant: the runs that return
are those of the other program, and they keep the invariant. -/
def Follows (I : ρ → Prop) (p : Program (σ × ρ) ε α) (q : Program σ ε α) : Prop :=
  ∀ s a s', I s.2 → Returns p s a s' → I s'.2 ∧ Returns q s.1 a s'.1

section Follows

variable {I : ρ → Prop}

theorem follows_pure (a : α) : Follows I (pure a : Program (σ × ρ) ε α) (pure a) := by
  intro s b s' hs h
  obtain ⟨rfl, rfl⟩ := returns_pure.mp h
  exact ⟨hs, rfl⟩

/-- A program that raises follows any other. -/
theorem follows_throw (e : ε) (q : Program σ ε α) :
    Follows I (throw e : Program (σ × ρ) ε α) q := fun _ _ _ _ h => absurd h returns_throw

theorem follows_onFst (p : Program σ ε α) : Follows I (onFst p) p := by
  intro s a s' hs h
  obtain ⟨hrun, hsame⟩ := returns_onFst.mp h
  exact ⟨hsame ▸ hs, hrun⟩

/-- What follows part by part, follows. -/
theorem follows_bind {p : Program (σ × ρ) ε α} {q : Program σ ε α} {f : α → Program (σ × ρ) ε β}
    {g : α → Program σ ε β} (hp : Follows I p q) (hf : ∀ a, Follows I (f a) (g a)) :
    Follows I (p >>= f) (q >>= g) := by
  intro s b s' hs h
  obtain ⟨a, t, hrun, h⟩ := returns_bind.mp h
  obtain ⟨ht, hrun'⟩ := hp s a t hs hrun
  obtain ⟨hs', h'⟩ := hf a t b s' ht h
  exact ⟨hs', returns_bind.mpr ⟨a, t.1, hrun', h'⟩⟩

theorem follows_map (f : α → β) {p : Program (σ × ρ) ε α} {q : Program σ ε α}
    (hp : Follows I p q) : Follows I (f <$> p) (f <$> q) := by
  rw [map_eq_pure_bind, map_eq_pure_bind]
  exact follows_bind hp fun a => follows_pure (f a)

theorem follows_foldlM {f : α → β → Program (σ × ρ) ε α} {g : α → β → Program σ ε α}
    {l : List β} {a : α} (hf : ∀ a, ∀ b ∈ l, Follows I (f a b) (g a b)) :
    Follows I (l.foldlM f a) (l.foldlM g a) := by
  induction l generalizing a with
  | nil => exact follows_pure a
  | cons b l ih =>
    rw [List.foldlM_cons, List.foldlM_cons]
    exact follows_bind (hf a b List.mem_cons_self)
      fun a' => ih fun a c hc => hf a c (List.mem_cons_of_mem b hc)

/-- A part of the first state. -/
theorem follows_zoomFst {get : σ → τ} {set : τ → σ → σ} {p : Program (τ × ρ) ε α}
    {q : Program τ ε α} (h : Follows I p q) : Follows I (zoomFst get set p) (zoom get set q) := by
  intro s a s' hs hzoom
  obtain ⟨t, hrun, rfl⟩ := returns_zoom.mp hzoom
  obtain ⟨ht, hrun'⟩ := h (get s.1, s.2) a t hs hrun
  exact ⟨ht, returns_zoom.mpr ⟨t.1, hrun', rfl⟩⟩

end Follows

/-! ### What is left of the first state -/

theorem keeps_onFst {R : σ → σ → Prop} {p : Program σ ε α} (hp : Keeps R p) :
    Keeps (Through Prod.fst R) (onFst p : Program (σ × ρ) ε α) := keeps_zoom hp fun _ _ h => h

/-- A change of the first state that the program does not look at. -/
theorem ignores_zoomFst (change : σ → σ) {get : σ → τ} {set : τ → σ → σ}
    (hget : ∀ s, get (change s) = get s) (hset : ∀ t s, set t (change s) = change (set t s))
    (p : Program (τ × ρ) ε α) :
    Ignores (fun s : σ × ρ => (change s.1, s.2)) (zoomFst get set p) := by
  refine ignores_zoom (fun s => ?_) (fun t s => ?_) p
  · exact Prod.ext (hget s.1) rfl
  · exact Prod.ext (hset t.1 s.1) rfl

theorem ignores_onFst {change : σ → σ} {p : Program σ ε α} (hp : Ignores change p) :
    Ignores (fun s : σ × ρ => (change s.1, s.2)) (onFst p) := by
  intro s
  rw [onFst, exec_zoom, exec_zoom, hp s.1]

end RulesAnalyzer.Effect
