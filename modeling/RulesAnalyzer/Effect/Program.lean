import Mathlib.Order.Basic
import Mathlib.Data.List.Basic

/-!
# Programs with a state and exceptions

A program reads and writes a state and may raise an exception; what it wrote
before the exception stays.  A relation between states that holds across every
step holds across a program, whether it returns or raises.

## Main definitions

* `Program`, `exec` — programs and their runs.
* `Keeps` — a relation holds between the states before and after every run.
* `Through`, `Under`, `Preserves` — a relation between images of states, between states that have
  an invariant, and the relation that an invariant makes.
* `Ignores` — a program does not depend on a part of the state.
* `Returns` — a run ends with a value.
* `zoom` — a program on a part of the state.

## Main results

* `keeps_bind`, `keeps_forM`, `keeps_foldlM` — what all steps keep, the program keeps.
* `returns_bind`, `returns_foldlM` — a run that returns, taken apart.
-/

namespace RulesAnalyzer.Effect

variable {σ τ ε α β γ : Type}

/-- Programs on states `σ` that may raise an `ε`. -/
abbrev Program (σ ε : Type) := ExceptT ε (StateM σ)

/-- The outcome of a program and the state after it. -/
def exec (p : Program σ ε α) (s : σ) : Except ε α × σ := StateT.run (ExceptT.run p) s

/-- Runs a program on a part of the state. -/
def zoom (get : σ → τ) (set : τ → σ → σ) (p : Program τ ε α) : Program σ ε α :=
  ExceptT.mk fun s => match exec p (get s) with
    | (outcome, t) => (outcome, set t s)

@[simp] theorem exec_pure (a : α) (s : σ) : exec (pure a : Program σ ε α) s = (.ok a, s) := rfl

@[simp] theorem exec_throw (e : ε) (s : σ) :
    exec (throw e : Program σ ε α) s = (.error e, s) := rfl

@[simp] theorem exec_get (s : σ) : exec (get : Program σ ε σ) s = (.ok s, s) := rfl

@[simp] theorem exec_modify (f : σ → σ) (s : σ) :
    exec (modify f : Program σ ε PUnit) s = (.ok ⟨⟩, f s) := rfl

theorem exec_bind (p : Program σ ε α) (f : α → Program σ ε β) (s : σ) :
    exec (p >>= f) s = match exec p s with
      | (.ok a, s') => exec (f a) s'
      | (.error e, s') => (.error e, s') := by
  rw [exec, ExceptT.run_bind, StateT.run_bind, exec]
  rcases StateT.run (ExceptT.run p) s with ⟨a | a, s'⟩ <;> rfl

theorem exec_bind_ok {p : Program σ ε α} {f : α → Program σ ε β} {s s' : σ} {a : α}
    (h : exec p s = (.ok a, s')) : exec (p >>= f) s = exec (f a) s' := by rw [exec_bind, h]

theorem exec_bind_error {p : Program σ ε α} {f : α → Program σ ε β} {s s' : σ} {e : ε}
    (h : exec p s = (.error e, s')) : exec (p >>= f) s = (.error e, s') := by rw [exec_bind, h]

@[simp] theorem exec_get_bind (f : σ → Program σ ε α) (s : σ) :
    exec (get >>= f) s = exec (f s) s := exec_bind_ok (exec_get s)

@[simp] theorem exec_modify_bind (f : σ → σ) (g : PUnit → Program σ ε α) (s : σ) :
    exec (modify f >>= g) s = exec (g ⟨⟩) (f s) := exec_bind_ok (exec_modify f s)

/-- What follows without an effect does not show in the state. -/
@[simp] theorem exec_bind_pure_snd (p : Program σ ε α) (f : α → β) (s : σ) :
    (exec (p >>= fun a => pure (f a)) s).2 = (exec p s).2 := by
  rw [exec_bind]
  rcases exec p s with ⟨e | a, s'⟩ <;> rfl

@[simp] theorem exec_map (f : α → β) (p : Program σ ε α) (s : σ) :
    exec (f <$> p) s = ((exec p s).1.map f, (exec p s).2) := by
  rw [map_eq_pure_bind, exec_bind]
  rcases exec p s with ⟨a | a, s'⟩ <;> rfl

@[simp] theorem exec_zoom (get : σ → τ) (set : τ → σ → σ) (p : Program τ ε α) (s : σ) :
    exec (zoom get set p) s = ((exec p (get s)).1, set (exec p (get s)).2 s) := rfl

@[simp] theorem exec_ofExcept (r : Except ε α) (s : σ) :
    exec (MonadExcept.ofExcept r : Program σ ε α) s = (r, s) := by cases r <;> rfl

/-- What may fail, and what follows: both parts succeed. -/
theorem bind_eq_ok {r : Except ε α} {f : α → Except ε β} {b : β} :
    (r >>= f) = .ok b ↔ ∃ a, r = .ok a ∧ f a = .ok b := by
  cases r with
  | error e => exact iff_of_false nofun (fun ⟨_, h, _⟩ => nomatch h)
  | ok a =>
    constructor
    · exact fun h => ⟨a, rfl, h⟩
    · rintro ⟨a', ha, h⟩
      exact Except.ok.inj ha ▸ h

/-! ### Relations that programs keep -/

/-- The relation holds between the states before and after every run. -/
def Keeps (R : σ → σ → Prop) (p : Program σ ε α) : Prop := ∀ s, R s (exec p s).2

section Keeps

variable {R : σ → σ → Prop}

theorem keeps_modify {f : σ → σ} (hf : ∀ s, R s (f s)) :
    Keeps R (modify f : Program σ ε PUnit) := hf

theorem keeps_zoom {get : σ → τ} {set : τ → σ → σ} {S : τ → τ → Prop} {p : Program τ ε α}
    (hp : Keeps S p) (hset : ∀ s t, S (get s) t → R s (set t s)) : Keeps R (zoom get set p) :=
  fun s => hset s _ (hp (get s))

theorem keeps_map (f : α → β) {p : Program σ ε α} (hp : Keeps R p) : Keeps R (f <$> p) := by
  intro s
  rw [exec_map]
  exact hp s

/-- What the two parts keep, their sequence keeps. -/
theorem keeps_bind [IsTrans σ R] {p : Program σ ε α} {f : α → Program σ ε β} (hp : Keeps R p)
    (hf : ∀ a, Keeps R (f a)) : Keeps R (p >>= f) := by
  intro s
  have hstep := hp s
  rw [exec_bind]
  rcases hrun : exec p s with ⟨e | a, s'⟩
  · rwa [hrun] at hstep
  · rw [hrun] at hstep
    exact Trans.trans hstep (hf a s')

variable [Std.Refl R]

theorem keeps_pure (a : α) : Keeps R (pure a : Program σ ε α) := fun s => refl s

theorem keeps_throw (e : ε) : Keeps R (throw e : Program σ ε α) := fun s => refl s

theorem keeps_ofExcept (r : Except ε α) : Keeps R (MonadExcept.ofExcept r : Program σ ε α) := by
  intro s
  rw [exec_ofExcept]
  exact refl s

theorem keeps_get : Keeps R (get : Program σ ε σ) := fun s => refl s

variable [IsTrans σ R]

theorem keeps_forM {f : β → Program σ ε PUnit} {l : List β} (hf : ∀ b ∈ l, Keeps R (f b)) :
    Keeps R (l.forM f) := by
  induction l with
  | nil => exact keeps_pure _
  | cons b l ih =>
    rw [List.forM]
    exact keeps_bind (hf b List.mem_cons_self)
      fun _ => ih fun c hc => hf c (List.mem_cons_of_mem b hc)

theorem keeps_foldlM {f : α → β → Program σ ε α} {l : List β} {a : α}
    (hf : ∀ a, ∀ b ∈ l, Keeps R (f a b)) : Keeps R (l.foldlM f a) := by
  induction l generalizing a with
  | nil => exact keeps_pure _
  | cons b l ih =>
    rw [List.foldlM_cons]
    exact keeps_bind (hf a b List.mem_cons_self)
      fun a' => ih fun a c hc => hf a c (List.mem_cons_of_mem b hc)

end Keeps

/-- The relation holds between the images of the states. -/
def Through (f : σ → τ) (R : τ → τ → Prop) (s s' : σ) : Prop := R (f s) (f s')

instance {f : σ → τ} {R : τ → τ → Prop} [Std.Refl R] : Std.Refl (Through f R) :=
  ⟨fun s => refl (f s)⟩

instance {f : σ → τ} {R : τ → τ → Prop} [IsTrans τ R] : IsTrans σ (Through f R) :=
  ⟨fun s s' s'' h h' => IsTrans.trans (f s) (f s') (f s'') h h'⟩

/-- The invariant is kept, and between states that have it the relation holds. -/
def Under (I : σ → Prop) (R : σ → σ → Prop) (s s' : σ) : Prop := I s → I s' ∧ R s s'

section Under

variable {I : σ → Prop} {R : σ → σ → Prop}

instance [Std.Refl R] : Std.Refl (Under I R) := ⟨fun s hs => ⟨hs, refl s⟩⟩

instance [IsTrans σ R] : IsTrans σ (Under I R) where
  trans _ _ _ h h' hs := ⟨(h' (h hs).1).1, Trans.trans (h hs).2 (h' (h hs).1).2⟩

end Under

/-- What holds before holds after. -/
def Preserves (P : σ → Prop) (s s' : σ) : Prop := P s → P s'

instance {P : σ → Prop} : Std.Refl (Preserves P) := ⟨fun _ => id⟩

instance {P : σ → Prop} : IsTrans σ (Preserves P) := ⟨fun _ _ _ h h' hs => h' (h hs)⟩

/-! ### Programs that ignore a change of the state -/

/-- The program does the same after a change of the state, and the change stays. -/
def Ignores (change : σ → σ) (p : Program σ ε α) : Prop :=
  ∀ s, exec p (change s) = ((exec p s).1, change (exec p s).2)

section Ignores

variable {change : σ → σ}

theorem ignores_pure (a : α) : Ignores change (pure a : Program σ ε α) := fun _ => rfl

theorem ignores_zoom {get : σ → τ} {set : τ → σ → σ} (hget : ∀ s, get (change s) = get s)
    (hset : ∀ t s, set t (change s) = change (set t s)) (p : Program τ ε α) :
    Ignores change (zoom get set p) := by
  intro s
  rw [exec_zoom, exec_zoom, hget, hset]

/-- What both parts ignore, their sequence ignores. -/
theorem ignores_bind {p : Program σ ε α} {f : α → Program σ ε β} (hp : Ignores change p)
    (hf : ∀ a, Ignores change (f a)) : Ignores change (p >>= f) := by
  intro s
  rw [exec_bind, exec_bind, hp s]
  rcases exec p s with ⟨e | a, s'⟩
  · rfl
  · exact hf a s'

theorem ignores_map (f : α → β) {p : Program σ ε α} (hp : Ignores change p) :
    Ignores change (f <$> p) := by
  intro s
  rw [exec_map, exec_map, hp s]

end Ignores

/-! ### Runs that return -/

/-- The run from the first state returns the value in the second state. -/
def Returns (p : Program σ ε α) (s : σ) (a : α) (s' : σ) : Prop := exec p s = (.ok a, s')

/-- A program that returns a value ends where it was run to. -/
theorem returns_of_toOption {p : Program σ ε α} {s : σ} {a : α}
    (h : (exec p s).1.toOption = some a) : Returns p s a (exec p s).2 := by
  rcases hrun : exec p s with ⟨fault | b, s'⟩
  · rw [hrun] at h
    exact nomatch h
  · rw [hrun] at h
    obtain rfl := Option.some.inj h
    exact hrun

/-- A program that does not raise returns. -/
theorem returns_of_isSome {p : Program σ ε α} {s : σ}
    (h : (exec p s).1.toOption.isSome = true) : ∃ a s', Returns p s a s' := by
  obtain ⟨a, ha⟩ := Option.isSome_iff_exists.mp h
  exact ⟨a, _, returns_of_toOption ha⟩

@[simp] theorem returns_pure {a b : α} {s s' : σ} :
    Returns (pure a : Program σ ε α) s b s' ↔ a = b ∧ s = s' := by
  rw [Returns, exec_pure, Prod.mk.injEq, Except.ok.injEq]

@[simp] theorem returns_throw {e : ε} {a : α} {s s' : σ} :
    ¬Returns (throw e : Program σ ε α) s a s' := nofun

@[simp] theorem returns_get {s s' a : σ} :
    Returns (get : Program σ ε σ) s a s' ↔ s = a ∧ s = s' := by
  rw [Returns, exec_get, Prod.mk.injEq, Except.ok.injEq]

@[simp] theorem returns_modify {f : σ → σ} {s s' : σ} {a : PUnit} :
    Returns (modify f : Program σ ε PUnit) s a s' ↔ f s = s' := by
  rw [Returns, exec_modify, Prod.mk.injEq]
  exact and_iff_right rfl

@[simp] theorem returns_ofExcept {r : Except ε α} {a : α} {s s' : σ} :
    Returns (MonadExcept.ofExcept r : Program σ ε α) s a s' ↔ r = .ok a ∧ s = s' := by
  rw [Returns, exec_ofExcept, Prod.mk.injEq]

theorem returns_zoom {get : σ → τ} {set : τ → σ → σ} {p : Program τ ε α} {s s' : σ} {a : α} :
    Returns (zoom get set p) s a s' ↔ ∃ t, Returns p (get s) a t ∧ set t s = s' := by
  simp only [Returns, exec_zoom, Prod.mk.injEq]
  constructor
  · intro h
    exact ⟨_, Prod.ext h.1 rfl, h.2⟩
  · intro ⟨t, hrun, hset⟩
    rw [hrun]
    exact ⟨rfl, hset⟩

/-- A sequence returns when its first part does, and the second part then. -/
theorem returns_bind {p : Program σ ε α} {f : α → Program σ ε β} {s s' : σ} {b : β} :
    Returns (p >>= f) s b s' ↔ ∃ a t, Returns p s a t ∧ Returns (f a) t b s' := by
  simp only [Returns, exec_bind]
  rcases exec p s with ⟨e | a, t⟩
  · constructor
    · nofun
    · intro ⟨a, t', h, _⟩
      cases (Prod.mk.inj h).1
  · constructor
    · exact fun h => ⟨a, t, rfl, h⟩
    · intro ⟨a', t', h, hrest⟩
      obtain ⟨ha, rfl⟩ := Prod.mk.inj h
      obtain rfl := Except.ok.inj ha
      exact hrest

theorem returns_map {f : α → β} {p : Program σ ε α} {s s' : σ} {b : β} :
    Returns (f <$> p) s b s' ↔ ∃ a, Returns p s a s' ∧ f a = b := by
  rw [map_eq_pure_bind, returns_bind]
  constructor
  · intro ⟨a, t, hp, hf⟩
    obtain ⟨hb, rfl⟩ := returns_pure.mp hf
    exact ⟨a, hp, hb⟩
  · exact fun ⟨a, hp, hf⟩ => ⟨a, s', hp, returns_pure.mpr ⟨hf, rfl⟩⟩

/-- Either a program returns or it raises. -/
theorem returns_iff_not_raises {p : Program σ ε α} {s : σ} :
    (∃ a s', Returns p s a s') ↔ ¬∃ e s', exec p s = (.error e, s') := by
  rcases hrun : exec p s with ⟨e | a, s'⟩
  · exact iff_of_false (fun ⟨_, _, h⟩ => nomatch (Prod.mk.inj (hrun.symm.trans h)).1)
      (fun h => h ⟨e, s', rfl⟩)
  · exact iff_of_true ⟨a, s', hrun⟩ (fun ⟨_, _, h⟩ => nomatch (Prod.mk.inj h).1)

theorem returns_map_iff {f : α → β} {p : Program σ ε α} {s : σ} :
    (∃ b s', Returns (f <$> p) s b s') ↔ ∃ a s', Returns p s a s' := by
  constructor
  · rintro ⟨b, s', h⟩
    obtain ⟨a, h, -⟩ := returns_map.mp h
    exact ⟨a, s', h⟩
  · rintro ⟨a, s', h⟩
    exact ⟨f a, s', returns_map.mpr ⟨a, h, rfl⟩⟩

theorem returns_foldlM_nil {f : α → β → Program σ ε α} {a a' : α} {s s' : σ} :
    Returns (([] : List β).foldlM f a) s a' s' ↔ a = a' ∧ s = s' := returns_pure

theorem returns_foldlM_cons {f : α → β → Program σ ε α} {a a' : α} {b : β} {l : List β}
    {s s' : σ} : Returns ((b :: l).foldlM f a) s a' s' ↔
      ∃ c t, Returns (f a b) s c t ∧ Returns (l.foldlM f c) t a' s' := by
  rw [List.foldlM_cons, returns_bind]

/-- **What holds of the value and the state is kept by every step of a fold that returns.** -/
theorem returns_foldlM {f : α → β → Program σ ε α} {P : α → σ → Prop} {l : List β}
    (hstep : ∀ a s, ∀ b ∈ l, ∀ a' s', P a s → Returns (f a b) s a' s' → P a' s') {a a' : α}
    {s s' : σ} (h : P a s) (hrun : Returns (l.foldlM f a) s a' s') : P a' s' := by
  induction l generalizing a s with
  | nil =>
    obtain ⟨rfl, rfl⟩ := returns_foldlM_nil.mp hrun
    exact h
  | cons b l ih =>
    obtain ⟨c, t, hb, hrest⟩ := returns_foldlM_cons.mp hrun
    exact ih (fun a s c hc => hstep a s c (List.mem_cons_of_mem b hc))
      (hstep a s b List.mem_cons_self c t h hb) hrest

/-- **What a step adds for its element, a fold that returns adds for all of them in turn.** -/
theorem returns_foldlM_append {f : α → β → Program σ ε α} {P : List β → α → σ → Prop}
    (hstep : ∀ done b a s a' s', P done a s → Returns (f a b) s a' s' → P (done ++ [b]) a' s')
    {done l : List β} {a a' : α} {s s' : σ} (h : P done a s)
    (hrun : Returns (l.foldlM f a) s a' s') : P (done ++ l) a' s' := by
  induction l generalizing done a s with
  | nil =>
    obtain ⟨rfl, rfl⟩ := returns_foldlM_nil.mp hrun
    rwa [List.append_nil]
  | cons b l ih =>
    obtain ⟨c, t, hb, hrest⟩ := returns_foldlM_cons.mp hrun
    rw [List.append_cons]
    exact ih (hstep done b a s c t h hb) hrest

/-- A relation that a program keeps holds across a run that returns. -/
theorem Keeps.returns {R : σ → σ → Prop} {p : Program σ ε α} (hp : Keeps R p) {s s' : σ} {a : α}
    (h : Returns p s a s') : R s s' := by
  have hs := hp s
  rwa [h] at hs

/-- A relation between the states before and after one run of a sequence. -/
theorem rel_bind {R : σ → σ → Prop} [IsTrans σ R] {p : Program σ ε α} {f : α → Program σ ε β}
    {s : σ} (hp : R s (exec p s).2)
    (hf : ∀ a s', Returns p s a s' → R s' (exec (f a) s').2) : R s (exec (p >>= f) s).2 := by
  rcases hrun : exec p s with ⟨e | a, s'⟩
  · rw [exec_bind_error hrun]
    rwa [hrun] at hp
  · rw [exec_bind_ok hrun]
    rw [hrun] at hp
    exact Trans.trans hp (hf a s' hrun)

/-- What the first part keeps, and the second part from where the first one returns. -/
theorem keeps_bind_of_returns {R : σ → σ → Prop} [IsTrans σ R] {p : Program σ ε α}
    {f : α → Program σ ε β} (hp : Keeps R p)
    (hf : ∀ s a s', Returns p s a s' → R s' (exec (f a) s').2) : Keeps R (p >>= f) :=
  fun s => rel_bind (hp s) (hf s)

end RulesAnalyzer.Effect
