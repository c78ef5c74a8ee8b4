import RulesAnalyzer.Buddy.Handles
import RulesAnalyzer.Mvalue

/-!
# The diagrams of model values

The analyzer initialises the package once, with one vector of variables for each
domain, and builds the diagrams of its model values by comparing these vectors with
constants.  All that runs on the node table, so the diagrams of the model are what the
analyzer has in its objects, from the initialisation to the last operation.

## Main definitions

* `initBdd` — the initialisation of the domains.
* `makeBddMvalue` — the diagram of a model value.

## Main results

* `wp_initBdd` — the vectors of the domains are their variables.
* `wp_makeBddMvalue` — **the diagram of a model value refines `Mvalue.makeBdd`.**
-/

namespace RulesAnalyzer.Buddy

open Effect Diagram

/-! ### The domains -/

/-- The second loop of `Domains::init_bdd`; a vector is copied into the list. -/
def initVectors (env : Environment) (offset : ℕ) : List DomainType → KernelM Kernel (List (List ℕ))
  | [] => return []
  | dt :: dts => do
    let v ← bvecVar env dt.nbits offset 1
    let copy ← bvecCopy env v
    bvecFree v
    return copy :: (← initVectors env (offset + dt.nbits) dts)

/-- `Domains::init_bdd`. -/
def initBdd (env : Environment) (nodeSize cacheSize : ℕ) : KernelM Kernel (List (List ℕ)) := do
  bddInit env nodeSize cacheSize
  let _ ← bddSetvarnum env nvars
  initVectors env 0 domains

/-! ### Model values -/

/-- A bound as a vector. -/
def boundBits (env : Environment) (nbits val : ℕ) : KernelM Kernel (List ℕ) :=
  if nbits = 128 then bvecCon128 env nbits (val % 2 ^ 64) (val / 2 ^ 64) else bvecCon env nbits val

/-- Bounds are equal when the object that compares them is the constant. -/
def boundsEqu (env : Environment) (nbits x y : ℕ) : KernelM Kernel Bool := do
  let l ← boundBits env nbits x
  let r ← boundBits env nbits y
  let res ← bddAddref (← bvecEqu env l r)
  let _ ← bddDelref res
  bvecFree r
  bvecFree l
  return res == 1

/-- `Range::operator==`. -/
def rangeEqu (env : Environment) {nbits : ℕ} (r s : Range nbits) : KernelM Kernel Bool := do
  if ← boundsEqu env nbits r.lbound s.lbound then boundsEqu env nbits r.ubound s.ubound
  else return false

/-- An object for the comparison with a bound, whose vector is freed again. -/
def compareBound (env : Environment) (compare : List ℕ → KernelM Kernel ℕ) (nbits val : ℕ) :
    KernelM Kernel ℕ := do
  let bound ← boundBits env nbits val
  let res ← bddAddref (← compare bound)
  bvecFree bound
  return res

/-- `Mvalue::make_bdd`; the comparison with the whole domain is made by the constructor. -/
def makeBddMvalue (env : Environment) (v : Mvalue) (vectors : List (List ℕ)) :
    KernelM Kernel ℕ := do
  let all ← rangeEqu env v.range (Range.full v.dt.nbits)
  let var := vectors.getD v.dt.index []
  if all then bddAddref 1
  else if v.range.isSingleton then
    compareBound env (fun bound => bvecEqu env var bound) v.dt.nbits v.range.lbound
  else
    let condition1 ← compareBound env (fun bound => bvecLte env bound var) v.dt.nbits v.range.lbound
    let condition2 ← compareBound env (fun bound => bvecLte env var bound) v.dt.nbits v.range.ubound
    let res ← bddAddref (← bddApply env condition1 condition2 .and)
    let _ ← bddDelref condition2
    let _ ← bddDelref condition1
    return res

variable {k k' : Kernel} {env : Environment} {c : ℕ → ℕ}

/-! ### Bounds -/

theorem wp_boundBits (h : Owned nvars c k) (nbits val : ℕ) :
    Wp (boundBits env nbits val) (fun v k' => k' = k ∧ Owned nvars (c + bitReferences v) k' ∧
      Bits nvars k' v (Range.boundVec nbits val)) Stops k := by
  rw [boundBits, Range.boundVec]
  split
  · exact wp_bvecCon128 h nbits _ _
  · exact wp_bvecCon h nbits val

theorem referred_bits {v : List ℕ} (c : ℕ → ℕ) : ∀ n ∈ v, 0 < (c + bitReferences v) n :=
  fun _ hn => Nat.add_pos_right _ (List.count_pos_iff.mpr hn)

/-- A comparison with a bound makes an object and leaves no other reference behind. -/
theorem wp_compareBound {compare : List ℕ → KernelM Kernel ℕ} {nbits : ℕ} {a : ModelBdd} (val : ℕ)
    (h : Owned nvars c k) (hcompare : ∀ bound, Owned nvars (c + bitReferences bound) k →
      Bits nvars k bound (Range.boundVec nbits val) →
      Wp (compare bound) (Compared nvars (c + bitReferences bound) k a) Stops k) :
    Wp (compareBound env compare nbits val) (NewObject nvars c k a) Stops k := by
  rw [compareBound, wp_bind]
  refine (wp_boundBits h nbits val).imp ?_
  rintro bound _ ⟨rfl, h₁, hbound⟩
  rw [wp_bind]
  refine (hcompare bound h₁ hbound).imp ?_
  rintro res k₂ ⟨h₂, hspares₂, hres⟩
  rw [wp_bind]
  refine (wp_bddAddref h₂ hres).imp ?_
  rintro _ k₃ ⟨rfl, h₃, hsame₃⟩
  rw [add_right_comm] at h₃
  have hbound := hbound.spared (hspares₂.trans hsame₃.spares) (referred_bits c)
  rw [wp_bind]
  refine (wp_bvecFree h₃ hbound).imp ?_
  rintro _ k₄ ⟨h₄, hsame₄⟩
  have hsame := hsame₃.trans hsame₄
  refine ⟨h₄, ?_, hsame.denotes hres⟩
  exact (hspares₂.mono (le_add c _)).trans hsame.spares

/-- **The comparison of bounds.**  It builds two vectors and compares them, and gives back every
reference that it took meanwhile. -/
theorem wp_boundsEqu (h : Owned nvars c k) {nbits : ℕ} (hpos : 0 < nbits) (x y : ℕ) :
    Wp (boundsEqu env nbits x y) (fun res k' => Owned nvars c k' ∧ Spares nvars c k k' ∧
      res = (Diagram.bvecEqu (Range.boundVec nbits x) (Range.boundVec nbits y) ==
        (bddTrue : ModelBdd)))
      Stops k := by
  rw [boundsEqu, wp_bind]
  refine (wp_boundBits h nbits x).imp ?_
  rintro l _ ⟨rfl, h₁, hl⟩
  rw [wp_bind]
  refine (wp_boundBits h₁ nbits y).imp ?_
  rintro r _ ⟨rfl, h₂, hr⟩
  have hlengthl := hl.length_eq
  have hlengthr := hr.length_eq
  rw [Range.length_boundVec] at hlengthl hlengthr
  have hcl : ∀ n ∈ l, 0 < (c + bitReferences l + bitReferences r) n :=
    fun n hn => pos_add (referred_bits c n hn) _
  rw [wp_bind]
  -- both vectors are referenced while they are compared
  refine (wp_bvecEqu h₂ hl hr hcl (referred_bits _) (by omega) (by omega)).imp ?_
  rintro res k₃ ⟨h₃, hspares₃, hres⟩
  have hl := Bits.spared hl hspares₃ hcl
  have hr := Bits.spared hr hspares₃ (referred_bits _)
  rw [wp_bind]
  -- the result is referenced for as long as it is looked at
  refine (wp_bddAddref h₃ hres).imp ?_
  rintro _ k₄ ⟨rfl, h₄, hsame₄⟩
  rw [wp_bind]
  refine (wp_bddDelref h₄ (hsame₄.denotes hres)).imp ?_
  rintro _ k₅ ⟨-, h₅, hsame₅⟩
  have hsame₅ := hsame₄.trans hsame₅
  rw [wp_bind]
  refine (wp_bvecFree h₅ (hr.recounted hsame₅)).imp ?_
  rintro _ k₆ ⟨h₆, hsame₆⟩
  have hsame₆ := hsame₅.trans hsame₆
  rw [wp_bind]
  refine (wp_bvecFree h₆ (hl.recounted hsame₆)).imp ?_
  rintro _ k₇ ⟨h₇, hsame₇⟩
  have hsame := hsame₆.trans hsame₇
  refine ⟨h₇, ?_, ?_⟩
  · exact (hspares₃.mono ((le_add c _).trans (le_add _ _))).trans hsame.spares
  · -- a diagram has one node
    rw [Bool.eq_iff_iff, beq_iff_eq, beq_iff_eq]
    constructor
    · rintro rfl
      exact Bdd.ext (denotes_one_iff.mp hres)
    · intro htrue
      rw [htrue] at hres
      exact h₃.toTabular.injective hres .one

/-- **The comparison of ranges refines the one on diagrams.** -/
theorem wp_rangeEqu (h : Owned nvars c k) {nbits : ℕ} (hpos : 0 < nbits) (r s : Range nbits) :
    Wp (rangeEqu env r s) (fun res k' => Owned nvars c k' ∧ Spares nvars c k k' ∧ res = r.equ s)
      Stops k := by
  rw [rangeEqu, wp_bind]
  refine (wp_boundsEqu h hpos r.lbound s.lbound).imp ?_
  rintro low k₁ ⟨h₁, hspares₁, hlow⟩
  refine wp_ite (fun htrue => ?_) fun hfalse => ?_
  · refine (wp_boundsEqu h₁ hpos r.ubound s.ubound).imp ?_
    rintro high k₂ ⟨h₂, hspares₂, hhigh⟩
    refine ⟨h₂, hspares₁.trans hspares₂, ?_⟩
    rw [Range.equ, Range.lboundVec, Range.lboundVec, Range.uboundVec, Range.uboundVec, ← hlow,
      ← hhigh, htrue, Bool.true_and]
  · refine ⟨h₁, hspares₁, ?_⟩
    rw [Range.equ, Range.lboundVec, Range.lboundVec, ← hlow, Bool.eq_false_iff.mpr hfalse,
      Bool.false_and]

/-! ### The diagram of a model value -/

/-- The vector of a domain. -/
theorem bits_getD {N : ℕ} {vectors : List (List ℕ)} {vars : List (Bvec (Fin N))}
    (h : List.Forall₂ (Bits N k) vectors vars) (i : ℕ) :
    Bits N k (vectors.getD i []) (vars.getD i []) := by
  induction h generalizing i with
  | nil => exact .nil
  | cons hv _ ih =>
    cases i with
    | zero => exact hv
    | succ i => exact ih i

theorem referred_getD {vectors : List (List ℕ)} (h : ∀ v ∈ vectors, ∀ n ∈ v, 0 < c n) (i : ℕ) :
    ∀ n ∈ vectors.getD i [], 0 < c n := by
  rw [List.getD_eq_getElem?_getD]
  rcases hv : vectors[i]? with _ | v
  · exact List.forall_mem_nil _
  · exact h v (List.mem_of_getElem? hv)

/-- **The diagram of a model value.**  It follows the branches of the source: everything, a
single value, or two comparisons whose results are referenced until they are combined. -/
theorem wp_makeBddMvalue (v : Mvalue) {vectors : List (List ℕ)} (h : Owned nvars c k)
    (hpos : ∀ v ∈ vectors, ∀ n ∈ v, 0 < c n)
    (hvectors : List.Forall₂ (Bits nvars k) vectors (initVars 0 domains)) :
    Wp (makeBddMvalue env v vectors) (NewObject nvars c k v.makeBdd) Stops k := by
  have hnbits := v.dt.nbits_pos
  rw [makeBddMvalue, wp_bind]
  refine (wp_rangeEqu h hnbits v.range (Range.full v.dt.nbits)).imp ?_
  rintro all k₁ ⟨h₁, hspares₁, rfl⟩
  set var := vectors.getD v.dt.index []
  have hvar₀ : Bits nvars k var (getVar v.dt) := bits_getD hvectors v.dt.index
  have hcvar : ∀ n ∈ var, 0 < c n := referred_getD hpos v.dt.index
  have hvar := Bits.spared hvar₀ hspares₁ hcvar
  have hlength := hvar.length_eq
  rw [length_getVar] at hlength
  -- what is compared with a bound
  have hsize : ∀ {k : Kernel} {val : ℕ} {bound : List ℕ},
      Bits nvars k bound (Range.boundVec v.dt.nbits val) → bound.length = v.dt.nbits :=
    fun hbound => hbound.length_eq.trans (Range.length_boundVec _ _)
  rw [Mvalue.makeBdd, Mvalue.all]
  split
  · refine (wp_bddAddref h₁ (t := (bddTrue : ModelBdd).tree) .one).imp ?_
    rintro _ k₂ ⟨rfl, h₂, hsame₂⟩
    exact ⟨h₂, hspares₁.trans hsame₂.spares, .one⟩
  · split
    · refine (wp_compareBound v.range.lbound h₁ fun bound hbound hbits =>
        wp_bvecEqu hbound hvar hbits (fun n hn => pos_add (hcvar n hn) _) (referred_bits c)
          (by rw [hlength, hsize hbits]) (by omega)).imp ?_
      rintro n k₂ ⟨h₂, hspares₂, hn⟩
      exact ⟨h₂, hspares₁.trans hspares₂, hn⟩
    · rw [wp_bind]
      refine (wp_compareBound v.range.lbound h₁ fun bound hbound hbits =>
        wp_bvecLte hbound hbits hvar (referred_bits c) (fun n hn => pos_add (hcvar n hn) _)
          (by rw [hlength, hsize hbits]) (by rw [hsize hbits]; exact hnbits)).imp ?_
      rintro n₁ k₂ ⟨h₂, hspares₂, hn₁⟩
      have hvar := Bits.spared hvar hspares₂ hcvar
      have hcvar := fun n hn => pos_add (hcvar n hn) (Pi.single n₁ 1)
      rw [wp_bind]
      refine (wp_compareBound v.range.ubound h₂ fun bound hbound hbits =>
        wp_bvecLte hbound hvar hbits (fun n hn => pos_add (hcvar n hn) _) (referred_bits _)
          (by rw [hlength, hsize hbits]) (by omega)).imp ?_
      rintro n₂ k₃ ⟨h₃, hspares₃, hn₂⟩
      have hn₁ := hspares₃.denotes (pos_single c n₁) hn₁
      refine wp_temporary (by simp) h₃ (h₃.held (pos_add (pos_single c n₁) _) hn₁)
        (h₃.held (pos_single _ n₂) hn₂) fun res k₄ h₄ hspares₄ hres => ?_
      have hn₂ := hspares₄.denotes (pos_single _ n₂) hn₂
      have hn₁ := hspares₄.denotes (pos_add (pos_single c n₁) _) hn₁
      refine wp_release h₄ (add_right_comm _ _ _) hn₂ fun k₅ h₅ hsame₅ => ?_
      refine wp_release h₅ (add_right_comm _ _ _) (hsame₅.denotes hn₁)
        fun k₆ h₆ hsame₆ => ?_
      have hsame := hsame₅.trans hsame₆
      refine ⟨h₆, ?_, hsame.denotes hres⟩
      have hle := le_add c (Pi.single n₁ 1)
      exact ((hspares₁.trans hspares₂).trans (hspares₃.mono hle)).trans
        ((hspares₄.mono (hle.trans (le_add _ _))).trans hsame.spares)

/-! ### The vectors of the domains -/

theorem bitReferences_append (l l' : List ℕ) :
    bitReferences (l ++ l') = bitReferences l + bitReferences l' :=
  funext fun _ => List.count_append

/-- The vectors of a list of domains. -/
theorem wp_initVectors {offset : ℕ} (dts : List DomainType) (h : Owned nvars c k)
    (hfit : offset + (dts.map DomainType.nbits).sum ≤ nvars) :
    Wp (initVectors env offset dts) (fun vectors k' =>
      Owned nvars (c + bitReferences vectors.flatten) k' ∧ Recounted k k' ∧
      List.Forall₂ (Bits nvars k') vectors (initVars offset dts)) Stops k := by
  induction dts generalizing offset c k with
  | nil => exact ⟨h, .refl k, .nil⟩
  | cons dt dts ih =>
    rw [List.map_cons, List.sum_cons] at hfit
    rw [initVectors, wp_bind]
    refine (wp_bvecVar h fun i hi => by omega).imp ?_
    rintro v _ ⟨rfl, h₁, hv⟩
    rw [wp_bind]
    refine (wp_bvecCopy h₁ hv).imp ?_
    rintro _ k₂ ⟨rfl, h₂, hsame₂⟩
    rw [wp_bind]
    refine (wp_bvecFree h₂ (hv.recounted hsame₂)).imp ?_
    rintro _ k₃ ⟨h₃, hsame₃⟩
    rw [wp_bind]
    refine (ih h₃ (by omega)).imp ?_
    rintro vectors k₄ ⟨h₄, hsame₄, hvectors⟩
    have hsame := (hsame₂.trans hsame₃).trans hsame₄
    rw [wp_pure, List.flatten_cons, bitReferences_append, ← add_assoc]
    exact ⟨h₄, hsame, .cons (hv.recounted hsame) hvectors⟩

/-- **The initialisation of the domains.** -/
theorem wp_initBdd {nodeSize cacheSize : ℕ} (hrunning : k.running = false)
    (hsize : 2 ≤ nodeSize) (hcache : 2 ≤ cacheSize) :
    Wp (initBdd env nodeSize cacheSize) (fun vectors k' =>
      Represents (initVars 0 domains) vectors k' [] []) Stops k := by
  rw [initBdd, wp_bind]
  refine (wp_bddInit (N := nvars) (by decide) hrunning hsize hcache).imp ?_
  rintro _ k₁ h₁
  rw [wp_bind]
  refine (wp_bddSetvarnum h₁ (by decide)).imp ?_
  rintro _ k₂ h₂
  refine (wp_initVectors domains h₂ (by decide)).imp ?_
  rintro vectors k₃ ⟨h₃, -, hvectors⟩
  rw [zero_add] at h₃
  exact represents_nil h₃ hvectors

/-- A model value as a part of a program. -/
def valueBuilder (env : Environment) (v : Mvalue) : Builder env (initVars 0 domains) where
  run := makeBddMvalue env v
  diagram := v.makeBdd
  spec _ _ _ := wp_makeBddMvalue v

end RulesAnalyzer.Buddy
