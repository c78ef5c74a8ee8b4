import RulesAnalyzer.Mnode

/-!
# Ranges and model values

A range is an interval of numbers; a model value is a range of one of the
domains.  The diagram of a model value has two shortcuts, for the whole domain
and for a single number.

## Main definitions

* `Range`, `Range.equ` — ranges, and the equality test of the code.
* `Mvalue`, `Mvalue.makeBdd` — model values and their diagrams.

## Main results

* `mem_makeBdd_mvalue` — **the shortcuts do not change the set**: in all three cases the
  diagram holds the packets whose value lies between the two bounds.
* `makeBdd_eq_bounds` — and it is the diagram of the general case.
-/

namespace RulesAnalyzer

open Diagram

/-! ### Ranges -/

/-- All integers between a lower and an upper bound that fit in `nbits` bits. -/
structure Range (nbits : ℕ) where
  /-- The lower bound. -/
  lbound : ℕ
  /-- The upper bound. -/
  ubound : ℕ
  /-- The range is not empty. -/
  lbound_le : lbound ≤ ubound
  /-- The bounds fit in the vectors. -/
  ubound_lt : ubound < 2 ^ nbits
  deriving DecidableEq

namespace Range

variable {nbits : ℕ}

instance : Membership ℕ (Range nbits) := ⟨fun r value => r.lbound ≤ value ∧ value ≤ r.ubound⟩

theorem mem_def {r : Range nbits} {value : ℕ} :
    value ∈ r ↔ r.lbound ≤ value ∧ value ≤ r.ubound := Iff.rfl

theorem lbound_lt (r : Range nbits) : r.lbound < 2 ^ nbits := r.lbound_le.trans_lt r.ubound_lt

/-- A bound as a vector.  The 128 bit bounds are passed as two halves. -/
def boundVec (nbits val : ℕ) : Bvec (Fin nvars) :=
  if nbits = 128 then bvecCon128 nbits (val % 2 ^ 64) (val / 2 ^ 64) else bvecCon nbits val

/-- The vector of the lower bound. -/
def lboundVec (r : Range nbits) : Bvec (Fin nvars) := boundVec nbits r.lbound

/-- The vector of the upper bound. -/
def uboundVec (r : Range nbits) : Bvec (Fin nvars) := boundVec nbits r.ubound

/-- The lower bound equals the upper bound. -/
def isSingleton (r : Range nbits) : Bool := r.lbound == r.ubound

/-- Two ranges are equal when the diagrams that compare their bounds are constantly true. -/
def equ (r s : Range nbits) : Bool :=
  bvecEqu r.lboundVec s.lboundVec == bddTrue && bvecEqu r.uboundVec s.uboundVec == bddTrue

/-- The range of a single number. -/
def singleton (value : ℕ) (h : value < 2 ^ nbits) : Range nbits := ⟨value, value, le_rfl, h⟩

/-- The range of all numbers of `nbits` bits. -/
def full (nbits : ℕ) : Range nbits :=
  ⟨0, 2 ^ nbits - 1, Nat.zero_le _, Nat.sub_lt (Nat.two_pow_pos _) Nat.one_pos⟩

/-- The same range for a width that is written differently. -/
def cast {nbits' : ℕ} (h : nbits = nbits') (r : Range nbits) : Range nbits' :=
  ⟨r.lbound, r.ubound, r.lbound_le, h ▸ r.ubound_lt⟩

@[simp] theorem mem_cast {nbits' : ℕ} {h : nbits = nbits'} {r : Range nbits} {value : ℕ} :
    value ∈ r.cast h ↔ value ∈ r := Iff.rfl

@[simp] theorem mem_singleton {v : ℕ} {h : v < 2 ^ nbits} {value : ℕ} :
    value ∈ singleton v h ↔ value = v := by
  simp only [mem_def, singleton]
  omega

theorem mem_full {value : ℕ} : value ∈ full nbits ↔ value < 2 ^ nbits := by
  have hpos := Nat.two_pow_pos nbits
  simp only [mem_def, full, Nat.zero_le, true_and]
  omega

@[simp] theorem length_boundVec (nbits val : ℕ) : (boundVec nbits val).length = nbits := by
  unfold boundVec
  split
  · exact Bvec.length_bvecCon128 ..
  · exact Bvec.length_bvecCon ..

theorem value_boundVec {nbits val : ℕ} {pk : Packet} (h : val < 2 ^ nbits) :
    Bvec.value pk (boundVec nbits val) = val := by
  unfold boundVec
  split
  · next h128 =>
    subst h128
    exact Bvec.value_bvecCon128 h
  · exact Bvec.value_bvecCon h

/-- Vectors of constants are either equal everywhere or nowhere. -/
theorem bvecEqu_boundVec_iff {v w : ℕ} (hpos : 0 < nbits) (hv : v < 2 ^ nbits)
    (hw : w < 2 ^ nbits) : bvecEqu (boundVec nbits v) (boundVec nbits w) = bddTrue ↔ v = w := by
  have hmem : ∀ pk : Packet, pk ∈ bvecEqu (boundVec nbits v) (boundVec nbits w) ↔ v = w := by
    intro pk
    rw [mem_bvecEqu (by simp) (by simpa using hpos), value_boundVec hv, value_boundVec hw]
  rw [eq_bddTrue_iff]
  exact ⟨fun h => (hmem fun _ => false).mp (h _), fun h pk => (hmem pk).mpr h⟩

/-- **The equality test of the code is equality.** -/
theorem equ_iff (hpos : 0 < nbits) {r s : Range nbits} : r.equ s = true ↔ r = s := by
  rw [equ, Bool.and_eq_true, beq_iff_eq, beq_iff_eq, lboundVec, lboundVec, uboundVec, uboundVec,
    bvecEqu_boundVec_iff hpos r.lbound_lt s.lbound_lt,
    bvecEqu_boundVec_iff hpos r.ubound_lt s.ubound_lt]
  constructor
  · rintro ⟨hl, hu⟩
    cases r
    cases s
    simp only at hl hu
    subst hl hu
    rfl
  · rintro rfl
    exact ⟨rfl, rfl⟩

end Range

/-! ### Model values -/

/-- A range of values of a domain. -/
structure Mvalue where
  /-- The domain to which the range is associated. -/
  dt : DomainType
  /-- The range of values. -/
  range : Range dt.nbits

namespace Mvalue

/-- The range covers the whole domain. -/
def all (v : Mvalue) : Bool := v.range.equ (Range.full v.dt.nbits)

/-- The diagram of a range: constantly true for the whole domain, an equality for a single
number, a comparison with each bound otherwise. -/
def makeBdd (v : Mvalue) : ModelBdd :=
  if v.all then bddTrue
  else if v.range.isSingleton then bvecEqu (getVar v.dt) v.range.lboundVec
  else bddAnd (bvecLte v.range.lboundVec (getVar v.dt)) (bvecLte (getVar v.dt) v.range.uboundVec)

end Mvalue

instance : Mnode Mvalue := ⟨Mvalue.makeBdd⟩

/-- The comparisons with the bounds hold the packets whose value is in the range. -/
theorem mem_bounds {v : Mvalue} {pk : Packet} :
    pk ∈ bddAnd (bvecLte v.range.lboundVec (getVar v.dt))
      (bvecLte (getVar v.dt) v.range.uboundVec) ↔ pk.value v.dt ∈ v.range := by
  have hpos : 0 < v.dt.nbits := v.dt.nbits_pos
  have hllen : v.range.lboundVec.length = v.dt.nbits := Range.length_boundVec ..
  have hulen : v.range.uboundVec.length = v.dt.nbits := Range.length_boundVec ..
  have hvar : (getVar v.dt).length = v.dt.nbits := length_getVar v.dt
  have hl : Bvec.value pk v.range.lboundVec = v.range.lbound :=
    Range.value_boundVec v.range.lbound_lt
  have hu : Bvec.value pk v.range.uboundVec = v.range.ubound :=
    Range.value_boundVec v.range.ubound_lt
  rw [mem_bddAnd, mem_bvecLte (by rw [hvar, hllen]) (by rw [hllen]; exact hpos),
    mem_bvecLte (by rw [hvar, hulen]) (by rw [hvar]; exact hpos), hl, hu]
  exact Iff.rfl

/-- **The shortcuts do not change the set**: the diagram of a range holds the packets whose
value lies between the bounds. -/
theorem mem_makeBdd_mvalue {v : Mvalue} {pk : Packet} :
    pk ∈ v.makeBdd ↔ pk.value v.dt ∈ v.range := by
  have hpos : 0 < v.dt.nbits := v.dt.nbits_pos
  unfold Mvalue.makeBdd
  split
  · next hall =>
    have hfull := (Range.equ_iff hpos).mp hall
    rw [hfull, Range.mem_full]
    simp only [mem_bddTrue, pk.value_lt]
  · split
    · next hsingle =>
      have hllen : v.range.lboundVec.length = v.dt.nbits := Range.length_boundVec ..
      have hvar : (getVar v.dt).length = v.dt.nbits := length_getVar v.dt
      have hl : Bvec.value pk v.range.lboundVec = v.range.lbound :=
        Range.value_boundVec v.range.lbound_lt
      have heq : v.range.lbound = v.range.ubound := beq_iff_eq.mp hsingle
      rw [mem_bvecEqu (by rw [hvar, hllen]) (by rw [hvar]; exact hpos), hl, ← Packet.value,
        Range.mem_def, ← heq]
      exact ⟨fun h => ⟨h.ge, h.le⟩, fun h => le_antisymm h.2 h.1⟩
    · exact mem_bounds

/-- The diagram of a range is always the one of the general case. -/
theorem makeBdd_eq_bounds (v : Mvalue) : v.makeBdd =
    bddAnd (bvecLte v.range.lboundVec (getVar v.dt))
      (bvecLte (getVar v.dt) v.range.uboundVec) :=
  Bdd.eq_iff_mem.mpr fun _ => mem_makeBdd_mvalue.trans mem_bounds.symm

/-- The value of the whole domain is the constant true diagram. -/
theorem makeBdd_full (dt : DomainType) (r : Range dt.nbits) (h : r = Range.full dt.nbits) :
    Mvalue.makeBdd ⟨dt, r⟩ = bddTrue := by
  rw [Mvalue.makeBdd, if_pos]
  exact (Range.equ_iff dt.nbits_pos).mpr h

theorem supported_mvalue {S : Set DomainType} {v : Mvalue} (h : v.dt ∈ S) :
    Supported S v.makeBdd := by
  intro pk pk' hv
  rw [mem_makeBdd_mvalue, mem_makeBdd_mvalue, hv v.dt h]

end RulesAnalyzer
