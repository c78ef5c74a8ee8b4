import RulesAnalyzer.Analysis

/-!
# The search for symmetrical rules

The search compares each rule with the symmetrical predicates of all rules after
it, which it keeps in a cache.  This file says which pairs of rules it returns.

## Main definitions

* `RuleList.pairs` — the pairs of rules in the order of the search.
* `Symmetrical` — what the search tests.

## Main results

* `checkSymmetry_eq` — **the search returns the pairs that pass the test**, in order.
* `symmetry_iff` — when the pairs are those of rules that are swaps of each other.
-/

namespace RulesAnalyzer

open Diagram Mnode RuleList

/-! ### Pairs of rules -/

/-- Each rule with the rules after it. -/
def RuleList.pairs : RuleList → List (Rule × Rule)
  | [] => []
  | rule :: rules => rules.map (rule, ·) ++ pairs rules

/-- The pairs are those of two positions of the list. -/
theorem mem_pairs {acl : RuleList} {rule other : Rule} : (rule, other) ∈ acl.pairs ↔
    ∃ before mid after, acl = before ++ rule :: (mid ++ other :: after) := by
  induction acl with
  | nil => simp [pairs]
  | cons head acl ih =>
    rw [pairs, List.mem_append, ih, List.mem_map]
    constructor
    · intro hpair
      rcases hpair with ⟨r, hr, heq⟩ | ⟨before, mid, after, rfl⟩
      · obtain ⟨rfl, rfl⟩ := Prod.mk.inj heq
        obtain ⟨mid, after, rfl⟩ := List.append_of_mem hr
        exact ⟨[], mid, after, rfl⟩
      · exact ⟨head :: before, mid, after, rfl⟩
    · rintro ⟨before, mid, after, hsplit⟩
      cases before with
      | nil =>
        obtain ⟨rfl, rfl⟩ := List.cons.inj hsplit
        exact Or.inl ⟨other, by simp, rfl⟩
      | cons first before =>
        obtain ⟨-, rfl⟩ := List.cons.inj hsplit
        exact Or.inr ⟨before, mid, after, rfl⟩

namespace Analyzer

/-- The test of the search: the actions agree, and the first predicate has the packets of the
symmetrical predicate of the second. -/
def Symmetrical (rules : Rule × Rule) : Bool :=
  rules.1.action == rules.2.action &&
    equal rules.1.predicate (rules.2.predicate.symmetrical.makeBdd : Bddnode)

theorem symmetrical_iff {rule other : Rule} : Symmetrical (rule, other) = true ↔
    rule.action = other.action ∧
      packets rule.predicate = packets other.predicate.symmetrical := by
  have hequal : equal rule.predicate (other.predicate.symmetrical.makeBdd : Bddnode) = true ↔
      packets rule.predicate = packets other.predicate.symmetrical := equal_iff
  rw [Symmetrical, Bool.and_eq_true, beq_iff_eq, hequal]

/-! ### The loops -/

namespace SymmetryLoop

/-- What the cache holds for a rule of the list is its symmetrical predicate. -/
def CacheInv (acl : RuleList) (cache : Bddcache) : Prop :=
  ∀ rule ∈ acl, ∀ bdd, cache.find rule.id = some bdd → bdd = rule.predicate.symmetrical.makeBdd

variable {acl : RuleList} {loop : SymmetryLoop} {rule : Rule}

theorem cacheInv_set {cache : Bddcache} (hids : DistinctIds acl) (h : CacheInv acl cache)
    (hrule : rule ∈ acl) :
    CacheInv acl (cache.set rule.id rule.predicate.symmetrical.makeBdd) := by
  intro r hr bdd hfind
  by_cases hid : r.id = rule.id
  · rw [hid, Bddcache.find_set_self, Option.some.injEq] at hfind
    rw [hids.eq_of_id_eq hr hrule hid, hfind]
  · rw [Bddcache.find_set_of_ne _ _ hid] at hfind
    exact h r hr bdd hfind

/-- **One round of the inner loop** appends the pair if it passes the test. -/
theorem step_inv (hids : DistinctIds acl) (hcache : CacheInv acl loop.cache) (rule : Rule)
    {other : Rule} (hother : other ∈ acl) :
    ∃ loop', step never rule loop other = .ok loop' ∧ CacheInv acl loop'.cache ∧
      loop'.symmetricalRules = loop.symmetricalRules ++ [(rule, other)].filter Symmetrical := by
  have hfilter : (if Symmetrical (rule, other) then loop.symmetricalRules ++ [(rule, other)]
      else loop.symmetricalRules) =
      loop.symmetricalRules ++ [(rule, other)].filter Symmetrical := by
    cases h : Symmetrical (rule, other) <;> simp [h]
  rcases hfind : loop.cache.find other.id with _ | bdd
  · refine ⟨⟨loop.calls + 1, loop.cache.set other.id other.predicate.symmetrical.makeBdd, _⟩, ?_,
      cacheInv_set hids hcache hother, hfilter⟩
    rw [step, hfind]
    rfl
  · obtain rfl := hcache other hother bdd hfind
    refine ⟨⟨loop.calls + 1, loop.cache, _⟩, ?_, hcache, hfilter⟩
    rw [step, hfind]
    rfl

/-- The inner loop. -/
theorem foldlM_inv (hids : DistinctIds acl) (rule : Rule) {rules : RuleList} (hsub : rules ⊆ acl)
    (hcache : CacheInv acl loop.cache) :
    ∃ loop', rules.foldlM (step never rule) loop = .ok loop' ∧ CacheInv acl loop'.cache ∧
      loop'.symmetricalRules =
        loop.symmetricalRules ++ (rules.map (rule, ·)).filter Symmetrical := by
  induction rules generalizing loop with
  | nil => exact ⟨loop, rfl, hcache, by simp⟩
  | cons other rules ih =>
    obtain ⟨hother, hsub⟩ := List.cons_subset.mp hsub
    obtain ⟨loop', hstep, hcache', hfound⟩ := step_inv hids hcache rule hother
    obtain ⟨loop'', hfold, hcache'', hfound'⟩ := ih hsub hcache'
    refine ⟨loop'', ?_, hcache'', ?_⟩
    · rw [List.foldlM_cons, hstep, ok_bind, hfold]
    · rw [hfound', hfound, List.append_assoc, ← List.filter_append]
      rfl

/-- **The loops** collect the pairs that pass the test. -/
theorem run_inv (hids : DistinctIds acl) {rules : RuleList} (hsub : rules ⊆ acl)
    (hcache : CacheInv acl loop.cache) :
    ∃ loop', run never loop rules = .ok loop' ∧ CacheInv acl loop'.cache ∧
      loop'.symmetricalRules = loop.symmetricalRules ++ rules.pairs.filter Symmetrical := by
  induction rules generalizing loop with
  | nil => exact ⟨loop, rfl, hcache, by simp [pairs]⟩
  | cons rule rules ih =>
    obtain ⟨-, hsub⟩ := List.cons_subset.mp hsub
    obtain ⟨loop', hfold, hcache', hfound⟩ := foldlM_inv hids rule hsub hcache
    obtain ⟨loop'', hrun, hcache'', hfound'⟩ := ih hsub hcache'
    refine ⟨loop'', ?_, hcache'', ?_⟩
    · rw [run, hfold, ok_bind, hrun]
    · rw [hfound', hfound, List.append_assoc, ← List.filter_append, pairs]

end SymmetryLoop

/-- **The search returns the pairs that pass the test**, in order. -/
theorem checkSymmetry_eq {acl : RuleList} (hids : DistinctIds acl) (strict : Bool) :
    checkSymmetry acl strict never = .ok (acl.pairs.filter Symmetrical) := by
  have hcache : SymmetryLoop.CacheInv acl [] := by
    intro rule hrule bdd hfind
    cases hfind
  obtain ⟨loop, hrun, -, hfound⟩ :=
    @SymmetryLoop.run_inv acl ⟨0, [], []⟩ hids acl (List.Subset.refl acl) hcache
  rw [checkSymmetry, hrun, ok_bind, hfound, List.nil_append]
  rfl

/-! ### Symmetry as the swap of source and destination -/

/-- A pair is returned exactly when the actions agree and the first rule is the swap of the
second with its negation flags exchanged. -/
theorem mem_symmetrical_iff {acl : RuleList} {rule other : Rule} :
    (rule, other) ∈ acl.pairs.filter Symmetrical ↔
      (rule, other) ∈ acl.pairs ∧ rule.action = other.action ∧
        packets rule.predicate = Packet.swap '' packets other.predicate.exchangeNegations := by
  rw [List.mem_filter, symmetrical_iff, packets_symmetrical]

/-- For one pair: the test of the code agrees with the swap of the second rule exactly when
the flags can be exchanged, or neither of the two swaps gives the first rule. -/
theorem swap_iff {rule other : Rule} :
    (packets rule.predicate = Packet.swap '' packets other.predicate.exchangeNegations ↔
      packets rule.predicate = Packet.swap '' packets other.predicate) ↔
    other.predicate.NegationsExchange ∨
      (packets rule.predicate ≠ Packet.swap '' packets other.predicate ∧
        packets rule.predicate ≠ Packet.swap '' packets other.predicate.exchangeNegations) := by
  have hinj := Packet.swap_involutive.injective.image_injective
  rw [← packets_exchangeNegations_iff]
  constructor
  · intro h
    by_cases hswap : packets rule.predicate = Packet.swap '' packets other.predicate
    · exact Or.inl (hinj ((h.mpr hswap).symm.trans hswap))
    · exact Or.inr ⟨hswap, mt h.mp hswap⟩
  · intro hcond
    rcases hcond with heq | ⟨hswap, hexchange⟩
    · rw [heq]
    · exact iff_of_false hexchange hswap

/-- **Symmetry and the swap.**  The symmetrical predicate has the swapped packets exactly where
the negation flags can be exchanged; twice symmetrical always gives the packets back; and the
pairs returned are those of rules with the same action that are swaps of each other exactly
when, in all pairs with the same action, the flags of the second rule can be exchanged or the
first rule is neither of its two swaps. -/
theorem symmetry_iff (p : Predicate) (acl : RuleList) (strict : Bool) (hids : DistinctIds acl) :
    (packets p.symmetrical = Packet.swap '' packets p ↔ p.NegationsExchange) ∧
    packets p.symmetrical.symmetrical = packets p ∧
    ∃ pairs, checkSymmetry acl strict never = .ok pairs ∧
      ((∀ rule other, (rule, other) ∈ pairs ↔
          (∃ before mid after, acl = before ++ rule :: (mid ++ other :: after)) ∧
            rule.action = other.action ∧
            packets rule.predicate = Packet.swap '' packets other.predicate) ↔
        ∀ before rule mid other after, acl = before ++ rule :: (mid ++ other :: after) →
          rule.action = other.action → other.predicate.NegationsExchange ∨
            (packets rule.predicate ≠ Packet.swap '' packets other.predicate ∧
              packets rule.predicate ≠
                Packet.swap '' packets other.predicate.exchangeNegations)) := by
  refine ⟨packets_symmetrical_iff p, packets_symmetrical_symmetrical p, _,
    checkSymmetry_eq hids strict, ?_⟩
  simp only [mem_symmetrical_iff, mem_pairs, ← swap_iff]
  constructor
  · intro h before rule mid other after hsplit haction
    have hpos : ∃ before mid after, acl = before ++ rule :: (mid ++ other :: after) :=
      ⟨before, mid, after, hsplit⟩
    have hpair := h rule other
    rwa [and_iff_right hpos, and_iff_right hpos, and_iff_right haction,
      and_iff_right haction] at hpair
  · intro h rule other
    refine and_congr_right fun ⟨before, mid, after, hsplit⟩ => ?_
    exact and_congr_right fun haction => h before rule mid other after hsplit haction

/-- A rule that only restricts the addresses. -/
def ofAddresses (id : ℤ) (srcAddresses : SrcAddressGroup) (negateSrcAddresses : Bool)
    (dstAddresses : DstAddressGroup) (negateDstAddresses : Bool) : Rule :=
  ⟨id, "", .enabled, .allow, .ofCriteria {
    Criteria.any .ip4Model with
    sources := ⟨srcAnyZoneGroup, srcAddresses, negateSrcAddresses⟩
    destinations := ⟨dstAnyZoneGroup, dstAddresses, negateDstAddresses⟩ }⟩

/-- The group of one address. -/
def oneAddress (side : Side) : Group (IpAddress side) :=
  .ofItem "" ⟨"", .ip4 (Range.singleton 1 (by decide))⟩

/-- From one source. -/
def fromOne : Rule := ofAddresses 1 (oneAddress .src) false (dstAnyAddressGroup .ip4Model) false

/-- To one destination. -/
def toOne : Rule := ofAddresses 2 (srcAnyAddressGroup .ip4Model) false (oneAddress .dst) false

/-- The rules from a host and to it are the only pair that is returned, and the only rules that are
swaps of each other. -/
theorem symmetry_iff_witness :
    packets fromOne.predicate.symmetrical = Packet.swap '' packets fromOne.predicate ∧
    packets fromOne.predicate.symmetrical.symmetrical = packets fromOne.predicate ∧
    checkSymmetry [fromOne, toOne] true never = .ok [(fromOne, toOne)] ∧
    ∀ rule other, (rule, other) ∈ [(fromOne, toOne)] ↔
      (∃ before mid after, [fromOne, toOne] = before ++ rule :: (mid ++ other :: after)) ∧
        rule.action = other.action ∧
        packets rule.predicate = Packet.swap '' packets other.predicate := by
  have hids : DistinctIds [fromOne, toOne] := by decide +kernel
  obtain ⟨hswap, htwice, pairs, hcheck, hexact⟩ :=
    symmetry_iff fromOne.predicate [fromOne, toOne] true hids
  have hpairs : checkSymmetry [fromOne, toOne] true never = .ok [(fromOne, toOne)] := by
    rw [checkSymmetry_eq hids]
    exact congrArg Except.ok (by decide +kernel)
  obtain rfl := Except.ok.inj (hcheck.symm.trans hpairs)
  refine ⟨hswap.mpr (.inl rfl), htwice, hpairs, hexact.mpr ?_⟩
  intro before rule mid other after hsplit _
  -- neither rule negates its addresses
  have hflags : ∀ r ∈ [fromOne, toOne],
      r.predicate.negateSrcAddresses = r.predicate.negateDstAddresses := by decide +kernel
  exact .inl (.inl (hflags other (by rw [hsplit]; simp)))

/-- All destinations but one. -/
def exceptDst : Rule := ofAddresses 1 (srcAnyAddressGroup .ip4Model) false (oneAddress .dst) true

/-- All sources but one. -/
def exceptSrc : Rule := ofAddresses 2 (oneAddress .src) true (dstAnyAddressGroup .ip4Model) false

/-- The two rules are swaps of each other, but the symmetrical predicate of the second is not
the first, and the pair is not found. -/
theorem symmetrical_wrong :
    packets exceptSrc.predicate.symmetrical ≠ Packet.swap '' packets exceptSrc.predicate ∧
    packets exceptDst.predicate = Packet.swap '' packets exceptSrc.predicate ∧
    checkSymmetry [exceptDst, exceptSrc] true never = .ok [] := by
  have hbdd : makeBdd exceptDst.predicate =
      makeBdd exceptSrc.predicate.exchangeNegations.symmetrical := by decide +kernel
  have hswap : packets exceptDst.predicate = Packet.swap '' packets exceptSrc.predicate := by
    rw [makeBdd_eq_iff.mp hbdd, packets_symmetrical, packets_exchangeNegations_exchangeNegations]
  have hne : makeBdd exceptSrc.predicate.symmetrical ≠ makeBdd exceptDst.predicate := by
    decide +kernel
  refine ⟨?_, hswap, ?_⟩
  · rw [← hswap]
    exact mt makeBdd_eq_iff.mpr hne
  · rw [checkSymmetry_eq (by decide +kernel)]
    exact congrArg Except.ok (by decide +kernel)

end Analyzer

end RulesAnalyzer
