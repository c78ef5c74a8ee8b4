import RulesAnalyzer.Analysis

/-!
# The verdicts

What the analysis says about a rule depends on three questions about the packets
of the rule and the rules before it: is one of them still undecided, is one of
them first decided with the action of the rule, is one first decided with the
other action?  Only for a partially masked rule does it also depend on which
rules before are contained in the rule.

## Main definitions

* `Fresh`, `Hits` — the three questions.
* `overlappingRules`, `containedRules` — the rules a report can name.
* `Outcome` — the eight outcomes, each with its conditions.

## Main results

* `verdict_eq_iff` — **the verdict is the only outcome whose conditions hold.**
* `reports_iff_outcome` — what the analysis reports is the outcome.
-/

namespace RulesAnalyzer

open Diagram Mnode RuleList

namespace Analyzer

/-- Some packet of the rule is not decided by the rules before. -/
def Fresh (pre : RuleList) (rule : Rule) : Prop :=
  ∃ pk ∈ packets rule.predicate, decision pre pk = none

/-- Some packet of the rule is decided by the rules before with the given action. -/
def Hits (pre : RuleList) (rule : Rule) (action : RuleAction) : Prop :=
  ∃ pk ∈ packets rule.predicate, decision pre pk = some action

/-- The rules before with an action that intersect the rule. -/
def overlappingRules (pre : RuleList) (rule : Rule) (action : RuleAction) : RuleList :=
  overlapping (fun rule => rule.predicate.makeBdd) pre rule action

/-- The rules before with an action that are subsets of the rule. -/
def containedRules (pre : RuleList) (rule : Rule) (action : RuleAction) : RuleList :=
  contained (fun rule => rule.predicate.makeBdd) pre rule action

variable {pre : RuleList} {rule other : Rule} {action : RuleAction}

theorem mem_overlappingRules : other ∈ overlappingRules pre rule action ↔ other ∈ pre ∧
    other.action = action ∧ (packets rule.predicate ∩ packets other.predicate).Nonempty := by
  have h : overlaps (rule.predicate.makeBdd : Bddnode) (other.predicate.makeBdd : Bddnode) = true ↔
      (packets rule.predicate ∩ packets other.predicate).Nonempty := overlaps_iff
  rw [overlappingRules, overlapping, List.mem_filter, Bool.and_eq_true, decide_eq_true_iff, h]

theorem mem_containedRules : other ∈ containedRules pre rule action ↔ other ∈ pre ∧
    other.action = action ∧ packets other.predicate ⊆ packets rule.predicate := by
  have h : isSubset (other.predicate.makeBdd : Bddnode) (rule.predicate.makeBdd : Bddnode) = true ↔
      packets other.predicate ⊆ packets rule.predicate := isSubset_iff
  rw [containedRules, contained, List.mem_filter, Bool.and_eq_true, decide_eq_true_iff, h]

/-- A rule that decides a packet of `rule` overlaps it. -/
theorem overlappingRules_ne_nil (h : Hits pre rule action) :
    overlappingRules pre rule action ≠ [] := by
  obtain ⟨pk, hpk, hd⟩ := h
  obtain ⟨other, hmem, hcovers, haction⟩ := FirstMatch.exists_of_decision hd
  have hother : other ∈ overlappingRules pre rule action :=
    mem_overlappingRules.mpr ⟨hmem, haction, pk, hpk, covers_iff.mp hcovers⟩
  exact List.ne_nil_of_mem hother

/-! ### The three questions -/

theorem nonempty_iff (pre : RuleList) : (packets rule.predicate).Nonempty ↔
    Fresh pre rule ∨ Hits pre rule rule.action ∨ Hits pre rule rule.action.not := by
  constructor
  · rintro ⟨pk, hpk⟩
    rcases hd : decision pre pk with _ | action
    · exact Or.inl ⟨pk, hpk, hd⟩
    · rcases action.eq_or_eq_not rule.action with rfl | rfl
      · exact Or.inr (Or.inl ⟨pk, hpk, hd⟩)
      · exact Or.inr (Or.inr ⟨pk, hpk, hd⟩)
  · rintro (⟨pk, hpk, -⟩ | ⟨pk, hpk, -⟩ | ⟨pk, hpk, -⟩) <;> exact ⟨pk, hpk⟩

theorem not_fresh_iff : ¬Fresh pre rule ↔ ∀ pk ∈ packets rule.predicate, pk ∉ undecided pre := by
  simp only [Fresh, decision_eq_none_iff, not_exists, not_and]

/-- Every packet is decided with one action. -/
theorem forall_decision_iff : (∀ pk ∈ packets rule.predicate, decision pre pk = some action) ↔
    ¬Fresh pre rule ∧ ¬Hits pre rule action.not := by
  constructor
  · intro h
    constructor
    · rintro ⟨pk, hpk, hd⟩
      rw [h pk hpk] at hd
      cases hd
    · rintro ⟨pk, hpk, hd⟩
      rw [h pk hpk, Option.some.injEq] at hd
      exact action.not_ne hd.symm
  · rintro ⟨hfresh, hhits⟩ pk hpk
    rcases hd : decision pre pk with _ | action'
    · exact absurd ⟨pk, hpk, hd⟩ hfresh
    · rcases action'.eq_or_eq_not action with rfl | rfl
      · rfl
      · exact absurd ⟨pk, hpk, hd⟩ hhits

/-- No packet is decided. -/
theorem subset_undecided_iff : packets rule.predicate ⊆ undecided pre ↔
    ¬Hits pre rule rule.action ∧ ¬Hits pre rule rule.action.not := by
  constructor
  · intro h
    constructor <;>
    · rintro ⟨pk, hpk, hd⟩
      rw [decision_eq_none_iff.mpr (h hpk)] at hd
      cases hd
  · rintro ⟨hsame, hother⟩ pk hpk
    rw [← decision_eq_none_iff]
    rcases hd : decision pre pk with _ | action
    · rfl
    · rcases action.eq_or_eq_not rule.action with rfl | rfl
      · exact absurd ⟨pk, hpk, hd⟩ hsame
      · exact absurd ⟨pk, hpk, hd⟩ hother

/-! ### The outcomes -/

/-- The outcomes of the analysis of a rule, with the conditions for each. -/
inductive Outcome (pre : RuleList) (rule : Rule) : Option RuleAnomalyDetails → Prop
  /-- No packet is decided. -/
  | good (hsame : ¬Hits pre rule rule.action) (hother : ¬Hits pre rule rule.action.not) :
      Outcome pre rule none
  /-- All packets are decided with the other action. -/
  | shadowed (hfresh : ¬Fresh pre rule) (hsame : ¬Hits pre rule rule.action)
      (hother : Hits pre rule rule.action.not) :
      Outcome pre rule (some (.shadowed (overlappingRules pre rule rule.action.not)))
  /-- All packets are decided with the action of the rule. -/
  | fullRedundant (hfresh : ¬Fresh pre rule) (hsame : Hits pre rule rule.action)
      (hother : ¬Hits pre rule rule.action.not) :
      Outcome pre rule (some (.fullRedundant (overlappingRules pre rule rule.action)))
  /-- All packets are decided, with both actions. -/
  | redundantOrCorrelated (hfresh : ¬Fresh pre rule) (hsame : Hits pre rule rule.action)
      (hother : Hits pre rule rule.action.not) :
      Outcome pre rule (some (.redundantOrCorrelated (overlappingRules pre rule rule.action)
        (overlappingRules pre rule rule.action.not)))
  /-- Some packets are decided, and the rule contains a rule with the other action. -/
  | generalization (hfresh : Fresh pre rule)
      (hhits : Hits pre rule rule.action ∨ Hits pre rule rule.action.not)
      (hcontained : containedRules pre rule rule.action.not ≠ []) :
      Outcome pre rule (some (.generalization (containedRules pre rule rule.action.not)))
  /-- Some packets are decided, some with the action of the rule, and the rule contains a rule
  with the same action. -/
  | partialRedundant (hfresh : Fresh pre rule) (hsame : Hits pre rule rule.action)
      (hnone : containedRules pre rule rule.action.not = [])
      (hcontained : containedRules pre rule rule.action ≠ []) :
      Outcome pre rule (some (.partialRedundant (containedRules pre rule rule.action)))
  /-- Some packets are decided, some with the other action, and nothing else was found. -/
  | correlated (hfresh : Fresh pre rule) (hother : Hits pre rule rule.action.not)
      (hnone : containedRules pre rule rule.action.not = [])
      (hredundant : ¬(Hits pre rule rule.action ∧ containedRules pre rule rule.action ≠ [])) :
      Outcome pre rule (some (.correlated (overlappingRules pre rule rule.action.not)))
  /-- Some packets are decided, all with the action of the rule, and it contains no rule. -/
  | unreported (hfresh : Fresh pre rule) (hsame : Hits pre rule rule.action)
      (hother : ¬Hits pre rule rule.action.not)
      (hnone : containedRules pre rule rule.action.not = [])
      (hredundant : containedRules pre rule rule.action = []) :
      Outcome pre rule none

/-! ### The tests of the code -/

section Tests

variable {s : State}

theorem isSubset_remaining_iff (h : s.Refines pre) :
    isSubset (rule.predicate.makeBdd : Bddnode) s.remaining = true ↔
      ¬Hits pre rule rule.action ∧ ¬Hits pre rule rule.action.not :=
  h.isSubset_remaining.trans subset_undecided_iff

/-- The test for a fully masked rule: the first disjunct is a special case of the second. -/
theorem masked_iff (h : s.Refines pre) :
    (isNone s.remaining || isDisjoint (rule.predicate.makeBdd : Bddnode) s.remaining) = true ↔
      ¬Fresh pre rule := by
  rw [Bool.or_eq_true, isNone_iff, isDisjoint_iff, h.remaining, not_fresh_iff]
  constructor
  · intro htest pk hpk hu
    rcases htest with hempty | hdisjoint
    · rw [hempty] at hu
      exact hu
    · exact Set.disjoint_left.mp hdisjoint hpk hu
  · exact fun hall => Or.inr (Set.disjoint_left.mpr hall)

theorem isSubset_processed_iff (h : s.Refines pre) :
    isSubset (rule.predicate.makeBdd : Bddnode) (s.processed rule.action.not) = true ↔
      ¬Fresh pre rule ∧ ¬Hits pre rule rule.action := by
  have hall : isSubset (rule.predicate.makeBdd : Bddnode) (s.processed rule.action.not) = true ↔
      ∀ pk ∈ packets rule.predicate, decision pre pk = some rule.action.not :=
    h.isSubset_processed
  rw [hall, forall_decision_iff, RuleAction.not_not]

theorem overlaps_processed_iff (h : s.Refines pre) :
    overlaps (rule.predicate.makeBdd : Bddnode) (s.processed action) = true ↔
      Hits pre rule action := h.overlaps_processed

theorem isDisjoint_processed_iff (h : s.Refines pre) :
    isDisjoint (rule.predicate.makeBdd : Bddnode) (s.processed action) = true ↔
      ¬Hits pre rule action := by
  rw [← overlaps_processed_iff h, overlaps, Bool.not_eq_true', Bool.not_eq_false]

end Tests

theorem outcome_fullyMasked {s : State} (h : s.Refines pre) (hfresh : ¬Fresh pre rule)
    (hhits : Hits pre rule rule.action ∨ Hits pre rule rule.action.not) :
    Outcome pre rule (some (fullyMasked (fun rule => rule.predicate.makeBdd) pre rule s)) := by
  unfold fullyMasked
  by_cases hsame : Hits pre rule rule.action
  · rw [if_neg fun hsub => ((isSubset_processed_iff h).mp hsub).2 hsame]
    by_cases hother : Hits pre rule rule.action.not
    · rw [if_neg fun hdis => (isDisjoint_processed_iff h).mp hdis hother]
      exact .redundantOrCorrelated hfresh hsame hother
    · rw [if_pos ((isDisjoint_processed_iff h).mpr hother)]
      exact .fullRedundant hfresh hsame hother
  · rw [if_pos ((isSubset_processed_iff h).mpr ⟨hfresh, hsame⟩)]
    exact .shadowed hfresh hsame (hhits.resolve_left hsame)

theorem outcome_partiallyMasked {s : State} (h : s.Refines pre) (hfresh : Fresh pre rule)
    (hhits : Hits pre rule rule.action ∨ Hits pre rule rule.action.not) :
    Outcome pre rule (partiallyMasked (fun rule => rule.predicate.makeBdd) pre rule s) := by
  change Outcome pre rule <|
    reportIf true (containedRules pre rule rule.action.not) .generalization <|
    reportIf (overlaps (rule.predicate.makeBdd : Bddnode) (s.processed rule.action))
      (containedRules pre rule rule.action) .partialRedundant <|
    reportIf (overlaps (rule.predicate.makeBdd : Bddnode) (s.processed rule.action.not))
      (overlappingRules pre rule rule.action.not) .correlated none
  -- the tests in the order of the code
  by_cases hgen : containedRules pre rule rule.action.not = []
  · rw [reportIf_neg fun hfound => hfound.2 hgen]
    by_cases hred : Hits pre rule rule.action ∧ containedRules pre rule rule.action ≠ []
    · rw [reportIf_pos ((overlaps_processed_iff h).mpr hred.1) hred.2]
      exact .partialRedundant hfresh hred.1 hgen hred.2
    · rw [reportIf_neg fun hfound => hred ⟨(overlaps_processed_iff h).mp hfound.1, hfound.2⟩]
      by_cases hother : Hits pre rule rule.action.not
      · rw [reportIf_pos ((overlaps_processed_iff h).mpr hother) (overlappingRules_ne_nil hother)]
        exact .correlated hfresh hother hgen hred
      · rw [reportIf_neg fun hfound => hother ((overlaps_processed_iff h).mp hfound.1)]
        have hsame := hhits.resolve_right hother
        have hnil : containedRules pre rule rule.action = [] := by
          by_contra hne
          exact hred ⟨hsame, hne⟩
        exact .unreported hfresh hsame hother hgen hnil
  · rw [reportIf_pos rfl hgen]
    exact .generalization hfresh hhits hgen

/-- The conditions of the verdict hold. -/
theorem outcome_verdict (ipModel : IPAddressModel) (pre : RuleList) (rule : Rule) :
    Outcome pre rule (verdict ipModel pre rule) := by
  have h := State.run_refines ipModel pre
  unfold verdict ruleDetails
  by_cases hgood : ¬Hits pre rule rule.action ∧ ¬Hits pre rule rule.action.not
  · rw [if_pos ((isSubset_remaining_iff h).mpr hgood)]
    exact .good hgood.1 hgood.2
  · rw [if_neg (mt (isSubset_remaining_iff h).mp hgood)]
    have hhits : Hits pre rule rule.action ∨ Hits pre rule rule.action.not := by
      rwa [← not_or, not_not] at hgood
    by_cases hfresh : Fresh pre rule
    · rw [if_neg fun hmasked => (masked_iff h).mp hmasked hfresh]
      exact outcome_partiallyMasked h hfresh hhits
    · rw [if_pos ((masked_iff h).mpr hfresh)]
      exact outcome_fullyMasked h hfresh hhits

/-- No two outcomes have their conditions in common. -/
theorem Outcome.unique {v v' : Option RuleAnomalyDetails} (h : Outcome pre rule v)
    (h' : Outcome pre rule v') : v = v' := by
  cases h <;> cases h' <;> simp_all

/-- **The verdict is the only outcome whose conditions hold.** -/
theorem verdict_eq_iff {ipModel : IPAddressModel} {v : Option RuleAnomalyDetails} :
    verdict ipModel pre rule = v ↔ Outcome pre rule v := by
  constructor
  · rintro rfl
    exact outcome_verdict ipModel pre rule
  · exact (outcome_verdict ipModel pre rule).unique

/-! ### Reports -/

section Reports

variable {post : RuleList} {ipModel : IPAddressModel} {details : RuleAnomalyDetails}

/-- What is reported is the outcome. -/
theorem outcome_of_reports (hids : DistinctIds (pre ++ rule :: post))
    (hreports : Reports (pre ++ rule :: post) ipModel rule details) :
    Outcome pre rule (some details) := by
  have hverdict := ((reports_iff hids).mp hreports).2
  exact verdict_eq_iff.mp hverdict

/-- The outcome is what is reported, unless the rule is a deny-all in last position. -/
theorem reports_iff_outcome (hids : DistinctIds (pre ++ rule :: post))
    (hlast : ¬(rule.isDenyAll = true ∧ post = [])) :
    Reports (pre ++ rule :: post) ipModel rule details ↔ Outcome pre rule (some details) := by
  rw [reports_iff hids, verdict_eq_iff, and_iff_right hlast]

end Reports

end Analyzer

end RulesAnalyzer
