import RulesAnalyzer.State

/-!
# The comparison of policies

The comparator computes the packets a policy allows and those it denies with a
loop of its own: no third set of remaining packets, but a set difference at each
rule, and disabled rules are skipped on the way.

## Main definitions

* `PolicyListComparator.computeBdd`, `PolicyListComparator.compare` — the comparator.

## Main results

* `PolicyListComparator.comparator_agrees` — **the comparator computes the state of the
  enabled rules and decides equivalence.**
-/

namespace RulesAnalyzer

open Diagram Mnode RuleList

/-- The relation between the allowed sets and between the denied sets of two policies. -/
structure PolicylistRelationShip where
  allowed : MnodeRelationship
  denied : MnodeRelationship
  deriving DecidableEq, Repr

namespace PolicyListComparator

/-- One round of the loop, with the packets allowed and denied so far. -/
def step (bdds : Bddnode × Bddnode) (rule : Rule) : Bddnode × Bddnode :=
  if rule.status = .enabled then
    if rule.action = .allow then
      (bddOr bdds.1 (bddDiff rule.predicate.makeBdd bdds.2), bdds.2)
    else
      (bdds.1, bddOr bdds.2 (bddDiff rule.predicate.makeBdd bdds.1))
  else bdds

/-- The packets a policy allows and those it denies. -/
def computeBdd (acl : RuleList) : Bddnode × Bddnode := acl.foldl step (bddFalse, bddFalse)

/-- Compares two policies. -/
def compare (acl₁ acl₂ : RuleList) : PolicylistRelationShip :=
  let bdds₁ := computeBdd acl₁
  let bdds₂ := computeBdd acl₂
  { allowed := Mnode.compare bdds₁.1 bdds₂.1, denied := Mnode.compare bdds₁.2 bdds₂.2 }

/-- The enabled rules of a policy. -/
def enabledRules (acl : RuleList) : RuleList := acl.filter fun rule => rule.status == .enabled

/-- The sets are those the list decides. -/
def Agrees (bdds : Bddnode × Bddnode) (acl : RuleList) : Prop :=
  packets bdds.1 = decided acl .allow ∧ packets bdds.2 = decided acl .deny

/-- What a list leaves to the next rule is what it does not decide with the opposite action,
up to packets it decides with the same action. -/
theorem decided_concat_eq (acl : RuleList) (rule : Rule) :
    decided (acl ++ [rule]) rule.action = decided acl rule.action ∪
      packets rule.predicate \ decided acl rule.action.not := by
  refine Set.ext fun pk => ?_
  rw [RuleList.decided_concat]
  have hnone : pk ∈ undecided acl ↔ decision acl pk = none :=
    decision_eq_none_iff.symm
  simp only [Set.mem_union, Set.mem_ofPred_eq, Set.mem_sdiff, mem_decided, and_true,
    hnone]
  rcases hd : decision acl pk with _ | action
  · simp
  · rcases action.eq_or_eq_not rule.action with rfl | rfl
    · simp
    · simp [RuleAction.not_ne]

theorem decided_concat_not (acl : RuleList) (rule : Rule) :
    decided (acl ++ [rule]) rule.action.not = decided acl rule.action.not := by
  rw [RuleList.decided_concat]
  simp [(RuleAction.not_ne rule.action).symm]

theorem packets_or_diff (a p b : Bddnode) :
    packets (bddOr a (bddDiff p b) : Bddnode) = packets a ∪ packets p \ packets b := by
  refine Set.ext fun pk => ?_
  simp [mem_packets]

/-- One round appends one rule, if it is enabled. -/
theorem step_agrees {bdds : Bddnode × Bddnode} {acl : RuleList} (h : Agrees bdds acl)
    (rule : Rule) : Agrees (step bdds rule) (acl ++ enabledRules [rule]) := by
  obtain ⟨hallowed, hdenied⟩ := h
  unfold step
  by_cases hen : rule.status = .enabled
  · have hrules : enabledRules [rule] = [rule] := by simp [enabledRules, hen]
    have hsame := decided_concat_eq acl rule
    have hother := decided_concat_not acl rule
    rw [hrules, if_pos hen]
    rcases haction : rule.action with _ | _
    · rw [haction] at hsame hother
      refine ⟨hallowed.trans hother.symm, ?_⟩
      rw [hsame, RuleAction.not, ← hallowed, ← hdenied]
      exact packets_or_diff _ _ _
    · rw [haction] at hsame hother
      refine ⟨?_, hdenied.trans hother.symm⟩
      rw [hsame, RuleAction.not, ← hallowed, ← hdenied]
      exact packets_or_diff _ _ _
  · have hrules : enabledRules [rule] = [] := by simp [enabledRules, hen]
    rw [hrules, List.append_nil, if_neg hen]
    exact ⟨hallowed, hdenied⟩

theorem foldl_step_agrees {bdds : Bddnode × Bddnode} {pre : RuleList} (h : Agrees bdds pre)
    (acl : RuleList) : Agrees (acl.foldl step bdds) (pre ++ enabledRules acl) := by
  induction acl generalizing bdds pre with
  | nil =>
    rw [enabledRules, List.filter_nil, List.append_nil]
    exact h
  | cons rule acl ih =>
    have hrest := ih (step_agrees h rule)
    have hsplit : enabledRules (rule :: acl) = enabledRules [rule] ++ enabledRules acl := by
      rw [enabledRules, enabledRules, enabledRules, ← List.filter_append]
      rfl
    rw [hsplit, ← List.append_assoc]
    exact hrest

theorem computeBdd_agrees (acl : RuleList) : Agrees (computeBdd acl) (enabledRules acl) := by
  have hinit : Agrees (bddFalse, bddFalse) [] := by
    constructor <;> ext pk <;> simp [mem_packets, mem_decided]
  exact foldl_step_agrees hinit acl

/-- Two lists with the same allowed and the same denied packets decide alike. -/
theorem forall_decision_eq_iff (acl₁ acl₂ : RuleList) :
    (∀ pk, decision acl₁ pk = decision acl₂ pk) ↔
      decided acl₁ .allow = decided acl₂ .allow ∧ decided acl₁ .deny = decided acl₂ .deny := by
  constructor
  · intro h
    constructor <;> ext pk <;> rw [mem_decided, mem_decided, h pk]
  · rintro ⟨hallow, hdeny⟩ pk
    have hmem : ∀ action, decision acl₁ pk = some action ↔ decision acl₂ pk = some action := by
      intro action
      cases action with
      | allow => exact Set.ext_iff.mp hallow pk
      | deny => exact Set.ext_iff.mp hdeny pk
    exact Option.ext hmem

/-- Two policies compare equal when their enabled rules decide alike. -/
theorem compare_equal_iff (acl₁ acl₂ : RuleList) :
    PolicyListComparator.compare acl₁ acl₂ = ⟨.equal, .equal⟩ ↔
      ∀ pk, decision (enabledRules acl₁) pk = decision (enabledRules acl₂) pk := by
  obtain ⟨hallowed₁, hdenied₁⟩ := computeBdd_agrees acl₁
  obtain ⟨hallowed₂, hdenied₂⟩ := computeBdd_agrees acl₂
  rw [forall_decision_eq_iff, ← hallowed₁, ← hallowed₂, ← hdenied₁, ← hdenied₂,
    ← compare_eq_equal_iff, ← compare_eq_equal_iff, PolicyListComparator.compare,
    PolicylistRelationShip.mk.injEq]

end PolicyListComparator

open PolicyListComparator in
/-- **The comparator agrees with the analyzer and decides equivalence.**  Its two sets are the
accepted and the denied set of the state after the enabled rules, and it reports them both
equal exactly when every packet gets the same decision from the enabled rules. -/
theorem comparator_agrees :
    (∀ (ipModel : IPAddressModel) (acl : RuleList), computeBdd acl =
      (((State.init (.any ipModel)).run (enabledRules acl)).accepted,
        ((State.init (.any ipModel)).run (enabledRules acl)).denied)) ∧
      ∀ acl₁ acl₂ : RuleList, PolicyListComparator.compare acl₁ acl₂ = ⟨.equal, .equal⟩ ↔
        ∀ pk, decision (enabledRules acl₁) pk = decision (enabledRules acl₂) pk := by
  refine ⟨fun ipModel acl => ?_, compare_equal_iff⟩
  have hstate := State.run_refines ipModel (enabledRules acl)
  obtain ⟨hallowed, hdenied⟩ := computeBdd_agrees acl
  exact Prod.ext (makeBdd_eq_iff.mpr (hallowed.trans hstate.accepted.symm))
    (makeBdd_eq_iff.mpr (hdenied.trans hstate.denied.symm))

end RulesAnalyzer
