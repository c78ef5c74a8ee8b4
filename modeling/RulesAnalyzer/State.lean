import RulesAnalyzer.Rule

/-!
# The analysis state

The analyzer keeps three sets of packets while it walks down a rule list: those
accepted so far, those denied so far, and those that remain.  They are the
first-match semantics of the rules it has seen.

## Main definitions

* `State`, `State.update`, `State.run` — the state, one rule, and a list of rules.
* `State.Refines` — the state holds the first-match semantics of a rule list.

## Main results

* `State.update_refines` — **one update appends one rule** to the first-match semantics.
* `State.run_refines` — the state after any list of rules.
* `State.Refines.isSubset_processed`, … — what the comparisons with the state say about the
  first matches.
-/

namespace RulesAnalyzer

open Diagram Mnode RuleList

/-! ### The state -/

/-- The packets that can come in, those accepted, those denied, and those that remain. -/
structure State where
  input : Bddnode
  accepted : Bddnode
  denied : Bddnode
  remaining : Bddnode

namespace State

/-- The state before the first rule. -/
def init (predicate : Predicate) : State where
  input := predicate.makeBdd
  accepted := bddFalse
  denied := bddFalse
  remaining := predicate.makeBdd

/-- The packets decided with an action. -/
def processed (s : State) : RuleAction → Bddnode
  | .allow => s.accepted
  | .deny => s.denied

/-- The packets of the rule that remain get its action. -/
def update (s : State) (action : RuleAction) (predicate : Bddnode) : State :=
  let s := match action with
    -- A <- A Union (R Inter P)
    | .allow => { s with accepted := bddOr s.accepted (bddAnd s.remaining predicate) }
    -- D <- D Union (R Inter P)
    | .deny => { s with denied := bddOr s.denied (bddAnd s.remaining predicate) }
  -- R <- I Inter Not (A Union D)
  { s with remaining := bddAnd s.input (bddNot (bddOr s.accepted s.denied)) }

/-- The state after a list of rules. -/
def run (s : State) (acl : RuleList) : State :=
  acl.foldl (fun s rule => s.update rule.action rule.predicate.makeBdd) s

theorem run_concat (s : State) (acl : RuleList) (rule : Rule) :
    s.run (acl ++ [rule]) = (s.run acl).update rule.action rule.predicate.makeBdd := by
  rw [run, List.foldl_append]
  rfl

/-- The state holds the first-match semantics of a rule list. -/
structure Refines (s : State) (acl : RuleList) : Prop where
  input : s.input = bddTrue
  processed : ∀ action, packets (s.processed action) = decided acl action
  remaining : packets s.remaining = undecided acl

theorem processed_update (s : State) (action action' : RuleAction) (predicate : Bddnode) :
    packets ((s.update action predicate).processed action') = packets (s.processed action') ∪
      {pk | pk ∈ packets s.remaining ∧ pk ∈ packets predicate ∧ action = action'} := by
  refine Set.ext fun pk => ?_
  cases action <;> cases action' <;> simp [update, processed, mem_packets]

theorem remaining_update (s : State) (action : RuleAction) (predicate : Bddnode)
    (h : s.input = bddTrue) : packets (s.update action predicate).remaining =
      {pk | ∀ action', pk ∉ packets ((s.update action predicate).processed action')} := by
  have hinput : (s.update action predicate).input = bddTrue := by cases action <;> exact h
  refine Set.ext fun pk => ?_
  have hmem : pk ∈ packets (s.update action predicate).remaining ↔
      pk ∈ (s.update action predicate).input ∧
        ¬(pk ∈ (s.update action predicate).accepted ∨ pk ∈ (s.update action predicate).denied) := by
    cases action <;> simp [update, mem_packets]
  rw [hmem, hinput, not_or]
  simp only [mem_bddTrue, true_and, Set.mem_ofPred_eq]
  constructor
  · rintro ⟨ha, hd⟩ (_ | _)
    · exact hd
    · exact ha
  · exact fun h => ⟨h .allow, h .deny⟩

theorem init_refines (ipModel : IPAddressModel) : Refines (init (.any ipModel)) [] where
  input := rfl
  processed action := by
    refine Set.ext fun pk => ?_
    cases action <;> simp [init, processed, mem_packets, mem_decided]
  remaining := by
    refine Set.ext fun pk => ?_
    simp [init, Predicate.makeBdd, mem_packets, FirstMatch.undecided]

/-- **One update appends one rule.** -/
theorem update_refines {s : State} {acl : RuleList} (h : Refines s acl) (rule : Rule) :
    Refines (s.update rule.action rule.predicate.makeBdd) (acl ++ [rule]) := by
  have hprocessed : ∀ action, packets ((s.update rule.action rule.predicate.makeBdd).processed
      action) = decided (acl ++ [rule]) action := by
    intro action
    rw [processed_update, h.processed action, h.remaining, RuleList.decided_concat]
    rfl
  refine ⟨?_, hprocessed, ?_⟩
  · have hinput := h.input
    unfold update
    split <;> exact hinput
  · rw [remaining_update _ _ _ h.input]
    refine Set.ext fun pk => ?_
    -- what is neither accepted nor denied is undecided
    simp only [hprocessed, Set.mem_ofPred_eq, mem_decided]
    rw [← decision_eq_none_iff, Option.eq_none_iff_forall_ne_some]

theorem run_refines_append {s : State} {pre : RuleList} (h : Refines s pre) (acl : RuleList) :
    Refines (s.run acl) (pre ++ acl) := by
  induction acl generalizing s pre with
  | nil =>
    rw [List.append_nil]
    exact h
  | cons rule acl ih =>
    have hstep := ih (update_refines h rule)
    rw [List.append_assoc] at hstep
    exact hstep

/-- **The state after a list of rules is its first-match semantics.** -/
theorem run_refines (ipModel : IPAddressModel) (acl : RuleList) :
    Refines ((init (.any ipModel)).run acl) acl :=
  run_refines_append (init_refines ipModel) acl

/-! ### What the comparisons with the state say -/

section Verdicts

variable {s : State} {acl : RuleList} {T : Type} [Mnode T]

theorem Refines.accepted (h : Refines s acl) : packets s.accepted = decided acl .allow :=
  h.processed .allow

theorem Refines.denied (h : Refines s acl) : packets s.denied = decided acl .deny :=
  h.processed .deny

/-- The node only holds packets that remain. -/
theorem Refines.isSubset_remaining (h : Refines s acl) {node : T} :
    isSubset node s.remaining = true ↔ packets node ⊆ undecided acl := by
  rw [isSubset_iff, h.remaining]

theorem Refines.isSubset_processed (h : Refines s acl) {node : T} {action : RuleAction} :
    isSubset node (s.processed action) = true ↔
      ∀ pk ∈ packets node, decision acl pk = some action := by
  rw [isSubset_iff, h.processed]
  exact Iff.rfl

theorem Refines.overlaps_processed (h : Refines s acl) {node : T} {action : RuleAction} :
    overlaps node (s.processed action) = true ↔
      ∃ pk ∈ packets node, decision acl pk = some action := by
  rw [overlaps_iff, h.processed]
  exact Iff.rfl

end Verdicts

end State

end RulesAnalyzer
