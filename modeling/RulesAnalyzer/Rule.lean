import RulesAnalyzer.Predicate
import RulesAnalyzer.Policy.FirstMatch

/-!
# Rules and rule lists

A rule allows or denies the packets of its predicate.  Rules are compared by
address in the code; here by value, which is the same in a list whose rules have
distinct ids.

## Main definitions

* `Rule`, `RuleList` — rules and lists of rules.
* `filterBefore` — the rules before a sentinel that satisfy a test.
* `RuleList.decision`, `RuleList.decided`, `RuleList.undecided` — what a list of rules is for:
  the first rule that matches a packet decides it.
-/

namespace RulesAnalyzer

open Diagram Mnode

/-- What a rule does with a packet that it matches. -/
inductive RuleAction
  | deny
  | allow
  deriving DecidableEq, Repr

/-- The opposite action: `operator!`. -/
def RuleAction.not : RuleAction → RuleAction
  | allow => deny
  | deny => allow

@[simp] theorem RuleAction.not_not (action : RuleAction) : action.not.not = action := by
  cases action <;> rfl

theorem RuleAction.not_ne (action : RuleAction) : action.not ≠ action := by
  cases action <;> decide

theorem RuleAction.ne_iff {a b : RuleAction} : a ≠ b ↔ a = b.not := by
  cases a <;> cases b <;> decide

theorem RuleAction.eq_or_eq_not (a b : RuleAction) : a = b ∨ a = b.not := by
  cases a <;> cases b <;> decide

/-- Whether a rule takes part in decisions. -/
inductive RuleStatus
  | disabled
  | enabled
  deriving DecidableEq, Repr

/-- A security rule. -/
structure Rule where
  id : ℤ
  name : String
  status : RuleStatus
  action : RuleAction
  predicate : Predicate
  deriving DecidableEq

/-- A deny rule whose predicate represents every packet. -/
def Rule.isDenyAll (rule : Rule) : Bool := rule.action == .deny && isAny rule.predicate

/-- An enabled rule that only restricts the source zone. -/
def Rule.ofSrcZones (id : ℤ) (action : RuleAction) (zones : List (Fin 256)) : Rule :=
  ⟨id, "", .enabled, action, .ofSrcZones zones⟩

/-- An access control list. -/
abbrev RuleList := List Rule

namespace RuleList

/-- The given rule is the last of the list. -/
def isLast (acl : RuleList) (rule : Rule) : Bool := acl.getLast? == some rule

/-- The rules before `sentinel` that satisfy `predicate`, which may raise an error. -/
def filterBefore {ε : Type} (sentinel : Rule) (predicate : Rule → Except ε Bool) :
    RuleList → Except ε RuleList
  | [] => .ok []
  | rule :: rules =>
    if rule = sentinel then .ok []
    else do
      let selected ← predicate rule
      let rest ← filterBefore sentinel predicate rules
      return if selected then rule :: rest else rest

/-- Up to the sentinel the list is filtered; what the test does later is irrelevant. -/
theorem filterBefore_eq {ε : Type} {sentinel : Rule} {predicate : Rule → Except ε Bool}
    {test : Rule → Bool} {acl : RuleList}
    (htest : ∀ rule ∈ acl.takeWhile (· ≠ sentinel), predicate rule = .ok (test rule)) :
    filterBefore sentinel predicate acl = .ok ((acl.takeWhile (· ≠ sentinel)).filter test) := by
  induction acl with
  | nil => rfl
  | cons rule acl ih =>
    by_cases hs : rule = sentinel
    · rw [filterBefore, if_pos hs, List.takeWhile_cons_of_neg (by simpa using hs),
        List.filter_nil]
    · have hwhile : (rule :: acl).takeWhile (· ≠ sentinel) =
          rule :: acl.takeWhile (· ≠ sentinel) := List.takeWhile_cons_of_pos (by simpa using hs)
      rw [hwhile] at htest ⊢
      have hrest := ih fun r hr => htest r (List.mem_cons_of_mem _ hr)
      rw [filterBefore, if_neg hs, htest rule List.mem_cons_self, hrest, List.filter_cons]
      rfl

/-- The rules before the first occurrence of a rule. -/
theorem takeWhile_ne_eq {pre post : RuleList} {rule : Rule} (h : rule ∉ pre) :
    (pre ++ rule :: post).takeWhile (· ≠ rule) = pre := by
  rw [List.takeWhile_append_of_pos, List.takeWhile_cons_of_neg (by simp), List.append_nil]
  intro r hr
  rw [decide_eq_true_eq]
  rintro rfl
  exact h hr

theorem takeWhile_ne_subset (pre post : RuleList) (rule : Rule) :
    (pre ++ rule :: post).takeWhile (· ≠ rule) ⊆ pre := by
  induction pre with
  | nil =>
    rw [List.nil_append, List.takeWhile_cons_of_neg (by simp)]
    exact List.Subset.refl _
  | cons r pre ih =>
    rw [List.cons_append]
    by_cases hr : r = rule
    · rw [List.takeWhile_cons_of_neg (by simpa using hr)]
      exact List.nil_subset _
    · rw [List.takeWhile_cons_of_pos (by simpa using hr)]
      exact List.cons_subset_cons _ ih

/-- The ids of the rules are distinct. -/
def DistinctIds (acl : RuleList) : Prop := (acl.map Rule.id).Nodup

instance (acl : RuleList) : Decidable (DistinctIds acl) :=
  inferInstanceAs (Decidable (acl.map Rule.id).Nodup)

theorem DistinctIds.ne {pre post : RuleList} {rule : Rule}
    (h : DistinctIds (pre ++ rule :: post)) : ∀ r ∈ pre, r.id ≠ rule.id := by
  intro r hr hid
  rw [DistinctIds, List.map_append, List.nodup_append] at h
  exact h.2.2 r.id (List.mem_map_of_mem hr) rule.id (by simp) hid

theorem DistinctIds.notMem {pre post : RuleList} {rule : Rule}
    (h : DistinctIds (pre ++ rule :: post)) : rule ∉ pre := fun hr => h.ne rule hr rfl

theorem DistinctIds.notMem_post {pre post : RuleList} {rule : Rule}
    (h : DistinctIds (pre ++ rule :: post)) : rule ∉ post := by
  intro hr
  rw [DistinctIds, List.map_append, List.nodup_append, List.map_cons, List.nodup_cons] at h
  exact h.2.1.1 (List.mem_map_of_mem hr)

theorem DistinctIds.eq_of_id_eq {acl : RuleList} (h : DistinctIds acl) {r r' : Rule}
    (hr : r ∈ acl) (hr' : r' ∈ acl) (hid : r.id = r'.id) : r = r' :=
  List.inj_on_of_nodup_map h hr hr' hid

/-- In a list with distinct ids a rule occurs at one place. -/
theorem DistinctIds.split_unique {pre post pre' post' : RuleList} {rule : Rule}
    (h : DistinctIds (pre ++ rule :: post)) (heq : pre ++ rule :: post = pre' ++ rule :: post') :
    pre = pre' ∧ post = post' := by
  have h' : DistinctIds (pre' ++ rule :: post') := heq ▸ h
  have hpre : pre = pre' := by
    rw [← takeWhile_ne_eq h.notMem, heq, takeWhile_ne_eq h'.notMem]
  subst hpre
  rw [List.append_cancel_left_eq, List.cons.injEq] at heq
  exact ⟨rfl, heq.2⟩

theorem DistinctIds.isLast_iff {pre post : RuleList} {rule : Rule}
    (h : DistinctIds (pre ++ rule :: post)) :
    isLast (pre ++ rule :: post) rule = true ↔ post = [] := by
  rw [isLast, beq_iff_eq]
  rcases List.eq_nil_or_concat post with rfl | ⟨init, last, rfl⟩
  · simp
  · have hlast : (pre ++ rule :: init.concat last).getLast? = some last := by
      rw [List.concat_eq_append, ← List.cons_append, ← List.append_assoc,
        List.getLast?_append_of_ne_nil _ (List.cons_ne_nil _ _)]
      rfl
    rw [hlast, Option.some.injEq]
    constructor
    · rintro rfl
      exact absurd (by simp) h.notMem_post
    · intro hnil
      simp at hnil

/-! ### First-match semantics -/

/-- The rule matches the packet. -/
def covers (rule : Rule) (pk : Packet) : Bool := decide (pk ∈ rule.predicate.makeBdd)

@[simp] theorem covers_iff {rule : Rule} {pk : Packet} :
    covers rule pk = true ↔ pk ∈ packets rule.predicate := decide_eq_true_iff

/-- The first rule that matches a packet. -/
abbrev firstMatch (acl : RuleList) (pk : Packet) : Option Rule :=
  FirstMatch.firstMatch covers acl pk

/-- The action of the first rule that matches a packet. -/
abbrev decision (acl : RuleList) (pk : Packet) : Option RuleAction :=
  FirstMatch.decision covers Rule.action acl pk

/-- The packets whose first matching rule has the given action. -/
abbrev decided (acl : RuleList) (action : RuleAction) : Set Packet :=
  FirstMatch.decided covers Rule.action acl action

/-- The packets that no rule matches. -/
abbrev undecided (acl : RuleList) : Set Packet := FirstMatch.undecided covers acl

theorem mem_decided {acl : RuleList} {action : RuleAction} {pk : Packet} :
    pk ∈ decided acl action ↔ decision acl pk = some action := Iff.rfl

theorem decision_eq_none_iff {acl : RuleList} {pk : Packet} :
    decision acl pk = none ↔ pk ∈ undecided acl := FirstMatch.decision_eq_none_iff

theorem mem_undecided {acl : RuleList} {pk : Packet} :
    pk ∈ undecided acl ↔ ∀ rule ∈ acl, pk ∉ packets rule.predicate := by
  simp only [undecided, FirstMatch.undecided, Set.mem_ofPred_eq, ← Bool.not_eq_true, covers_iff]

theorem decided_concat (acl : RuleList) (rule : Rule) (action : RuleAction) :
    decided (acl ++ [rule]) action = decided acl action ∪
      {pk | pk ∈ undecided acl ∧ pk ∈ packets rule.predicate ∧ rule.action = action} := by
  rw [decided, FirstMatch.decided_concat]
  simp only [covers_iff]

theorem undecided_concat (acl : RuleList) (rule : Rule) :
    undecided (acl ++ [rule]) = undecided acl \ packets rule.predicate := by
  rw [undecided, FirstMatch.undecided_concat]
  simp only [covers_iff]
  rfl

/-- Every packet is allowed, denied or undecided. -/
theorem decided_union (acl : RuleList) :
    decided acl .allow ∪ decided acl .deny ∪ undecided acl = Set.univ := by
  refine Set.eq_univ_of_forall fun pk => ?_
  rw [Set.mem_union, Set.mem_union, mem_decided, mem_decided, ← decision_eq_none_iff]
  rcases h : decision acl pk with _ | action
  · exact Or.inr rfl
  · cases action with
    | allow => exact Or.inl (Or.inl rfl)
    | deny => exact Or.inl (Or.inr rfl)

theorem disjoint_decided (acl : RuleList) : Disjoint (decided acl .allow) (decided acl .deny) := by
  rw [Set.disjoint_left]
  intro pk ha hd
  have h : some RuleAction.allow = some RuleAction.deny :=
    (mem_decided.mp ha).symm.trans (mem_decided.mp hd)
  cases h

theorem disjoint_undecided (acl : RuleList) (action : RuleAction) :
    Disjoint (decided acl action) (undecided acl) := by
  rw [Set.disjoint_left]
  intro pk hd hu
  have h : none = some action :=
    (decision_eq_none_iff.mpr hu).symm.trans (mem_decided.mp hd)
  cases h

end RuleList

end RulesAnalyzer
