import RulesAnalyzer.Anomaly
import RulesAnalyzer.State
import RulesAnalyzer.Symmetry

/-!
# The analyzer

The two analyses of a rule list: the search for anomalies, one rule after the
other with the state of the rules before, and the search for symmetrical rules.
Both keep the diagrams they have built in a cache indexed by rule id, whose
lookups can fail, and both ask a callback whether to stop.

## Main definitions

* `Bddcache` — the cache.
* `checkRule` — the anomaly of one rule, if any.
* `Loop.step`, `checkAnomaly` — the loop over the rules.
* `checkSymmetry` — the pairs of symmetrical rules.
-/

namespace RulesAnalyzer

open Diagram Mnode RuleList

/-- What ends an analysis early: a rule whose diagram is not in the cache, or the interrupt of the
callback. -/
inductive AnalyzerError
  /-- The exception of `at` for an id that is not in the cache. -/
  | outOfRange
  | interruptError (what : String)
  deriving DecidableEq, Repr

/-- The diagrams built so far, by rule id. -/
abbrev Bddcache := List (ℤ × Bddnode)

namespace Bddcache

/-- The diagram of a rule, if the cache has one. -/
def find (cache : Bddcache) (id : ℤ) : Option Bddnode := cache.lookup id

/-- The `at` method. -/
def get (cache : Bddcache) (id : ℤ) : Except AnalyzerError Bddnode :=
  match cache.find id with
  | some bdd => .ok bdd
  | none => .error .outOfRange

/-- Stores the diagram of a rule.  An older one of the same id is hidden, as `operator[]` replaces
it. -/
def set (cache : Bddcache) (id : ℤ) (bdd : Bddnode) : Bddcache := (id, bdd) :: cache

theorem find_set_self (cache : Bddcache) (id : ℤ) (bdd : Bddnode) :
    (cache.set id bdd).find id = some bdd := by
  rw [find, set, List.lookup_cons_self]

theorem find_set_of_ne (cache : Bddcache) {id id' : ℤ} (bdd : Bddnode) (h : id' ≠ id) :
    (cache.set id bdd).find id' = cache.find id' := by
  rw [find, set, List.lookup_cons, beq_eq_false_iff_ne.mpr h, find]

theorem get_of_find {cache : Bddcache} {id : ℤ} {bdd : Bddnode} (h : cache.find id = some bdd) :
    cache.get id = .ok bdd := by
  rw [get, h]

end Bddcache

namespace Analyzer

/-! ### Anomalies -/

/-- The rules before `rule` that have the given action and whose diagram is related to the
diagram of `rule`. -/
def findBefore (acl : RuleList) (related : Bddnode → Bddnode → Bool) (rule : Rule)
    (action : RuleAction) (cache : Bddcache) : Except AnalyzerError RuleList := do
  let predicateBdd ← cache.get rule.id
  filterBefore rule (fun other =>
    if other.action = action then do
      let otherBdd ← cache.get other.id
      return related predicateBdd otherBdd
    else return false) acl

/-- The rules before whose predicate is a subset of the given rule. -/
def findOtherIsSubset (acl : RuleList) : Rule → RuleAction → Bddcache →
    Except AnalyzerError RuleList :=
  findBefore acl fun predicateBdd otherBdd => isSubset otherBdd predicateBdd

/-- The rules before whose predicate intersects the given rule. -/
def findOverlaping (acl : RuleList) : Rule → RuleAction → Bddcache →
    Except AnalyzerError RuleList :=
  findBefore acl fun predicateBdd otherBdd => overlaps predicateBdd otherBdd

/-- Names the anomaly of a rule that the rules before it match completely.  The cases are tried in
the order of the source: all of it decided the other way, all of it decided the same way, and a
mixture, of which the rules with the other action that overlap are named. -/
def analyzeFullyMaskedRule (acl : RuleList) (rule : Rule) (state : State) (cache : Bddcache) :
    Except AnalyzerError RuleAnomalyDetails := do
  let predicateBdd ← cache.get rule.id
  if isSubset predicateBdd (state.processed rule.action.not) then
    -- shadowed by preceding rules with the other action
    let shadowingRules ← findOverlaping acl rule rule.action.not cache
    return .shadowed shadowingRules
  else if isDisjoint predicateBdd (state.processed rule.action.not) then
    -- redundant by preceding rules with the same action
    let redundantRules ← findOverlaping acl rule rule.action cache
    return .fullRedundant redundantRules
  else
    let correlatedRules ← findOverlaping acl rule rule.action.not cache
    let redundantRules ← findOverlaping acl rule rule.action cache
    return .redundantOrCorrelated redundantRules correlatedRules

/-- One search of the analysis of a partially masked rule: where the guard holds, the rules
found make a report; without any the analysis goes on. -/
def searchIf (guard : Bool) (search : Except AnalyzerError RuleList)
    (report : RuleList → RuleAnomalyDetails)
    (next : Except AnalyzerError (Option RuleAnomalyDetails)) :
    Except AnalyzerError (Option RuleAnomalyDetails) :=
  if guard then do
    let matchingRules ← search
    if matchingRules.length > 0 then return some (report matchingRules) else next
  else next

/-- Names the anomaly of a rule that still decides some packets.  The searches run one after the
other, and the first that finds a rule gives the answer; that order decides which of two anomalies
is reported. -/
def analyzePartiallyMaskedRule (acl : RuleList) (rule : Rule) (state : State)
    (cache : Bddcache) : Except AnalyzerError (Option RuleAnomalyDetails) := do
  let predicateBdd ← cache.get rule.id
  -- search for a generalization rule
  searchIf true (findOtherIsSubset acl rule rule.action.not cache) .generalization <|
  -- search for redundancy
  searchIf (overlaps predicateBdd (state.processed rule.action))
    (findOtherIsSubset acl rule rule.action cache) .partialRedundant <|
  -- search for a correlated rule
  searchIf (overlaps predicateBdd (state.processed rule.action.not))
    (findOverlaping acl rule rule.action.not cache) .correlated <|
  return none

/-- The anomaly of a rule, given the state and the diagrams of the rules before. -/
def checkRule (acl : RuleList) (rule : Rule) (state : State) (cache : Bddcache) :
    Except AnalyzerError (Option RuleAnomaly) := do
  let predicateBdd ← cache.get rule.id
  let anomalyDetails ← (
    -- this is a good rule
    if isSubset predicateBdd state.remaining then pure none
    -- this is a fully masked rule
    else if isNone state.remaining || isDisjoint predicateBdd state.remaining then
      some <$> analyzeFullyMaskedRule acl rule state cache
    -- this is a partially masked rule
    else analyzePartiallyMaskedRule acl rule state cache)
  return anomalyDetails.map fun details => ⟨rule, details⟩

/-- The variables of the loop, and the number of calls of the callback. -/
structure Loop where
  calls : ℕ
  state : State
  cache : Bddcache
  anomalies : List RuleAnomaly

namespace Loop

/-- The state of the loop before the first rule: no packet is processed and nothing is reported. -/
def init (ipModel : IPAddressModel) : Loop where
  calls := 0
  state := State.init (.any ipModel)
  cache := []
  anomalies := []

/-- One round of the loop. -/
def step (acl : RuleList) (interruptCb : ℕ → Bool) (loop : Loop) (rule : Rule) :
    Except AnalyzerError Loop :=
  if interruptCb loop.calls then .error (.interruptError "** interrupted **")
  else do
    let cache := loop.cache.set rule.id rule.predicate.makeBdd
    let anomaly ← (if !(rule.isDenyAll && acl.isLast rule) then
      checkRule acl rule loop.state cache else pure none)
    let predicateBdd ← cache.get rule.id
    return { calls := loop.calls + 1
             state := loop.state.update rule.action predicateBdd
             cache := cache
             anomalies := loop.anomalies ++ anomaly.toList }

end Loop

/-- The anomalies of a rule list.  The callback answers its `n`-th call with
`interruptCb n`. -/
def checkAnomaly (acl : RuleList) (ipModel : IPAddressModel) (interruptCb : ℕ → Bool) :
    Except AnalyzerError RuleAnomalies := do
  let loop ← acl.foldlM (Loop.step acl interruptCb) (Loop.init ipModel)
  return { anomalies := loop.anomalies, missingDenyAll := !isNone loop.state.remaining }

/-! ### Symmetry -/

/-- The variables of the loops that look for symmetrical rules. -/
structure SymmetryLoop where
  calls : ℕ
  cache : Bddcache
  symmetricalRules : List (Rule × Rule)

/-- One round of the inner loop. -/
def SymmetryLoop.step (interruptCb : ℕ → Bool) (rule : Rule) (loop : SymmetryLoop)
    (otherRule : Rule) : Except AnalyzerError SymmetryLoop :=
  let (symmetricalBdd, cache) := match loop.cache.find otherRule.id with
    | some bdd => (bdd, loop.cache)
    | none =>
      let bdd := otherRule.predicate.symmetrical.makeBdd
      (bdd, loop.cache.set otherRule.id bdd)
  if interruptCb loop.calls then .error (.interruptError "** interrupted **")
  else
    -- two rules are symmetrical if the action and the predicates are identical
    let found := rule.action == otherRule.action && equal rule.predicate symmetricalBdd
    .ok { calls := loop.calls + 1
          cache := cache
          symmetricalRules :=
            if found then loop.symmetricalRules ++ [(rule, otherRule)]
            else loop.symmetricalRules }

/-- The outer loop: each rule with all rules after it. -/
def SymmetryLoop.run (interruptCb : ℕ → Bool) (loop : SymmetryLoop) :
    RuleList → Except AnalyzerError SymmetryLoop
  | [] => .ok loop
  | rule :: rules => do
    let loop ← rules.foldlM (SymmetryLoop.step interruptCb rule) loop
    SymmetryLoop.run interruptCb loop rules

/-- The pairs of symmetrical rules.  The code does not read the flag. -/
def checkSymmetry (acl : RuleList) (_strict : Bool) (interruptCb : ℕ → Bool) :
    Except AnalyzerError (List (Rule × Rule)) := do
  let loop ← SymmetryLoop.run interruptCb ⟨0, [], []⟩ acl
  return loop.symmetricalRules

end Analyzer

end RulesAnalyzer
