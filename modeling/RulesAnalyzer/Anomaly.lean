import RulesAnalyzer.Rule

/-!
# Anomalies

What the analyzer reports about a rule: one class for each kind of anomaly, with
the rules involved, and with a scope, a level and a type that the constructor of
the class sets.

## Main definitions

* `RuleAnomalyDetails`, with `anomalyScope`, `anomalyLevel` and `anomalyType`.
* `RuleAnomaly`, `RuleAnomalies` — an anomaly of a rule, and the result of an analysis.
-/

namespace RulesAnalyzer

/-- How much of a rule the rules before it decide: all of it, or some. -/
inductive RuleAnomalyScope
  | fullyMaskedRule
  | partiallyMaskedRule
  deriving DecidableEq, Repr

/-- How serious an anomaly is. -/
inductive RuleAnomalyLevel
  | warning
  | error
  deriving DecidableEq, Repr

/-- The names of the anomalies in the reports. -/
inductive RuleAnomalyType
  | shadowing
  | redundancy
  | correlation
  | generalization
  | redundancyOrCorrelation
  deriving DecidableEq, Repr

/-- The details of an anomaly, one constructor for each class. -/
inductive RuleAnomalyDetails
  | shadowed (shadowingRules : RuleList)
  | fullRedundant (redundantRules : RuleList)
  | partialRedundant (redundantRules : RuleList)
  | correlated (correlatedRules : RuleList)
  | redundantOrCorrelated (redundantRules correlatedRules : RuleList)
  | generalization (matchingRules : RuleList)
  deriving DecidableEq

namespace RuleAnomalyDetails

/-- How much of the rule is masked, as the constructor of each class says. -/
def anomalyScope : RuleAnomalyDetails → RuleAnomalyScope
  | shadowed _ => .fullyMaskedRule
  | fullRedundant _ => .fullyMaskedRule
  | partialRedundant _ => .partiallyMaskedRule
  | correlated _ => .partiallyMaskedRule
  | redundantOrCorrelated _ _ => .partiallyMaskedRule
  | generalization _ => .partiallyMaskedRule

/-- The level of an anomaly.  Rules that decide some packets and others not, as correlations and
generalizations are, are often meant; the other anomalies are errors. -/
def anomalyLevel : RuleAnomalyDetails → RuleAnomalyLevel
  | shadowed _ => .error
  | fullRedundant _ => .error
  | partialRedundant _ => .error
  | correlated _ => .warning
  | redundantOrCorrelated _ _ => .error
  | generalization _ => .warning

/-- The name under which an anomaly is reported.  The two redundancies share theirs. -/
def anomalyType : RuleAnomalyDetails → RuleAnomalyType
  | shadowed _ => .shadowing
  | fullRedundant _ => .redundancy
  | partialRedundant _ => .redundancy
  | correlated _ => .correlation
  | redundantOrCorrelated _ _ => .redundancyOrCorrelation
  | generalization _ => .generalization

/-- The rules an anomaly names. -/
def rules : RuleAnomalyDetails → RuleList
  | shadowed rules => rules
  | fullRedundant rules => rules
  | partialRedundant rules => rules
  | correlated rules => rules
  | redundantOrCorrelated redundantRules correlatedRules => redundantRules ++ correlatedRules
  | generalization rules => rules

end RuleAnomalyDetails

/-- An anomaly of a rule. -/
structure RuleAnomaly where
  rule : Rule
  details : RuleAnomalyDetails
  deriving DecidableEq

/-- The result of an analysis. -/
structure RuleAnomalies where
  anomalies : List RuleAnomaly
  missingDenyAll : Bool
  deriving DecidableEq

end RulesAnalyzer
