import RulesAnalyzer.PolicyReader

/-!
# The counts of a load

The loader counts the rows that are added and those that are not, and takes the
number of the disabled rules from the difference to the enabled ones.

## Main definitions

* `PolicyReader.RowsRead` — the rows the loop reads.
* `FirewallFactory.CountsAgree` — the counts of a load add up.

## Main results

* `FirewallFactory.tally_loadRows` — what the loop counts.
* `FirewallFactory.countsAgree_iff` — **when the counts add up.**
-/

namespace RulesAnalyzer

open Csv Effect

/-- The rows the loop reads, up to the end of the file or to a row that is not valid. -/
inductive PolicyReader.RowsRead (delimiter : Char) (interrupted : ℕ → Bool) :
    CsvReader → List (Option RuleObject) → Prop
  | eof {reader reader' : CsvReader}
      (h : reader.nextRow (interrupted reader.rowNumber) = .ok (none, reader')) :
      RowsRead delimiter interrupted reader []
  | invalid {reader reader' : CsvReader} {values : CsvValues}
      (h : reader.nextRow (interrupted reader.rowNumber) = .ok (some values, reader'))
      (hparse : parseRow delimiter reader'.rowNumber values = none) :
      RowsRead delimiter interrupted reader [none]
  | row {reader reader' : CsvReader} {values : CsvValues} {rule : RuleObject}
      {rows : List (Option RuleObject)}
      (h : reader.nextRow (interrupted reader.rowNumber) = .ok (some values, reader'))
      (hparse : parseRow delimiter reader'.rowNumber values = some rule)
      (hrows : RowsRead delimiter interrupted reader' rows) :
      RowsRead delimiter interrupted reader (some rule :: rows)

namespace FirewallFactory

open PolicyReader

variable {config : ModelConfig} {store : ObjectStore} {options : LoaderConfig}
  {interrupted : ℕ → Bool}

/-! ### The loop -/

/-- From one state to another, `n` rows are counted, and those that are loaded are added. -/
structure Tally (n : ℕ) (s t : Loading) : Prop where
  rows : t.status.loadedCount + t.status.errorCount =
    s.status.loadedCount + s.status.errorCount + n
  loaded : t.rules.length + s.status.loadedCount = s.rules.length + t.status.loadedCount

theorem tally_zero (s : Loading) : Tally 0 s s := ⟨rfl, rfl⟩

theorem Tally.trans {m n : ℕ} {s t u : Loading} (h : Tally m s t) (h' : Tally n t u) :
    Tally (n + m) s u := by
  obtain ⟨hrows, hloaded⟩ := h
  obtain ⟨hrows', hloaded'⟩ := h'
  constructor <;> omega

/-- A row that is added or not is counted once.  Adding a rule does not touch the counters, which
the loop sets behind it. -/
theorem tally_addRule {rule : RuleObject} {added : Bool} {s s' : Loading}
    (h : Returns (addRule config store rule) s added s') : Tally 1 s (s'.count added) := by
  have hcounts := @counts_addRule config store rule s
  rw [h] at hcounts
  have hloaded : s'.status.loadedCount = s.status.loadedCount := congrArg Prod.fst hcounts
  have herrors : s'.status.errorCount = s.status.errorCount :=
    congrArg (fun counts => counts.2.1) hcounts
  cases added with
  | true =>
    obtain ⟨-, r, -, hrules⟩ := returns_addRule_true h
    constructor
    · show s'.status.loadedCount + 1 + s'.status.errorCount = _
      omega
    · show s'.rules.length + s.status.loadedCount = s.rules.length + (s'.status.loadedCount + 1)
      rw [hrules, List.length_append, List.length_singleton]
      omega
  | false =>
    have hrules : s'.rules = s.rules := by
      -- the load returned `false`, and it cannot return `true` as well
      have hfalse : ∀ t, ¬Returns (addRule config store rule) s true t := by
        intro t ht
        unfold Returns at h ht
        rw [h] at ht
        cases (Prod.mk.inj ht).1
      have hrules := rules_addRule hfalse
      rwa [h] at hrules
    constructor
    · show s'.status.loadedCount + (s'.status.errorCount + 1) = _
      omega
    · show s'.rules.length + s.status.loadedCount = s.rules.length + s'.status.loadedCount
      rw [hrules]
      omega

/-- The loop stops when there is no row. -/
theorem eq_of_returns_loadRows {depth : ℕ} {reader reader' : CsvReader} {s t : Loading}
    (hnext : PolicyReader.nextRow options.csvListDelimiter reader (interrupted reader.rowNumber) =
      .ok (none, reader'))
    (h : Returns (loadRows config store options interrupted depth reader) s ⟨⟩ t) : t = s := by
  cases depth with
  | zero => exact (returns_throw h).elim
  | succ depth =>
    unfold loadRows at h
    rw [hnext] at h
    obtain ⟨row, s', hrow, h⟩ := returns_bind.mp h
    obtain ⟨hread, rfl⟩ := returns_ofExcept.mp hrow
    obtain rfl := Except.ok.inj hread
    exact (returns_pure.mp h).2.symm

/-- The loop adds a row, counts it, and goes on. -/
theorem returns_loadRows_row {depth : ℕ} {reader reader' : CsvReader} {rule : RuleObject}
    {s t : Loading}
    (hnext : PolicyReader.nextRow options.csvListDelimiter reader (interrupted reader.rowNumber) =
      .ok (some rule, reader'))
    (h : Returns (loadRows config store options interrupted depth reader) s ⟨⟩ t) :
    ∃ depth' added s', Returns (addRule config store rule) s added s' ∧
      Returns (loadRows config store options interrupted depth' reader') (s'.count added) ⟨⟩ t := by
  cases depth with
  | zero => exact (returns_throw h).elim
  | succ depth =>
    unfold loadRows at h
    rw [hnext] at h
    obtain ⟨row, s₀, hrow, h⟩ := returns_bind.mp h
    obtain ⟨hread, rfl⟩ := returns_ofExcept.mp hrow
    obtain rfl := Except.ok.inj hread
    obtain ⟨added, s', hadd, h⟩ := returns_bind.mp h
    obtain ⟨_, s'', hcount, h⟩ := returns_bind.mp h
    obtain rfl := returns_modify.mp hcount
    exact ⟨depth, added, s', hadd, h⟩

theorem nextRow_of_none {delimiter : Char} {reader reader' : CsvReader} {stop : Bool}
    (h : reader.nextRow stop = .ok (none, reader')) :
    PolicyReader.nextRow delimiter reader stop = .ok (none, reader') := by
  unfold PolicyReader.nextRow
  rw [h]

theorem nextRow_of_some {delimiter : Char} {reader reader' : CsvReader} {stop : Bool}
    {values : CsvValues} (h : reader.nextRow stop = .ok (some values, reader')) :
    PolicyReader.nextRow delimiter reader stop =
      .ok (parseRow delimiter reader'.rowNumber values, reader') := by
  unfold PolicyReader.nextRow
  rw [h]

/-- The loop counts the rows that are valid. -/
theorem tally_loadRows {reader : CsvReader} {rows : List (Option RuleObject)}
    (hrows : RowsRead options.csvListDelimiter interrupted reader rows) {depth : ℕ} {s t : Loading}
    (h : Returns (loadRows config store options interrupted depth reader) s ⟨⟩ t) :
    Tally (rows.countP Option.isSome) s t := by
  induction hrows generalizing depth s with
  | eof heof =>
    obtain rfl := eq_of_returns_loadRows (nextRow_of_none heof) h
    exact tally_zero t
  | invalid hrow hparse =>
    obtain rfl := eq_of_returns_loadRows (hparse ▸ nextRow_of_some hrow) h
    exact tally_zero t
  | row hrow hparse _ ih =>
    obtain ⟨depth', added, s', hadd, h⟩ :=
      returns_loadRows_row (hparse ▸ nextRow_of_some hrow) h
    rw [List.countP_cons_of_pos rfl]
    exact (tally_addRule hadd).trans (ih h)

/-! ### The counts -/

/-- The counts of a load add up, with the number of the disabled rules in 64 bits, and the
difference they are taken from is not negative. -/
structure CountsAgree (rows : List (Option RuleObject)) (status : LoaderStatus) (t : Loading) :
    Prop where
  rows : status.loadedCount + status.errorCount = rows.length
  disabled : status.disabledCount =
    (t.rules.filter fun rule => rule.status == .disabled).length % 2 ^ 64
  disabled_le : status.disabledCount ≤ status.loadedCount
  acl_le : t.acl.length ≤ status.loadedCount

theorem length_acl_add (t : Loading) :
    t.acl.length + (t.rules.filter fun rule => rule.status == .disabled).length =
      t.rules.length := by
  unfold Loading.acl
  induction t.rules with
  | nil => rfl
  | cons rule rules ih => cases hstatus : rule.status <;> simp [hstatus] <;> omega

theorem loadedCount_finish (u : Loading) :
    (finish config options u).status.loadedCount = u.status.loadedCount := by
  unfold finish
  split <;> rfl

theorem disabledCount_finish (u : Loading) : (finish config options u).status.disabledCount =
    (u.status.loadedCount + (2 ^ 64 - (finish config options u).acl.length % 2 ^ 64)) % 2 ^ 64 := by
  unfold finish
  split <;> rfl

/-- The rule that denies everything is enabled. -/
theorem lengths_finish (u : Loading) :
    (finish config options u).acl.length =
        u.acl.length + (if options.addImplicitDenyAll then 1 else 0) ∧
      ((finish config options u).rules.filter fun rule => rule.status == .disabled) =
        u.rules.filter fun rule => rule.status == .disabled := by
  unfold finish Loading.acl
  split
  · simp [addDenyAllRule, Loading.addRule]
  · simp

theorem returns_load {text : List Char} {reader : CsvReader} {s t : Loading} {status : LoaderStatus}
    (hcreate : CsvReader.create text PolicyReader.columns = .ok reader)
    (h : Returns (load config store options interrupted text) s status t) :
    ∃ u, Returns (loadRows config store options interrupted (reader.stream.length + 1) reader)
      (start s) ⟨⟩ u ∧ t = finish config options u ∧ status = t.status := by
  unfold load loadRules at h
  rw [hcreate] at h
  obtain ⟨reader', s₀, hreader, h⟩ := returns_bind.mp h
  obtain ⟨hread, rfl⟩ := returns_ofExcept.mp hreader
  obtain rfl := Except.ok.inj hread
  obtain ⟨_, s₁, hstart, h⟩ := returns_bind.mp h
  obtain rfl := returns_modify.mp hstart
  obtain ⟨_, u, hloop, h⟩ := returns_bind.mp h
  obtain ⟨_, s₂, hfinish, h⟩ := returns_bind.mp h
  obtain rfl := returns_modify.mp hfinish
  obtain ⟨s₃, s₄, hget, h⟩ := returns_bind.mp h
  obtain ⟨rfl, rfl⟩ := returns_get.mp hget
  obtain ⟨rfl, rfl⟩ := returns_pure.mp h
  exact ⟨u, hloop, rfl, rfl⟩

/-- Every row is valid when as many are valid as there are. -/
theorem countP_isSome_eq_length_iff {rows : List (Option RuleObject)} :
    rows.countP Option.isSome = rows.length ↔ none ∉ rows := by
  rw [List.countP_eq_length]
  constructor
  · intro hall hmem
    cases hall none hmem
  · intro hmem row hrow
    cases row with
    | none => exact absurd hrow hmem
    | some rule => rfl

/-- **When the counts add up.**  After a load into a firewall without rules, the counts add up
exactly when every row that is read is valid and no rule that denies everything is added. -/
theorem countsAgree_iff {text : List Char} {reader : CsvReader} {rows : List (Option RuleObject)}
    {s t : Loading} {status : LoaderStatus}
    (hcreate : CsvReader.create text PolicyReader.columns = .ok reader)
    (hrows : RowsRead options.csvListDelimiter interrupted reader rows) (hempty : s.rules = [])
    (h : Returns (load config store options interrupted text) s status t) :
    CountsAgree rows status t ↔ none ∉ rows ∧ options.addImplicitDenyAll = false := by
  obtain ⟨u, hloop, rfl, rfl⟩ := returns_load hcreate h
  obtain ⟨hcount, hloaded⟩ := tally_loadRows hrows hloop
  have hstart : (start s).rules.length = 0 ∧ (start s).status.loadedCount = 0 ∧
      (start s).status.errorCount = 0 := by
    refine ⟨?_, rfl, rfl⟩
    show s.rules.length = 0
    rw [hempty, List.length_nil]
  obtain ⟨hrules₀, hloaded₀, herrors₀⟩ := hstart
  have hsum := length_acl_add u
  have herrors := @errorCount_finish config options u
  have hfinish := @loadedCount_finish config options u
  have hdisabled := @disabledCount_finish config options u
  obtain ⟨hacl, hfilter⟩ := @lengths_finish config options u
  rw [← countP_isSome_eq_length_iff]
  constructor
  · intro hagree
    obtain ⟨hrows', hdisabled', -, -⟩ := hagree
    rw [hfilter] at hdisabled'
    refine ⟨by omega, ?_⟩
    -- the rule that denies everything makes the difference one too small
    by_contra hdeny
    rw [if_pos (by simpa using hdeny)] at hacl
    omega
  · intro hcond
    obtain ⟨hrows', hdeny⟩ := hcond
    rw [if_neg (by simp [hdeny])] at hacl
    constructor
    · omega
    · rw [hfilter]
      omega
    · omega
    · omega

theorem countsAgree_witness : ∃ rule t,
    CountsAgree [some rule] { loadedCount := 1, disabledCount := 1 } t ↔
      none ∉ [some rule] ∧ (⟨';', false⟩ : LoaderConfig).addImplicitDenyAll = false := by
  have hload := returns_of_toOption (p := load .dotted (.builtin .ip4Model) ⟨';', false⟩
    (fun _ => false)
    "id,action,src.addr,dst.addr,svc,status\n1,allow,any,any,any,disabled\n".toList)
    (s := newLoading .dotted) (a := { loadedCount := 1, disabledCount := 1 }) (by decide +kernel)
  exact ⟨_, _, countsAgree_iff rfl (.row rfl rfl (.eof rfl)) rfl hload⟩

/-- One row and the rule that denies everything: the difference is 2^64 - 1. -/
theorem countsAgree_underflow : ∃ reader rule t,
    CsvReader.create "id,action,src.addr,dst.addr,svc\n1,allow,any,any,any\n".toList
      PolicyReader.columns = .ok reader ∧
    RowsRead ';' (fun _ => false) reader [some rule] ∧
    Returns (load .dotted (.builtin .ip4Model) ⟨';', true⟩ (fun _ => false)
        "id,action,src.addr,dst.addr,svc\n1,allow,any,any,any\n".toList) (newLoading .dotted)
      { loadedCount := 1, disabledCount := 2 ^ 64 - 1 } t ∧
    ¬CountsAgree [some rule] { loadedCount := 1, disabledCount := 2 ^ 64 - 1 } t := by
  have hload := returns_of_toOption (p := load .dotted (.builtin .ip4Model) ⟨';', true⟩
    (fun _ => false) "id,action,src.addr,dst.addr,svc\n1,allow,any,any,any\n".toList)
    (s := newLoading .dotted) (a := { loadedCount := 1, disabledCount := 2 ^ 64 - 1 })
    (by decide +kernel)
  refine ⟨_, _, _, rfl, .row rfl rfl (.eof rfl), hload, ?_⟩
  intro hagree
  have hle := hagree.disabled_le
  revert hle
  decide

end FirewallFactory

end RulesAnalyzer
