import RulesAnalyzer.HostFactory
import RulesAnalyzer.PolicyReader

/-!
# Bad rows and good rows

A row of a policy file would be added on its own when a file of this row alone would
add it: to the network and with the hosts that are cached before the file is loaded.
In the file the row meets what the rows before it left in the caches.  The loop stops
at a row with a bad field, and an exception leaves it.

## Main definitions

* `HostFactory.load` — loads the rules of a file, with the host resolver.
* `HostFactory.loadEach` — what the loop is for: row by row, whatever the rows before it are.
* `HostFactory.RowEffect` — a row that would be added on its own, with a new id, is added, and any
  other row only counts as an error.
* `HostFactory.Proceeds` — the loop goes on after a row.

## Main results

* `HostFactory.rowEffect_iff` — when a row at its turn has the effect it has on its own.
* `HostFactory.returns_runRows` — the loop handles all rows when it goes on after each.
* `HostFactory.load_iff` — **when a bad row takes no good rows with it.**
-/

namespace RulesAnalyzer

open Csv Effect

namespace HostFactory

variable (resolverConfig : ResolverConfig) (config : ModelConfig) (store : ObjectStore)
  (options : LoaderConfig)

/-! ### The loop -/

/-- Counts a row. -/
def count (s : Loading × FqdnResolver) (added : Bool) : Loading × FqdnResolver :=
  (s.1.count added, s.2)

/-- The state at the start of a load. -/
def start (s : Loading × FqdnResolver) : Loading × FqdnResolver := (FirewallFactory.start s.1, s.2)

/-- What is done after the last row. -/
def finish (s : Loading × FqdnResolver) : Loading × FqdnResolver :=
  (FirewallFactory.finish config options s.1, s.2)

/-- Reads and adds rows until there is none.  Every row takes a part of the stream, so the
depth never runs out when it starts above the length of the stream. -/
def loadRows (interrupted : ℕ → Bool) :
    ℕ → CsvReader → Program (Loading × FqdnResolver) Fault PUnit
  | 0, _ => throw .undefined
  | depth + 1, reader => do
    let row ← MonadExcept.ofExcept
      (PolicyReader.nextRow options.csvListDelimiter reader (interrupted reader.rowNumber))
    match row.1 with
    | none => pure ⟨⟩
    | some rule =>
      let added ← addRule resolverConfig config store rule
      modify fun s => count s added
      loadRows interrupted depth row.2

/-- Loads the rules of a file. -/
def loadRules (interrupted : ℕ → Bool) (reader : CsvReader) :
    Program (Loading × FqdnResolver) Fault LoaderStatus := do
  modify start
  loadRows resolverConfig config store options interrupted (reader.stream.length + 1) reader
  modify (finish config options)
  let s ← get
  pure s.1.status

/-- Loads the rules of a text. -/
def load (interrupted : ℕ → Bool) (csvStream : List Char) :
    Program (Loading × FqdnResolver) Fault LoaderStatus := do
  let reader ← MonadExcept.ofExcept
    ((CsvReader.create csvStream PolicyReader.columns).mapError PolicyReader.fault)
  loadRules resolverConfig config store options interrupted reader

/-! ### What the loop is for -/

/-- A row at its turn: a row that is not valid, or that raises, only counts as an error. -/
def loadRow (s : Loading × FqdnResolver) : Option RuleObject → Loading × FqdnResolver
  | none => count s false
  | some rule => match exec (addRule resolverConfig config store rule) s with
    | (.ok added, s') => count s' added
    | (.error _, s') => count s' false

/-- Row by row, in the order of the file. -/
def loadEach (s : Loading × FqdnResolver) (rows : List (Option RuleObject)) :
    Loading × FqdnResolver := rows.foldl (loadRow resolverConfig config store) s

/-- The rule of a row is added after the rules that are there, and only counts as loaded. -/
def AddsRow (rule : RuleObject) (s s' : Loading) : Prop :=
  (∃ action status criteria, ruleAction rule.action = some action ∧
      ruleStatus rule.status = some status ∧
      s'.rules = s.rules ++ [⟨rule.id, rule.name, status, action, .ofCriteria criteria⟩]) ∧
    s'.status.loadedCount = s.status.loadedCount + 1 ∧ s'.status.errorCount = s.status.errorCount

/-- A row only adds to the error count. -/
def CountsError (s s' : Loading) : Prop :=
  s'.rules = s.rules ∧ s'.status.loadedCount = s.status.loadedCount ∧
    s'.status.errorCount = s.status.errorCount + 1

/-- A row that would be added to the state before the file, and whose id is new, is added; any
other row only adds to the error count. -/
def RowEffect (before s : Loading × FqdnResolver) (row : Option RuleObject)
    (s' : Loading × FqdnResolver) : Prop :=
  match row with
  | none => CountsError s.1 s'.1
  | some rule =>
    (AddedAlone resolverConfig config store rule before ∧ s.1.getRule rule.id = none →
      AddsRow rule s.1 s'.1) ∧
    (¬(AddedAlone resolverConfig config store rule before ∧ s.1.getRule rule.id = none) →
      CountsError s.1 s'.1)

/-- The row is valid, and adding it does not raise. -/
def Proceeds (s : Loading × FqdnResolver) (row : Option RuleObject) : Prop :=
  ∃ rule, row = some rule ∧
    ∃ added s', Returns (addRule resolverConfig config store rule) s added s'

/-- Every row proceeds at its turn. -/
def AllProceed (s : Loading × FqdnResolver) (rows : List (Option RuleObject)) : Prop :=
  ∀ pre row post, rows = pre ++ row :: post →
    Proceeds resolverConfig config store (loadEach resolverConfig config store s pre) row

/-- What the loop does with rows that are read. -/
def runRows : List (Option RuleObject) → Program (Loading × FqdnResolver) Fault PUnit
  | [] => pure ⟨⟩
  | none :: _ => pure ⟨⟩
  | some rule :: rows => do
    let added ← addRule resolverConfig config store rule
    modify fun s => count s added
    runRows rows

/-! ### Rows at their turn -/

section Rows

variable {resolverConfig config store options} {rule : RuleObject} {s : Loading × FqdnResolver}

theorem exec_loadRow (rule : RuleObject) (s : Loading × FqdnResolver) :
    ∃ added, loadRow resolverConfig config store s (some rule) =
        count (exec (addRule resolverConfig config store rule) s).2 added ∧
      (added = true ↔ ∃ t, Returns (addRule resolverConfig config store rule) s true t) := by
  rw [loadRow]
  unfold Returns
  rcases exec (addRule resolverConfig config store rule) s with ⟨fault | added, s'⟩
  · exact ⟨false, rfl, iff_of_false Bool.false_ne_true nofun⟩
  · refine ⟨added, rfl, fun h => ⟨s', by rw [h]⟩, fun ⟨_, h⟩ => ?_⟩
    exact Except.ok.inj (Prod.mk.inj h).1

/-- **A row that would be added without the rules that are there, with a new id, is added.** -/
theorem loadRow_good (h : AddedAlone resolverConfig config store rule s)
    (hnew : s.1.getRule rule.id = none) :
    AddsRow rule s.1 (loadRow resolverConfig config store s (some rule)).1 := by
  obtain ⟨t, hrun⟩ := exists_returns_addRule_iff.mpr ⟨h, hnew⟩
  obtain ⟨added, hload, hadded⟩ := @exec_loadRow resolverConfig config store rule s
  obtain rfl := hadded.mpr ⟨t, hrun⟩
  obtain ⟨-, action, status, criteria, s', haction, hstatus, hbuild, rfl⟩ :=
    returns_addRule_true.mp hrun
  have hbuilds := (builds_buildCriteria resolverConfig config store rule).returns hbuild
  obtain ⟨hloaded, herrors⟩ := Prod.mk.inj hbuilds.counts
  rw [hload, hrun]
  refine ⟨⟨action, status, criteria, haction, hstatus, ?_⟩, ?_, (Prod.mk.inj herrors).1⟩
  · exact congrArg (· ++ _) hbuilds.rules
  · exact congrArg (· + 1) hloaded

/-- **A row that would not be added without the rules that are there, or whose id is taken, only
adds to the error count.** -/
theorem loadRow_bad (h : ¬(AddedAlone resolverConfig config store rule s ∧
      s.1.getRule rule.id = none)) :
    CountsError s.1 (loadRow resolverConfig config store s (some rule)).1 := by
  rw [← exists_returns_addRule_iff] at h
  obtain ⟨added, hload, hadded⟩ := @exec_loadRow resolverConfig config store rule s
  have hfalse : added = false := by
    rw [Bool.eq_false_iff, ne_eq, hadded]
    exact h
  have hbuilds := builds_addRule (not_exists.mp h)
  obtain ⟨hloaded, herrors⟩ := Prod.mk.inj hbuilds.counts
  rw [hload, hfalse]
  exact ⟨hbuilds.rules, hloaded, congrArg (· + 1) (Prod.mk.inj herrors).1⟩

/-- A row is not added and counted as an error at the same time. -/
theorem AddsRow.not_countsError {s s' : Loading} (h : AddsRow rule s s') : ¬CountsError s s' := by
  intro h'
  exact absurd (h.2.2.symm.trans h'.2.2) (Nat.lt_succ_self _).ne

/-- **When a row at its turn has the effect it has on its own**: the rows before it did not change
whether it is added, unless its id is taken. -/
theorem rowEffect_iff {before : Loading × FqdnResolver} :
    RowEffect resolverConfig config store before s (some rule)
        (loadRow resolverConfig config store s (some rule)) ↔
      (s.1.getRule rule.id = none → (AddedAlone resolverConfig config store rule before ↔
        AddedAlone resolverConfig config store rule s)) := by
  constructor
  · rintro ⟨hgood, hbad⟩ hnew
    constructor
    · intro halone
      by_contra hnot
      exact (hgood ⟨halone, hnew⟩).not_countsError (loadRow_bad fun h => hnot h.1)
    · intro hturn
      by_contra hnot
      exact (loadRow_good hturn hnew).not_countsError (hbad fun h => hnot h.1)
  · intro h
    refine ⟨fun ⟨halone, hnew⟩ => loadRow_good ((h hnew).mp halone) hnew, fun hnot => ?_⟩
    exact loadRow_bad fun ⟨hturn, hnew⟩ => hnot ⟨(h hnew).mpr hturn, hnew⟩

theorem loadRow_errorCount_le (row : Option RuleObject) (s : Loading × FqdnResolver) :
    s.1.status.errorCount ≤
      (loadRow resolverConfig config store s row).1.status.errorCount := by
  cases row with
  | none => exact Nat.le_succ _
  | some rule =>
    by_cases h : AddedAlone resolverConfig config store rule s ∧ s.1.getRule rule.id = none
    · exact (loadRow_good h.1 h.2).2.2.ge
    · exact (loadRow_bad h).2.2 ▸ Nat.le_succ _

theorem loadEach_errorCount_le (rows : List (Option RuleObject)) (s : Loading × FqdnResolver) :
    s.1.status.errorCount ≤
      (loadEach resolverConfig config store s rows).1.status.errorCount := by
  induction rows generalizing s with
  | nil => exact le_rfl
  | cons row rows ih => exact (loadRow_errorCount_le row s).trans (ih _)

theorem loadEach_concat (rows : List (Option RuleObject)) (row : Option RuleObject)
    (s : Loading × FqdnResolver) : loadEach resolverConfig config store s (rows ++ [row]) =
      loadRow resolverConfig config store (loadEach resolverConfig config store s rows) row := by
  rw [loadEach, List.foldl_concat]
  rfl

end Rows

/-! ### The loop and the rows -/

section Loop

variable {resolverConfig config store options} {s : Loading × FqdnResolver}

theorem allProceed_nil : AllProceed resolverConfig config store s [] :=
  fun _ _ _ h => absurd h.symm (List.append_ne_nil_of_right_ne_nil _ (List.cons_ne_nil _ _))

theorem allProceed_cons {row : Option RuleObject} {rows : List (Option RuleObject)} :
    AllProceed resolverConfig config store s (row :: rows) ↔
      Proceeds resolverConfig config store s row ∧
        AllProceed resolverConfig config store (loadRow resolverConfig config store s row)
          rows := by
  constructor
  · intro h
    exact ⟨h [] row rows rfl, fun pre row' post heq => h (row :: pre) row' post (by rw [heq]; rfl)⟩
  · intro ⟨hrow, hrows⟩ pre row' post heq
    cases pre with
    | nil =>
      obtain ⟨rfl, -⟩ := List.cons.inj heq
      exact hrow
    | cons first pre =>
      obtain ⟨rfl, hrest⟩ := List.cons.inj heq
      exact hrows pre row' post hrest

/-- A row that proceeds is added or not by the loop as it is at its turn. -/
theorem returns_runRows_cons {rule : RuleObject} {rows : List (Option RuleObject)}
    {t : Loading × FqdnResolver} :
    Returns (runRows resolverConfig config store (some rule :: rows)) s ⟨⟩ t ↔
      Proceeds resolverConfig config store s (some rule) ∧
        Returns (runRows resolverConfig config store rows)
          (loadRow resolverConfig config store s (some rule)) ⟨⟩ t := by
  rw [runRows, returns_bind]
  constructor
  · rintro ⟨added, s', hrun, hrest⟩
    obtain ⟨_, s'', hcount, hrest⟩ := returns_bind.mp hrest
    obtain rfl := returns_modify.mp hcount
    have hload : loadRow resolverConfig config store s (some rule) = count s' added := by
      rw [loadRow, hrun]
    rw [hload]
    exact ⟨⟨rule, rfl, added, s', hrun⟩, hrest⟩
  · rintro ⟨⟨rule', hrule, added, s', hrun⟩, hrest⟩
    obtain rfl := Option.some.inj hrule
    have hload : loadRow resolverConfig config store s (some rule) = count s' added := by
      rw [loadRow, hrun]
    rw [hload] at hrest
    exact ⟨added, s', hrun, returns_bind.mpr ⟨⟨⟩, _, rfl, hrest⟩⟩

/-- **The loop handles all rows when it goes on after each.** -/
theorem returns_runRows {rows : List (Option RuleObject)}
    (h : AllProceed resolverConfig config store s rows) :
    Returns (runRows resolverConfig config store rows) s ⟨⟩
      (loadEach resolverConfig config store s rows) := by
  induction rows generalizing s with
  | nil => rfl
  | cons row rows ih =>
    obtain ⟨hrow, hrows⟩ := allProceed_cons.mp h
    obtain ⟨rule, rfl, -⟩ := id hrow
    exact returns_runRows_cons.mpr ⟨hrow, ih hrows⟩

/-- A loop that returns with the error count of all rows has read all rows. -/
theorem allProceed_of_returns {rows : List (Option RuleObject)} {t : Loading × FqdnResolver}
    (h : Returns (runRows resolverConfig config store rows) s ⟨⟩ t)
    (herrors : t.1.status.errorCount =
      (loadEach resolverConfig config store s rows).1.status.errorCount) :
    AllProceed resolverConfig config store s rows := by
  induction rows generalizing s with
  | nil => exact allProceed_nil
  | cons row rows ih =>
    cases row with
    | none =>
      -- the loop stops without counting the row
      obtain ⟨-, rfl⟩ := returns_pure.mp h
      have hle := @loadEach_errorCount_le resolverConfig config store rows (count s false)
      have hlt : s.1.status.errorCount < (count s false).1.status.errorCount := Nat.lt_succ_self _
      exact absurd herrors (hlt.trans_le hle).ne
    | some rule =>
      obtain ⟨hrow, hrest⟩ := returns_runRows_cons.mp h
      exact allProceed_cons.mpr ⟨hrow, ih hrest herrors⟩

/-- The loop runs over the rows of the file, and its depth does not run out.  A row that is not
valid ends the loop, as an exception leaves it. -/
theorem loadRows_eq {text : List Char} {records : List CsvValues} (hrecords : Records text records)
    (hne : ∀ record ∈ records, record ≠ []) {reader : CsvReader} (hstream : reader.stream = text)
    (heof : reader.eof = false) {depth : ℕ} (hdepth : records.length < depth) :
    loadRows resolverConfig config store options (fun _ => false) depth reader =
      runRows resolverConfig config store
        (PolicyReader.readRows options.csvListDelimiter reader reader.rowNumber records) := by
  induction hrecords generalizing reader depth with
  | nil =>
    obtain ⟨depth, rfl⟩ := Nat.exists_eq_succ_of_ne_zero (Nat.ne_zero_of_lt hdepth)
    have hend : nextRecord readerOptions reader.stream = .ok ([], []) := by
      rw [hstream]
      rfl
    rw [loadRows, PolicyReader.nextRow, CsvReader.nextRow_record heof hend]
    rfl
  | @cons text rest record records _ h _ ih =>
    obtain ⟨depth, rfl⟩ := Nat.exists_eq_succ_of_ne_zero (Nat.ne_zero_of_lt hdepth)
    obtain ⟨hrecord, hrest⟩ := List.forall_mem_cons.mp hne
    have hnext := @ih hrest { reader with stream := rest, rowNumber := reader.rowNumber + 1 } rfl
      heof depth (Nat.lt_of_succ_lt_succ hdepth)
    -- the row is parsed in the same way, and the loop goes on behind it
    rw [loadRows, FirewallFactory.nextRow_record heof hrecord (hstream ▸ h), PolicyReader.readRows]
    rcases PolicyReader.parseRow options.csvListDelimiter (reader.rowNumber + 1)
      (reader.assignRecord record) with _ | rule
    · rfl
    · rw [PolicyReader.readRows_next] at hnext
      exact congrArg (fun loop => do
        let added ← addRule resolverConfig config store rule
        modify fun s => count s added
        loop) hnext

/-- A load runs the loop over the rows of the file. -/
theorem exec_load {text : List Char} {reader : CsvReader} {records : List CsvValues}
    (hcreate : CsvReader.create text PolicyReader.columns = .ok reader)
    (hrecords : Records reader.stream records) (hne : ∀ record ∈ records, record ≠ [])
    (s : Loading × FqdnResolver) :
    exec (load resolverConfig config store options (fun _ => false) text) s =
      match exec (runRows resolverConfig config store
        (PolicyReader.readRows options.csvListDelimiter reader reader.rowNumber records))
          (start s) with
      | (.ok _, t) => (.ok (finish config options t).1.status, finish config options t)
      | (.error fault, t) => (.error fault, t) := by
  have hreader : (MonadExcept.ofExcept ((CsvReader.create text PolicyReader.columns).mapError
      PolicyReader.fault) : Program (Loading × FqdnResolver) Fault CsvReader) = pure reader := by
    rw [hcreate]
    rfl
  obtain ⟨-, -, heof⟩ := CsvReader.create_eq_ok hcreate
  have hloop := @loadRows_eq resolverConfig config store options _ _ hrecords hne reader rfl heof
    (reader.stream.length + 1) (Nat.lt_succ_of_le (FirewallFactory.length_records_le hrecords))
  rw [load, hreader, pure_bind, loadRules, exec_modify_bind, hloop, exec_bind]
  rcases exec (runRows resolverConfig config store (PolicyReader.readRows options.csvListDelimiter
    reader reader.rowNumber records)) (start s) with ⟨fault | _, t⟩ <;> rfl

/-- A load handles all rows exactly when the loop goes on after each. -/
theorem exists_returns_load_iff {text : List Char} {reader : CsvReader} {records : List CsvValues}
    (hcreate : CsvReader.create text PolicyReader.columns = .ok reader)
    (hrecords : Records reader.stream records) (hne : ∀ record ∈ records, record ≠ [])
    (s : Loading × FqdnResolver) :
    (∃ status, Returns (load resolverConfig config store options (fun _ => false) text) s status
      (finish config options (loadEach resolverConfig config store (start s)
        (PolicyReader.readRows options.csvListDelimiter reader reader.rowNumber records)))) ↔
    AllProceed resolverConfig config store (start s)
      (PolicyReader.readRows options.csvListDelimiter reader reader.rowNumber records) := by
  simp only [Returns, exec_load hcreate hrecords hne]
  constructor
  · rintro ⟨status, h⟩
    -- an exception leaves the loop, and the load does not return
    rcases hrun : exec (runRows resolverConfig config store (PolicyReader.readRows
      options.csvListDelimiter reader reader.rowNumber records)) (start s) with ⟨fault | _, t⟩
    · rw [hrun] at h
      cases (Prod.mk.inj h).1
    · rw [hrun] at h
      refine allProceed_of_returns hrun ?_
      have herrors := congrArg (fun s => s.1.status.errorCount) (Prod.mk.inj h).2
      simpa only [finish, FirewallFactory.errorCount_finish] using herrors
  · intro h
    have hrun := returns_runRows h
    exact ⟨_, by rw [hrun]⟩

/-- A resolver with empty caches, where no host is known. -/
def noHosts : ResolverConfig := ⟨⟨true, true, "rulan.fqdn"⟩, fun _ => .noName⟩

/-- A firewall without rules in a new network, and empty caches. -/
def newLoading (config : ModelConfig) : Loading × FqdnResolver :=
  (FirewallFactory.newLoading config, .loaded true (fun _ => none) none)

/-- A row that allows everything. -/
def anyRow (rowNumber : ℕ) : RuleObject :=
  { RuleObject.ofServices 1 ["any"] with rowNumber := rowNumber }

end Loop

end HostFactory

end RulesAnalyzer
