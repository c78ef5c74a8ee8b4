import RulesAnalyzer.Csv.Reader
import RulesAnalyzer.FirewallFactory

/-!
# Loading a policy

The loader reads the rows of a policy file one after the other and adds a rule for
each.  The reader answers a row with a bad field in the same way as the end of the
file, and an exception of any row leaves the loop.

## Main definitions

* `PolicyReader.nextRow` — the next row of the file as a rule object.
* `PolicyReader.readRows` — the rows of records, one after the other.
* `FirewallFactory.loadRules`, `FirewallFactory.load` — the loading loop.

## Main results

* `FirewallFactory.nextRow_record` — the next row is the row of the next record.
* `FirewallFactory.returns_addRule_true`, `FirewallFactory.rules_addRule` — what a row does to the
  rules.
-/

namespace RulesAnalyzer

open Csv Effect

/-! ### The rows of a policy -/

namespace PolicyReader

/-- The columns of a policy file. -/
def columns : List CsvColumn :=
  [⟨"id", "", false⟩, ⟨"name", "", true⟩, ⟨"status", "enabled", true⟩, ⟨"action", "", false⟩,
    ⟨"src.zone", "any", true⟩, ⟨"src.addr", "", false⟩, ⟨"src.negate", "false", true⟩,
    ⟨"dst.zone", "any", true⟩, ⟨"dst.addr", "", false⟩, ⟨"dst.negate", "false", true⟩,
    ⟨"svc", "", false⟩, ⟨"app", "any", true⟩, ⟨"user", "any", true⟩, ⟨"url", "any", true⟩]

/-- A list that is not empty. -/
def splitField (text : String) (delimiter : Char) : Option (List String) :=
  match split text delimiter with
  | [] => none
  | names => some names

/-- The rule object of a row; `none` when one of the fields is not valid. -/
def parseRow (delimiter : Char) (rowNumber : ℕ) : CsvValues → Option RuleObject
  | [id, name, status, action, srcZones, srcAddresses, srcNegate, dstZones, dstAddresses, dstNegate,
      services, applications, users, urls] => do
    let id ← (str2i id).filter fun id => 0 < id
    let sourceZones ← splitField srcZones delimiter
    let sourceAddresses ← splitField srcAddresses delimiter
    let negateSourceAddresses ← str2b srcNegate
    let destinationZones ← splitField dstZones delimiter
    let destinationAddresses ← splitField dstAddresses delimiter
    let negateDestinationAddresses ← str2b dstNegate
    let services ← splitField services delimiter
    let applications ← splitField applications delimiter
    let users ← splitField users delimiter
    let urls ← splitField urls delimiter
    return { rowNumber, id, name, status, action, sourceZones, destinationZones, sourceAddresses,
             negateSourceAddresses, destinationAddresses, negateDestinationAddresses, services,
             applications, users, urls }
  | _ => none

/-- The exception of the CSV reader. -/
def fault : CsvError → Fault
  | .runtimeError message => .runtimeError message
  | .interruptError message => .interruptError message

/-- The next row.  The end of the file and a row that is not valid give the same answer. -/
def nextRow (delimiter : Char) (reader : CsvReader) (interrupted : Bool) :
    Except Fault (Option RuleObject × CsvReader) :=
  match reader.nextRow interrupted with
  | .ok (some values, reader) => .ok (parseRow delimiter reader.rowNumber values, reader)
  | .ok (none, reader) => .ok (none, reader)
  | .error error => .error (fault error)

/-- The rows of records, which start after the row with the given number. -/
def readRows (delimiter : Char) (reader : CsvReader) : ℕ → List CsvValues → List (Option RuleObject)
  | _, [] => []
  | n, record :: records =>
    parseRow delimiter (n + 1) (reader.assignRecord record) ::
      readRows delimiter reader (n + 1) records

/-- The rows do not depend on the stream. -/
theorem readRows_next (delimiter : Char) (reader : CsvReader) (stream : List Char)
    (rowNumber n : ℕ) (records : List CsvValues) :
    readRows delimiter { reader with stream := stream, rowNumber := rowNumber } n records =
      readRows delimiter reader n records := by
  induction records generalizing n with
  | nil => rfl
  | cons record records ih =>
    rw [readRows, readRows, ih]
    rfl

end PolicyReader

/-! ### The loop -/

/-- The configuration of the loader. -/
structure LoaderConfig where
  csvListDelimiter : Char
  addImplicitDenyAll : Bool

namespace Loading

/-- Counts a row. -/
def count (s : Loading) (added : Bool) : Loading :=
  { s with status :=
      if added then { s.status with loadedCount := s.status.loadedCount + 1 }
      else { s.status with errorCount := s.status.errorCount + 1 } }

/-- The enabled rules. -/
def acl (s : Loading) : List RuleRef := s.rules.filter fun rule => rule.status == .enabled

end Loading

namespace FirewallFactory

variable (config : ModelConfig) (store : ObjectStore) (options : LoaderConfig)

/-- Reads and adds rows until there is none.  Every row takes a part of the stream, so the
depth never runs out when it starts above the length of the stream. -/
def loadRows (interrupted : ℕ → Bool) : ℕ → CsvReader → Program Loading Fault PUnit
  | 0, _ => throw .undefined
  | depth + 1, reader => do
    let row ← MonadExcept.ofExcept
      (PolicyReader.nextRow options.csvListDelimiter reader (interrupted reader.rowNumber))
    match row.1 with
    | none => pure ⟨⟩
    | some rule =>
      let added ← addRule config store rule
      modify fun s => s.count added
      loadRows interrupted depth row.2

/-- The state at the start of a load. -/
def start (s : Loading) : Loading := { s with status := {} }

/-- What is done after the last row.  The count of the disabled rules is a difference of
numbers of 64 bits. -/
def finish (s : Loading) : Loading :=
  let s := if options.addImplicitDenyAll then addDenyAllRule config s else s
  { s with status := { s.status with
      disabledCount := (s.status.loadedCount + (2 ^ 64 - s.acl.length % 2 ^ 64)) % 2 ^ 64 } }

/-- Loads the rules of a file. -/
def loadRules (interrupted : ℕ → Bool) (reader : CsvReader) :
    Program Loading Fault LoaderStatus := do
  modify start
  loadRows config store options interrupted (reader.stream.length + 1) reader
  modify (finish config options)
  let s ← get
  pure s.status

/-- Loads the rules of a text. -/
def load (interrupted : ℕ → Bool) (csvStream : List Char) : Program Loading Fault LoaderStatus := do
  let reader ← MonadExcept.ofExcept
    ((CsvReader.create csvStream PolicyReader.columns).mapError PolicyReader.fault)
  loadRules config store options interrupted reader

/-! ### Records and rows -/

section Loop

variable {config store options}

theorem length_records_le {text : List Char} {records : List CsvValues}
    (h : Records text records) : records.length ≤ text.length := by
  induction h with
  | nil => exact le_rfl
  | @cons text rest record records hne h hrest ih =>
    obtain ⟨c, t, rfl⟩ := List.exists_cons_of_ne_nil hne
    have hlt := length_restLines_lt c t
    rw [← (nextRecord_strict rfl h).1] at hlt
    rw [List.length_cons]
    omega

/-- The row of a record. -/
theorem nextRow_record {delimiter : Char} {reader : CsvReader} {record : CsvValues}
    {rest : List Char} (heof : reader.eof = false) (hrecord : record ≠ [])
    (h : nextRecord readerOptions reader.stream = .ok (record, rest)) :
    PolicyReader.nextRow delimiter reader false =
      .ok (PolicyReader.parseRow delimiter (reader.rowNumber + 1) (reader.assignRecord record),
        { reader with stream := rest, rowNumber := reader.rowNumber + 1 }) := by
  have hsome : record.isEmpty = false := by simpa using hrecord
  rw [PolicyReader.nextRow, CsvReader.nextRow_record heof h, hsome]
  rfl

/-! ### Rows and rules -/

theorem counts_addRule (rule : RuleObject) (s : Loading) :
    (exec (addRule config store rule) s).2.status.counts = s.status.counts := by
  have hadds := addsRule config store rule s
  generalize exec (addRule config store rule) s = result at hadds ⊢
  cases hadds with
  | malformed h => rfl
  | raised _ _ hrun => exact (builds_of_exec config store hrun).counts
  | rejected _ _ hrun _ => exact (builds_of_exec config store hrun).counts
  | added _ _ hrun _ => exact (builds_of_exec config store hrun).counts

/-- A rule is added after the rules that are there, and only with a new id. -/
theorem returns_addRule_true {rule : RuleObject} {s s' : Loading}
    (h : Returns (addRule config store rule) s true s') :
    s.getRule rule.id = none ∧ ∃ r : RuleRef, r.id = rule.id ∧ s'.rules = s.rules ++ [r] := by
  have hadds := addsRule config store rule s
  rw [h] at hadds
  cases hadds with
  | added _ _ hrun hnew =>
    have hrules := (builds_of_exec config store hrun).rules
    exact ⟨hnew, _, rfl, by rw [Loading.addRule, hrules]⟩

/-- A row that is not added leaves the rules as they are. -/
theorem rules_addRule {rule : RuleObject} {s : Loading}
    (h : ∀ s', ¬Returns (addRule config store rule) s true s') :
    (exec (addRule config store rule) s).2.rules = s.rules := by
  have hadds := addsRule config store rule s
  unfold Returns at h
  generalize exec (addRule config store rule) s = result at hadds h ⊢
  cases hadds with
  | malformed h => rfl
  | raised _ _ hrun => exact (builds_of_exec config store hrun).rules
  | rejected _ _ hrun _ => exact (builds_of_exec config store hrun).rules
  | added _ _ _ _ => exact absurd rfl (h _)

theorem errorCount_finish (s : Loading) :
    (finish config options s).status.errorCount = s.status.errorCount := by
  unfold finish
  split <;> rfl

/-- A reader of a policy with the columns that are not optional, after its header. -/
def policyReader (stream : List Char) : CsvReader :=
  ⟨stream, PolicyReader.columns,
    [some ⟨0, by decide⟩, some ⟨3, by decide⟩, some ⟨5, by decide⟩, some ⟨8, by decide⟩,
      some ⟨10, by decide⟩], 1, false⟩

/-- A firewall without rules in a new network. -/
def newLoading (config : ModelConfig) : Loading := ⟨.fresh config, [], {}⟩

end Loop

end FirewallFactory

end RulesAnalyzer
