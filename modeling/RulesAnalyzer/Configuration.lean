import RulesAnalyzer.PolicyReader

/-!
# The configuration of the object store

A configuration file is a table of sections, and a section is a table of values.  A
key that is absent leaves its field alone, a value of the wrong kind raises.  A list
delimiter is checked like the other values, but the assignment stands behind the
exception, in the block of the test.

## Main definitions

* `TomlValue`, `TomlTable`, `ConfigTable` — what the code asks of a parsed file.
* `StoreConfig`, `StoreConfig.load` — the configuration, and how it is loaded.
* `field`, `Applied` — what a key gives, and a configuration that has what all keys give.
* `ValidKeys`, `BlankFilename` — which tables are accepted, and an enabled log without a file.

## Main results

* `load_eq_ok_iff`, `load_raises_iff` — what is loaded, and which tables are refused.
* `load_applied_iff` — **which tables are applied**: those without a list delimiter of their own.
-/

namespace RulesAnalyzer

open Effect

/-! ### Tables -/

/-- A value of a section.  The code only asks for three kinds of values. -/
inductive TomlValue
  | string (value : String)
  | integer (value : ℤ)
  | boolean (value : Bool)
  | other
  deriving DecidableEq, Repr

/-- A section. -/
abbrev TomlTable := String → Option TomlValue

/-- What a key of the file has: a section, or something else. -/
inductive TomlBase
  | table (entries : TomlTable)
  | other

/-- A configuration file. -/
abbrev ConfigTable := String → Option TomlBase

/-- `get_table`: a key that has something else is like a key that is absent. -/
def getTable (configTable : ConfigTable) (key : String) : Option TomlTable :=
  match configTable key with
  | some (.table entries) => some entries
  | _ => none

/-- `get_as<std::string>`. -/
def TomlValue.getString : TomlValue → Option String
  | string value => some value
  | _ => none

/-- `get_as<bool>`. -/
def TomlValue.getBool : TomlValue → Option Bool
  | boolean value => some value
  | _ => none

/-- `get_as<int>`: an integer that is no `int` raises. -/
def TomlValue.getInt : TomlValue → Except Fault (Option ℤ)
  | integer value =>
    if value < -2 ^ 31 then
      .error (.runtimeError "T cannot represent the value requested in get")
    else if value > 2 ^ 31 - 1 then
      .error (.runtimeError "T cannot represent the value requested in get")
    else .ok (some value)
  | _ => .ok none

/-! ### The configuration -/

/-- Whether there is a log, and its file. -/
structure LoggerConfig where
  enable : Bool
  filename : String
  deriving DecidableEq

/-- The part of `ModelConfig` that is loaded. -/
structure CoreConfig where
  ipModel : IPAddressModel
  strictIpParser : Bool
  deriving DecidableEq

/-- The sizes of the two tables of the package. -/
structure BuddyConfig where
  nodeSize : ℤ
  cacheSize : ℤ
  deriving DecidableEq

/-- Whether host names are looked up, and whether the answers are kept in a file. -/
structure FqdnResolverConfig where
  enable : Bool
  cache : Bool
  filename : String
  deriving DecidableEq

/-- `OstoreConfig`, with all its fields. -/
structure StoreConfig where
  loggerConfig : LoggerConfig
  coreConfig : CoreConfig
  buddyConfig : BuddyConfig
  loaderConfig : LoaderConfig
  /-- The list delimiter of `CsvWriterConfig`. -/
  writerDelimiter : Char
  fqdnResolverConfig : FqdnResolverConfig

/-- The constructor. -/
def StoreConfig.create : StoreConfig where
  loggerConfig := ⟨false, ""⟩
  coreConfig := ⟨.ip4Model, true⟩
  buddyConfig := ⟨10000, 1000⟩
  loaderConfig := ⟨';', false⟩
  writerDelimiter := ';'
  fqdnResolverConfig := ⟨true, true, "rulan.fqdn"⟩

/-! ### Loading a key -/

/-- The exception for a parameter whose value is not accepted; it names the key. -/
def throwInvalidParameter {α : Type} (key message : String) : Except Fault α :=
  .error (.runtimeError ("invalid parameter '" ++ key ++ "' : " ++ message))

section Keys

variable (table : TomlTable) (key : String)

/-- `load_int`. -/
def loadInt (value : ℤ) : Except Fault ℤ :=
  match table key with
  | none => .ok value
  | some v => do
    match ← v.getInt with
    | none => throwInvalidParameter key "syntax error"
    | some result =>
      if result < 0 || result > 2 ^ 31 - 1 then throwInvalidParameter key "value out of range"
      else .ok result

/-- `load_bool`. -/
def loadBool (value : Bool) : Except Fault Bool :=
  match table key with
  | none => .ok value
  | some v =>
    match v.getBool with
    | none => throwInvalidParameter key "syntax error"
    | some result => .ok result

/-- `load_string`. -/
def loadString (value : String) : Except Fault String :=
  match table key with
  | none => .ok value
  | some v =>
    match v.getString with
    | none => throwInvalidParameter key "syntax error"
    | some result => .ok result

/-- `load_char`.  The assignment follows the exception, so it is never made. -/
def loadChar (value : Char) : Except Fault Char :=
  match table key with
  | none => .ok value
  | some v =>
    match v.getString with
    | none => throwInvalidParameter key "syntax error"
    | some result =>
      if result.toList.length ≠ 1 then throwInvalidParameter key "value out of range"
      else .ok value

end Keys

/-! ### Loading a section -/

/-- Reads the table of the log.  The name of the file is only read when the log is enabled, and must
not be blank then. -/
def loadLogger (table : TomlTable) (config : LoggerConfig) : Except Fault LoggerConfig := do
  let enable ← loadBool table "enable" config.enable
  if enable then
    let filename ← loadString table "filename" config.filename
    if (trim filename.toList).isEmpty then throwInvalidParameter "filename" "empty filename"
    else .ok ⟨enable, filename⟩
  else .ok ⟨enable, config.filename⟩

/-- The address model of a name. -/
def ipModelOf (ipModel : String) : Except Fault IPAddressModel :=
  if iequal ipModel "ipv4" || iequal ipModel "" then .ok .ip4Model
  else if iequal ipModel "ipv6" then .ok .ip6Model
  else if iequal ipModel "ipv64" then .ok .ip64Model
  else throwInvalidParameter "ip-model" ("'" ++ ipModel ++ "' is an invalid IP model")

/-- Reads the table of the address model.  Its default is no name of a model, which gives IPv4
addresses and not the model set before. -/
def loadCore (table : TomlTable) (config : CoreConfig) : Except Fault CoreConfig := do
  let ipModel ← loadString table "ip-model" ""
  let model ← ipModelOf ipModel
  let strictIpParser ← loadBool table "strict-ip-parser" config.strictIpParser
  .ok ⟨model, strictIpParser⟩

/-- Reads the table of the sizes. -/
def loadBuddy (table : TomlTable) (config : BuddyConfig) : Except Fault BuddyConfig := do
  let nodeSize ← loadInt table "nodes" config.nodeSize
  let cacheSize ← loadInt table "cache" config.cacheSize
  .ok ⟨nodeSize, cacheSize⟩

/-- Reads the table of the loader. -/
def loadLoader (table : TomlTable) (config : LoaderConfig) : Except Fault LoaderConfig := do
  let addImplicitDenyAll ← loadBool table "implicit-deny-all" config.addImplicitDenyAll
  let csvListDelimiter ← loadChar table "list-delimiter" config.csvListDelimiter
  .ok ⟨csvListDelimiter, addImplicitDenyAll⟩

/-- Reads the table of the writer. -/
def loadWriter (table : TomlTable) (delimiter : Char) : Except Fault Char :=
  loadChar table "list-delimiter" delimiter

/-- Reads the table of the resolver.  Unlike the log's, its file name may be blank. -/
def loadFqdn (table : TomlTable) (config : FqdnResolverConfig) :
    Except Fault FqdnResolverConfig := do
  let enable ← loadBool table "enable" config.enable
  let cache ← loadBool table "cache" config.cache
  let filename ← loadString table "filename" config.filename
  .ok ⟨enable, cache, filename⟩

/-- Loads a section when the file has it. -/
def loadSection {α : Type} (configTable : ConfigTable) (key : String)
    (load : TomlTable → α → Except Fault α) (config : α) : Except Fault α :=
  match getTable configTable key with
  | none => .ok config
  | some table => load table config

/-- `OstoreConfig::load`. -/
def StoreConfig.load (configTable : ConfigTable) (config : StoreConfig) :
    Except Fault StoreConfig := do
  let loggerConfig ← loadSection configTable "logger" loadLogger config.loggerConfig
  let coreConfig ← loadSection configTable "core" loadCore config.coreConfig
  let buddyConfig ← loadSection configTable "buddy" loadBuddy config.buddyConfig
  let loaderConfig ← loadSection configTable "loader" loadLoader config.loaderConfig
  let writerDelimiter ← loadSection configTable "writer" loadWriter config.writerDelimiter
  let fqdnResolverConfig ← loadSection configTable "fqdn" loadFqdn config.fqdnResolverConfig
  .ok ⟨loggerConfig, coreConfig, buddyConfig, loaderConfig, writerDelimiter, fqdnResolverConfig⟩

/-! ### What a key gives -/

/-- An integer that is not too large and not negative. -/
def TomlValue.toInt : TomlValue → Option ℤ
  | integer value => if 0 ≤ value ∧ value ≤ 2 ^ 31 - 1 then some value else none
  | _ => none

/-- A string of one character. -/
def TomlValue.toChar : TomlValue → Option Char
  | string value => match value.toList with
    | [c] => some c
    | _ => none
  | _ => none

/-- The name of a model, in letters of either case. -/
def TomlValue.toIpModel : TomlValue → Option IPAddressModel
  | string value =>
    if iequal value "ipv4" || iequal value "" then some .ip4Model
    else if iequal value "ipv6" then some .ip6Model
    else if iequal value "ipv64" then some .ip64Model
    else none
  | _ => none

/-- What a key of a section gives: the default when it is absent, and nothing when its value is
not one of the field. -/
def field {α : Type} (read : TomlValue → Option α) (entries : Option TomlTable) (key : String)
    (default : α) : Option α :=
  match entries.bind fun table => table key with
  | none => some default
  | some v => read v

section Keys

variable {table : TomlTable} {key : String}

theorem loadBool_eq_ok {value result : Bool} :
    loadBool table key value = .ok result ↔
      field TomlValue.getBool (some table) key value = some result := by
  unfold loadBool field
  rw [Option.bind_some]
  rcases table key with _ | v
  · simp
  · simp only
    rcases v.getBool with _ | given
    · simp [throwInvalidParameter]
    · simp

theorem loadString_eq_ok {value result : String} :
    loadString table key value = .ok result ↔
      field TomlValue.getString (some table) key value = some result := by
  unfold loadString field
  rw [Option.bind_some]
  rcases table key with _ | v
  · simp
  · simp only
    rcases v.getString with _ | given
    · simp [throwInvalidParameter]
    · simp

theorem loadInt_eq_ok {value result : ℤ} :
    loadInt table key value = .ok result ↔
      field TomlValue.toInt (some table) key value = some result := by
  unfold loadInt field
  rw [Option.bind_some]
  rcases table key with _ | v
  · simp
  · cases v with
    | integer n =>
      simp only [TomlValue.getInt, TomlValue.toInt]
      by_cases hlow : n < -2 ^ 31
      · rw [if_pos hlow, if_neg (by omega)]
        simp [bind, Except.bind]
      · rw [if_neg hlow]
        by_cases hhigh : n > 2 ^ 31 - 1
        · rw [if_pos hhigh, if_neg (by omega)]
          simp [bind, Except.bind]
        · rw [if_neg hhigh]
          show (if n < 0 || n > 2 ^ 31 - 1 then throwInvalidParameter key "value out of range"
            else .ok n) = .ok result ↔ _
          by_cases hneg : n < 0
          · rw [if_pos (by simp [hneg]), if_neg (by omega)]
            simp [throwInvalidParameter]
          · rw [if_neg (by simp only [Bool.or_eq_true, decide_eq_true_eq]; omega),
              if_pos (by omega), Except.ok.injEq, Option.some.injEq]
    | _ => simp [TomlValue.getInt, TomlValue.toInt, bind, Except.bind, throwInvalidParameter]

/-- The value that is read is checked and not used. -/
theorem loadChar_eq_ok {value result : Char} :
    loadChar table key value = .ok result ↔
      field TomlValue.toChar (some table) key value ≠ none ∧ result = value := by
  unfold loadChar field
  rw [Option.bind_some]
  rcases table key with _ | v
  · simp [eq_comm]
  · cases v with
    | string s =>
      simp only [TomlValue.getString, TomlValue.toChar]
      rcases s.toList with _ | ⟨c, _ | ⟨d, rest⟩⟩
      · simp [throwInvalidParameter]
      · simp [eq_comm]
      · simp [throwInvalidParameter]
    | _ => simp [TomlValue.getString, TomlValue.toChar, throwInvalidParameter]

end Keys

/-! ### What a section gives -/

/-- A section is loaded key by key, and all keys are absent when the section is. -/
theorem loadSection_eq_ok {α : Type} (Gives : Option TomlTable → Prop) {configTable : ConfigTable}
    {key : String} {load : TomlTable → α → Except Fault α} {config result : α}
    (hnone : config = result ↔ Gives none)
    (hsome : ∀ table, load table config = .ok result ↔ Gives (some table)) :
    loadSection configTable key load config = .ok result ↔ Gives (getTable configTable key) := by
  unfold loadSection
  rcases getTable configTable key with _ | table
  · exact (Iff.of_eq (Except.ok.injEq ..)).trans hnone
  · exact hsome table

/-- What the section of the logger gives.  The name of the file is only read when the logger is
enabled. -/
structure GivesLogger (config : LoggerConfig) (entries : Option TomlTable)
    (result : LoggerConfig) : Prop where
  enable : field TomlValue.getBool entries "enable" config.enable = some result.enable
  filename : if result.enable then
      field TomlValue.getString entries "filename" config.filename = some result.filename
    else result.filename = config.filename

/-- The result of reading the table of the address model, said field by field. -/
structure GivesCore (config : CoreConfig) (entries : Option TomlTable) (result : CoreConfig) :
    Prop where
  ipModel : field TomlValue.toIpModel entries "ip-model" .ip4Model = some result.ipModel
  strictIpParser :
    field TomlValue.getBool entries "strict-ip-parser" config.strictIpParser =
      some result.strictIpParser

/-- The result of reading the table of the sizes, said field by field. -/
structure GivesBuddy (config : BuddyConfig) (entries : Option TomlTable) (result : BuddyConfig) :
    Prop where
  nodeSize : field TomlValue.toInt entries "nodes" config.nodeSize = some result.nodeSize
  cacheSize : field TomlValue.toInt entries "cache" config.cacheSize = some result.cacheSize

/-- The result of reading the table of the resolver, said field by field. -/
structure GivesFqdn (config : FqdnResolverConfig) (entries : Option TomlTable)
    (result : FqdnResolverConfig) : Prop where
  enable : field TomlValue.getBool entries "enable" config.enable = some result.enable
  cache : field TomlValue.getBool entries "cache" config.cache = some result.cache
  filename : field TomlValue.getString entries "filename" config.filename = some result.filename

theorem loadLogger_eq_ok {table : TomlTable} {config result : LoggerConfig} :
    loadLogger table config = .ok result ↔ GivesLogger config (some table) result ∧
      (result.enable = true → (trim result.filename.toList).isEmpty = false) := by
  obtain ⟨enable, filename⟩ := result
  unfold loadLogger
  simp only [bind_eq_ok, loadBool_eq_ok]
  constructor
  · rintro ⟨enable', henable, h⟩
    -- the file name is only looked at when the log is on
    cases enable' with
    | false =>
      obtain ⟨rfl, rfl⟩ := LoggerConfig.mk.inj (Except.ok.inj h)
      exact ⟨⟨henable, rfl⟩, fun h => by cases h⟩
    | true =>
      obtain ⟨filename', hfilename, h⟩ := bind_eq_ok.mp h
      split at h
      · cases h
      · next hblank =>
        obtain ⟨rfl, rfl⟩ := LoggerConfig.mk.inj (Except.ok.inj h)
        exact ⟨⟨henable, loadString_eq_ok.mp hfilename⟩, fun _ => by simpa using hblank⟩
  · rintro ⟨⟨henable, hfilename⟩, hblank⟩
    refine ⟨enable, henable, ?_⟩
    cases enable with
    | false =>
      obtain rfl : filename = config.filename := hfilename
      rfl
    | true =>
      refine bind_eq_ok.mpr ⟨filename, loadString_eq_ok.mpr hfilename, ?_⟩
      rw [if_neg (by simpa using hblank rfl)]

theorem toIpModel_eq_some {table : TomlTable} {model : IPAddressModel} :
    field TomlValue.toIpModel (some table) "ip-model" .ip4Model = some model ↔
      ∃ name, field TomlValue.getString (some table) "ip-model" "" = some name ∧
        (TomlValue.string name).toIpModel = some model := by
  unfold field
  rw [Option.bind_some]
  rcases table "ip-model" with _ | v
  · constructor
    · intro h
      exact ⟨"", rfl, h⟩
    · rintro ⟨name, hname, h⟩
      obtain rfl := Option.some.inj hname
      exact h
  · cases v with
    | string name => simp [TomlValue.getString]
    | _ => simp [TomlValue.getString, TomlValue.toIpModel]

theorem ipModelOf_eq_ok {name : String} {model : IPAddressModel} :
    ipModelOf name = .ok model ↔ (TomlValue.string name).toIpModel = some model := by
  unfold ipModelOf TomlValue.toIpModel
  simp only
  split
  · simp
  split
  · simp
  split
  · simp
  · simp [throwInvalidParameter]

theorem loadCore_eq_ok {table : TomlTable} {config result : CoreConfig} :
    loadCore table config = .ok result ↔ GivesCore config (some table) result := by
  obtain ⟨model, strict⟩ := result
  have hgives : GivesCore config (some table) ⟨model, strict⟩ ↔
      (∃ name, field TomlValue.getString (some table) "ip-model" "" = some name ∧
        (TomlValue.string name).toIpModel = some model) ∧
      field TomlValue.getBool (some table) "strict-ip-parser" config.strictIpParser =
        some strict := by
    rw [← toIpModel_eq_some]
    exact ⟨fun h => ⟨h.ipModel, h.strictIpParser⟩, fun h => ⟨h.1, h.2⟩⟩
  rw [hgives]
  unfold loadCore
  simp only [bind_eq_ok, loadString_eq_ok, loadBool_eq_ok, ipModelOf_eq_ok, Except.ok.injEq,
    CoreConfig.mk.injEq]
  constructor
  · rintro ⟨name, hname, model', hmodel', strict', hstrict, rfl, rfl⟩
    exact ⟨⟨name, hname, hmodel'⟩, hstrict⟩
  · rintro ⟨⟨name, hname, hmodel'⟩, hstrict⟩
    exact ⟨name, hname, model, hmodel', strict, hstrict, rfl, rfl⟩

theorem loadBuddy_eq_ok {table : TomlTable} {config result : BuddyConfig} :
    loadBuddy table config = .ok result ↔ GivesBuddy config (some table) result := by
  obtain ⟨nodeSize, cacheSize⟩ := result
  unfold loadBuddy
  simp only [bind_eq_ok, loadInt_eq_ok, Except.ok.injEq, BuddyConfig.mk.injEq]
  constructor
  · rintro ⟨_, hnode, _, hcache, rfl, rfl⟩
    exact ⟨hnode, hcache⟩
  · intro h
    exact ⟨_, h.nodeSize, _, h.cacheSize, rfl, rfl⟩

theorem loadFqdn_eq_ok {table : TomlTable} {config result : FqdnResolverConfig} :
    loadFqdn table config = .ok result ↔ GivesFqdn config (some table) result := by
  obtain ⟨enable, cache, filename⟩ := result
  unfold loadFqdn
  simp only [bind_eq_ok, loadBool_eq_ok, loadString_eq_ok, Except.ok.injEq,
    FqdnResolverConfig.mk.injEq]
  constructor
  · rintro ⟨_, henable, _, hcache, _, hfilename, rfl, rfl, rfl⟩
    exact ⟨henable, hcache, hfilename⟩
  · intro h
    exact ⟨_, h.enable, _, h.cache, _, h.filename, rfl, rfl, rfl⟩

theorem loadLoader_eq_ok {table : TomlTable} {config result : LoaderConfig} :
    loadLoader table config = .ok result ↔
      field TomlValue.getBool (some table) "implicit-deny-all" config.addImplicitDenyAll =
        some result.addImplicitDenyAll ∧
      field TomlValue.toChar (some table) "list-delimiter" config.csvListDelimiter ≠ none ∧
      result.csvListDelimiter = config.csvListDelimiter := by
  obtain ⟨delimiter, denyAll⟩ := result
  unfold loadLoader
  simp only [bind_eq_ok, loadBool_eq_ok, loadChar_eq_ok, Except.ok.injEq, LoaderConfig.mk.injEq]
  constructor
  · rintro ⟨_, hdeny, _, ⟨hvalid, rfl⟩, rfl, rfl⟩
    exact ⟨hdeny, hvalid, rfl⟩
  · rintro ⟨hdeny, hvalid, rfl⟩
    exact ⟨_, hdeny, _, ⟨hvalid, rfl⟩, rfl, rfl⟩

/-! ### What a file gives -/

/-- Each field but the delimiters has what its key gives. -/
structure AppliedElsewhere (configTable : ConfigTable) (config : StoreConfig) : Prop where
  logger : GivesLogger ⟨false, ""⟩ (getTable configTable "logger") config.loggerConfig
  core : GivesCore ⟨.ip4Model, true⟩ (getTable configTable "core") config.coreConfig
  buddy : GivesBuddy ⟨10000, 1000⟩ (getTable configTable "buddy") config.buddyConfig
  implicitDenyAll :
    field TomlValue.getBool (getTable configTable "loader") "implicit-deny-all" false =
      some config.loaderConfig.addImplicitDenyAll
  fqdn : GivesFqdn ⟨true, true, "rulan.fqdn"⟩ (getTable configTable "fqdn")
    config.fqdnResolverConfig

/-- What the key of a list delimiter gives. -/
def delimiter (configTable : ConfigTable) (key : String) : Option Char :=
  field TomlValue.toChar (getTable configTable key) "list-delimiter" ';'

/-- Each field has what its key gives: its value, or the default when it is absent. -/
structure Applied (configTable : ConfigTable) (config : StoreConfig) : Prop
    extends AppliedElsewhere configTable config where
  readerDelimiter : delimiter configTable "loader" = some config.loaderConfig.csvListDelimiter
  writerDelimiter : delimiter configTable "writer" = some config.writerDelimiter

/-- What is loaded into a new configuration: the two delimiters stay as they are. -/
structure Loads (configTable : ConfigTable) (config : StoreConfig) : Prop
    extends AppliedElsewhere configTable config where
  filename : config.loggerConfig.enable = true →
    (trim config.loggerConfig.filename.toList).isEmpty = false
  readerDelimiter : delimiter configTable "loader" ≠ none ∧
    config.loaderConfig.csvListDelimiter = ';'
  writerDelimiter : delimiter configTable "writer" ≠ none ∧ config.writerDelimiter = ';'

section Sections

variable {configTable : ConfigTable}

theorem loadSection_logger {result : LoggerConfig} :
    loadSection configTable "logger" loadLogger ⟨false, ""⟩ = .ok result ↔
      GivesLogger ⟨false, ""⟩ (getTable configTable "logger") result ∧
        (result.enable = true → (trim result.filename.toList).isEmpty = false) := by
  refine loadSection_eq_ok (fun entries => GivesLogger ⟨false, ""⟩ entries result ∧
    (result.enable = true → (trim result.filename.toList).isEmpty = false)) ?_
    fun _ => loadLogger_eq_ok
  constructor
  · rintro rfl
    exact ⟨⟨rfl, rfl⟩, fun h => by cases h⟩
  · rintro ⟨⟨henable, hfilename⟩, -⟩
    obtain ⟨enable, filename⟩ := result
    obtain rfl : false = enable := Option.some.inj henable
    obtain rfl : filename = "" := hfilename
    rfl

theorem loadSection_core {result : CoreConfig} :
    loadSection configTable "core" loadCore ⟨.ip4Model, true⟩ = .ok result ↔
      GivesCore ⟨.ip4Model, true⟩ (getTable configTable "core") result := by
  refine loadSection_eq_ok (GivesCore ⟨.ip4Model, true⟩ · result) ?_ fun _ => loadCore_eq_ok
  constructor
  · rintro rfl
    exact ⟨rfl, rfl⟩
  · rintro ⟨hmodel, hstrict⟩
    obtain ⟨model, strict⟩ := result
    obtain rfl : .ip4Model = model := Option.some.inj hmodel
    obtain rfl : true = strict := Option.some.inj hstrict
    rfl

theorem loadSection_buddy {result : BuddyConfig} :
    loadSection configTable "buddy" loadBuddy ⟨10000, 1000⟩ = .ok result ↔
      GivesBuddy ⟨10000, 1000⟩ (getTable configTable "buddy") result := by
  refine loadSection_eq_ok (GivesBuddy ⟨10000, 1000⟩ · result) ?_ fun _ => loadBuddy_eq_ok
  constructor
  · rintro rfl
    exact ⟨rfl, rfl⟩
  · rintro ⟨hnodes, hcache⟩
    obtain ⟨nodeSize, cacheSize⟩ := result
    obtain rfl : 10000 = nodeSize := Option.some.inj hnodes
    obtain rfl : 1000 = cacheSize := Option.some.inj hcache
    rfl

theorem loadSection_loader {result : LoaderConfig} :
    loadSection configTable "loader" loadLoader ⟨';', false⟩ = .ok result ↔
      field TomlValue.getBool (getTable configTable "loader") "implicit-deny-all" false =
        some result.addImplicitDenyAll ∧
      delimiter configTable "loader" ≠ none ∧ result.csvListDelimiter = ';' := by
  refine loadSection_eq_ok (fun entries => field TomlValue.getBool entries "implicit-deny-all"
    false = some result.addImplicitDenyAll ∧ field TomlValue.toChar entries "list-delimiter" ';' ≠
      none ∧ result.csvListDelimiter = ';') ?_ fun _ => loadLoader_eq_ok
  constructor
  · rintro rfl
    exact ⟨rfl, Option.some_ne_none _, rfl⟩
  · rintro ⟨hdeny, -, hdelimiter⟩
    obtain ⟨c, denyAll⟩ := result
    obtain rfl : false = denyAll := Option.some.inj hdeny
    obtain rfl : c = ';' := hdelimiter
    rfl

theorem loadSection_writer {result : Char} :
    loadSection configTable "writer" loadWriter ';' = .ok result ↔
      delimiter configTable "writer" ≠ none ∧ result = ';' := by
  refine loadSection_eq_ok (fun entries =>
    field TomlValue.toChar entries "list-delimiter" ';' ≠ none ∧ result = ';') ?_
    fun _ => loadChar_eq_ok
  constructor
  · rintro rfl
    exact ⟨Option.some_ne_none _, rfl⟩
  · rintro ⟨-, rfl⟩
    rfl

theorem loadSection_fqdn {result : FqdnResolverConfig} :
    loadSection configTable "fqdn" loadFqdn ⟨true, true, "rulan.fqdn"⟩ = .ok result ↔
      GivesFqdn ⟨true, true, "rulan.fqdn"⟩ (getTable configTable "fqdn") result := by
  refine loadSection_eq_ok (GivesFqdn ⟨true, true, "rulan.fqdn"⟩ · result) ?_
    fun _ => loadFqdn_eq_ok
  constructor
  · rintro rfl
    exact ⟨rfl, rfl, rfl⟩
  · rintro ⟨henable, hcache, hfilename⟩
    obtain ⟨enable, cache, filename⟩ := result
    obtain rfl : true = enable := Option.some.inj henable
    obtain rfl : true = cache := Option.some.inj hcache
    obtain rfl : "rulan.fqdn" = filename := Option.some.inj hfilename
    rfl

/-- **What is loaded into a new configuration.** -/
theorem load_eq_ok_iff {config : StoreConfig} :
    StoreConfig.create.load configTable = .ok config ↔ Loads configTable config := by
  obtain ⟨logger, core, buddy, loader, writer, fqdn⟩ := config
  unfold StoreConfig.load StoreConfig.create
  simp only [bind_eq_ok, loadSection_logger, loadSection_core, loadSection_buddy,
    loadSection_loader, loadSection_writer, loadSection_fqdn, Except.ok.injEq,
    StoreConfig.mk.injEq]
  constructor
  · rintro ⟨_, ⟨hlogger, hfilename⟩, _, hcore, _, hbuddy, _, ⟨hdeny, hreader⟩, _, hwriter, _, hfqdn,
      rfl, rfl, rfl, rfl, rfl, rfl⟩
    exact ⟨⟨hlogger, hcore, hbuddy, hdeny, hfqdn⟩, hfilename, hreader, hwriter⟩
  · intro h
    exact ⟨_, ⟨h.logger, h.filename⟩, _, h.core, _, h.buddy, _,
      ⟨h.implicitDenyAll, h.readerDelimiter⟩, _, h.writerDelimiter, _, h.fqdn,
      rfl, rfl, rfl, rfl, rfl, rfl⟩

/-! ### Which tables are applied -/

/-- Every key that is read has a value of its field.  The name of the file is only read when the
logger is enabled. -/
structure ValidKeys (configTable : ConfigTable) : Prop where
  loggerEnable : field TomlValue.getBool (getTable configTable "logger") "enable" false ≠ none
  loggerFilename :
    field TomlValue.getBool (getTable configTable "logger") "enable" false = some true →
    field TomlValue.getString (getTable configTable "logger") "filename" "" ≠ none
  ipModel : field TomlValue.toIpModel (getTable configTable "core") "ip-model" .ip4Model ≠ none
  strictIpParser :
    field TomlValue.getBool (getTable configTable "core") "strict-ip-parser" true ≠ none
  nodes : field TomlValue.toInt (getTable configTable "buddy") "nodes" 10000 ≠ none
  cache : field TomlValue.toInt (getTable configTable "buddy") "cache" 1000 ≠ none
  implicitDenyAll :
    field TomlValue.getBool (getTable configTable "loader") "implicit-deny-all" false ≠ none
  readerDelimiter : delimiter configTable "loader" ≠ none
  writerDelimiter : delimiter configTable "writer" ≠ none
  fqdnEnable : field TomlValue.getBool (getTable configTable "fqdn") "enable" true ≠ none
  fqdnCache : field TomlValue.getBool (getTable configTable "fqdn") "cache" true ≠ none
  fqdnFilename :
    field TomlValue.getString (getTable configTable "fqdn") "filename" "rulan.fqdn" ≠ none

/-- The logger is enabled, and its file has a blank name. -/
def BlankFilename (configTable : ConfigTable) : Prop :=
  field TomlValue.getBool (getTable configTable "logger") "enable" false = some true ∧
    ∃ filename, field TomlValue.getString (getTable configTable "logger") "filename" "" =
      some filename ∧ (trim filename.toList).isEmpty = true

/-- A file with valid keys gives a configuration. -/
theorem ValidKeys.exists_loads (h : ValidKeys configTable) (hblank : ¬BlankFilename configTable) :
    ∃ config, Loads configTable config := by
  obtain ⟨enable, henable⟩ := Option.ne_none_iff_exists'.mp h.loggerEnable
  obtain ⟨model, hmodel⟩ := Option.ne_none_iff_exists'.mp h.ipModel
  obtain ⟨strict, hstrict⟩ := Option.ne_none_iff_exists'.mp h.strictIpParser
  obtain ⟨nodes, hnodes⟩ := Option.ne_none_iff_exists'.mp h.nodes
  obtain ⟨cache, hcache⟩ := Option.ne_none_iff_exists'.mp h.cache
  obtain ⟨denyAll, hdeny⟩ := Option.ne_none_iff_exists'.mp h.implicitDenyAll
  obtain ⟨fqdnEnable, hfqdnEnable⟩ := Option.ne_none_iff_exists'.mp h.fqdnEnable
  obtain ⟨fqdnCache, hfqdnCache⟩ := Option.ne_none_iff_exists'.mp h.fqdnCache
  obtain ⟨fqdnFilename, hfqdnFilename⟩ := Option.ne_none_iff_exists'.mp h.fqdnFilename
  have hfile : ∃ filename, (if enable then
      field TomlValue.getString (getTable configTable "logger") "filename" "" = some filename
        else filename = "") ∧ (enable = true → (trim filename.toList).isEmpty = false) := by
    cases enable with
    | false => exact ⟨"", rfl, fun h => by cases h⟩
    | true =>
      obtain ⟨filename, hfilename⟩ := Option.ne_none_iff_exists'.mp (h.loggerFilename henable)
      refine ⟨filename, hfilename, fun _ => ?_⟩
      rw [← Bool.not_eq_true]
      exact fun hempty => hblank ⟨henable, filename, hfilename, hempty⟩
  obtain ⟨filename, hfilename, hnonempty⟩ := hfile
  exact ⟨⟨⟨enable, filename⟩, ⟨model, strict⟩, ⟨nodes, cache⟩, ⟨';', denyAll⟩, ';',
    ⟨fqdnEnable, fqdnCache, fqdnFilename⟩⟩,
    ⟨⟨⟨henable, hfilename⟩, ⟨hmodel, hstrict⟩, ⟨hnodes, hcache⟩, hdeny,
      ⟨hfqdnEnable, hfqdnCache, hfqdnFilename⟩⟩, hnonempty, ⟨h.readerDelimiter, rfl⟩,
      ⟨h.writerDelimiter, rfl⟩⟩⟩

theorem Loads.validKeys {config : StoreConfig} (h : Loads configTable config) :
    ValidKeys configTable where
  loggerEnable := h.logger.enable ▸ Option.some_ne_none _
  loggerFilename henable := by
    have htrue := Option.some.inj (h.logger.enable.symm.trans henable)
    have hfilename := h.logger.filename
    rw [if_pos htrue] at hfilename
    exact hfilename ▸ Option.some_ne_none _
  ipModel := h.core.ipModel ▸ Option.some_ne_none _
  strictIpParser := h.core.strictIpParser ▸ Option.some_ne_none _
  nodes := h.buddy.nodeSize ▸ Option.some_ne_none _
  cache := h.buddy.cacheSize ▸ Option.some_ne_none _
  implicitDenyAll := h.implicitDenyAll ▸ Option.some_ne_none _
  readerDelimiter := h.readerDelimiter.1
  writerDelimiter := h.writerDelimiter.1
  fqdnEnable := h.fqdn.enable ▸ Option.some_ne_none _
  fqdnCache := h.fqdn.cache ▸ Option.some_ne_none _
  fqdnFilename := h.fqdn.filename ▸ Option.some_ne_none _

theorem Loads.not_blankFilename {config : StoreConfig} (h : Loads configTable config) :
    ¬BlankFilename configTable := by
  rintro ⟨henable, filename, hfilename, hempty⟩
  have htrue := Option.some.inj (h.logger.enable.symm.trans henable)
  have hgiven := h.logger.filename
  rw [if_pos htrue, hfilename] at hgiven
  have hnonempty := h.filename htrue
  rw [← Option.some.inj hgiven, hempty] at hnonempty
  cases hnonempty

/-- **Which tables are refused**: those with a key that has no value of its field, and those that
enable a logger whose file has a blank name. -/
theorem load_raises_iff : (∃ fault, StoreConfig.create.load configTable = .error fault) ↔
    ¬ValidKeys configTable ∨ BlankFilename configTable := by
  cases hload : StoreConfig.create.load configTable with
  | error fault =>
    refine iff_of_true ⟨fault, rfl⟩ ?_
    by_contra hnone
    rw [not_or, not_not] at hnone
    obtain ⟨config, hconfig⟩ := hnone.1.exists_loads hnone.2
    rw [load_eq_ok_iff.mpr hconfig] at hload
    cases hload
  | ok config =>
    have hconfig := load_eq_ok_iff.mp hload
    refine iff_of_false (fun h => ?_) (not_or.mpr ⟨not_not.mpr hconfig.validKeys,
      hconfig.not_blankFilename⟩)
    obtain ⟨fault, h⟩ := h
    cases h

/-- A table is refused for an invalid key, and what is loaded has what the keys give, just when the
table is refused or has no list delimiter but the default one. -/
theorem load_applied_iff (configTable : ConfigTable) :
    ((¬ValidKeys configTable → ∃ fault, StoreConfig.create.load configTable = .error fault) ∧
      ∀ config, StoreConfig.create.load configTable = .ok config → Applied configTable config) ↔
    ¬ValidKeys configTable ∨ BlankFilename configTable ∨
      (delimiter configTable "loader" = some ';' ∧ delimiter configTable "writer" = some ';') := by
  constructor
  · rintro ⟨-, happlied⟩
    by_contra hnone
    rw [not_or, not_or, not_not] at hnone
    obtain ⟨hvalid, hblank, hdelimiters⟩ := hnone
    obtain ⟨config, hconfig⟩ := hvalid.exists_loads hblank
    have hgiven := happlied config (load_eq_ok_iff.mpr hconfig)
    refine hdelimiters ⟨?_, ?_⟩
    · rw [hgiven.readerDelimiter, hconfig.readerDelimiter.2]
    · rw [hgiven.writerDelimiter, hconfig.writerDelimiter.2]
  · intro h
    refine ⟨fun hinvalid => load_raises_iff.mpr (.inl hinvalid), fun config hload => ?_⟩
    have hconfig := load_eq_ok_iff.mp hload
    rcases h with hinvalid | hblank | ⟨hreader, hwriter⟩
    · exact absurd hconfig.validKeys hinvalid
    · exact absurd hblank hconfig.not_blankFilename
    · refine ⟨hconfig.toAppliedElsewhere, ?_, ?_⟩
      · rw [hreader, hconfig.readerDelimiter.2]
      · rw [hwriter, hconfig.writerDelimiter.2]

/-- A file that asks for commas when lists are written. -/
def commaTable : ConfigTable := fun key =>
  if key = "writer" then
    some (.table fun key => if key = "list-delimiter" then some (.string ",") else none)
  else none

/-- The comma is checked and not used. -/
theorem load_commaTable :
    ¬((¬ValidKeys commaTable → ∃ fault, StoreConfig.create.load commaTable = .error fault) ∧
      ∀ config, StoreConfig.create.load commaTable = .ok config → Applied commaTable config) := by
  rintro ⟨-, happlied⟩
  have hgiven := happlied StoreConfig.create rfl
  exact absurd hgiven.writerDelimiter (by decide)

end Sections

end RulesAnalyzer
