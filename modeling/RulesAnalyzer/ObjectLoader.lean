import RulesAnalyzer.Csv.Reader
import RulesAnalyzer.Network

/-!
# Loading objects

Each kind of object has a file of its own, whose rows become objects of the store.  A row is
skipped when its fields are not valid; what the loaders do not expect leaves the loop, and
the rows before it stay.

## Main definitions

* `OstoreConfig` — the configuration of the loaders.
* `AddressObjects.makeObject`, `ServiceObjects.makeObject`, … — the object of a row, if any.
* `ObjectDictionary.load` — the loading loop.
* `StoreFile`, `ObjectStore.load` — the files, and the store after one of them is loaded.

## Main results

* `ObjectDictionary.load_induction` — what the objects of all rows keep, a load keeps.
* `AddressObjects.usable_of_makeObject` — the addresses of an object that is made are read.
* `AddressObjects.makeObject_aborts` — a list without an element aborts the program.
* `ServiceObjects.of_makeObject` — what is known of the services of an object.
-/

namespace RulesAnalyzer

open Csv Effect

/-- The configuration of the loaders. -/
structure OstoreConfig where
  modelConfig : ModelConfig
  csvListDelimiter : Char
  /-- The contents of the files that can be opened. -/
  files : String → Option String

/-! ### Objects that list names -/

/-- Builds an object of a list that has a name in it, and no empty one.  The error messages
start with what the object is. -/
def makeListed {T : Type} (what empty : String) (blank : String) (mk : String → List String → T)
    (name : String) (names : List String) : Except Fault T :=
  if names.isEmpty then .error (.runtimeError (what ++ " '" ++ name ++ "' has no " ++ empty))
  else if names.any String.isEmpty then
    .error (.runtimeError (what ++ " '" ++ name ++ "' has at least one empty " ++ blank))
  else .ok (mk name names)

/-- The constructor of the code, which asserts that there is an address. -/
def AddressObject.create (name : String) (type : AddressType) (addresses : List String) :
    Except Fault AddressObject :=
  if addresses.isEmpty then .error .aborted else .ok ⟨name, type, addresses⟩

/-- The constructors of the code. -/
def ServiceObject.create : String → List String → Except Fault ServiceObject :=
  makeListed "service object" "service" "service" ServiceObject.mk

/-- An application object.  The constructor throws when it has no service. -/
def ApplicationObject.create : String → List String → Except Fault ApplicationObject :=
  makeListed "application object" "defined service" "service" ApplicationObject.mk

/-- A group of objects.  The constructor throws when it has no member. -/
def PoolObject.create : String → List String → Except Fault PoolObject :=
  makeListed "group" "members" "member" PoolObject.mk

/-! ### The object of a row -/

/-- An `IPAddressError` is caught, and the row is skipped. -/
def skipAddressError {T : Type} : Except Fault (Option T) → Except Fault (Option T)
  | .error (.ipAddressError _ _) => .ok none
  | result => result

/-- A `ServiceError` is caught, and the row is skipped. -/
def skipServiceError {T : Type} : Except Fault (Option T) → Except Fault (Option T)
  | .error (.serviceError _) => .ok none
  | result => result

/-- Whether a text names the type of addresses and networks. -/
def isIpMask (str : String) : Bool := iequal str "ipmask" || iequal str "IP netmask"

/-- Whether a text names the type of ranges. -/
def isIpRange (str : String) : Bool := iequal str "iprange" || iequal str "IP range"

/-- Whether a text names the type of hosts. -/
def isFqdn (str : String) : Bool := iequal str "fqdn"

/-- Whether a text that was recognised stands for an address or a network. -/
def isNetmask (addressType : IPAddressType) : Bool :=
  addressType == .address || addressType == .subnet

/-- Whether a text that was recognised stands for a range. -/
def isRange (addressType : IPAddressType) : Bool := addressType == .range

namespace AddressObjects

variable (config : OstoreConfig)

/-- Whether a text stands for addresses of the configured model. -/
def isIpAddress (addr : String) : Bool :=
  RulesAnalyzer.isIpAddress config.modelConfig.inet addr config.modelConfig.ipModel
    config.modelConfig.strictIpParser

/-- What kind of addresses a text stands for, in the configured model. -/
def getIpAddressType (addr : String) : Except Fault IPAddressType :=
  RulesAnalyzer.getIpAddressType config.modelConfig.inet addr config.modelConfig.ipModel
    config.modelConfig.strictIpParser

/-- All addresses have a type that is accepted; the first one that has not ends the loop. -/
def allOf (accepts : IPAddressType → Bool) : List String → Except Fault Bool
  | [] => .ok true
  | addr :: addresses => do
    let type ← getIpAddressType config addr
    if accepts type then allOf accepts addresses else .ok false

/-- The object of a list of addresses that all have a type that is accepted. -/
def makeAddresses (accepts : IPAddressType → Bool) (type : AddressType) (name : String)
    (addresses : List String) : Except Fault (Option AddressObject) := do
  let valid ← allOf config accepts addresses
  if valid then some <$> AddressObject.create name type addresses else pure none

/-- The address on a line of a file.  A line of blanks has none; the carriage return at the end
of a line is cut off. -/
def lineAddress (line : List Char) : Option String :=
  let address := trim line
  if address.isEmpty then none
  else some (String.ofList (if address.getLast? = some '\r' then address.dropLast else address))

/-- The addresses of a file; what is no mask is left out. -/
def externalAddresses : List (List Char) → Except Fault (List String)
  | [] => .ok []
  | line :: lines =>
    match lineAddress line with
    | none => externalAddresses lines
    | some address => do
      let keep ← (if isIpAddress config address then
          isNetmask <$> getIpAddressType config address
        else .ok false)
      let addresses ← externalAddresses lines
      return if keep then address :: addresses else addresses

/-- The object of a row without a type.  The type of the first address decides; the code does
not check that there is one. -/
def makeUntyped (name : String) (addresses : List String) : Except Fault (Option AddressObject) :=
  match addresses with
  | [] => .error .undefined
  | address :: rest =>
    if rest.isEmpty && !isIpAddress config address then
      some <$> AddressObject.create name .fqdn [address]
    else skipAddressError do
      let type ← getIpAddressType config address
      makeAddresses config (fun other => isNetmask other == isNetmask type)
        (if isNetmask type then .ipmask else .iprange) name addresses

/-- The object of a row: its name, its type and its addresses.  A list of masks or of ranges
without an element passes all checks but the assertion of the constructor. -/
def makeObject : CsvValues → Except Fault (Option AddressObject)
  | [name, type, address] =>
    if name.isEmpty then .ok none
    else if address.isEmpty then .ok none
    else if isIpMask type then
      skipAddressError (makeAddresses config isNetmask .ipmask name
        (split address config.csvListDelimiter))
    else if isIpRange type then
      skipAddressError (makeAddresses config isRange .iprange name
        (split address config.csvListDelimiter))
    else if isFqdn type then some <$> AddressObject.create name .fqdn [address]
    else if iequal type "file" then
      match config.files address with
      | none => .ok none
      | some contents => do
        let externalAddressList ← externalAddresses config (contents.toList.splitOn '\n')
        if externalAddressList.isEmpty then pure none
        else some <$> AddressObject.create name .ipmask externalAddressList
    else if iequal type "" then
      makeUntyped config name (split address config.csvListDelimiter)
    else .ok none
  | _ => .error .undefined

end AddressObjects

/-- The names of the builtin services and applications. -/
def isBuiltinService (name : String) : Bool :=
  name == "icmp" || name == "udp" || name == "tcp" || name == "any"

/-- Every text is `any`, or is known, or can be read. -/
def checkProtoPorts (known : String → Bool) : List String → Except Fault Unit
  | [] => .ok ()
  | protoPort :: protoPorts =>
    if protoPort == "any" || known protoPort then checkProtoPorts known protoPorts
    else do
      let _ ← parseProtocolPort protoPort
      checkProtoPorts known protoPorts

/-- The object of a row with a name and a list of services. -/
def makeServices {T : Type} (known : String → Bool)
    (create : String → List String → Except Fault T) (delimiter : Char) :
    CsvValues → Except Fault (Option T)
  | [name, protoport] =>
    if name.isEmpty then .ok none
    else if protoport.isEmpty then .ok none
    else if isBuiltinService name then .ok none
    else skipServiceError do
      let services := split protoport delimiter
      checkProtoPorts known services
      some <$> create name services
  | _ => .error .undefined

/-- A row of the file of services.  A service is `any` or a protocol with its ports; no names are
known here. -/
def ServiceObjects.makeObject : Char → CsvValues → Except Fault (Option ServiceObject) :=
  makeServices (fun _ => false) ServiceObject.create

/-- A service of an application can also be a service of the store. -/
def ApplicationObjects.makeObject (services : ObjectDictionary ServiceObject) :
    Char → CsvValues → Except Fault (Option ApplicationObject) :=
  makeServices (fun name => (ObjectDictionary.get services name).isSome) ApplicationObject.create

/-- The object of a row that only has a name. -/
def makeNamed {T : Type} (mk : String → T) : CsvValues → Except Fault (Option T)
  | [name] =>
    if name.isEmpty then .ok none
    else if name == "any" then .ok none
    else .ok (some (mk name))
  | _ => .error .undefined

/-- A row of the file of users. -/
def UserObjects.makeObject : CsvValues → Except Fault (Option UserObject) := makeNamed UserObject.mk

/-- A row of the file of urls. -/
def UrlObjects.makeObject : CsvValues → Except Fault (Option UrlObject) := makeNamed UrlObject.mk

/-- The pool of a row, which is the same for all kinds of pools. -/
def Pools.makeObject (delimiter : Char) : CsvValues → Except Fault (Option PoolObject)
  | [name, members] =>
    if name.isEmpty then .ok none
    else if members.isEmpty then .ok none
    else some <$> PoolObject.create name (split members delimiter)
  | _ => .error .undefined

/-! ### The loading loop -/

/-- Loads the rows that a reader hands out, and counts the objects. -/
def ObjectDictionary.load {T : Type} [FirewallObject T]
    (makeObject : CsvValues → Except Fault (Option T)) (rows : List CsvValues) :
    Program (ObjectDictionary T) Fault ℕ :=
  rows.foldlM (fun counter values => do
    match ← MonadExcept.ofExcept (makeObject values) with
    | some obj =>
      modify fun dictionary => ObjectDictionary.add dictionary obj
      pure (counter + 1)
    | none => pure counter) 0

/-- A file of objects, with the rows that the reader hands out. -/
inductive StoreFile
  | addresses (rows : List CsvValues)
  | addressPools (rows : List CsvValues)
  | services (rows : List CsvValues)
  | servicePools (rows : List CsvValues)
  | applications (rows : List CsvValues)
  | applicationPools (rows : List CsvValues)
  | users (rows : List CsvValues)
  | userPools (rows : List CsvValues)
  | urls (rows : List CsvValues)
  | urlPools (rows : List CsvValues)

namespace ObjectStore

/-- The dictionary after a load, whether it raised or not. -/
def loaded {T : Type} [FirewallObject T] (makeObject : CsvValues → Except Fault (Option T))
    (dictionary : ObjectDictionary T) (rows : List CsvValues) : ObjectDictionary T :=
  (exec (ObjectDictionary.load makeObject rows) dictionary).2

/-- The store after a file is loaded, whether the load raised or not. -/
def load (config : OstoreConfig) (store : ObjectStore) : StoreFile → ObjectStore
  | .addresses rows =>
    { store with addresses := loaded (AddressObjects.makeObject config) store.addresses rows }
  | .addressPools rows =>
    { store with
      addressPools := loaded (Pools.makeObject config.csvListDelimiter) store.addressPools rows }
  | .services rows =>
    { store with
      services := loaded (ServiceObjects.makeObject config.csvListDelimiter) store.services rows }
  | .servicePools rows =>
    { store with
      servicePools := loaded (Pools.makeObject config.csvListDelimiter) store.servicePools rows }
  | .applications rows =>
    { store with
      applications := loaded (ApplicationObjects.makeObject store.services config.csvListDelimiter)
        store.applications rows }
  | .applicationPools rows =>
    { store with
      applicationPools :=
        loaded (Pools.makeObject config.csvListDelimiter) store.applicationPools rows }
  | .users rows => { store with users := loaded UserObjects.makeObject store.users rows }
  | .userPools rows =>
    { store with
      userPools := loaded (Pools.makeObject config.csvListDelimiter) store.userPools rows }
  | .urls rows => { store with urls := loaded UrlObjects.makeObject store.urls rows }
  | .urlPools rows =>
    { store with urlPools := loaded (Pools.makeObject config.csvListDelimiter) store.urlPools rows }

/-- What the load of a dictionary raises. -/
def raised {T : Type} [FirewallObject T] (makeObject : CsvValues → Except Fault (Option T))
    (dictionary : ObjectDictionary T) (rows : List CsvValues) : Option Fault :=
  match (exec (ObjectDictionary.load makeObject rows) dictionary).1 with
  | .ok _ => none
  | .error fault => some fault

/-- What the load of a file raises. -/
def loadFault (config : OstoreConfig) (store : ObjectStore) : StoreFile → Option Fault
  | .addresses rows => raised (AddressObjects.makeObject config) store.addresses rows
  | .addressPools rows => raised (Pools.makeObject config.csvListDelimiter) store.addressPools rows
  | .services rows => raised (ServiceObjects.makeObject config.csvListDelimiter) store.services rows
  | .servicePools rows => raised (Pools.makeObject config.csvListDelimiter) store.servicePools rows
  | .applications rows =>
    raised (ApplicationObjects.makeObject store.services config.csvListDelimiter)
      store.applications rows
  | .applicationPools rows =>
    raised (Pools.makeObject config.csvListDelimiter) store.applicationPools rows
  | .users rows => raised UserObjects.makeObject store.users rows
  | .userPools rows => raised (Pools.makeObject config.csvListDelimiter) store.userPools rows
  | .urls rows => raised UrlObjects.makeObject store.urls rows
  | .urlPools rows => raised (Pools.makeObject config.csvListDelimiter) store.urlPools rows

/-- The store after some files are loaded. -/
def loadAll (config : OstoreConfig) (store : ObjectStore) (files : List StoreFile) : ObjectStore :=
  files.foldl (load config) store

end ObjectStore

/-! ### What loads keep -/

/-- **What the objects of all rows keep, a load keeps**, whether it raises or not. -/
theorem ObjectDictionary.load_induction {T : Type} [FirewallObject T]
    {makeObject : CsvValues → Except Fault (Option T)} {rows : List CsvValues}
    {P : ObjectDictionary T → Prop}
    (hadd : ∀ values ∈ rows, ∀ object, makeObject values = .ok (some object) →
      ∀ dictionary, P dictionary → P (add dictionary object))
    {dictionary : ObjectDictionary T} (h : P dictionary) :
    P (ObjectStore.loaded makeObject dictionary rows) := by
  have hkeeps : Keeps (Preserves P) (ObjectDictionary.load makeObject rows) := by
    refine keeps_foldlM fun counter values hvalues => ?_
    refine keeps_bind_of_returns (keeps_ofExcept _) fun d result d' hresult => ?_
    obtain ⟨hmake, rfl⟩ := returns_ofExcept.mp hresult
    cases result with
    | none => exact id
    | some object =>
      simp only [exec_modify_bind, exec_pure]
      exact hadd values hvalues object hmake d
  exact hkeeps dictionary h

/-- The objects of a dictionary to which one was added. -/
theorem ObjectDictionary.mem_add {T : Type} [FirewallObject T] {dictionary : ObjectDictionary T}
    {item other : T} (h : other ∈ add dictionary item) : other = item ∨ other ∈ dictionary := by
  unfold add at h
  split at h
  · obtain ⟨old, hold, rfl⟩ := List.mem_map.mp h
    split
    · exact Or.inl rfl
    · exact Or.inr hold
  · rcases List.mem_append.mp h with h | h
    · exact Or.inr h
    · exact Or.inl (List.mem_singleton.mp h)

/-! ### The objects that are made -/

theorem skipAddressError_eq_some {T : Type} {result : Except Fault (Option T)} {object : T} :
    skipAddressError result = .ok (some object) ↔ result = .ok (some object) := by
  rcases result with (_ | _ | _ | _ | _ | _) | _
  all_goals exact Iff.rfl.trans (by simp [skipAddressError])

theorem skipServiceError_eq_some {T : Type} {result : Except Fault (Option T)} {object : T} :
    skipServiceError result = .ok (some object) ↔ result = .ok (some object) := by
  rcases result with (_ | _ | _ | _ | _ | _) | _
  all_goals exact Iff.rfl.trans (by simp [skipServiceError])

theorem makeListed_eq_ok {T : Type} {what empty blank name : String} {names : List String}
    {mk : String → List String → T} {object : T}
    (h : makeListed what empty blank mk name names = .ok object) :
    names ≠ [] ∧ object = mk name names := by
  unfold makeListed at h
  split at h
  · cases h
  · next hempty =>
    split at h
    · cases h
    · exact ⟨by simpa using hempty, (Except.ok.inj h).symm⟩

namespace AddressObjects

variable {config : OstoreConfig} {name : String} {addresses : List String}

/-- All addresses of the object are read, and there is one. -/
structure Usable (config : OstoreConfig) (object : AddressObject) : Prop where
  nonempty : object.addresses ≠ []
  isIpAddress : ∀ address ∈ object.addresses, isIpAddress config address = true

theorem allOf_eq_true {accepts : IPAddressType → Bool}
    (h : allOf config accepts addresses = .ok true) :
    ∀ address ∈ addresses, isIpAddress config address = true := by
  induction addresses with
  | nil => exact fun _ hmem => absurd hmem List.not_mem_nil
  | cons address addresses ih =>
    obtain ⟨type, htype, h⟩ := bind_eq_ok.mp h
    split at h
    · intro other hother
      rcases List.mem_cons.mp hother with rfl | hother
      · exact isIpAddress_of_getIpAddressType htype
      · exact ih h other hother
    · cases h

/-- An object that is constructed has the addresses it is given, and there is one. -/
theorem of_create {type : AddressType} {object : AddressObject}
    (h : (some <$> AddressObject.create name type addresses : Except Fault _) = .ok (some object)) :
    addresses ≠ [] ∧ object = ⟨name, type, addresses⟩ := by
  unfold AddressObject.create at h
  split at h
  · cases h
  · next hempty =>
    obtain rfl := Option.some.inj (Except.ok.inj h)
    exact ⟨by simpa using hempty, rfl⟩

/-- The object of a list of addresses has the addresses of the list, and there is one. -/
theorem usable_of_makeAddresses {accepts : IPAddressType → Bool} {type : AddressType}
    {object : AddressObject}
    (h : skipAddressError (makeAddresses config accepts type name addresses) = .ok (some object)) :
    Usable config object := by
  obtain ⟨valid, hvalid, h⟩ := bind_eq_ok.mp (skipAddressError_eq_some.mp h)
  cases valid with
  | true =>
    obtain ⟨hne, rfl⟩ := of_create h
    exact ⟨hne, allOf_eq_true hvalid⟩
  | false => exact nomatch Except.ok.inj h

/-- The addresses of a file are read. -/
theorem isIpAddress_externalAddresses {lines : List (List Char)}
    (h : externalAddresses config lines = .ok addresses) :
    ∀ address ∈ addresses, isIpAddress config address = true := by
  induction lines generalizing addresses with
  | nil =>
    obtain rfl := Except.ok.inj h
    exact fun _ hmem => absurd hmem List.not_mem_nil
  | cons line lines ih =>
    rw [externalAddresses] at h
    split at h
    · exact ih h
    · next address _ =>
      obtain ⟨keep, hkeep, h⟩ := bind_eq_ok.mp h
      obtain ⟨rest, hrest, h⟩ := bind_eq_ok.mp h
      obtain rfl := Except.ok.inj h
      cases keep with
      | false => exact ih hrest
      | true =>
        intro other hother
        rcases List.mem_cons.mp hother with rfl | hother
        · split at hkeep
          · -- only addresses are kept
            assumption
          · cases hkeep
        · exact ih hrest other hother

theorem usable_of_makeUntyped {object : AddressObject}
    (h : makeUntyped config name addresses = .ok (some object)) (htype : object.type ≠ .fqdn) :
    Usable config object := by
  unfold makeUntyped at h
  split at h
  · cases h
  · split at h
    · obtain ⟨-, rfl⟩ := of_create h
      exact absurd rfl htype
    · obtain ⟨type, -, h⟩ := bind_eq_ok.mp (skipAddressError_eq_some.mp h)
      exact usable_of_makeAddresses (skipAddressError_eq_some.mpr h)

/-- **The addresses of an object that is made are read**, and there is one.  Objects with a host
name are left to the resolver. -/
theorem usable_of_makeObject {values : CsvValues} {object : AddressObject}
    (h : makeObject config values = .ok (some object)) (htype : object.type ≠ .fqdn) :
    Usable config object := by
  unfold makeObject at h
  split at h
  · next name type address =>
    split_ifs at h
    · cases h
    · cases h
    · exact usable_of_makeAddresses h
    · exact usable_of_makeAddresses h
    · obtain ⟨-, rfl⟩ := of_create h
      exact absurd rfl htype
    · -- the addresses of a file
      split at h
      · cases h
      · obtain ⟨addresses, haddresses, h⟩ := bind_eq_ok.mp h
        split at h
        · cases h
        · obtain ⟨hne, rfl⟩ := of_create h
          exact ⟨hne, isIpAddress_externalAddresses haddresses⟩
    · exact usable_of_makeUntyped h htype
    · cases h
  · cases h

/-- **A row of masks or of ranges without an element aborts the program**: the list passes all
checks, and fails the assertion of the constructor. -/
theorem makeObject_aborts {type address : String} (hname : name ≠ "") (haddress : address ≠ "")
    (htype : isIpMask type = true ∨ isIpRange type = true)
    (hempty : split address config.csvListDelimiter = []) :
    makeObject config [name, type, address] = .error .aborted := by
  have hname' : name.isEmpty = false := by simpa using hname
  have haddress' : address.isEmpty = false := by simpa using haddress
  by_cases hmask : isIpMask type = true
  · simp only [makeObject, hname', haddress', hmask, hempty]
    rfl
  · have hmask' : isIpMask type = false := Bool.eq_false_iff.mpr hmask
    simp only [makeObject, hname', haddress', hmask', htype.resolve_left hmask, hempty]
    rfl

end AddressObjects

/-! ### The services that are made -/

/-- Every text that is checked is `any`, or is known, or can be read. -/
theorem of_checkProtoPorts {known : String → Bool} {protoPorts : List String}
    (h : checkProtoPorts known protoPorts = .ok ()) {protoPort : String}
    (hmem : protoPort ∈ protoPorts) : protoPort = "any" ∨ known protoPort = true ∨
      ∃ range, parseProtocolPort protoPort = .ok range := by
  induction protoPorts with
  | nil => exact absurd hmem List.not_mem_nil
  | cons first protoPorts ih =>
    rw [checkProtoPorts] at h
    split at h
    · next hskip =>
      rcases List.mem_cons.mp hmem with rfl | hmem
      · rw [Bool.or_eq_true, beq_iff_eq] at hskip
        exact hskip.imp_right Or.inl
      · exact ih h hmem
    · obtain ⟨range, hrange, h⟩ := bind_eq_ok.mp h
      rcases List.mem_cons.mp hmem with rfl | hmem
      · exact Or.inr (Or.inr ⟨range, hrange⟩)
      · exact ih h hmem

/-- What is known of an object with a list of services. -/
theorem of_makeServices {T : Type} {known : String → Bool} {what empty blank : String}
    {mk : String → List String → T} {delimiter : Char} {values : CsvValues} {object : T}
    (h : makeServices known (makeListed what empty blank mk) delimiter values = .ok (some object)) :
    ∃ name services, object = mk name services ∧ isBuiltinService name = false ∧ services ≠ [] ∧
      ∀ service ∈ services, service = "any" ∨ known service = true ∨
        ∃ range, parseProtocolPort service = .ok range := by
  unfold makeServices at h
  split at h
  · next name protoport =>
    split_ifs at h with hname hprotoport hbuiltin
    · cases h
    · cases h
    · cases h
    · obtain ⟨_, hcheck, h⟩ := bind_eq_ok.mp (skipServiceError_eq_some.mp h)
      rcases hcreate : makeListed what empty blank mk name (split protoport delimiter) with
        _ | object'
      · rw [hcreate] at h
        cases h
      · rw [hcreate] at h
        obtain rfl := Option.some.inj (Except.ok.inj h)
        obtain ⟨hne, rfl⟩ := makeListed_eq_ok hcreate
        exact ⟨name, _, rfl, Bool.eq_false_iff.mpr hbuiltin, hne,
          fun _ => of_checkProtoPorts hcheck⟩
  · cases h

/-- **The services of an object are `any` or can be read**, and there is one. -/
theorem ServiceObjects.of_makeObject {delimiter : Char} {values : CsvValues}
    {object : ServiceObject} (h : makeObject delimiter values = .ok (some object)) :
    isBuiltinService object.name = false ∧ object.services ≠ [] ∧
      ∀ service ∈ object.services, service = "any" ∨
        ∃ range, parseProtocolPort service = .ok range := by
  obtain ⟨name, services, rfl, hbuiltin, hne, hall⟩ := of_makeServices h
  exact ⟨hbuiltin, hne, fun service hservice => (hall service hservice).imp_right
    fun h => h.resolve_left Bool.false_ne_true⟩

end RulesAnalyzer
