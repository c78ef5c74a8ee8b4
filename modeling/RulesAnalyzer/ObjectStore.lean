import RulesAnalyzer.Endpoint
import Mathlib.Data.List.Basic

/-!
# The object store

The store holds the definitions of addresses, services, applications, users and
urls, and for each kind the pools that list members by name.  Loading an object
whose name is taken replaces the definition.

## Main definitions

* `FirewallObject`, `ObjectDictionary` — named objects and the dictionaries of them.
* `AddressObject`, `ServiceObject`, … — the objects of the store.
* `ObjectStore`, `ObjectStore.clear` — the store, and the store with its builtin objects.

## Main results

* `ObjectDictionary.get_add` — what a dictionary holds after an object is added.
-/

namespace RulesAnalyzer

/-! ### Dictionaries -/

/-- A named object of the configuration. -/
class FirewallObject (T : Type) where
  name : T → String

/-- A dictionary of objects; each name occurs at most once. -/
abbrev ObjectDictionary (T : Type) := List T

namespace ObjectDictionary

variable {T : Type} [FirewallObject T]

open FirewallObject

/-- The item of the given name. -/
def get (dictionary : ObjectDictionary T) (itemName : String) : Option T :=
  dictionary.find? fun item => name item == itemName

/-- Adds an item, or replaces the item of that name. -/
def add (dictionary : ObjectDictionary T) (item : T) : ObjectDictionary T :=
  if (get dictionary (name item)).isSome then
    dictionary.map fun other => if name other == name item then item else other
  else dictionary ++ [item]

theorem name_of_get {dictionary : ObjectDictionary T} {itemName : String} {item : T}
    (h : get dictionary itemName = some item) : name item = itemName := by
  have hname := List.find?_some h
  exact beq_iff_eq.mp hname

theorem mem_of_get {dictionary : ObjectDictionary T} {itemName : String} {item : T}
    (h : get dictionary itemName = some item) : item ∈ dictionary := List.mem_of_find?_eq_some h

theorem get_cons (other : T) (dictionary : ObjectDictionary T) (itemName : String) :
    get (other :: dictionary) itemName =
      if name other = itemName then some other else get dictionary itemName := by
  rw [get, List.find?_cons]
  by_cases h : name other = itemName
  · rw [if_pos h, beq_iff_eq.mpr h]
  · rw [if_neg h, beq_eq_false_iff_ne.mpr h, get]

/-- What a dictionary finds after all items of one name are replaced. -/
theorem get_replace (dictionary : ObjectDictionary T) (item : T) (itemName : String) :
    get (dictionary.map fun other => if name other == name item then item else other) itemName =
      if itemName = name item ∧ (get dictionary itemName).isSome then some item
      else get dictionary itemName := by
  induction dictionary with
  | nil => rw [if_neg (fun h => Bool.false_ne_true h.2), List.map_nil]
  | cons other dictionary ih =>
    rw [List.map_cons, get_cons, get_cons, ih]
    by_cases hother : name other = name item
    · rw [if_pos (beq_iff_eq.mpr hother)]
      by_cases hname : itemName = name item
      · rw [if_pos hname.symm, if_pos (hother.trans hname.symm), if_pos ⟨hname, rfl⟩]
      · have hne : name other ≠ itemName := fun h => hname (h.symm.trans hother)
        rw [if_neg (Ne.symm hname), if_neg (hname ·.1), if_neg hne, if_neg (hname ·.1)]
    · rw [if_neg (fun h => hother (beq_iff_eq.mp h))]
      by_cases hname : name other = itemName
      · rw [if_pos hname, if_neg (fun h => hother (hname.trans h.1)), if_pos hname]
      · simp only [if_neg hname]

/-- **The item that is added is found under its name; what other names find stays.** -/
theorem get_add (dictionary : ObjectDictionary T) (item : T) (itemName : String) :
    get (add dictionary item) itemName =
      if itemName = name item then some item else get dictionary itemName := by
  unfold add
  split
  · next hsome =>
    rw [get_replace]
    by_cases hname : itemName = name item
    · rw [if_pos ⟨hname, hname ▸ hsome⟩, if_pos hname]
    · rw [if_neg (fun h => hname h.1), if_neg hname]
  · next hnone =>
    have hget : get dictionary (name item) = none := by simpa using hnone
    rw [get, List.find?_append]
    by_cases hname : itemName = name item
    · rw [if_pos hname, hname, ← get, hget, List.find?_singleton, beq_self_eq_true]
      rfl
    · rw [if_neg hname, List.find?_singleton,
        if_neg (fun h => hname (beq_iff_eq.mp h).symm), Option.or_none, get]

end ObjectDictionary

/-! ### Objects -/

/-- The types of address objects: networks, ranges, and hosts whose addresses are looked up. -/
inductive AddressType
  | ipmask
  | iprange
  | fqdn
  deriving DecidableEq, Repr

/-- Addresses under a name. -/
structure AddressObject where
  name : String
  type : AddressType
  addresses : List String
  deriving DecidableEq

/-- Services under a name. -/
structure ServiceObject where
  name : String
  services : List String
  deriving DecidableEq

/-- An application with its default services. -/
structure ApplicationObject where
  name : String
  services : List String
  deriving DecidableEq

/-- A user, who is only a name. -/
structure UserObject where
  name : String
  deriving DecidableEq

/-- A url, which is only a name. -/
structure UrlObject where
  name : String
  deriving DecidableEq

/-- A pool of objects and of other pools, given by their names. -/
structure PoolObject where
  name : String
  members : List String
  deriving DecidableEq

instance : FirewallObject AddressObject := ⟨AddressObject.name⟩

instance : FirewallObject ServiceObject := ⟨ServiceObject.name⟩

instance : FirewallObject ApplicationObject := ⟨ApplicationObject.name⟩

instance : FirewallObject UserObject := ⟨UserObject.name⟩

instance : FirewallObject UrlObject := ⟨UrlObject.name⟩

instance : FirewallObject PoolObject := ⟨PoolObject.name⟩

/-- The object has several addresses. -/
def AddressObject.isMulti (object : AddressObject) : Bool := object.addresses.length > 1

/-- The object has several services. -/
def ServiceObject.isMulti (object : ServiceObject) : Bool := object.services.length > 1

/-! ### The store -/

/-- The object store.  The resolver of host names is here a function: it stands for what the
caches of the resolver answer at one moment, an object that holds the addresses of the host or
none.  The resolver whose caches grow while rows ask is `FqdnResolver`, and `HostFactory` is the
factory with these caches beside its state. -/
structure ObjectStore where
  fqdnResolver : AddressObject → Option AddressObject
  addresses : ObjectDictionary AddressObject
  addressPools : ObjectDictionary PoolObject
  services : ObjectDictionary ServiceObject
  servicePools : ObjectDictionary PoolObject
  applications : ObjectDictionary ApplicationObject
  applicationPools : ObjectDictionary PoolObject
  users : ObjectDictionary UserObject
  userPools : ObjectDictionary PoolObject
  urls : ObjectDictionary UrlObject
  urlPools : ObjectDictionary PoolObject

namespace ObjectStore

open ObjectDictionary

/-- The store with its builtin objects. -/
def clear (store : ObjectStore) (ipModel : IPAddressModel) : ObjectStore where
  fqdnResolver := store.fqdnResolver
  addresses :=
    if ipModel = .ip64Model then
      add (add [] ⟨"any4", .ipmask, ["any4"]⟩) ⟨"any6", .ipmask, ["any6"]⟩
    else add [] ⟨"any", .ipmask, ["any"]⟩
  addressPools := if ipModel = .ip64Model then add [] ⟨"any", ["any4", "any6"]⟩ else []
  services := ["any", "tcp", "udp", "icmp"].foldl (fun services name =>
    add services (⟨name, [name]⟩ : ServiceObject)) []
  servicePools := []
  applications := ["any", "udp", "tcp", "icmp"].foldl (fun applications name =>
    add applications (⟨name, [name]⟩ : ApplicationObject)) []
  applicationPools := []
  users := add [] ⟨"any"⟩
  userPools := []
  urls := add [] ⟨"any"⟩
  urlPools := []

/-- The store that only has its builtin objects, with a resolver that knows no host. -/
def builtin (ipModel : IPAddressModel) : ObjectStore :=
  clear ⟨fun _ => none, [], [], [], [], [], [], [], [], [], []⟩ ipModel

/-- The store with its builtin objects and some services. -/
def ofServices (ipModel : IPAddressModel) (services : List ServiceObject) : ObjectStore :=
  { builtin ipModel with services := services.foldl add (builtin ipModel).services }

/-- The address object of a name.  The resolver replaces an object that holds a host name by one
that holds the addresses of the host. -/
def getAddress (store : ObjectStore) (name : String) : Option AddressObject :=
  match get store.addresses name with
  | some address => if address.type = .fqdn then store.fqdnResolver address else some address
  | none => none

/-- The store holds no host names. -/
def NoFqdn (store : ObjectStore) : Prop := ∀ address ∈ store.addresses, address.type ≠ .fqdn

end ObjectStore

end RulesAnalyzer
