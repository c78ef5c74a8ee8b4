import RulesAnalyzer.Configuration
import RulesAnalyzer.Network
import RulesAnalyzer.ObjectStore

/-!
# Host names

An address of type fqdn holds a host name.  The resolver asks for the addresses of
the host and keeps them in two caches: all addresses, and those of the model.  Both
caches are keyed by the host name, but what they hold is an address object, under
the name of the fqdn that was asked for first.

## Main definitions

* `FqdnResolver`, `FqdnResolver.resolve` — the resolver with its caches.
* `AddressObjects.get`, `AddressObjects.calls` — a lookup in the store, and a run of lookups.
* `AddressObjects.KeepsApart` — every answer of a run is named as it was asked for.
* `AddressObjects.DistinctHosts` — fqdns that share a host are the same.

## Main results

* `FqdnResolver.resolved_resolveTo` — what a resolution does.
* `AddressObjects.Cached.gets`, `AddressObjects.named_of_calls` — a lookup keeps the caches in
  order, and the answers of a run are named after lookups of the run.
* `AddressObjects.keepsApart_iff` — **when the lookups of a run keep names apart.**
-/

namespace RulesAnalyzer

open Effect

/-! ### The resolver -/

/-- What `getaddrinfo` answers: the addresses of a host, `EAI_NONAME`, or another error. -/
inductive AddrInfo
  | found (addresses : List String)
  | noName
  | failed
  deriving DecidableEq

/-- The addresses; there are none when the status is not 0. -/
def AddrInfo.addresses : AddrInfo → List String
  | found addresses => addresses
  | _ => []

/-- The status is 0 or `EAI_NONAME`. -/
def AddrInfo.isFinal : AddrInfo → Bool
  | failed => false
  | _ => true

theorem AddrInfo.addresses_of_not_final {info : AddrInfo} (h : info.isFinal = false) :
    info.addresses = [] := by
  cases info with
  | found addresses => cases h
  | noName => rfl
  | failed => rfl

/-- The configuration of the resolver, with the library function that looks up hosts. -/
structure ResolverConfig extends FqdnResolverConfig where
  getaddrinfo : String → AddrInfo

/-- Address objects by host name; a host without addresses has no object. -/
abbrev HostCache := String → Option (Option AddressObject)

/-- Adds an entry, unless the host has one. -/
def HostCache.insert (cache : HostCache) (hostname : String) (object : Option AddressObject) :
    HostCache :=
  if (cache hostname).isSome then cache else Function.update cache hostname (some object)

/-- The state of the resolver.  The lines that are appended to the cache file are kept when the
file is open. -/
structure FqdnResolver where
  wsInitialized : Bool
  memoryCache : HostCache
  filteredMemoryCache : HostCache
  fileCache : Option (List String)

/-- The object that holds addresses, when there are some. -/
def ipmaskAddressObject (name : String) (addresses : List String) : Option AddressObject :=
  if addresses.isEmpty then none else some ⟨name, .ipmask, addresses⟩

/-- The host of an address of type fqdn. -/
def AddressObject.hostname (address : AddressObject) : Option String :=
  match address.type, address.addresses with
  | .fqdn, [hostname] => some (String.ofList (trim hostname.toList))
  | _, _ => none

namespace FqdnResolver

/-- The resolver with the hosts of the cache file, before the first resolution. -/
def loaded (wsInitialized : Bool) (memoryCache : HostCache) (fileCache : Option (List String)) :
    FqdnResolver := ⟨wsInitialized, memoryCache, fun _ => none, fileCache⟩

/-- The line of a host in the cache file. -/
def fileLine (hostname : String) (object : AddressObject) : String :=
  hostname ++ "," ++ toString object.addresses.length ++ "," ++
    stringsJoin object.addresses ";" false

variable (resolverConfig : ResolverConfig) (config : ModelConfig)

/-- The addresses of a host, from the network. -/
def resolveHostname (hostname : String) : Program FqdnResolver Fault AddrInfo := do
  let resolver ← get
  if resolver.wsInitialized then pure (resolverConfig.getaddrinfo hostname)
  else throw (.runtimeError "internal error : winsock not initialized in FqdnReolver")

/-- Keeps what a host was resolved to. -/
def keep (hostname : String) (object : Option AddressObject) (s : FqdnResolver) : FqdnResolver :=
  { s with filteredMemoryCache := s.filteredMemoryCache.insert hostname object }

/-- The addresses of the model, of those in the memory cache. -/
def filter (fqdn : AddressObject) (hostname : String) (resolved : Option AddressObject) :
    Program FqdnResolver Fault (Option AddressObject) := do
  let addresses := (resolved.elim [] AddressObject.addresses).filter fun address =>
    isIpAddress config.inet address config.ipModel config.strictIpParser
  let object := ipmaskAddressObject fqdn.name addresses
  modify (keep hostname object)
  pure object

/-- Keeps the addresses of a host that was looked up. -/
def store (fqdn : AddressObject) (hostname : String) (addresses : List String)
    (s : FqdnResolver) : FqdnResolver :=
  let object := ipmaskAddressObject fqdn.name addresses
  { s with
    memoryCache := s.memoryCache.insert hostname object
    fileCache := s.fileCache.map fun lines =>
      lines ++ (object.map (fileLine hostname)).toList }

/-- A host that is in none of the caches. -/
def resolveNew (again : Program FqdnResolver Fault (Option AddressObject)) (fqdn : AddressObject)
    (hostname : String) : Program FqdnResolver Fault (Option AddressObject) := do
  let result ← resolveHostname resolverConfig hostname
  if result.isFinal then do
    modify (store fqdn hostname result.addresses)
    again
  else pure none

/-- The resolution of an fqdn, as deep as it calls itself. -/
def resolveTo : ℕ → AddressObject → Program FqdnResolver Fault (Option AddressObject)
  | 0, _ => throw .undefined
  | depth + 1, fqdn =>
    match if resolverConfig.enable then fqdn.hostname else none with
    | none => pure none
    | some hostname => do
      let resolver ← get
      match resolver.filteredMemoryCache hostname with
      | some object => pure object
      | none =>
        match resolver.memoryCache hostname with
        | some resolved => filter config fqdn hostname resolved
        | none => resolveNew resolverConfig (resolveTo depth fqdn) fqdn hostname

/-- The addresses of the model, of the host of an fqdn.  The resolution calls itself once. -/
def resolve (fqdn : AddressObject) : Program FqdnResolver Fault (Option AddressObject) :=
  resolveTo resolverConfig config 2 fqdn

/-! ### What a resolution does -/

/-- The addresses the resolver has for a host, or gets when it looks the host up. -/
def known (s : FqdnResolver) (hostname : String) : List String :=
  match s.memoryCache hostname with
  | some resolved => resolved.elim [] AddressObject.addresses
  | none => if s.wsInitialized then (resolverConfig.getaddrinfo hostname).addresses else []

/-- The addresses of a host, restricted to the model. -/
def hostAddresses (s : FqdnResolver) (hostname : String) : List String :=
  if resolverConfig.enable then (s.known resolverConfig hostname).filter fun address =>
    isIpAddress config.inet address config.ipModel config.strictIpParser
  else []

/-- The object that holds the addresses of the host of an fqdn, under a name. -/
def answer (s : FqdnResolver) (name : String) (fqdn : AddressObject) : Option AddressObject :=
  fqdn.hostname.bind fun hostname =>
    ipmaskAddressObject name (s.hostAddresses resolverConfig config hostname)

theorem elim_ipmaskAddressObject (name : String) (addresses : List String) :
    (ipmaskAddressObject name addresses).elim [] AddressObject.addresses = addresses := by
  unfold ipmaskAddressObject
  split
  · next h => exact (List.isEmpty_iff.mp h).symm
  · rfl

variable {resolverConfig config} in
theorem answer_of_hostname (s : FqdnResolver) (name : String) {fqdn : AddressObject}
    {hostname : String} (h : fqdn.hostname = some hostname) :
    s.answer resolverConfig config name fqdn =
      ipmaskAddressObject name (s.hostAddresses resolverConfig config hostname) := by
  rw [answer, h, Option.bind_some]

theorem insert_of_none {cache : HostCache} {hostname : String} {object : Option AddressObject}
    (h : cache hostname = none) :
    cache.insert hostname object = Function.update cache hostname (some object) := by
  rw [HostCache.insert, h, if_neg (by decide)]

variable {resolverConfig config}

/-- **What is stored for a host is what a lookup of the host would give**, so all hosts keep
their addresses. -/
theorem known_store {fqdn : AddressObject} {hostname : String} {s : FqdnResolver}
    (hnone : s.memoryCache hostname = none) (hws : s.wsInitialized = true) :
    (store fqdn hostname (resolverConfig.getaddrinfo hostname).addresses s).known resolverConfig =
      s.known resolverConfig := by
  funext host
  rw [known, known, store]
  simp only [insert_of_none hnone]
  by_cases hhost : host = hostname
  · subst hhost
    rw [Function.update_self, hnone]
    simp only [hws, if_true, elim_ipmaskAddressObject]
  · rw [Function.update_of_ne hhost]

/-- The result of a resolution, and the resolver then. -/
inductive Resolved (resolverConfig : ResolverConfig) (config : ModelConfig)
    (fqdn : AddressObject) (hostname : String) (s : FqdnResolver) :
    Except Fault (Option AddressObject) × FqdnResolver → Prop
  /-- The host was resolved before, for this fqdn or for another one. -/
  | cached {object : Option AddressObject} (h : s.filteredMemoryCache hostname = some object) :
      Resolved resolverConfig config fqdn hostname s (.ok object, s)
  /-- The lookup of the host fails. -/
  | failed {result : Except Fault (Option AddressObject)}
      (h : s.filteredMemoryCache hostname = none)
      (hnone : s.hostAddresses resolverConfig config hostname = [])
      (hresult : ∀ object, result = .ok object → object = none) :
      Resolved resolverConfig config fqdn hostname s (result, s)
  /-- The host is resolved. -/
  | added {s' : FqdnResolver} (h : s.filteredMemoryCache hostname = none)
      (hknown : s'.known resolverConfig = s.known resolverConfig)
      (hfiltered : s'.filteredMemoryCache = Function.update s.filteredMemoryCache hostname
        (some (ipmaskAddressObject fqdn.name (s.hostAddresses resolverConfig config hostname)))) :
      Resolved resolverConfig config fqdn hostname s
        (.ok (ipmaskAddressObject fqdn.name (s.hostAddresses resolverConfig config hostname)), s')

section Resolve

variable {fqdn : AddressObject} {hostname : String} {s : FqdnResolver}

/-- A host that is in the memory cache. -/
theorem exec_filter (henable : resolverConfig.enable = true)
    {resolved : Option AddressObject}
    (hmemory : s.memoryCache hostname = some resolved) :
    exec (filter config fqdn hostname resolved) s =
      (.ok (ipmaskAddressObject fqdn.name (s.hostAddresses resolverConfig config hostname)),
        s.keep hostname
          (ipmaskAddressObject fqdn.name (s.hostAddresses resolverConfig config hostname))) := by
  have haddresses : s.hostAddresses resolverConfig config hostname =
      (resolved.elim [] AddressObject.addresses).filter fun address =>
        isIpAddress config.inet address config.ipModel config.strictIpParser := by
    rw [hostAddresses, if_pos henable, known, hmemory]
  rw [filter, exec_modify_bind, exec_pure, ← haddresses]

theorem exec_resolveTo (henable : resolverConfig.enable = true)
    (hhost : fqdn.hostname = some hostname) (depth : ℕ) :
    exec (resolveTo resolverConfig config (depth + 1) fqdn) s =
      match s.filteredMemoryCache hostname with
      | some object => (.ok object, s)
      | none =>
        match s.memoryCache hostname with
        | some resolved => exec (filter config fqdn hostname resolved) s
        | none => exec (resolveNew resolverConfig (resolveTo resolverConfig config depth fqdn) fqdn
            hostname) s := by
  rw [resolveTo, if_pos henable, hhost]
  show exec (get >>= _) s = _
  rw [exec_get_bind]
  rcases s.filteredMemoryCache hostname with _ | object
  · rcases s.memoryCache hostname with _ | resolved <;> rfl
  · rfl

/-- The second call finds the addresses that were stored. -/
theorem resolved_store (henable : resolverConfig.enable = true)
    (hhost : fqdn.hostname = some hostname) (depth : ℕ)
    (hfiltered : s.filteredMemoryCache hostname = none)
    (hmemory : s.memoryCache hostname = none) (hws : s.wsInitialized = true) :
    Resolved resolverConfig config fqdn hostname s
      (exec (resolveTo resolverConfig config (depth + 1) fqdn)
        (store fqdn hostname (resolverConfig.getaddrinfo hostname).addresses s)) := by
  have hmemory' : (store fqdn hostname (resolverConfig.getaddrinfo hostname).addresses
      s).memoryCache hostname = some (ipmaskAddressObject fqdn.name
        (resolverConfig.getaddrinfo hostname).addresses) := by
    show s.memoryCache.insert hostname _ hostname = _
    rw [insert_of_none hmemory, Function.update_self]
  have hfiltered' : (store fqdn hostname (resolverConfig.getaddrinfo hostname).addresses
      s).filteredMemoryCache hostname = none := hfiltered
  have hsame := @known_store resolverConfig fqdn hostname s hmemory hws
  have haddresses : (store fqdn hostname (resolverConfig.getaddrinfo hostname).addresses
      s).hostAddresses resolverConfig config hostname =
        s.hostAddresses resolverConfig config hostname := by
    rw [hostAddresses, hostAddresses, hsame]
  have hrun := @exec_filter resolverConfig config fqdn hostname _ henable _ hmemory'
  rw [haddresses] at hrun
  rw [exec_resolveTo henable hhost]
  simp only [hfiltered', hmemory', hrun]
  exact .added hfiltered hsame (insert_of_none hfiltered)

/-- A host that is looked up. -/
theorem resolved_resolveNew (henable : resolverConfig.enable = true)
    (hhost : fqdn.hostname = some hostname) (depth : ℕ)
    (hfiltered : s.filteredMemoryCache hostname = none)
    (hmemory : s.memoryCache hostname = none) :
    Resolved resolverConfig config fqdn hostname s (exec (resolveNew resolverConfig
      (resolveTo resolverConfig config (depth + 1) fqdn) fqdn hostname) s) := by
  have hknown : s.known resolverConfig hostname =
      if s.wsInitialized then (resolverConfig.getaddrinfo hostname).addresses else [] := by
    rw [known, hmemory]
  have hempty : s.known resolverConfig hostname = [] →
      s.hostAddresses resolverConfig config hostname = [] := by
    intro h
    rw [hostAddresses, if_pos henable, h, List.filter_nil]
  rw [resolveNew, resolveHostname, bind_assoc, exec_get_bind]
  rcases hws : s.wsInitialized with _ | _
  · -- the sockets are not there
    rw [hws] at hknown
    refine .failed hfiltered (hempty hknown) fun object h => ?_
    cases h
  · rw [if_pos rfl, pure_bind]
    rw [hws, if_pos rfl] at hknown
    rcases hfinal : (resolverConfig.getaddrinfo hostname).isFinal with _ | _
    · have hnone := AddrInfo.addresses_of_not_final hfinal
      refine .failed hfiltered (hempty (hknown.trans hnone)) fun object h => ?_
      exact (Except.ok.inj h).symm
    · rw [if_pos rfl, exec_modify_bind]
      exact resolved_store henable hhost depth hfiltered hmemory hws

/-- **What a resolution does**, however deep it may call itself. -/
theorem resolved_resolveTo (henable : resolverConfig.enable = true)
    (hhost : fqdn.hostname = some hostname) (depth : ℕ) :
    Resolved resolverConfig config fqdn hostname s
      (exec (resolveTo resolverConfig config (depth + 2) fqdn) s) := by
  rw [exec_resolveTo henable hhost]
  rcases hfiltered : s.filteredMemoryCache hostname with _ | object
  · rcases hmemory : s.memoryCache hostname with _ | resolved
    · exact resolved_resolveNew henable hhost depth hfiltered hmemory
    · show Resolved _ _ _ _ _ (exec (filter config fqdn hostname resolved) s)
      rw [@exec_filter resolverConfig config fqdn hostname s henable resolved hmemory]
      exact .added hfiltered rfl (insert_of_none hfiltered)
  · exact .cached hfiltered

/-- An address that is no fqdn is not resolved. -/
theorem exec_resolve_none (h : resolverConfig.enable = true → fqdn.hostname = none) :
    exec (resolve resolverConfig config fqdn) s = (.ok none, s) := by
  have hnone : (if resolverConfig.enable then fqdn.hostname else none) = none := by
    split
    · next henable => exact h henable
    · rfl
  rw [resolve, resolveTo, hnone, exec_pure]

end Resolve

end FqdnResolver

/-! ### Lookups in the store -/

namespace AddressObjects

variable (resolverConfig : ResolverConfig) (config : ModelConfig)
  (addresses : ObjectDictionary AddressObject)

/-- The address of a name.  A host name is resolved. -/
def get (name : String) : Program FqdnResolver Fault (Option AddressObject) :=
  match ObjectDictionary.get addresses name with
  | some address =>
    if address.type = .fqdn then FqdnResolver.resolve resolverConfig config address
    else pure (some address)
  | none => pure none

/-- The answers of a run of lookups. -/
def calls : FqdnResolver → List String →
    List (String × Except Fault (Option AddressObject))
  | _, [] => []
  | s, name :: names =>
    (name, (exec (get resolverConfig config addresses name) s).1) ::
      calls (exec (get resolverConfig config addresses name) s).2 names

/-- The host a name of the store is resolved to. -/
def hostOf (name : String) : Option String :=
  (ObjectDictionary.get addresses name).bind AddressObject.hostname

/-- The answers of a run keep names apart. -/
structure KeepsApart (s : FqdnResolver) (names : List String) : Prop where
  /-- An answer has the name that was asked for and the addresses of its own host. -/
  own : ∀ name fqdn object, ObjectDictionary.get addresses name = some fqdn → fqdn.type = .fqdn →
    (name, .ok (some object)) ∈ calls resolverConfig config addresses s names →
    object.name = name ∧ ∃ hostname, fqdn.hostname = some hostname ∧
      object.addresses = s.hostAddresses resolverConfig config hostname
  /-- What is registered under the names of the answers is found under the names of a pool. -/
  found : ∀ name ∈ names, ∀ hostname, hostOf addresses name = some hostname →
    s.hostAddresses resolverConfig config hostname ≠ [] →
    ∃ call object, (call, .ok (some object)) ∈ calls resolverConfig config addresses s names ∧
      object.name = name

/-- No two of the names have the same host, if the host is resolved. -/
def DistinctHosts (s : FqdnResolver) (names : List String) : Prop :=
  ∀ name ∈ names, ∀ name' ∈ names, ∀ hostname, hostOf addresses name = some hostname →
    hostOf addresses name' = some hostname →
    s.hostAddresses resolverConfig config hostname ≠ [] → name = name'

/-! ### Runs of lookups -/

/-- What a lookup does. -/
inductive Gets (name : String) (s : FqdnResolver) :
    Except Fault (Option AddressObject) × FqdnResolver → Prop
  | host {fqdn : AddressObject} {hostname : String}
      {result : Except Fault (Option AddressObject) × FqdnResolver}
      (henable : resolverConfig.enable = true)
      (hfqdn : ObjectDictionary.get addresses name = some fqdn)
      (hhost : fqdn.hostname = some hostname)
      (hresolved : FqdnResolver.Resolved resolverConfig config fqdn hostname s result) :
      Gets name s result
  | other (hnone : resolverConfig.enable = true → hostOf addresses name = none) :
      Gets name s (.ok ((ObjectDictionary.get addresses name).filter fun address =>
        decide (address.type ≠ .fqdn)), s)

/-- The hosts keep their addresses, and what is cached for a host is named after one of the
names that were looked up for it. -/
structure Cached (s₀ s : FqdnResolver) (done : List String) : Prop where
  known : s.known resolverConfig = s₀.known resolverConfig
  entries : ∀ hostname object, s.filteredMemoryCache hostname = some object →
    ∃ name ∈ done, hostOf addresses name = some hostname ∧
      object = ipmaskAddressObject name (s₀.hostAddresses resolverConfig config hostname)

variable {resolverConfig config addresses}

theorem type_of_hostname {fqdn : AddressObject} {hostname : String}
    (h : fqdn.hostname = some hostname) : fqdn.type = .fqdn := by
  rw [AddressObject.hostname] at h
  split at h
  · next htype _ => exact htype
  · cases h

theorem hostOf_of_hostname {name hostname : String} {fqdn : AddressObject}
    (hfqdn : ObjectDictionary.get addresses name = some fqdn)
    (h : fqdn.hostname = some hostname) : hostOf addresses name = some hostname := by
  rw [hostOf, hfqdn, Option.bind_some, h]

theorem gets (name : String) (s : FqdnResolver) : Gets resolverConfig config addresses name s
    (exec (get resolverConfig config addresses name) s) := by
  -- without a hostname, or with the resolver off, what is found stays unless it is an fqdn object
  have hother : ∀ result, (resolverConfig.enable = true → hostOf addresses name = none) →
      result = (ObjectDictionary.get addresses name).filter
        (fun address => decide (address.type ≠ .fqdn)) →
      Gets resolverConfig config addresses name s (.ok result, s) := by
    rintro _ hnone rfl
    exact .other hnone
  rw [get]
  rcases hname : ObjectDictionary.get addresses name with _ | fqdn
  · rw [exec_pure]
    refine hother _ (fun _ => ?_) (by rw [hname, Option.filter_none])
    rw [hostOf, hname, Option.bind_none]
  · have hhost : hostOf addresses name = fqdn.hostname := by rw [hostOf, hname, Option.bind_some]
    by_cases htype : fqdn.type = .fqdn
    · have hfilter : none = (ObjectDictionary.get addresses name).filter
          fun address => decide (address.type ≠ .fqdn) := by
        rw [hname, Option.filter_some, if_neg (by simp [htype])]
      simp only [if_pos htype]
      by_cases henable : resolverConfig.enable = true
      · rcases hhostname : fqdn.hostname with _ | hostname
        · rw [FqdnResolver.exec_resolve_none fun _ => hhostname]
          exact hother _ (fun _ => hhost.trans hhostname) hfilter
        · -- only a hostname with the resolver on is asked for
          exact .host henable hname hhostname (FqdnResolver.resolved_resolveTo henable hhostname 0)
      · rw [FqdnResolver.exec_resolve_none fun h => absurd h henable]
        exact hother _ (fun h => absurd h henable) hfilter
    · simp only [if_neg htype]
      rw [exec_pure]
      refine hother _ (fun _ => ?_) ?_
      · rcases hhostname : fqdn.hostname with _ | hostname
        · exact hhost.trans hhostname
        · exact absurd (type_of_hostname hhostname) htype
      · rw [hname, Option.filter_some, if_pos (by simp [htype])]

theorem cached_loaded (s : FqdnResolver) (h : s.filteredMemoryCache = fun _ => none) :
    Cached resolverConfig config addresses s s [] where
  known := rfl
  entries hostname object hobject := by
    rw [h] at hobject
    cases hobject

section Step

variable {s₀ s : FqdnResolver} {done : List String}

theorem Cached.hostAddresses (h : Cached resolverConfig config addresses s₀ s done)
    (hostname : String) : s.hostAddresses resolverConfig config hostname =
      s₀.hostAddresses resolverConfig config hostname := by
  rw [FqdnResolver.hostAddresses, FqdnResolver.hostAddresses, h.known]

theorem Cached.mono (h : Cached resolverConfig config addresses s₀ s done) (name : String) :
    Cached resolverConfig config addresses s₀ s (done ++ [name]) where
  known := h.known
  entries hostname object hobject := by
    obtain ⟨first, hfirst, hrest⟩ := h.entries hostname object hobject
    exact ⟨first, List.mem_append_left _ hfirst, hrest⟩

/-- A host that is resolved is added under the name that was looked up. -/
theorem Cached.add (h : Cached resolverConfig config addresses s₀ s done) {name hostname : String}
    {s' : FqdnResolver} (hhost : hostOf addresses name = some hostname)
    (hknown : s'.known resolverConfig = s.known resolverConfig)
    (hfiltered : s'.filteredMemoryCache = Function.update s.filteredMemoryCache hostname
      (some (ipmaskAddressObject name (s₀.hostAddresses resolverConfig config hostname)))) :
    Cached resolverConfig config addresses s₀ s' (done ++ [name]) where
  known := hknown.trans h.known
  entries hostname' object hobject := by
    rw [hfiltered] at hobject
    by_cases hne : hostname' = hostname
    · subst hne
      rw [Function.update_self] at hobject
      exact ⟨name, List.mem_append_right _ (List.mem_singleton_self _), hhost,
        (Option.some.inj hobject).symm⟩
    · rw [Function.update_of_ne hne] at hobject
      exact (h.mono name).entries hostname' object hobject

/-- **A lookup keeps the caches in order.** -/
theorem Cached.gets (h : Cached resolverConfig config addresses s₀ s done) {name : String}
    {result : Except Fault (Option AddressObject) × FqdnResolver}
    (hgets : Gets resolverConfig config addresses name s result) :
    Cached resolverConfig config addresses s₀ result.2 (done ++ [name]) := by
  cases hgets with
  | other _ => exact h.mono name
  | @host fqdn hostname _ _ hfqdn hhost hresolved =>
    cases hresolved with
    | cached _ => exact h.mono name
    | failed _ _ _ => exact h.mono name
    | added _ hknown hfiltered =>
      have hname : fqdn.name = name := ObjectDictionary.name_of_get hfqdn
      rw [h.hostAddresses, hname] at hfiltered
      exact h.add (hostOf_of_hostname hfqdn hhost) hknown hfiltered

/-- **The answer for an fqdn is an object that is named after one of the lookups so far.**  A
host that is cached was put there by an earlier name, and a new one gets the name that asks. -/
theorem Cached.named (h : Cached resolverConfig config addresses s₀ s done) {name : String}
    {result : Except Fault (Option AddressObject) × FqdnResolver}
    (hgets : Gets resolverConfig config addresses name s result) {fqdn : AddressObject}
    {object : Option AddressObject} (hfqdn : ObjectDictionary.get addresses name = some fqdn)
    (htype : fqdn.type = .fqdn) (hobject : result.1 = .ok object) :
    ∃ first ∈ done ++ [name], hostOf addresses first = hostOf addresses name ∧
      object = s₀.answer resolverConfig config first fqdn := by
  have hself : name ∈ done ++ [name] := List.mem_append_right _ (List.mem_singleton_self _)
  cases hgets with
  | other hnone =>
    refine ⟨name, hself, rfl, ?_⟩
    -- lookups are switched off, or the object has no host
    obtain rfl := Except.ok.inj hobject
    rw [hfqdn, Option.filter_some, if_neg (by simp [htype])]
    rcases hhost : fqdn.hostname with _ | hostname
    · rw [FqdnResolver.answer, hhost, Option.bind_none]
    · have hdisabled : ¬resolverConfig.enable = true := by
        intro henable
        cases (hostOf_of_hostname hfqdn hhost).symm.trans (hnone henable)
      rw [FqdnResolver.answer_of_hostname _ _ hhost, FqdnResolver.hostAddresses, if_neg hdisabled]
      rfl
  | @host fqdn' hostname _ _ hfqdn' hhost hresolved =>
    obtain rfl := Option.some.inj (hfqdn.symm.trans hfqdn')
    have hhostOf := hostOf_of_hostname hfqdn hhost
    cases hresolved with
    | cached hcached =>
      obtain rfl := Except.ok.inj hobject
      -- the host is in the cache: an earlier name put it there
      obtain ⟨first, hfirst, hhost', hentry⟩ := h.entries hostname _ hcached
      refine ⟨first, List.mem_append_left _ hfirst, hhost'.trans hhostOf.symm, ?_⟩
      rw [FqdnResolver.answer_of_hostname _ _ hhost, hentry]
    | failed _ hempty hresult =>
      refine ⟨name, hself, rfl, ?_⟩
      -- no addresses were found
      rw [hresult object hobject, FqdnResolver.answer_of_hostname _ _ hhost, ← h.hostAddresses,
        hempty]
      rfl
    | added _ _ _ =>
      obtain rfl := Except.ok.inj hobject
      -- the object is new, and gets the name that asked
      have hname : fqdn.name = name := ObjectDictionary.name_of_get hfqdn
      refine ⟨name, hself, rfl, ?_⟩
      rw [FqdnResolver.answer_of_hostname _ _ hhost, h.hostAddresses, hname]

/-- What is cached for a host stays. -/
theorem Gets.kept {name : String} {result : Except Fault (Option AddressObject) × FqdnResolver}
    (h : Gets resolverConfig config addresses name s result)
    {hostname : String} {object : Option AddressObject}
    (hobject : s.filteredMemoryCache hostname = some object) :
    result.2.filteredMemoryCache hostname = some object := by
  cases h with
  | other _ => exact hobject
  | @host fqdn host _ _ _ _ hresolved =>
    cases hresolved with
    | cached _ => exact hobject
    | failed _ _ _ => exact hobject
    | added hnone _ hfiltered =>
      have hne : hostname ≠ host := by
        rintro rfl
        exact absurd (hnone.symm.trans hobject) (Option.some_ne_none _).symm
      rw [hfiltered, Function.update_of_ne hne]
      exact hobject

/-- The answer for a host that is resolved is an object, and it is cached then.  Hosts are looked
up once, so all lookups agree on their addresses. -/
theorem Cached.answer (h : Cached resolverConfig config addresses s₀ s done) {name : String}
    {result : Except Fault (Option AddressObject) × FqdnResolver}
    (hgets : Gets resolverConfig config addresses name s result) {hostname : String}
    (hhost : hostOf addresses name = some hostname)
    (hsome : s₀.hostAddresses resolverConfig config hostname ≠ []) :
    ∃ object, result.1 = .ok (some object) ∧
      result.2.filteredMemoryCache hostname = some (some object) := by
  have hobject : ∀ first, ∃ object,
      ipmaskAddressObject first (s₀.hostAddresses resolverConfig config hostname) = some object :=
    fun first => ⟨_, if_neg fun hempty => hsome (List.isEmpty_iff.mp hempty)⟩
  cases hgets with
  | other hnone =>
    refine absurd ?_ hsome
    rw [FqdnResolver.hostAddresses]
    split
    · next henable => cases (hnone henable).symm.trans hhost
    · rfl
  | @host fqdn host _ _ hfqdn hfqdnHost hresolved =>
    have heq : host = hostname := by
      rw [hostOf, hfqdn, Option.bind_some, hfqdnHost] at hhost
      exact Option.some.inj hhost
    subst heq
    -- the addresses of a host are the same in all runs, so a lookup of it cannot fail
    cases hresolved with
    | cached hcached =>
      obtain ⟨first, -, -, hentry⟩ := h.entries host _ hcached
      obtain ⟨object, hfirst⟩ := hobject first
      rw [hentry, hfirst] at hcached ⊢
      exact ⟨object, rfl, hcached⟩
    | failed _ hempty _ => exact absurd ((h.hostAddresses host).symm.trans hempty) hsome
    | added _ _ hfiltered =>
      obtain ⟨object, hfirst⟩ := hobject fqdn.name
      rw [h.hostAddresses, hfirst] at hfiltered ⊢
      refine ⟨object, rfl, ?_⟩
      rw [hfiltered, Function.update_self]

end Step

section Runs

variable {s₀ : FqdnResolver}

/-- The answers of a run are named after lookups of the run. -/
theorem named_of_calls {names done : List String} {s : FqdnResolver}
    (h : Cached resolverConfig config addresses s₀ s done) {name : String} {fqdn : AddressObject}
    {object : Option AddressObject}
    (hcall : (name, .ok object) ∈ calls resolverConfig config addresses s names)
    (hfqdn : ObjectDictionary.get addresses name = some fqdn) (htype : fqdn.type = .fqdn) :
    name ∈ names ∧ ∃ first ∈ done ++ names, hostOf addresses first = hostOf addresses name ∧
      object = s₀.answer resolverConfig config first fqdn := by
  induction names generalizing s done with
  | nil => exact absurd hcall List.not_mem_nil
  | cons next names ih =>
    rw [calls] at hcall
    rcases List.mem_cons.mp hcall with heq | hrest
    · obtain ⟨rfl, hresult⟩ := Prod.mk.inj heq
      obtain ⟨first, hfirst, hrest⟩ := h.named (gets name s) hfqdn htype hresult.symm
      refine ⟨List.mem_cons_self, first, ?_, hrest⟩
      rw [List.append_cons]
      exact List.mem_append_left _ hfirst
    · obtain ⟨hmem, hfound⟩ := ih (h.gets (gets next s)) hrest
      rw [← List.append_cons] at hfound
      exact ⟨List.mem_cons_of_mem _ hmem, hfound⟩

/-- Once a host is cached, all lookups of it have the cached answer. -/
theorem calls_of_cached {names done : List String} {s : FqdnResolver}
    (h : Cached resolverConfig config addresses s₀ s done) {hostname : String}
    {object : AddressObject} (hobject : s.filteredMemoryCache hostname = some (some object))
    (hsome : s₀.hostAddresses resolverConfig config hostname ≠ []) {name : String}
    (hname : name ∈ names) (hhost : hostOf addresses name = some hostname) :
    (name, .ok (some object)) ∈ calls resolverConfig config addresses s names := by
  induction names generalizing s done with
  | nil => exact absurd hname List.not_mem_nil
  | cons next names ih =>
    have hgets := @gets resolverConfig config addresses next s
    rw [calls]
    rcases List.mem_cons.mp hname with rfl | hrest
    · obtain ⟨answer, hanswer, hcached⟩ := h.answer hgets hhost hsome
      obtain rfl := Option.some.inj (Option.some.inj ((hgets.kept hobject).symm.trans hcached))
      rw [hanswer]
      exact List.mem_cons_self
    · exact List.mem_cons_of_mem _ (ih (h.gets hgets) (hgets.kept hobject) hrest)

/-- **All lookups of a host that is resolved have the same answer**, whatever they ask for. -/
theorem exists_answer {names done : List String} {s : FqdnResolver}
    (h : Cached resolverConfig config addresses s₀ s done) {hostname : String}
    (hsome : s₀.hostAddresses resolverConfig config hostname ≠ []) :
    ∃ object, ∀ name ∈ names, hostOf addresses name = some hostname →
      (name, .ok (some object)) ∈ calls resolverConfig config addresses s names := by
  induction names generalizing s done with
  | nil => exact ⟨⟨hostname, .fqdn, []⟩, fun _ hname => absurd hname List.not_mem_nil⟩
  | cons next names ih =>
    have hgets := @gets resolverConfig config addresses next s
    have hcached := h.gets hgets
    by_cases hnext : hostOf addresses next = some hostname
    · obtain ⟨object, hanswer, hobject⟩ := h.answer hgets hnext hsome
      refine ⟨object, fun name hname hhost => ?_⟩
      rw [calls]
      rcases List.mem_cons.mp hname with rfl | hrest
      · rw [hanswer]
        exact List.mem_cons_self
      · exact List.mem_cons_of_mem _ (calls_of_cached hcached hobject hsome hrest hhost)
    · obtain ⟨object, hall⟩ := ih hcached
      refine ⟨object, fun name hname hhost => ?_⟩
      rw [calls]
      rcases List.mem_cons.mp hname with rfl | hrest
      · exact absurd hhost hnext
      · exact List.mem_cons_of_mem _ (hall name hrest hhost)

end Runs

variable (resolverConfig config addresses)

/-- **When the lookups of a run keep names apart**: exactly when no two names that are looked
up have the same host, if the host is resolved. -/
theorem keepsApart_iff (wsInitialized : Bool) (memoryCache : HostCache)
    (fileCache : Option (List String)) (names : List String) :
    KeepsApart resolverConfig config addresses (.loaded wsInitialized memoryCache fileCache) names ↔
      DistinctHosts resolverConfig config addresses (.loaded wsInitialized memoryCache fileCache)
        names := by
  have hstart : Cached resolverConfig config addresses
      (.loaded wsInitialized memoryCache fileCache) (.loaded wsInitialized memoryCache fileCache)
      [] := cached_loaded _ rfl
  generalize FqdnResolver.loaded wsInitialized memoryCache fileCache = s at hstart ⊢
  constructor
  · intro hapart name hname name' hname' hostname hhost hhost' hsome
    -- both names are answered with one object, which has one name
    obtain ⟨object, hcalls⟩ :=
      @exists_answer resolverConfig config addresses s names [] s hstart hostname hsome
    have hown : ∀ name ∈ names, hostOf addresses name = some hostname → object.name = name := by
      intro name hname hhost
      obtain ⟨fqdn, hfqdn, hfqdnHost⟩ := Option.bind_eq_some_iff.mp hhost
      exact (hapart.own name fqdn object hfqdn (type_of_hostname hfqdnHost)
        (hcalls name hname hhost)).1
    exact (hown name hname hhost).symm.trans (hown name' hname' hhost')
  · intro hdistinct
    have hown : ∀ name fqdn object, ObjectDictionary.get addresses name = some fqdn →
        fqdn.type = .fqdn →
        (name, .ok (some object)) ∈ calls resolverConfig config addresses s names →
        object.name = name ∧ ∃ hostname, fqdn.hostname = some hostname ∧
          object.addresses = s.hostAddresses resolverConfig config hostname := by
      intro name fqdn object hfqdn htype hcall
      obtain ⟨hname, first, hfirst, hhosts, hobject⟩ := named_of_calls hstart hcall hfqdn htype
      obtain ⟨hostname, hhost, hanswer⟩ := Option.bind_eq_some_iff.mp hobject.symm
      have hname' := hostOf_of_hostname hfqdn hhost
      rw [ipmaskAddressObject] at hanswer
      split at hanswer
      · cases hanswer
      · next hempty =>
        have hsome : s.hostAddresses resolverConfig config hostname ≠ [] :=
          fun h => hempty (List.isEmpty_iff.mpr h)
        obtain rfl := hdistinct first hfirst name hname hostname (hhosts.trans hname') hname' hsome
        obtain rfl := Option.some.inj hanswer
        exact ⟨rfl, hostname, hhost, rfl⟩
    refine ⟨hown, fun name hname hostname hhost hsome => ?_⟩
    obtain ⟨object, hcalls⟩ :=
      @exists_answer resolverConfig config addresses s names [] s hstart hostname hsome
    obtain ⟨fqdn, hfqdn, hfqdnHost⟩ := Option.bind_eq_some_iff.mp hhost
    have hcall := hcalls name hname hhost
    exact ⟨name, object, hcall,
      (hown name fqdn object hfqdn (type_of_hostname hfqdnHost) hcall).1⟩

/-- Two fqdns of one host: the second one is answered with the object of the first one. -/
theorem keepsApart_sharedHost :
    ¬KeepsApart ⟨⟨true, true, "rulan.fqdn"⟩, fun _ => .found ["192.0.2.1"]⟩ .dotted
      [⟨"mail", .fqdn, ["host.example"]⟩, ⟨"web", .fqdn, ["host.example"]⟩]
      (.loaded true (fun _ => none) none) ["mail", "web"] := by
  intro h
  have hcall : ("web", .ok (some ⟨"mail", .ipmask, ["192.0.2.1"]⟩)) ∈
      calls ⟨⟨true, true, "rulan.fqdn"⟩, fun _ => .found ["192.0.2.1"]⟩ .dotted
        [⟨"mail", .fqdn, ["host.example"]⟩, ⟨"web", .fqdn, ["host.example"]⟩]
        (.loaded true (fun _ => none) none) ["mail", "web"] := by decide +kernel
  have hown := h.own "web" ⟨"web", .fqdn, ["host.example"]⟩ ⟨"mail", .ipmask, ["192.0.2.1"]⟩ rfl rfl
    hcall
  exact absurd hown.1 (by decide)

end AddressObjects

end RulesAnalyzer
