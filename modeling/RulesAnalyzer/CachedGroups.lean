import RulesAnalyzer.Criteria

/-!
# The groups in the caches

The groups of all loads live in the same caches.  A group is filled after it was cached
and only refers to groups that were cached before it, so the groups never make a cycle, whatever
the stores of the loads say.  But a registration that raises leaves its group behind, with the
members it got so far.

## Main definitions

* `Network.AtomicAt` — a registration that raises leaves no group behind.
* `Network.Registrable` — the elements of a group can be registered.
* `Network.CachedAs` — a member is what is cached under a name.

## Main results

* `Session.groups_acyclic` — **the groups in the caches make no cycle.**
* `Network.returns_registerValued_iff` — when an object of the store is registered.
* `Network.registration_atomic_iff` — **when registrations of groups are atomic.**
-/

namespace RulesAnalyzer

open Effect Shared

/-! ### Cycles -/

namespace Session

/-- **The groups in the caches make no cycle**, after any loads with any stores.  Recursive
operations end on every cached group, and on every group of a rule. -/
theorem groups_acyclic (config : ModelConfig) (store : ObjectStore) (actions : List Action) :
    (∀ k, Acyclic (((fresh config store).run config actions).network.registries k).heap) ∧
    (∀ k name id,
      (((fresh config store).run config actions).network.registries k).groups name = some id →
        Terminates (((fresh config store).run config actions).network.registries k).heap name
          [.group id]) ∧
    ∀ firewall, ∀ rule ∈ ((fresh config store).run config actions).firewalls firewall,
      ∀ criteria, rule.predicate = .ofCriteria criteria →
        (∀ side, Terminates
          (((fresh config store).run config actions).network.registries (.address side)).heap
          "$root" (criteria.addresses side)) ∧
        ∀ members, criteria.services = .registered members → Terminates
          (((fresh config store).run config actions).network.registries .service).heap
          "$root" members := by
  obtain ⟨hgood, -⟩ := good_run config (good_fresh config store) actions
  -- the invariant says that groups refer to groups that were cached before them
  refine ⟨fun k => (hgood.sound k).descending.acyclic, fun k name id hid => ?_, ?_⟩
  · exact (hgood.sound k).descending.terminates name
      (below_group.mpr ((hgood.sound k).lt_length hid))
  · intro firewall rule hrule criteria hcriteria
    have hvalid := hgood.valid firewall rule hrule
    rw [hcriteria] at hvalid
    obtain ⟨-, hsrc, -, hdst, hservices, -⟩ := hvalid
    refine ⟨fun side => ?_, fun members hmembers => ?_⟩
    · cases side with
      | src => exact (hgood.sound _).descending.terminates _ hsrc
      | dst => exact (hgood.sound _).descending.terminates _ hdst
    · rw [hmembers] at hservices
      exact (hgood.sound _).descending.terminates _ hservices

end Session

/-! ### Registrations that raise -/

theorem indexedName_inj {name : String} {i j : ℕ} (h : indexedName name i = indexedName name j) :
    i = j := by
  have hlist := congrArg String.toList h
  simp only [indexedName, String.toList_append, List.append_assoc, List.append_cancel_left_eq,
    List.append_cancel_right_eq, Nat.toList_repr] at hlist
  rw [← Nat.ofDigitChars_ten_toDigits (n := i), hlist, Nat.ofDigitChars_ten_toDigits]

section Elements

variable {T : Type} (create : String → String → Except Fault T) (name : String)
  (values : List String)

/-- The elements of a group have different names. -/
theorem nodup_indexedElements : ((indexedElements create name values).map Prod.fst).Nodup := by
  have hnames : (indexedElements create name values).map Prod.fst =
      (List.range' 0 values.length).map (indexedName name) := by
    rw [indexedElements, List.map_map, ← List.zipIdx_map_snd, List.map_map]
    rfl
  rw [hnames]
  exact (List.nodup_range' 1 Nat.one_pos).map fun _ _ h => indexedName_inj h

theorem mem_indexedElements {create : String → String → Except Fault T} {name : String}
    {values : List String} {element : String × Except Fault T} :
    element ∈ indexedElements create name values ↔ ∃ idx value, values[idx]? = some value ∧
      element = (indexedName name idx, create (indexedName name idx) value) := by
  rw [indexedElements, List.mem_map]
  constructor
  · rintro ⟨⟨value, idx⟩, hmem, rfl⟩
    exact ⟨idx, value, List.mem_zipIdx_iff_getElem?.mp hmem, rfl⟩
  · rintro ⟨idx, value, hvalue, rfl⟩
    exact ⟨(value, idx), List.mem_zipIdx_iff_getElem?.mpr hvalue, rfl⟩

end Elements

namespace Network

section Atomic

variable {T : Type} [DecidableEq T]

/-- When the registration of a group under the name raises, a later lookup of the name finds
what it would have found before, and a later registration of the name gives a group with the
members that it would have given before. -/
def AtomicAt (register : String → List String → Program (Registry String T) Fault ℕ) (name : String)
    (values : List String) (r : Registry String T) : Prop :=
  ∀ fault r', exec (register name values) r = (.error fault, r') →
    r'.groups name = r.groups name ∧
    ∀ values' id t, Returns (register name values') r' id t → ∃ id₀ t₀,
      Returns (register name values') r id₀ t₀ ∧
        (t.heap[id]?).map Cell.members = (t₀.heap[id₀]?).map Cell.members

/-- A group of the name is cached, or every element is cached under its own name or can be
created. -/
def Registrable (create : String → String → Except Fault T) (name : String) (values : List String)
    (r : Registry String T) : Prop :=
  r.groups name ≠ none ∨ ∀ idx value, values[idx]? = some value →
    r.items (indexedName name idx) ≠ none ∨ ∃ t, create (indexedName name idx) value = .ok t

/-- A registration raises exactly when the elements cannot be registered. -/
theorem raises_registerValues_iff {create : String → String → Except Fault T} {name : String}
    {values : List String} {r : Registry String T} :
    (∃ fault r', exec (registerValues create name values) r = (.error fault, r')) ↔
      ¬Registrable create name values r := by
  rw [registerValues, raises_registerMulti_iff (nodup_indexedElements create name values),
    Registrable, not_or, not_not]
  refine and_congr_right fun _ => ?_
  constructor
  · rintro ⟨element, hmem, hnone, fault, hfault⟩ hall
    obtain ⟨idx, value, hvalue, rfl⟩ := mem_indexedElements.mp hmem
    rcases hall idx value hvalue with hsome | ⟨t, ht⟩
    · exact hsome hnone
    · have hboth := hfault.symm.trans ht
      cases hboth
  · intro h
    simp only [not_forall, not_or, not_not, not_exists] at h
    obtain ⟨idx, value, hvalue, hnone, hcreate⟩ := h
    refine ⟨_, mem_indexedElements.mpr ⟨idx, value, hvalue, rfl⟩, hnone, ?_⟩
    rcases hrun : create (indexedName name idx) value with fault | t
    · exact ⟨fault, rfl⟩
    · exact absurd hrun (hcreate t)

/-- A registration is atomic exactly when it does not raise: the group that is left behind is
found under its name. -/
theorem atomicAt_registerValues_iff {create : String → String → Except Fault T} {name : String}
    {values : List String} {r : Registry String T} :
    AtomicAt (registerValues create) name values r ↔ Registrable create name values r := by
  constructor
  · intro h
    by_contra hnot
    obtain ⟨fault, r', hraised⟩ := raises_registerValues_iff.mpr hnot
    -- a later lookup finds the group that was left behind, and found none before
    obtain ⟨hnone, hsome⟩ := groups_of_raised hraised
    rw [(h fault r' hraised).1, hnone] at hsome
    cases hsome
  · intro h fault r' hraised
    exact absurd h (raises_registerValues_iff.mp ⟨fault, r', hraised⟩)

/-- The values of an object can be registered, as a group when there are several. -/
def ObjectRegistrable (create : String → String → Except Fault T) (object : ValuedObject)
    (r : Registry String T) : Prop :=
  match object.values with
  | [] => False
  | [value] => r.items object.name ≠ none ∨ ∃ t, create object.name value = .ok t
  | values => Registrable create object.name values r

omit [DecidableEq T] in
/-- Values that can be created under any name can be registered. -/
theorem objectRegistrable_of_forall {create : String → String → Except Fault T}
    {object : ValuedObject} (hne : object.values ≠ [])
    (hall : ∀ value ∈ object.values, ∀ name, ∃ t, create name value = .ok t)
    (r : Registry String T) : ObjectRegistrable create object r := by
  obtain ⟨name, values⟩ := object
  match values with
  | [] => exact absurd rfl hne
  | [value] => exact Or.inr (hall value List.mem_cons_self name)
  | first :: second :: rest =>
    exact Or.inr fun idx value hvalue => Or.inr (hall value (List.mem_of_getElem? hvalue) _)

omit [DecidableEq T] in
/-- A value is registered without an exception exactly when an item of the name is cached, or can
be created. -/
theorem returns_registerValue_iff {create : String → String → Except Fault T}
    {name value : String} {r : Registry String T} :
    (∃ t r', Returns (registerValue create name value) r t r') ↔
      r.items name ≠ none ∨ ∃ t, create name value = .ok t := by
  simp only [registerValue, Returns, exec_registerItem]
  rcases r.items name with _ | t
  · rcases create name value with fault | t
    · constructor
      · rintro ⟨t, r', h⟩
        cases h
      · rintro (h | ⟨t, h⟩)
        · exact absurd rfl h
        · cases h
    · exact iff_of_true ⟨t, _, rfl⟩ (Or.inr ⟨t, rfl⟩)
  · exact iff_of_true ⟨t, r, rfl⟩ (Or.inl (Option.some_ne_none t))

/-- **An object is registered without an exception exactly when its values can be
registered.** -/
theorem returns_registerValued_iff {create : String → String → Except Fault T}
    {object : ValuedObject} {r : Registry String T} :
    (∃ member r', Returns (registerValued create object) r member r') ↔
      ObjectRegistrable create object r := by
  obtain ⟨name, values⟩ := object
  match values with
  | [] => exact iff_of_false (fun ⟨_, _, h⟩ => returns_throw h) id
  | [value] => exact returns_map_iff.trans returns_registerValue_iff
  | first :: second :: rest =>
    refine returns_map_iff.trans ?_
    rw [returns_iff_not_raises, raises_registerValues_iff, not_not]
    exact Iff.rfl

/-- The member is cached under the name. -/
def CachedAs (r : Registry String T) (name : String) : Member T → Prop
  | .item t => r.items name = some t
  | .group id => r.groups name = some id

omit [DecidableEq T] in
/-- An item that is registered is cached under its name. -/
theorem cachedAs_registerValue {create : String → String → Except Fault T} {name value : String}
    {r r' : Registry String T} {t : T} (h : Returns (registerValue create name value) r t r') :
    CachedAs r' name (.item t) := by
  rw [registerValue, Returns, exec_registerItem] at h
  rcases hitem : r.items name with _ | t'
  · rw [hitem] at h
    rcases hcreate : create name value with fault | t'
    · rw [hcreate] at h
      cases h
    · rw [hcreate] at h
      obtain ⟨hresult, rfl⟩ := Prod.mk.inj h
      obtain rfl := Except.ok.inj hresult
      exact Function.update_self ..
  · rw [hitem] at h
    obtain ⟨hresult, rfl⟩ := Prod.mk.inj h
    obtain rfl := Except.ok.inj hresult
    exact hitem

/-- An object that is registered is cached under its name. -/
theorem cachedAs_registerValued {create : String → String → Except Fault T}
    {object : ValuedObject} {r r' : Registry String T} {member : Member T} (hr : r.Sound)
    (h : Returns (registerValued create object) r member r') : CachedAs r' object.name member := by
  unfold registerValued at h
  split at h
  · obtain ⟨id, hrun, rfl⟩ := returns_map.mp h
    exact groups_of_registerMulti hr hrun
  · split at h
    · obtain ⟨t, hrun, rfl⟩ := returns_map.mp h
      exact cachedAs_registerValue hrun
    · exact absurd h returns_throw

end Atomic

/-- **When registrations of groups are atomic**: exactly when they do not raise, since the group
is cached before its elements are registered. -/
theorem registration_atomic_iff (config : ModelConfig) :
    (∀ side name addresses (r : Registry String (Item (.address side))),
      AtomicAt (registerMultiAddress config side) name addresses r ↔
        Registrable (createAddress config side) name addresses r) ∧
    ∀ name serviceDefinitions (r : Registry String (Item .service)),
      AtomicAt registerMultiService name serviceDefinitions r ↔
        Registrable Service.create name serviceDefinitions r :=
  ⟨fun _ _ _ _ => atomicAt_registerValues_iff, fun _ _ _ => atomicAt_registerValues_iff⟩

/-- The second element of `tcp/80` and `any` raises, and leaves a group of `tcp/80` behind. -/
theorem registration_not_atomic :
    ¬AtomicAt registerMultiService "web" ["tcp/80", "any"] (freshRegistry .dotted .service) := by
  intro h
  have hraised : (exec (registerMultiService "web" ["tcp/80", "any"])
      (freshRegistry .dotted .service)).1.toOption = none := by decide +kernel
  have hleft : ((exec (registerMultiService "web" ["tcp/80", "any"])
      (freshRegistry .dotted .service)).2.groups "web").isSome = true := by decide +kernel
  have hnone : ((freshRegistry .dotted .service).groups "web").isSome = false := by decide +kernel
  rcases hrun : exec (registerMultiService "web" ["tcp/80", "any"])
    (freshRegistry .dotted .service) with ⟨fault | id, r'⟩
  · rw [hrun] at hleft
    obtain ⟨hsame, -⟩ := h fault r' hrun
    rw [hsame, hnone] at hleft
    cases hleft
  · rw [hrun] at hraised
    cases hraised

end Network

end RulesAnalyzer
