import RulesAnalyzer.Criteria

/-!
# The url pools of a row

The urls of a row are read like its other criteria: a name is a literal, an object
of the store or a pool of the store, in this order.  But every text passes as a
literal url, so the name of a pool is registered as a url of its own, and the pool is
never looked up.

## Main definitions

* `ObjectStore.IsUrlPool`, `ObjectStore.UrlsOf` — the pools of the store, and the urls a name of
  a row is meant to stand for.
* `FirewallFactory.UrlsExpanded` — the url group of a row holds the urls its names stand for.

## Main results

* `FirewallFactory.registered_buildUrls` — a url group holds one url for each name of the row.
* `FirewallFactory.urlsExpanded_iff` — **when the url pools of a row are expanded.**
-/

namespace RulesAnalyzer

open Effect Shared

/-! ### What the names stand for -/

namespace ObjectStore

variable (store : ObjectStore)

/-- The store has a pool of the name, and no url object, which would come first. -/
def IsUrlPool (name : String) : Prop :=
  store.urlResolver.objects name = none ∧ store.urlResolver.pool name ≠ none

instance (name : String) : Decidable (store.IsUrlPool name) :=
  inferInstanceAs (Decidable (_ ∧ _))

/-- The urls a name stands for: the url objects below a pool, or the url of that name. -/
def UrlsOf (name url : String) : Prop :=
  if store.IsUrlPool name then
    store.urlResolver.Reaches name url ∧ store.urlResolver.objects url ≠ none
  else url = name

/-- The store with its builtin objects, some urls and some pools of urls. -/
def ofUrls (ipModel : IPAddressModel) (urls : List UrlObject) (urlPools : List PoolObject) :
    ObjectStore :=
  { builtin ipModel with
    urls := urls.foldl ObjectDictionary.add (builtin ipModel).urls
    urlPools := urlPools.foldl ObjectDictionary.add [] }

end ObjectStore

/-- A row that allows urls between all addresses. -/
def RuleObject.ofUrls (id : ℤ) (urls : List String) : RuleObject :=
  { RuleObject.ofServices id ["any"] with urls := urls }

namespace FirewallFactory

open Network

/-- The name of a registered url. -/
def urlName (url : Item .url) : String := OptionNode.name (show Url from url)

/-- The url group holds exactly the urls the names stand for, and no url is registered under
the name of a pool. -/
structure UrlsExpanded (store : ObjectStore) (urls : List String) (before after : Network)
    (members : List (Member (Item .url))) : Prop where
  names : ∀ url, (∃ t ∈ (after.urlGroup members).items, t.name = url) ↔
    ∃ name ∈ urls, store.UrlsOf name url
  packets : ∀ pk, pk ∈ (after.urlGroup members).makeBdd ↔
    ∃ name ∈ urls, ∃ url, store.UrlsOf name url ∧
      ∃ t, (after.registries .url).items url = some t ∧ pk ∈ OptionNode.makeBdd (show Url from t)
  pools : ∀ name, store.IsUrlPool name →
    (after.registries .url).items name = (before.registries .url).items name

variable {config : ModelConfig} {store : ObjectStore}

/-! ### One url after the other -/

/-- Every url is cached under its own name. -/
def UrlsNamed (nw : Network) : Prop :=
  ∀ name t, (nw.registries .url).items name = some t → urlName t = name

theorem urlsNamed_fresh (config : ModelConfig) : UrlsNamed (.fresh config) := by
  intro name t ht
  have hitems : ((Network.fresh config).registries .url).items =
      Function.update (fun _ => none) "any" (some (OptionNode.any : Url)) := rfl
  rw [hitems] at ht
  by_cases hname : name = "any"
  · subst hname
    rw [Function.update_self] at ht
    obtain rfl := Option.some.inj ht
    rfl
  · rw [Function.update_of_ne hname] at ht
    cases ht

/-- The name is cached as a url, and what the other names have cached stays. -/
structure RegistersUrl (name : String) (nw : Network) (t : Item .url) (nw' : Network) : Prop where
  named : urlName t = name
  cached : (nw'.registries .url).items name = some t
  others : ∀ other, other ≠ name →
    (nw'.registries .url).items other = (nw.registries .url).items other

/-- A url is registered under its own name. -/
theorem registersUrl {name : String} {nw nw' : Network} {t : Item .url} (hnamed : UrlsNamed nw)
    (h : Returns (registerUrl name) nw t nw') : RegistersUrl name nw t nw' := by
  rcases returns_registerNew h with ⟨hcached, rfl⟩ | ⟨nw₁, hcreate, rfl⟩
  · exact ⟨hnamed name t hcached, hcached, fun _ _ => rfl⟩
  · -- the number is drawn, and the new url is cached
    obtain ⟨id, nw₂, hid, hrest⟩ := returns_bind.mp hcreate
    obtain ⟨_, nw₃, hget, hpure⟩ := returns_bind.mp hrest
    obtain ⟨rfl, rfl⟩ := returns_get.mp hget
    obtain ⟨rfl, rfl⟩ := returns_pure.mp hpure
    obtain ⟨g, -, rfl⟩ := returns_zoom.mp hid
    have hnew : ∀ range options,
        (if name = "any" then OptionNode.any else ⟨name, range, options⟩ : Url).name = name := by
      intro range options
      by_cases hany : name = "any"
      · rw [if_pos hany, hany]
        rfl
      · rw [if_neg hany]
    refine ⟨hnew _ _, ?_, fun other hne => ?_⟩
    · rw [registries_setRegistry, Registry.items_setItem, Function.update_self]
    · rw [registries_setRegistry, Registry.items_setItem, Function.update_of_ne hne]

/-- The urls of some names are registered, and are the members of the group. -/
structure Registered (names : List String) (before nw : Network)
    (members : List (Member (Item .url))) : Prop where
  sound : nw.Sound
  named : UrlsNamed nw
  cached : ∀ member ∈ members,
    ∃ t, member = .item t ∧ (nw.registries .url).items (urlName t) = some t
  mem_iff : ∀ url, (∃ t, .item t ∈ members ∧ urlName t = url) ↔ url ∈ names
  others : ∀ name ∉ names,
    (nw.registries .url).items name = (before.registries .url).items name

theorem registered_nil {nw : Network} (hs : nw.Sound) (hnamed : UrlsNamed nw) :
    Registered [] nw nw [] where
  sound := hs
  named := hnamed
  cached _ h := absurd h List.not_mem_nil
  mem_iff _ := iff_of_false (fun ⟨_, h, _⟩ => List.not_mem_nil h) List.not_mem_nil
  others _ _ := rfl

/-- One more url.  It is cached under its name before it becomes a member, and no other name is
touched. -/
theorem Registered.registerUrl {names : List String} {before nw nw' : Network}
    {members : List (Member (Item .url))} (h : Registered names before nw members) {name : String}
    {t : Item .url} (hrun : Returns (Network.registerUrl name) nw t nw') :
    Registered (names ++ [name]) before nw' (Registry.pushMember members (.item t)) := by
  have hurl := registersUrl h.named hrun
  obtain ⟨hsound, hext⟩ := (keeps_registerUrl name).returns hrun h.sound
  refine ⟨hsound, fun other t' ht' => ?_, fun member hmember => ?_, fun url => ?_,
    fun other hother => ?_⟩
  · -- every url is still cached under its own name
    by_cases hne : other = name
    · subst hne
      obtain rfl := Option.some.inj (hurl.cached.symm.trans ht')
      exact hurl.named
    · rw [hurl.others other hne] at ht'
      exact h.named other t' ht'
  · -- the members are cached, the new one by this step
    rcases Registry.mem_pushMember.mp hmember with hold | rfl
    · obtain ⟨t', rfl, ht'⟩ := h.cached member hold
      exact ⟨t', rfl, (hext.registries .url).items _ _ ht'⟩
    · exact ⟨t, rfl, hurl.named.symm ▸ hurl.cached⟩
  · -- a member is old, or the new one
    rw [List.mem_append, List.mem_singleton, ← h.mem_iff url]
    constructor
    · rintro ⟨t', hmember, rfl⟩
      rcases Registry.mem_pushMember.mp hmember with hold | hnew
      · exact Or.inl ⟨t', hold, rfl⟩
      · obtain rfl := Member.item.inj hnew
        exact Or.inr hurl.named
    · rintro (⟨t', hold, rfl⟩ | rfl)
      · exact ⟨t', Registry.mem_pushMember.mpr (Or.inl hold), rfl⟩
      · exact ⟨t, Registry.mem_pushMember.mpr (Or.inr rfl), hurl.named⟩
  · -- other names are left alone
    rw [List.mem_append, List.mem_singleton, not_or] at hother
    rw [hurl.others other hother.2, h.others other hother.1]

/-- Every text is registered as a literal. -/
theorem returns_refer_url {name : String} {s s' : Network × List String}
    {member : Option (Member (Item .url))}
    (h : Returns ((urlReference store).refer name) s member s') :
    ∃ t, member = some (.item t) ∧ Returns (registerUrl name) s.1 t s'.1 := by
  generalize hs' : s'.1 = after
  have hrefers := Reference.refers_of_returns h
  rw [hs'] at hrefers
  cases hrefers with
  | literal _ hrun => exact ⟨_, rfl, hrun⟩
  | object hliteral => cases hliteral
  | pool hliteral => cases hliteral
  | missing hliteral => cases hliteral

/-- **A url group holds one url for each name of the row**, whatever the name stands for. -/
theorem registered_buildUrls {rule : RuleObject} {s s' : Network × List String}
    {members : List (Member (Item .url))} (hs : s.1.Sound) (hnamed : UrlsNamed s.1)
    (h : Returns (buildUrlGroup store rule) s members s') :
    Registered rule.urls s.1 s'.1 members := by
  refine Reference.returns_build (P := fun names members t => Registered names s.1 t.1 members)
    (fun names name members t member t' hdone hrefer => ?_) (registered_nil hs hnamed) h
  obtain ⟨url, rfl, hurl⟩ := returns_refer_url hrefer
  exact hdone.registerUrl hurl

/-! ### The url group of a row -/

/-- The network grows, and its urls stay. -/
structure UrlFrame (nw nw' : Network) : Prop where
  step : Step nw nw'
  urls : Network.Leaves .url nw nw'

theorem UrlFrame.trans {nw₁ nw₂ nw₃ : Network} (h : UrlFrame nw₁ nw₂) (h' : UrlFrame nw₂ nw₃) :
    UrlFrame nw₁ nw₃ :=
  ⟨Trans.trans h.step h'.step, Trans.trans h.urls h'.urls⟩

theorem Built.urlFrame {α : Type} {build : Program Loading Fault α}
    (hbuilds : Keeps Loading.Builds build) (hleaves : Keeps (Loading.Leaves .url) build)
    {s s' : Loading} {a : α} (h : Built build s a s') : UrlFrame s.network s'.network := by
  refine ⟨h.step hbuilds, ?_⟩
  obtain ⟨t, hrun, hsame⟩ := h
  rw [hsame]
  exact hleaves.returns hrun

/-- The urls of a row are built last, in the registry of urls the row started with. -/
theorem returns_buildUrls {rule : RuleObject} {s s' : Loading} {criteria : CriteriaRef × Bool}
    (h : Returns (buildCriteria config store rule) s criteria s') :
    ∃ nw, UrlFrame s.network nw ∧
      BuildsGroup (buildUrlGroup store rule) nw criteria.1.urls s'.network := by
  have hbuilds := builds_buildCriteria h
  generalize criteria.1 = built at hbuilds ⊢
  cases hbuilds with
  | intro hsrc hdst happ hsvc hsrcZone hdstZone huser hurl =>
    have hkeeping := keeping_builds config store rule
    have h₁ := hsrc.urlFrame hkeeping.sourceAddresses
      (leaves_onNames (leaves_buildAddressGroup (by rintro ⟨⟩) _))
    have h₂ := hdst.urlFrame hkeeping.destinationAddresses
      (leaves_onNames (leaves_buildAddressGroup (by rintro ⟨⟩) _))
    have h₃ := happ.urlFrame hkeeping.applications
      (leaves_onNames (leaves_buildApplicationGroup (by rintro _ ⟨⟩) (by rintro ⟨⟩) rule))
    have h₄ := hsvc.urlFrame (hkeeping.services _) (leaves_buildServices (by rintro ⟨⟩) rule _)
    have h₅ := hsrcZone.urlFrame (hkeeping.zones _ _)
      (leaves_onNetwork (leaves_buildZoneGroup (by rintro ⟨⟩) _))
    have h₆ := hdstZone.urlFrame (hkeeping.zones _ _)
      (leaves_onNetwork (leaves_buildZoneGroup (by rintro ⟨⟩) _))
    have h₇ := huser.urlFrame hkeeping.users
      (leaves_onNames (leaves_buildUserGroup (by rintro ⟨⟩) rule))
    exact ⟨_, h₁.trans (h₂.trans (h₃.trans (h₄.trans (h₅.trans (h₆.trans h₇))))), hurl.group⟩

/-- The urls of a row that is loaded into a fresh network. -/
theorem registered_buildCriteria {rule : RuleObject} {rules : List RuleRef}
    {status : LoaderStatus} {s' : Loading} {criteria : CriteriaRef × Bool}
    (h : Returns (buildCriteria config store rule) ⟨.fresh config, rules, status⟩ criteria s') :
    Registered rule.urls (.fresh config) s'.network criteria.1.urls := by
  obtain ⟨nw, ⟨hstep, hleaves⟩, u, u', hrun⟩ := returns_buildUrls h
  have hsame : ((Network.fresh config).registries .url) = nw.registries .url := hleaves
  have hnamed : UrlsNamed nw := by
    rw [UrlsNamed, ← hsame]
    exact urlsNamed_fresh config
  have hregistered := registered_buildUrls (hstep (sound_fresh config)).1 hnamed hrun
  refine { hregistered with others := fun name hname => ?_ }
  rw [hsame]
  exact hregistered.others name hname

section Group

variable {names : List String} {before nw : Network} {members : List (Member (Item .url))}

theorem Registered.leads_iff (h : Registered names before nw members) {t : Item .url} :
    Leads (nw.registries .url).heap members t ↔ .item t ∈ members := by
  rw [Shared.leads_iff]
  constructor
  · rintro ⟨member, hmember, hleads⟩
    obtain ⟨t', rfl, -⟩ := h.cached member hmember
    rwa [leads_item.mp hleads]
  · exact fun hmember => ⟨_, hmember, leads_item.mpr rfl⟩

theorem Registered.below (h : Registered names before nw members) :
    Below (nw.registries .url).heap.length members := by
  intro id hid
  obtain ⟨t, ht, -⟩ := h.cached _ hid
  cases ht

/-- The items of the group are its members. -/
theorem Registered.mem_items (h : Registered names before nw members) {t : Item .url} :
    (show Url from t) ∈ (nw.urlGroup members).items ↔ .item t ∈ members := by
  rw [Group.mem_items, ← h.leads_iff]
  refine (mem_parse_groupValue (h.sound .url) h.below).trans ?_
  constructor
  · rintro ⟨t', hleads, rfl⟩
    exact hleads
  · exact fun hleads => ⟨t, hleads, rfl⟩

/-- The packets of the group are those of the urls that are registered under its names. -/
theorem Registered.mem_makeBdd (h : Registered names before nw members) {pk : Packet} :
    pk ∈ (nw.urlGroup members).makeBdd ↔ ∃ url ∈ names, ∃ t,
      (nw.registries .url).items url = some t ∧ pk ∈ OptionNode.makeBdd (show Url from t) := by
  refine (mem_groupValue (h.sound .url) h.below).trans ?_
  constructor
  · rintro ⟨t, hleads, hpk⟩
    have hmember := h.leads_iff.mp hleads
    obtain ⟨t', ht', hcached⟩ := h.cached _ hmember
    obtain rfl := Member.item.inj ht'
    exact ⟨urlName t, (h.mem_iff _).mp ⟨t, hmember, rfl⟩, t, hcached, hpk⟩
  · rintro ⟨url, hurl, t, hcached, hpk⟩
    obtain ⟨t', hmember, rfl⟩ := (h.mem_iff url).mpr hurl
    obtain ⟨t'', ht'', hcached'⟩ := h.cached _ hmember
    obtain rfl := Member.item.inj ht''
    obtain rfl := Option.some.inj (hcached'.symm.trans hcached)
    exact ⟨t', h.leads_iff.mpr hmember, hpk⟩

/-- **The urls of a group are expanded exactly when none of its names is a pool.**  A pool is
registered as a url of the same name, and its members are not. -/
theorem Registered.expanded_iff (h : Registered names before nw members) :
    UrlsExpanded store names before nw members ↔ ∀ name ∈ names, ¬store.IsUrlPool name := by
  constructor
  · intro hexpanded name hname hpool
    -- the pool itself is among the urls of the group, but its name is no url object
    obtain ⟨t, hmember, rfl⟩ := (h.mem_iff name).mpr hname
    have hitem : ∃ t' ∈ (nw.urlGroup members).items, t'.name = urlName t :=
      ⟨t, h.mem_items.mpr hmember, rfl⟩
    obtain ⟨root, hroot, hurls⟩ := (hexpanded.names _).mp hitem
    rw [ObjectStore.UrlsOf] at hurls
    by_cases hpool' : store.IsUrlPool root
    · rw [if_pos hpool'] at hurls
      exact hurls.2 hpool.1
    · rw [if_neg hpool'] at hurls
      exact hpool' (hurls ▸ hpool)
  · intro hnone
    have hurls : ∀ url, (∃ name ∈ names, store.UrlsOf name url) ↔ url ∈ names := by
      intro url
      constructor
      · rintro ⟨name, hname, hof⟩
        rw [ObjectStore.UrlsOf, if_neg (hnone name hname)] at hof
        rwa [hof]
      · intro hurl
        refine ⟨url, hurl, ?_⟩
        rw [ObjectStore.UrlsOf, if_neg (hnone url hurl)]
    refine ⟨fun url => ?_, fun pk => ?_, fun name hpool => h.others name fun hname =>
      hnone name hname hpool⟩
    · rw [hurls, ← h.mem_iff]
      exact exists_congr fun t => and_congr_left fun _ => h.mem_items
    · rw [h.mem_makeBdd]
      constructor
      · rintro ⟨url, hurl, hpk⟩
        obtain ⟨name, hname, hof⟩ := (hurls url).mpr hurl
        exact ⟨name, hname, url, hof, hpk⟩
      · rintro ⟨name, hname, url, hof, hpk⟩
        exact ⟨url, (hurls url).mp ⟨name, hname, hof⟩, hpk⟩

end Group

/-- **When the url pools of a row that is loaded into a fresh network are expanded**: exactly
when the row names no url pool. -/
theorem urlsExpanded_iff (config : ModelConfig) (store : ObjectStore) (rule : RuleObject)
    (rules : List RuleRef) (status : LoaderStatus) (criteria : CriteriaRef × Bool) (s' : Loading)
    (h : Returns (buildCriteria config store rule) ⟨.fresh config, rules, status⟩ criteria s') :
    UrlsExpanded store rule.urls (.fresh config) s'.network criteria.1.urls ↔
      ∀ name ∈ rule.urls, ¬store.IsUrlPool name :=
  (registered_buildCriteria h).expanded_iff

/-- A row that names a url of the store is loaded. -/
theorem urlsExpanded_exampleUrl : ∃ criteria s',
    Returns (buildCriteria .dotted (.ofUrls .ip4Model [⟨"example.com"⟩] [])
      (.ofUrls 1 ["example.com"])) ⟨.fresh .dotted, [], {}⟩ criteria s' ∧
    (UrlsExpanded (.ofUrls .ip4Model [⟨"example.com"⟩] []) ["example.com"] (.fresh .dotted)
      s'.network criteria.1.urls ↔
      ∀ name ∈ ["example.com"],
        ¬(ObjectStore.ofUrls .ip4Model [⟨"example.com"⟩] []).IsUrlPool name) := by
  obtain ⟨criteria, s', h⟩ := returns_of_isSome (p := buildCriteria .dotted
    (.ofUrls .ip4Model [⟨"example.com"⟩] []) (.ofUrls 1 ["example.com"]))
    (s := ⟨.fresh .dotted, [], {}⟩) (by decide +kernel)
  exact ⟨criteria, s', h, urlsExpanded_iff _ _ _ _ _ _ _ h⟩

/-- A row that names a pool of one url matches a url of the name of the pool instead. -/
theorem urlsExpanded_sites :
    ¬∀ criteria s', Returns (buildCriteria .dotted
        (.ofUrls .ip4Model [⟨"example.com"⟩] [⟨"sites", ["example.com"]⟩]) (.ofUrls 1 ["sites"]))
        ⟨.fresh .dotted, [], {}⟩ criteria s' →
      UrlsExpanded (.ofUrls .ip4Model [⟨"example.com"⟩] [⟨"sites", ["example.com"]⟩]) ["sites"]
        (.fresh .dotted) s'.network criteria.1.urls := by
  obtain ⟨criteria, s', h⟩ := returns_of_isSome (p := buildCriteria .dotted
    (.ofUrls .ip4Model [⟨"example.com"⟩] [⟨"sites", ["example.com"]⟩]) (.ofUrls 1 ["sites"]))
    (s := ⟨.fresh .dotted, [], {}⟩) (by decide +kernel)
  intro hall
  have hnone := (registered_buildCriteria h).expanded_iff.mp (hall criteria s' h)
  exact hnone "sites" (List.mem_singleton_self _) (by decide +kernel)

end FirewallFactory

end RulesAnalyzer
