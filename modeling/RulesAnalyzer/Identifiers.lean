import RulesAnalyzer.Network

/-!
# Identifiers

A generator gives numbers to strings, and a string that has a number keeps it.  The
counter goes on when a call raises, and starts again from zero after `2 ^ 32` calls; no
shorter sequence of calls gives one number to two strings.

## Main definitions

* `IdGenerator.Sound` — the invariant, with the number of calls so far.
* `Call`, `IdGenerator.calls` — what a sequence of calls does.
* `Registration` — the registrations of a network.
* `Network.Numbered` — the invariant of a network.

## Main results

* `IdGenerator.sound_getId` — a call keeps the invariant.
* `getId_stable_injective` — **numbers are stable, different and in range**, over all calls
  and the registrations of a network.
-/

namespace RulesAnalyzer

open Effect Shared

/-! ### A call -/

namespace IdGenerator

variable {nbits : ℕ}

/-- The numbers given so far, after some calls. -/
structure Sound (count : ℕ) (g : IdGenerator nbits) : Prop where
  next_pos : count + 1 < 2 ^ 32 → 1 ≤ g.nextId
  next_le : g.nextId ≤ count + 1
  below_next : count + 1 < 2 ^ 32 → ∀ str id, g.idTable str = some id → id.val < g.nextId
  in_range : ∀ str id, g.idTable str = some id → 1 ≤ id.val ∧ id.val < g.ubound
  injective : ∀ str str' id, g.idTable str = some id → g.idTable str' = some id → str = str'

theorem sound_create (name : String) (ubound : ℕ) (h : ubound ≤ 2 ^ nbits) :
    Sound 0 (create name ubound h : IdGenerator nbits) where
  next_pos := fun _ => Nat.le_refl 1
  next_le := Nat.le_refl 1
  below_next := fun _ _ _ hid => nomatch hid
  in_range := fun _ _ hid => nomatch hid
  injective := fun _ _ _ hid => nomatch hid

/-- A generator after more calls. -/
theorem Sound.mono {g : IdGenerator nbits} {count count' : ℕ} (h : g.Sound count)
    (hle : count ≤ count') : g.Sound count' where
  next_pos := fun hcount => h.next_pos (by omega)
  next_le := h.next_le.trans (by omega)
  below_next := fun hcount => h.below_next (by omega)
  in_range := h.in_range
  injective := h.injective

/-- The generator with its counter moved on. -/
def advance (g : IdGenerator nbits) : IdGenerator nbits :=
  { g with nextId := (g.nextId + 1) % 2 ^ 32 }

/-- The generator with a number in its table. -/
def assign (g : IdGenerator nbits) (str : String) (id : Fin (2 ^ nbits)) : IdGenerator nbits :=
  { g with idTable := Function.update g.idTable str (some id) }

theorem idTable_assign_self (g : IdGenerator nbits) (str : String) (id : Fin (2 ^ nbits)) :
    (g.assign str id).idTable str = some id := Function.update_self ..

theorem idTable_assign_of_ne {str str' : String} (hne : str' ≠ str) (g : IdGenerator nbits)
    (id : Fin (2 ^ nbits)) : (g.assign str id).idTable str' = g.idTable str' :=
  Function.update_of_ne hne ..

/-- The three ways a call ends: the string is known, it gets the next number, or there is none. -/
theorem getId_cases (g : IdGenerator nbits) (str : String) :
    (∃ id, g.idTable str = some id ∧ exec (getId str) g = (.ok id, g)) ∨
    (g.idTable str = none ∧ ∃ id : Fin (2 ^ nbits), id.val = g.nextId ∧ g.nextId < g.ubound ∧
      exec (getId str) g = (.ok id, g.advance.assign str id)) ∨
    (g.idTable str = none ∧ g.ubound ≤ g.nextId ∧
      exec (getId str) g =
        (.error (.runtimeError (g.name ++ " id generator overflow")), g.advance)) := by
  rw [getId, exec_get_bind]
  cases hstr : g.idTable str with
  | some id => exact .inl ⟨id, rfl, rfl⟩
  | none =>
    right
    by_cases h : g.nextId < g.ubound
    · refine .inl ⟨rfl, ⟨g.nextId, h.trans_le g.ubound_le⟩, rfl, h, ?_⟩
      simp only [exec_modify_bind, dif_pos h, exec_pure]
      rfl
    · refine .inr ⟨rfl, Nat.le_of_not_lt h, ?_⟩
      simp only [exec_modify_bind, dif_neg h, exec_throw]
      rfl

/-- The counter only starts again when no call is left. -/
theorem Sound.nextId_advance {g : IdGenerator nbits} {count : ℕ} (h : g.Sound count)
    (hcount : count + 1 + 1 < 2 ^ 32) : g.advance.nextId = g.nextId + 1 := by
  have hle := h.next_le
  exact Nat.mod_eq_of_lt (by omega)

theorem sound_advance {g : IdGenerator nbits} {count : ℕ} (h : g.Sound count) :
    g.advance.Sound (count + 1) where
  next_pos hcount := by
    rw [h.nextId_advance hcount]
    omega
  next_le := (Nat.mod_le _ _).trans (Nat.succ_le_succ h.next_le)
  below_next hcount str id hid := by
    rw [h.nextId_advance hcount]
    exact Nat.lt_succ_of_lt (h.below_next (by omega) str id hid)
  in_range := h.in_range
  injective := h.injective

/-- A new number in the table.  It is in the range, it was not used, and it is below the next one
as long as the counter does not wrap. -/
theorem sound_assign {g : IdGenerator nbits} {count : ℕ} (h : g.Sound count)
    {id : Fin (2 ^ nbits)} (hrange : 1 ≤ id.val ∧ id.val < g.ubound)
    (hlt : count + 1 < 2 ^ 32 → id.val < g.nextId) (hunused : ∀ str', g.idTable str' ≠ some id)
    (str : String) : (g.assign str id).Sound count where
  next_pos := h.next_pos
  next_le := h.next_le
  below_next hcount str' id' hid := by
    by_cases hstr : str' = str
    · rw [hstr, idTable_assign_self] at hid
      exact Option.some.inj hid ▸ hlt hcount
    · rw [idTable_assign_of_ne hstr] at hid
      exact h.below_next hcount str' id' hid
  in_range str' id' hid := by
    by_cases hstr : str' = str
    · rw [hstr, idTable_assign_self] at hid
      exact Option.some.inj hid ▸ hrange
    · rw [idTable_assign_of_ne hstr] at hid
      exact h.in_range str' id' hid
  injective str' str'' id' hid hid' := by
    -- the new number was not used for another string
    by_cases hstr : str' = str <;> by_cases hstr' : str'' = str
    · rw [hstr, hstr']
    · rw [hstr, idTable_assign_self] at hid
      rw [idTable_assign_of_ne hstr'] at hid'
      exact absurd (hid'.trans hid.symm) (hunused str'')
    · rw [hstr', idTable_assign_self] at hid'
      rw [idTable_assign_of_ne hstr] at hid
      exact absurd (hid.trans hid'.symm) (hunused str')
    · rw [idTable_assign_of_ne hstr] at hid
      rw [idTable_assign_of_ne hstr'] at hid'
      exact h.injective str' str'' id' hid hid'

/-- **A call keeps the invariant.** -/
theorem sound_getId {g : IdGenerator nbits} {count : ℕ} (h : g.Sound count)
    (hcount : count + 1 < 2 ^ 32) (str : String) :
    (exec (getId str) g).2.Sound (count + 1) := by
  rcases g.getId_cases str with ⟨id, -, hrun⟩ | ⟨-, id, hid, hlt, hrun⟩ | ⟨-, -, hrun⟩
  · rw [hrun]
    exact h.mono (Nat.le_succ count)
  · rw [hrun]
    have hpos := h.next_pos hcount
    refine sound_assign (sound_advance h) (hid ▸ ⟨hpos, hlt⟩) (fun hlast => ?_) ?_ str
    · rw [h.nextId_advance hlast, hid]
      exact Nat.lt_succ_self _
    · -- The next number is above all numbers of the table.
      intro str' hstr'
      have hbelow := h.below_next hcount str' id hstr'
      omega
  · rw [hrun]
    exact sound_advance h

/-- A number is kept. -/
theorem idTable_getId {g : IdGenerator nbits} {str str' : String} {id : Fin (2 ^ nbits)}
    (h : g.idTable str = some id) : (exec (getId str') g).2.idTable str = some id := by
  rcases g.getId_cases str' with ⟨id', hid, hrun⟩ | ⟨hnew, id', -, -, hrun⟩ | ⟨hnew, -, hrun⟩
  · rwa [hrun]
  · rw [hrun]
    have hne : str ≠ str' := by
      rintro rfl
      cases hnew.symm.trans h
    exact (idTable_assign_of_ne hne ..).trans h
  · rwa [hrun]

/-- The number of a call is in the table after it. -/
theorem idTable_of_getId {g g' : IdGenerator nbits} {str : String} {id : Fin (2 ^ nbits)}
    (h : exec (getId str) g = (.ok id, g')) : g'.idTable str = some id := by
  rcases g.getId_cases str with ⟨id', hid, hrun⟩ | ⟨hnew, id', -, -, hrun⟩ | ⟨hnew, -, hrun⟩
  · rw [hrun] at h
    obtain ⟨hok, rfl⟩ := Prod.mk.inj h
    obtain rfl := Except.ok.inj hok
    exact hid
  · rw [hrun] at h
    obtain ⟨hok, rfl⟩ := Prod.mk.inj h
    obtain rfl := Except.ok.inj hok
    exact idTable_assign_self ..
  · rw [hrun] at h
    cases (Prod.mk.inj h).1

/-- A string that has a number gets it again. -/
theorem getId_of_idTable {g : IdGenerator nbits} {str : String} {id : Fin (2 ^ nbits)}
    (h : g.idTable str = some id) : exec (getId str) g = (.ok id, g) := by
  rcases g.getId_cases str with ⟨id', hid, hrun⟩ | ⟨hnew, -⟩ | ⟨hnew, -⟩
  · obtain rfl := Option.some.inj (hid.symm.trans h)
    exact hrun
  · cases hnew.symm.trans h
  · cases hnew.symm.trans h

/-- A call that raises leaves the table alone. -/
theorem idTable_of_getId_error {g g' : IdGenerator nbits} {str : String} {fault : Fault}
    (h : exec (getId str) g = (.error fault, g')) : g'.idTable = g.idTable := by
  rcases g.getId_cases str with ⟨id', hid, hrun⟩ | ⟨hnew, id', -, -, hrun⟩ | ⟨hnew, -, hrun⟩
  · rw [hrun] at h
    cases (Prod.mk.inj h).1
  · rw [hrun] at h
    cases (Prod.mk.inj h).1
  · rw [hrun] at h
    obtain ⟨-, rfl⟩ := Prod.mk.inj h
    rfl

/-! ### A sequence of calls -/

theorem ubound_getId (g : IdGenerator nbits) (str : String) :
    (exec (getId str) g).2.ubound = g.ubound := by
  rcases g.getId_cases str with ⟨id, -, hrun⟩ | ⟨-, id, -, -, hrun⟩ | ⟨-, -, hrun⟩ <;>
    rw [hrun] <;> rfl

/-- The generator after calls, whether they return or raise. -/
def afterCalls (g : IdGenerator nbits) (strs : List String) : IdGenerator nbits :=
  strs.foldl (fun g str => (exec (getId str) g).2) g

theorem sound_afterCalls {g : IdGenerator nbits} {count : ℕ} (h : g.Sound count)
    {strs : List String} (hcount : count + strs.length < 2 ^ 32) :
    (g.afterCalls strs).Sound (count + strs.length) := by
  induction strs generalizing g count with
  | nil => exact h
  | cons str strs ih =>
    rw [List.length_cons] at hcount ⊢
    have hstep := ih (sound_getId h (by omega) str) (by omega)
    exact hstep.mono (by omega)

theorem idTable_afterCalls {g : IdGenerator nbits} {str : String} {id : Fin (2 ^ nbits)}
    (h : g.idTable str = some id) (strs : List String) :
    (g.afterCalls strs).idTable str = some id := by
  induction strs generalizing g with
  | nil => exact h
  | cons str' strs ih => exact ih (idTable_getId h)

theorem ubound_afterCalls (g : IdGenerator nbits) (strs : List String) :
    (g.afterCalls strs).ubound = g.ubound := by
  induction strs generalizing g with
  | nil => rfl
  | cons str strs ih => exact (ih _).trans (ubound_getId g str)

end IdGenerator

/-- A call: its argument, its outcome, and the generator before and after it. -/
structure Call (nbits : ℕ) where
  str : String
  before : IdGenerator nbits
  outcome : Except Fault (Fin (2 ^ nbits))
  after : IdGenerator nbits

namespace IdGenerator

variable {nbits : ℕ}

/-- The calls with some arguments, one after the other. -/
def calls (g : IdGenerator nbits) : List String → List (Call nbits)
  | [] => []
  | str :: strs =>
    let run := exec (getId str) g
    ⟨str, g, run.1, run.2⟩ :: run.2.calls strs

/-- Where a call stands in the sequence. -/
theorem mem_calls {g : IdGenerator nbits} {strs : List String} {c : Call nbits}
    (h : c ∈ g.calls strs) :
    ∃ earlier later, strs = earlier ++ c.str :: later ∧ c.before = g.afterCalls earlier ∧
      exec (getId c.str) c.before = (c.outcome, c.after) := by
  induction strs generalizing g with
  | nil => cases h
  | cons str strs ih =>
    rcases List.mem_cons.mp h with rfl | h
    · exact ⟨[], strs, rfl, rfl, rfl⟩
    · obtain ⟨earlier, later, hstrs, hbefore, hrun⟩ := ih h
      exact ⟨str :: earlier, later, congrArg (str :: ·) hstrs, hbefore, hrun⟩

/-- The number of a call is in the table at the end. -/
theorem idTable_of_mem_calls {g : IdGenerator nbits} {strs : List String} {c : Call nbits}
    (h : c ∈ g.calls strs) {id : Fin (2 ^ nbits)} (hid : c.outcome = .ok id) :
    (g.afterCalls strs).idTable c.str = some id := by
  obtain ⟨earlier, later, hstrs, hbefore, hrun⟩ := mem_calls h
  have hafter : c.after = (g.afterCalls earlier).afterCalls [c.str] := by
    rw [← hbefore]
    exact (congrArg Prod.snd hrun).symm
  rw [hid] at hrun
  have hend : g.afterCalls strs = c.after.afterCalls later := by
    rw [hafter, hstrs]
    simp only [afterCalls, List.foldl_append, List.foldl_cons, List.foldl_nil]
  rw [hend]
  exact idTable_afterCalls (idTable_of_getId hrun) later

/-- **A string keeps the number it got first.** -/
theorem pairwise_calls (g : IdGenerator nbits) (strs : List String) :
    (g.calls strs).Pairwise fun first later =>
      ∀ id, first.str = later.str → first.outcome = .ok id → later.outcome = .ok id := by
  induction strs generalizing g with
  | nil => exact .nil
  | cons str strs ih =>
    refine .cons (fun later hlater id hstr hid => ?_) (ih _)
    obtain ⟨earlier, -, -, hbefore, hrun⟩ := mem_calls hlater
    have hfirst : exec (getId str) g = (.ok id, (exec (getId str) g).2) := Prod.ext hid rfl
    have htable : later.before.idTable later.str = some id := by
      rw [hbefore, ← hstr]
      exact idTable_afterCalls (idTable_of_getId hfirst) earlier
    rw [getId_of_idTable htable] at hrun
    exact (Prod.mk.inj hrun).1.symm

/-- **Numbers are stable, different and in range**, and a call that raises changes no number. -/
theorem calls_spec {g : IdGenerator nbits} (h : g.Sound 0) {strs : List String}
    (hlength : strs.length < 2 ^ 32) :
    ((g.calls strs).Pairwise fun first later =>
      ∀ id, first.str = later.str → first.outcome = .ok id → later.outcome = .ok id) ∧
    (∀ c ∈ g.calls strs, ∀ c' ∈ g.calls strs, ∀ id,
      c.str ≠ c'.str → c.outcome = .ok id → c'.outcome ≠ .ok id) ∧
    (∀ c ∈ g.calls strs, ∀ id, c.outcome = .ok id → 1 ≤ id.val ∧ id.val ≤ g.ubound - 1) ∧
    (∀ c ∈ g.calls strs, ∀ fault, c.outcome = .error fault →
      c.after.idTable = c.before.idTable) := by
  have hsound : (g.afterCalls strs).Sound (0 + strs.length) := sound_afterCalls h (by omega)
  refine ⟨pairwise_calls g strs, ?_, ?_, ?_⟩
  · intro c hc c' hc' id hne hid hid'
    exact hne (hsound.injective c.str c'.str id (idTable_of_mem_calls hc hid)
      (idTable_of_mem_calls hc' hid'))
  · intro c hc id hid
    have hrange := hsound.in_range c.str id (idTable_of_mem_calls hc hid)
    rw [ubound_afterCalls] at hrange
    omega
  · intro c hc fault hfault
    obtain ⟨-, -, -, -, hrun⟩ := mem_calls hc
    rw [hfault] at hrun
    exact idTable_of_getId_error hrun

end IdGenerator

/-! ### Registrations -/

/-- A registration of a network. -/
inductive Registration
  | zone (side : Side) (name : String)
  | address (side : Side) (name address : String)
  | multiAddress (side : Side) (name : String) (addresses : List String)
  | addressGroup (side : Side) (name : String) (members : List String)
  | service (name serviceDefinition : String)
  | multiService (name : String) (serviceDefinitions : List String)
  | serviceGroup (name : String) (members : List String)
  | application (name : String) (serviceDefinitions : List String) (useAppSvc : Bool)
  | applicationGroup (name : String) (members : List String) (useAppSvc : Bool)
  | user (name : String)
  | userGroup (name : String) (members : List String)
  | url (name : String)
  | urlGroup (name : String) (members : List String)

/-- The network after a registration, whether it returns or raises. -/
def Registration.after (config : ModelConfig) (nw : Network) : Registration → Network
  | zone side name => (exec (Network.registerZone side name) nw).2
  | address side name text =>
    (exec (Network.onKind (.address side) (Network.registerAddress config side name text)) nw).2
  | multiAddress side name addresses =>
    (exec (Network.onKind (.address side)
      (Network.registerMultiAddress config side name addresses)) nw).2
  | addressGroup side name members =>
    (exec (Network.onKind (.address side) (Network.registerAddressGroup side name members)) nw).2
  | service name serviceDefinition =>
    (exec (Network.onKind .service (Network.registerService name serviceDefinition)) nw).2
  | multiService name serviceDefinitions =>
    (exec (Network.onKind .service (Network.registerMultiService name serviceDefinitions)) nw).2
  | serviceGroup name members =>
    (exec (Network.onKind .service (Network.registerServiceGroup name members)) nw).2
  | application name serviceDefinitions useAppSvc =>
    (exec (Network.registerApplication name serviceDefinitions useAppSvc) nw).2
  | applicationGroup name members useAppSvc =>
    (exec (Network.registerApplicationGroup name members useAppSvc) nw).2
  | user name => (exec (Network.registerUser name) nw).2
  | userGroup name members => (exec (Network.registerUserGroup name members) nw).2
  | url name => (exec (Network.registerUrl name) nw).2
  | urlGroup name members => (exec (Network.registerUrlGroup name members) nw).2

/-- Filling a group leaves the cached objects alone. -/
theorem keeps_items_registerGroup {T : Type} [DecidableEq T] (name : String)
    (members : List String) :
    Keeps (Through Registry.items Eq)
      (registerGroup name members : Program (Registry String T) Fault ℕ) := by
  refine keeps_bind keeps_get fun r => ?_
  rcases r.groups name with _ | id
  · refine keeps_bind (keeps_modify fun _ => rfl) fun _ => ?_
    refine keeps_bind (keeps_forM fun member _ => keeps_bind keeps_get fun r => ?_)
      fun _ => keeps_pure _
    rcases r.lookup member with _ | found
    · exact keeps_pure _
    · exact keeps_modify fun _ => rfl
  · exact keeps_pure id

namespace IdGenerator

variable {nbits : ℕ}

/-- At most one call from a generator to the next. -/
def AtMostOneCall (g g' : IdGenerator nbits) : Prop :=
  (∀ count, count + 1 < 2 ^ 32 → g.Sound count → g'.Sound (count + 1)) ∧
    ∀ str id, g.idTable str = some id → g'.idTable str = some id

theorem AtMostOneCall.refl (g : IdGenerator nbits) : AtMostOneCall g g :=
  ⟨fun count _ h => h.mono (Nat.le_succ count), fun _ _ h => h⟩

theorem atMostOneCall_getId (g : IdGenerator nbits) (str : String) :
    AtMostOneCall g (exec (getId str) g).2 :=
  ⟨fun _ hcount h => sound_getId h hcount str, fun _ _ h => idTable_getId h⟩

/-- The range of the object with a name: its number, or everything. -/
def Numbers (g : IdGenerator nbits) (name : String) (range : Range nbits) : Prop :=
  (name = "any" ∧ range = Range.full nbits) ∨
    ∃ id, g.idTable name = some id ∧ range = Range.singleton id.val id.isLt

theorem Numbers.mono {g g' : IdGenerator nbits} {name : String} {range : Range nbits}
    (h : g.Numbers name range) (hstep : AtMostOneCall g g') : g'.Numbers name range := by
  rcases h with hany | ⟨id, hid, hrange⟩
  · exact .inl hany
  · exact .inr ⟨id, hstep.2 name id hid, hrange⟩

/-- **Different names have different ranges.** -/
theorem Numbers.ne {g : IdGenerator nbits} {count : ℕ} (h : g.Sound count) (hbits : 0 < nbits)
    {name name' : String} {range range' : Range nbits} (hname : g.Numbers name range)
    (hname' : g.Numbers name' range') (hne : name ≠ name') : range ≠ range' := by
  have hfull : ∀ v : Fin (2 ^ nbits), Range.full nbits ≠ Range.singleton v.val v.isLt := by
    intro v heq
    have hl := congrArg Range.lbound heq
    have hu := congrArg Range.ubound heq
    have hpow : 2 ^ 1 ≤ 2 ^ nbits := Nat.pow_le_pow_right (by decide) hbits
    simp only [Range.full, Range.singleton] at hl hu
    omega
  rcases hname with ⟨rfl, rfl⟩ | ⟨id, hid, rfl⟩ <;>
    rcases hname' with ⟨rfl, rfl⟩ | ⟨id', hid', rfl⟩
  · exact absurd rfl hne
  · exact hfull id'
  · exact (hfull id).symm
  · intro heq
    obtain rfl : id = id' := Fin.ext (congrArg Range.lbound heq)
    exact hne (h.injective name name' id hid hid')

end IdGenerator

namespace Network

/-- A cached object has the range of its number. -/
def HasNumber (nw : Network) (name : String) : (k : Kind) → Item k → Prop
  | .zone _, zone => nw.zoneIdGen.Numbers name zone.range
  | .application _, application => nw.appIdGen.Numbers name application.val.range
  | .user, user => nw.userIdGen.Numbers name user.range
  | .url, url => nw.urlIdGen.Numbers name url.range
  | .address _, _ => True
  | .service, _ => True
  | .appsvc, _ => True

/-- The generators are sound after some registrations, and all cached objects have numbers. -/
structure Numbered (count : ℕ) (nw : Network) : Prop where
  zoneIds : nw.zoneIdGen.Sound count
  appIds : nw.appIdGen.Sound count
  userIds : nw.userIdGen.Sound count
  urlIds : nw.urlIdGen.Sound count
  items : ∀ k name item, (nw.registries k).items name = some item → nw.HasNumber name k item

/-- The generators step, at most once each. -/
structure GeneratorStep (nw nw' : Network) : Prop where
  zoneIds : IdGenerator.AtMostOneCall nw.zoneIdGen nw'.zoneIdGen
  appIds : IdGenerator.AtMostOneCall nw.appIdGen nw'.appIdGen
  userIds : IdGenerator.AtMostOneCall nw.userIdGen nw'.userIdGen
  urlIds : IdGenerator.AtMostOneCall nw.urlIdGen nw'.urlIdGen

theorem HasNumber.mono {nw nw' : Network} (hstep : GeneratorStep nw nw') {name : String}
    {k : Kind} {item : Item k} (h : nw.HasNumber name k item) : nw'.HasNumber name k item := by
  cases k with
  | zone side => exact IdGenerator.Numbers.mono h hstep.zoneIds
  | application useAppSvc => exact IdGenerator.Numbers.mono h hstep.appIds
  | user => exact IdGenerator.Numbers.mono h hstep.userIds
  | url => exact IdGenerator.Numbers.mono h hstep.urlIds
  | address side => trivial
  | service => trivial
  | appsvc => trivial

/-- The generators step, and what is new in the registries has a number. -/
structure NumberStep (nw nw' : Network) : Prop where
  generators : GeneratorStep nw nw'
  items : ∀ k name item, (nw'.registries k).items name = some item →
    (nw.registries k).items name = some item ∨ nw'.HasNumber name k item

theorem Numbered.step {nw nw' : Network} {count : ℕ} (h : nw.Numbered count)
    (hcount : count + 1 < 2 ^ 32) (hstep : NumberStep nw nw') : nw'.Numbered (count + 1) where
  zoneIds := hstep.generators.zoneIds.1 count hcount h.zoneIds
  appIds := hstep.generators.appIds.1 count hcount h.appIds
  userIds := hstep.generators.userIds.1 count hcount h.userIds
  urlIds := hstep.generators.urlIds.1 count hcount h.urlIds
  items k name item hitem := by
    rcases hstep.items k name item hitem with hold | hnew
    · exact HasNumber.mono hstep.generators (h.items k name item hold)
    · exact hnew

/-! ### Registrations step -/

/-- Only the registry of one kind changes. -/
structure Quiet (k : Kind) (nw nw' : Network) : Prop where
  zoneIds : nw'.zoneIdGen = nw.zoneIdGen
  appIds : nw'.appIdGen = nw.appIdGen
  userIds : nw'.userIdGen = nw.userIdGen
  urlIds : nw'.urlIdGen = nw.urlIdGen
  others : ∀ k', k' ≠ k → nw'.registries k' = nw.registries k'

instance (k : Kind) : Std.Refl (Quiet k) := ⟨fun _ => ⟨rfl, rfl, rfl, rfl, fun _ _ => rfl⟩⟩

instance (k : Kind) : IsTrans Network (Quiet k) where
  trans _ _ _ h h' := ⟨h'.zoneIds.trans h.zoneIds, h'.appIds.trans h.appIds,
    h'.userIds.trans h.userIds, h'.urlIds.trans h.urlIds,
    fun k' hk => (h'.others k' hk).trans (h.others k' hk)⟩

theorem quiet_setRegistry (nw : Network) (k : Kind) (r : Registry String (Item k)) :
    Quiet k nw (nw.setRegistry k r) :=
  ⟨rfl, rfl, rfl, rfl, fun _ hk => registries_setRegistry_of_ne hk nw r⟩

theorem Quiet.generatorStep {k : Kind} {nw nw' : Network} (h : Quiet k nw nw') :
    GeneratorStep nw nw' where
  zoneIds := h.zoneIds ▸ IdGenerator.AtMostOneCall.refl _
  appIds := h.appIds ▸ IdGenerator.AtMostOneCall.refl _
  userIds := h.userIds ▸ IdGenerator.AtMostOneCall.refl _
  urlIds := h.urlIds ▸ IdGenerator.AtMostOneCall.refl _

/-- After a step, a change of one registry to objects that have numbers. -/
theorem NumberStep.quiet {nw nw' nw'' : Network} {k : Kind} (h : NumberStep nw nw')
    (hquiet : Quiet k nw' nw'') (hitems : ∀ name item, (nw''.registries k).items name = some item →
      (nw'.registries k).items name = some item ∨ nw''.HasNumber name k item) :
    NumberStep nw nw'' where
  generators :=
    ⟨hquiet.zoneIds ▸ h.generators.zoneIds, hquiet.appIds ▸ h.generators.appIds,
      hquiet.userIds ▸ h.generators.userIds, hquiet.urlIds ▸ h.generators.urlIds⟩
  items k' name item hitem := by
    have hold : (nw'.registries k').items name = some item →
        (nw.registries k').items name = some item ∨ nw''.HasNumber name k' item := fun hitem' =>
      (h.items k' name item hitem').imp_right (HasNumber.mono hquiet.generatorStep)
    by_cases hk : k' = k
    · subst hk
      rcases hitems name item hitem with hitem' | hnew
      · exact hold hitem'
      · exact .inr hnew
    · rw [hquiet.others k' hk] at hitem
      exact hold hitem

theorem NumberStep.refl (nw : Network) : NumberStep nw nw where
  generators := ⟨.refl _, .refl _, .refl _, .refl _⟩
  items _ _ _ hitem := .inl hitem

/-- Registration of an object that is created with the number of its name. -/
theorem numberStep_registerNew {k : Kind} {name : String} {create : Program Network Fault (Item k)}
    {nw : Network} (hstep : NumberStep nw (exec create nw).2)
    (hitem : ∀ item, (exec create nw).1 = .ok item → (exec create nw).2.HasNumber name k item) :
    NumberStep nw (exec (registerNew k name create) nw).2 := by
  rw [exec_registerNew]
  rcases (nw.registries k).items name with _ | old
  · rcases hrun : exec create nw with ⟨fault | item, nw'⟩
    · rwa [hrun] at hstep
    · rw [hrun] at hstep hitem
      have hquiet := quiet_setRegistry nw' k ((nw'.registries k).setItem name item)
      refine hstep.quiet hquiet fun name' item' hitem' => ?_
      rw [registries_setRegistry, Registry.items_setItem] at hitem'
      by_cases hname : name' = name
      · subst hname
        rw [Function.update_self] at hitem'
        obtain rfl := Option.some.inj hitem'
        exact .inr (HasNumber.mono hquiet.generatorStep (hitem item rfl))
      · rw [Function.update_of_ne hname] at hitem'
        exact .inl hitem'
  · exact .refl nw

section GetId

variable {nbits : ℕ} (get : Network → IdGenerator nbits)
  (set : IdGenerator nbits → Network → Network)

/-- Registration of an object with the number that its name gets.  What follows the call may still
change the services of applications. -/
theorem numberStep_getId (hget : ∀ g nw, get (set g nw) = g)
    (hset : ∀ g nw, IdGenerator.AtMostOneCall (get nw) g →
      GeneratorStep nw (set g nw) ∧ (set g nw).registries = nw.registries)
    {k : Kind} {name : String} {rest : Fin (2 ^ nbits) → Program Network Fault (Item k)}
    (hrest : ∀ id nw, (get nw).idTable name = some id →
      Quiet .appsvc nw (exec (rest id) nw).2 ∧
        ∀ item, (exec (rest id) nw).1 = .ok item → (exec (rest id) nw).2.HasNumber name k item)
    (nw : Network) :
    NumberStep nw
      (exec (registerNew k name (zoom get set (IdGenerator.getId name) >>= rest)) nw).2 := by
  have hcall := IdGenerator.atMostOneCall_getId (get nw) name
  rcases hrun : exec (IdGenerator.getId name) (get nw) with ⟨fault | id, g⟩
  · -- the generator is exhausted: nothing is registered
    have hzoom : exec (zoom get set (IdGenerator.getId name)) nw = (.error fault, set g nw) := by
      rw [exec_zoom, hrun]
    rw [hrun] at hcall
    obtain ⟨hgenerators, hsame⟩ := hset g nw hcall
    refine numberStep_registerNew ?_ ?_ <;> rw [exec_bind_error hzoom]
    · exact ⟨hgenerators, fun _ _ _ hitem => .inl (hsame ▸ hitem)⟩
    · intro item hitem
      cases hitem
  · -- a number, and an object that is cached with it
    have hzoom : exec (zoom get set (IdGenerator.getId name)) nw = (.ok id, set g nw) := by
      rw [exec_zoom, hrun]
    rw [hrun] at hcall
    obtain ⟨hgenerators, hsame⟩ := hset g nw hcall
    have hid : (get (set g nw)).idTable name = some id := by
      rw [hget]
      exact IdGenerator.idTable_of_getId hrun
    obtain ⟨hquiet, hitem⟩ := hrest id (set g nw) hid
    refine numberStep_registerNew ?_ ?_ <;> rw [exec_bind_ok hzoom]
    · have hstep : NumberStep nw (set g nw) :=
        ⟨hgenerators, fun _ _ _ hitem => .inl (hsame ▸ hitem)⟩
      exact hstep.quiet hquiet fun _ _ _ => .inr trivial
    · exact hitem

end GetId

theorem numberStep_registerZone (side : Side) (name : String) (nw : Network) :
    NumberStep nw (exec (registerZone side name) nw).2 := by
  refine numberStep_getId zoneIdGen (fun g nw => { nw with zoneIdGen := g }) (fun _ _ => rfl)
    (fun g nw hcall => ⟨?_, rfl⟩) (fun id nw hid => ?_) nw
  · exact ⟨hcall, .refl _, .refl _, .refl _⟩
  · refine ⟨refl _, fun zone hzone => ?_⟩
    obtain rfl := Except.ok.inj hzone
    exact .inr ⟨id, hid, rfl⟩

theorem quiet_registerAppServices (serviceDefinitions : List String) :
    Keeps (Quiet .appsvc) (registerAppServices serviceDefinitions) :=
  keeps_foldlM fun _ _ _ => keeps_bind (fun nw => quiet_setRegistry nw _ _) fun _ => keeps_pure _

theorem numberStep_registerApplication (name : String) (serviceDefinitions : List String)
    (useAppSvc : Bool) (nw : Network) :
    NumberStep nw (exec (registerApplication name serviceDefinitions useAppSvc) nw).2 := by
  refine numberStep_getId appIdGen (fun g nw => { nw with appIdGen := g }) (fun _ _ => rfl)
    (fun g nw hcall => ⟨?_, rfl⟩) (fun id nw hid => ?_) nw
  · exact ⟨.refl _, hcall, .refl _, .refl _⟩
  · have hquiet := quiet_registerAppServices serviceDefinitions nw
    rcases hrun : exec (registerAppServices serviceDefinitions) nw with ⟨fault | services, nw'⟩
    · rw [hrun] at hquiet
      rw [exec_bind_error hrun]
      refine ⟨hquiet, fun application happ => ?_⟩
      cases happ
    · rw [hrun] at hquiet
      rw [exec_bind_ok hrun]
      refine ⟨hquiet, fun application happ => ?_⟩
      obtain rfl := Except.ok.inj happ
      have hid' : nw'.appIdGen.idTable name = some id := hquiet.appIds ▸ hid
      exact .inr ⟨id, hid', rfl⟩

theorem numberStep_registerUser (name : String) (nw : Network) :
    NumberStep nw (exec (registerUser name) nw).2 := by
  refine numberStep_getId userIdGen (fun g nw => { nw with userIdGen := g }) (fun _ _ => rfl)
    (fun g nw hcall => ⟨?_, rfl⟩) (fun id nw hid => ?_) nw
  · exact ⟨.refl _, .refl _, hcall, .refl _⟩
  · refine ⟨refl _, fun user huser => ?_⟩
    obtain rfl := Except.ok.inj huser
    exact .inr ⟨id, hid, rfl⟩

theorem numberStep_registerUrl (name : String) (nw : Network) :
    NumberStep nw (exec (registerUrl name) nw).2 := by
  refine numberStep_getId urlIdGen (fun g nw => { nw with urlIdGen := g }) (fun _ _ => rfl)
    (fun g nw hcall => ⟨?_, rfl⟩) (fun id nw hid => ?_) nw
  · exact ⟨.refl _, .refl _, .refl _, hcall⟩
  · have hrange : nw.urlIdGen.Numbers name
        (if name = "any" then OptionNode.any
          else ⟨name, Range.singleton id.val id.isLt, nw.modelOptions⟩ : Url).range := by
      by_cases hany : name = "any"
      · rw [if_pos hany]
        exact .inl ⟨hany, rfl⟩
      · rw [if_neg hany]
        exact .inr ⟨id, hid, rfl⟩
    refine ⟨refl _, fun url hurl => ?_⟩
    obtain rfl := Except.ok.inj hurl
    exact hrange

/-- Registration of objects that have no number. -/
theorem numberStep_onKind {α : Type} (k : Kind)
    (hk : ∀ nw name item, HasNumber nw name k item)
    (p : Program (Registry String (Item k)) Fault α) (nw : Network) :
    NumberStep nw (exec (onKind k p) nw).2 :=
  (NumberStep.refl nw).quiet (quiet_setRegistry nw k _) fun _ _ _ => .inr (hk _ _ _)

/-- Registration of a group of cached objects. -/
theorem numberStep_registerGroupOf (k : Kind) (name : String) (members : List String)
    (nw : Network) : NumberStep nw (exec (registerGroupOf k name members) nw).2 := by
  refine (NumberStep.refl nw).quiet (quiet_setRegistry nw k _) fun name' item hitem => ?_
  have hsame : (nw.registries k).items =
      (exec (registerGroup name members : Program _ Fault ℕ) (nw.registries k)).2.items :=
    keeps_items_registerGroup name members _
  left
  rw [hsame]
  have hregistry := registries_setRegistry nw k
    (exec (registerGroup name members : Program _ Fault ℕ) (nw.registries k)).2
  exact (congrArg (fun r => r.items name') hregistry).symm.trans hitem

/-- **Every registration calls a generator at most once**, and objects get their numbers. -/
theorem numberStep_after (config : ModelConfig) (registration : Registration) (nw : Network) :
    NumberStep nw (registration.after config nw) := by
  cases registration with
  | zone side name => exact numberStep_registerZone side name nw
  | address side name text => exact numberStep_onKind (.address side) (fun _ _ _ => trivial) _ nw
  | multiAddress side name addresses =>
    exact numberStep_onKind (.address side) (fun _ _ _ => trivial) _ nw
  | addressGroup side name members =>
    exact numberStep_onKind (.address side) (fun _ _ _ => trivial) _ nw
  | service name definition => exact numberStep_onKind .service (fun _ _ _ => trivial) _ nw
  | multiService name definitions => exact numberStep_onKind .service (fun _ _ _ => trivial) _ nw
  | serviceGroup name members => exact numberStep_onKind .service (fun _ _ _ => trivial) _ nw
  | application name definitions useAppSvc =>
    exact numberStep_registerApplication name definitions useAppSvc nw
  | applicationGroup name members useAppSvc => exact numberStep_registerGroupOf _ name members nw
  | user name => exact numberStep_registerUser name nw
  | userGroup name members => exact numberStep_registerGroupOf _ name members nw
  | url name => exact numberStep_registerUrl name nw
  | urlGroup name members => exact numberStep_registerGroupOf _ name members nw

/-! ### Runs of registrations -/

/-- A network starts with objects for everything only.  They have the number that stands for
everything, and no name but `any`. -/
theorem numbered_fresh (config : ModelConfig) : (fresh config).Numbered 0 where
  zoneIds := IdGenerator.sound_create _ _ _
  appIds := IdGenerator.sound_create _ _ _
  userIds := IdGenerator.sound_create _ _ _
  urlIds := IdGenerator.sound_create _ _ _
  items k name item hitem := by
    -- the only name is `any`
    have hany : ∀ {T : Type} (t u : T),
        (ofItems [("any", t)]).items name = some u → name = "any" ∧ t = u := by
      intro T t u hu
      have hitems : (ofItems [("any", t)]).items = Function.update (fun _ => none) "any" (some t) :=
        rfl
      rw [hitems, Function.update_apply] at hu
      split at hu
      · next hname => exact ⟨hname, Option.some.inj hu⟩
      · cases hu
    cases k with
    | zone side =>
      obtain ⟨hname, rfl⟩ := hany _ _ hitem
      exact .inl ⟨hname, rfl⟩
    | application useAppSvc =>
      obtain ⟨hname, rfl⟩ := hany _ _ hitem
      exact .inl ⟨hname, rfl⟩
    | user =>
      obtain ⟨hname, rfl⟩ := hany _ _ hitem
      exact .inl ⟨hname, rfl⟩
    | url =>
      obtain ⟨hname, rfl⟩ := hany _ _ hitem
      exact .inl ⟨hname, rfl⟩
    | address side => trivial
    | service => trivial
    | appsvc => trivial

/-- The network after some registrations. -/
def afterAll (config : ModelConfig) (nw : Network) (registrations : List Registration) : Network :=
  registrations.foldl (fun nw registration => registration.after config nw) nw

theorem numbered_afterAll (config : ModelConfig) {nw : Network} {count : ℕ}
    (h : nw.Numbered count) {registrations : List Registration}
    (hcount : count + registrations.length < 2 ^ 32) :
    (nw.afterAll config registrations).Numbered (count + registrations.length) := by
  induction registrations generalizing nw count with
  | nil => exact h
  | cons registration registrations ih =>
    rw [List.length_cons] at hcount ⊢
    have hstep := h.step (by omega) (numberStep_after config registration nw)
    rw [Nat.add_comm registrations.length, ← Nat.add_assoc]
    exact ih hstep (by omega)

/-- Objects with different names have different values, and zones also when they are of different
sides. -/
structure Separate (nw : Network) : Prop where
  zones : ∀ side side' name name' zone zone', nw.getZone side name = some zone →
    nw.getZone side' name' = some zone' → name ≠ name' →
    zone.makeBdd ≠ (Zone.recast name' zone' : Zone side).makeBdd
  applications : ∀ useAppSvc useAppSvc' name name' application application',
    (nw.registries (.application useAppSvc)).items name = some application →
    (nw.registries (.application useAppSvc')).items name' = some application' → name ≠ name' →
    Mvalue.makeBdd ⟨.application, application.val.range⟩ ≠
      Mvalue.makeBdd ⟨.application, application'.val.range⟩
  users : ∀ name name' user user', (nw.registries .user).items name = some user →
    (nw.registries .user).items name' = some user' → name ≠ name' →
    Mvalue.makeBdd ⟨.user, user.range⟩ ≠ Mvalue.makeBdd ⟨.user, user'.range⟩
  urls : ∀ name name' url url', (nw.registries .url).items name = some url →
    (nw.registries .url).items name' = some url' → name ≠ name' →
    Mvalue.makeBdd ⟨.url, url.range⟩ ≠ Mvalue.makeBdd ⟨.url, url'.range⟩

end Network

/-- A range is determined by its diagram. -/
theorem range_eq_of_makeBdd_eq {dt : DomainType} {r r' : Range dt.nbits}
    (h : Mvalue.makeBdd ⟨dt, r⟩ = Mvalue.makeBdd ⟨dt, r'⟩) : r = r' := by
  have hmem : ∀ value < 2 ^ dt.nbits, (value ∈ r ↔ value ∈ r') := by
    intro value hvalue
    have hpk : (Packet.ofValues fun _ => value).value dt = value := Packet.value_ofValues hvalue
    have hr := @mem_makeBdd_mvalue ⟨dt, r⟩ (Packet.ofValues fun _ => value)
    have hr' := @mem_makeBdd_mvalue ⟨dt, r'⟩ (Packet.ofValues fun _ => value)
    rw [hpk] at hr hr'
    exact hr.symm.trans (h ▸ hr')
  simp only [Range.mem_def] at hmem
  have hl := (hmem r.lbound r.lbound_lt).mp ⟨le_rfl, r.lbound_le⟩
  have hu := (hmem r.ubound r.ubound_lt).mp ⟨r.lbound_le, le_rfl⟩
  have hl' := (hmem r'.lbound r'.lbound_lt).mpr ⟨le_rfl, r'.lbound_le⟩
  have hu' := (hmem r'.ubound r'.ubound_lt).mpr ⟨r'.lbound_le, le_rfl⟩
  obtain ⟨lbound, ubound, hle, hlt⟩ := r
  obtain ⟨lbound', ubound', hle', hlt'⟩ := r'
  simp only at hl hu hl' hu'
  obtain rfl : lbound = lbound' := by omega
  obtain rfl : ubound = ubound' := by omega
  rfl

theorem range_cast_injective {nbits nbits' : ℕ} (h : nbits = nbits') {r r' : Range nbits}
    (hcast : r.cast h = r'.cast h) : r = r' := by
  subst h
  exact hcast

theorem Network.Numbered.separate {nw : Network} {count : ℕ} (h : nw.Numbered count) :
    nw.Separate where
  zones side side' name name' zone zone' hzone hzone' hne heq := by
    have hnumber : nw.zoneIdGen.Numbers name zone.range := h.items (.zone side) name zone hzone
    have hnumber' : nw.zoneIdGen.Numbers name' zone'.range :=
      h.items (.zone side') name' zone' hzone'
    refine hnumber.ne h.zoneIds (by decide) hnumber' hne ?_
    have hcast : zone.range.cast side.nbits_zone = zone'.range.cast side.nbits_zone :=
      range_eq_of_makeBdd_eq heq
    exact range_cast_injective _ hcast
  applications useAppSvc useAppSvc' name name' application application' happ happ' hne heq :=
    IdGenerator.Numbers.ne h.appIds (by decide) (h.items (.application useAppSvc) _ _ happ)
      (h.items (.application useAppSvc') _ _ happ') hne (range_eq_of_makeBdd_eq heq)
  users name name' user user' huser huser' hne heq :=
    IdGenerator.Numbers.ne h.userIds (by decide) (h.items .user _ _ huser)
      (h.items .user _ _ huser') hne (range_eq_of_makeBdd_eq heq)
  urls name name' url url' hurl hurl' hne heq :=
    IdGenerator.Numbers.ne h.urlIds (by decide) (h.items .url _ _ hurl)
      (h.items .url _ _ hurl') hne (range_eq_of_makeBdd_eq heq)

/-- **Numbers are stable, different and in range** over fewer than `2 ^ 32` calls, raising or not,
and after as few registrations objects with different names have different values. -/
theorem getId_stable_injective :
    (∀ (nbits : ℕ) (name : String) (ubound : ℕ) (h : ubound ≤ 2 ^ nbits) (strs : List String),
      strs.length < 2 ^ 32 →
      let calls := (IdGenerator.create name ubound h).calls strs
      (calls.Pairwise fun first later =>
        ∀ id, first.str = later.str → first.outcome = .ok id → later.outcome = .ok id) ∧
      (∀ c ∈ calls, ∀ c' ∈ calls, ∀ id,
        c.str ≠ c'.str → c.outcome = .ok id → c'.outcome ≠ .ok id) ∧
      (∀ c ∈ calls, ∀ id, c.outcome = .ok id → 1 ≤ id.val ∧ id.val ≤ ubound - 1) ∧
      (∀ c ∈ calls, ∀ fault, c.outcome = .error fault → c.after.idTable = c.before.idTable)) ∧
    ∀ (config : ModelConfig) (registrations : List Registration),
      registrations.length < 2 ^ 32 →
      ((Network.fresh config).afterAll config registrations).Separate := by
  constructor
  · intro nbits name ubound h strs hlength
    exact IdGenerator.calls_spec (IdGenerator.sound_create name ubound h) hlength
  · intro config registrations hlength
    exact (Network.numbered_afterAll config (Network.numbered_fresh config) (by omega)).separate

end RulesAnalyzer
