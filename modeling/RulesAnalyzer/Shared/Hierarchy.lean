import Mathlib.Data.List.Basic
import Mathlib.Data.Nat.Init
import Mathlib.Logic.Relation
import Mathlib.Order.Nat

/-!
# Hierarchies of shared groups

Groups live in a heap and refer to each other by their number there, so that a
change of a group shows in all groups above it.  When every group refers to
smaller numbers only, what is read off a group only depends on the part of the
heap below it.

## Main definitions

* `Member`, `Cell`, `Heap` — groups in a heap.
* `Leads` — the items a list of members leads to.
* `Descending`, `Below` — references point downwards.
* `Acyclic` — no group is below itself.
* `fold` — a value computed over the hierarchy, down to some depth.
* `Runs`, `Terminates` — a recursive operation as it runs, and that all of them end.

## Main results

* `fold_congr` — a fold only depends on the heap below, and not on the depth.
* `fold_iff` — a fold that collects items collects those the members lead to.
* `Descending.acyclic`, `Descending.terminates` — references that point downwards make no
  cycle, and recursive operations end.
-/

namespace RulesAnalyzer.Shared

variable {κ T β : Type}

/-- A member of a group: an item, or a group of the heap. -/
inductive Member (T : Type)
  | item (item : T)
  | group (id : ℕ)
  deriving DecidableEq

/-- A group. -/
structure Cell (κ T : Type) where
  name : κ
  members : List (Member T)

/-- The groups, each at its number. -/
abbrev Heap (κ T : Type) := List (Cell κ T)

/-- The items that members lead to. -/
inductive Leads (heap : Heap κ T) : List (Member T) → T → Prop
  | item {members : List (Member T)} {t : T} (h : .item t ∈ members) : Leads heap members t
  | group {members : List (Member T)} {id : ℕ} {cell : Cell κ T} {t : T}
      (h : .group id ∈ members) (hcell : heap[id]? = some cell) (ht : Leads heap cell.members t) :
      Leads heap members t

/-- All groups among the members have numbers below `n`. -/
def Below (n : ℕ) (members : List (Member T)) : Prop := ∀ id, Member.group id ∈ members → id < n

/-- Every group only refers to groups with smaller numbers. -/
def Descending (heap : Heap κ T) : Prop :=
  ∀ id cell, heap[id]? = some cell → Below id cell.members

theorem Below.mono {n n' : ℕ} {members : List (Member T)} (h : Below n members) (hle : n ≤ n') :
    Below n' members := fun id hid => (h id hid).trans_le hle

theorem below_append {n : ℕ} {l l' : List (Member T)} :
    Below n (l ++ l') ↔ Below n l ∧ Below n l' := by
  simp only [Below, List.mem_append, or_imp, forall_and]

theorem below_item {n : ℕ} {item : T} : Below n [.item item] :=
  fun _ h => nomatch List.mem_singleton.mp h

theorem below_group {n id : ℕ} : Below n [(.group id : Member T)] ↔ id < n := by
  constructor
  · exact fun h => h id (List.mem_singleton_self _)
  · intro h id' hid'
    rwa [Member.group.inj (List.mem_singleton.mp hid')]

theorem below_iff {n : ℕ} {members : List (Member T)} :
    Below n members ↔ ∀ member ∈ members, Below n [member] := by
  constructor
  · intro h member hmem id hid
    obtain rfl := List.mem_singleton.mp hid
    exact h id hmem
  · exact fun h id hid => h _ hid id (List.mem_singleton_self _)

theorem leads_iff {heap : Heap κ T} {members : List (Member T)} {t : T} :
    Leads heap members t ↔ ∃ member ∈ members, Leads heap [member] t := by
  constructor
  · intro h
    cases h with
    | item h => exact ⟨_, h, .item (List.mem_singleton_self _)⟩
    | group h hcell ht => exact ⟨_, h, .group (List.mem_singleton_self _) hcell ht⟩
  · intro ⟨member, hmem, h⟩
    cases h with
    | item h =>
      obtain rfl := List.mem_singleton.mp h
      exact .item hmem
    | group h hcell ht =>
      obtain rfl := List.mem_singleton.mp h
      exact .group hmem hcell ht

theorem leads_append {heap : Heap κ T} {l l' : List (Member T)} {t : T} :
    Leads heap (l ++ l') t ↔ Leads heap l t ∨ Leads heap l' t := by
  rw [leads_iff, @leads_iff _ _ heap l, @leads_iff _ _ heap l']
  simp only [List.mem_append, or_and_right, exists_or]

theorem leads_item {heap : Heap κ T} {item t : T} : Leads heap [.item item] t ↔ t = item := by
  constructor
  · intro h
    cases h with
    | item h => exact (Member.item.inj (List.mem_singleton.mp h))
    | group h _ _ => exact nomatch List.mem_singleton.mp h
  · rintro rfl
    exact .item (List.mem_singleton_self _)

theorem leads_group {heap : Heap κ T} {id : ℕ} {t : T} :
    Leads heap [.group id] t ↔ ∃ cell, heap[id]? = some cell ∧ Leads heap cell.members t := by
  constructor
  · intro h
    cases h with
    | item h => exact nomatch List.mem_singleton.mp h
    | group h hcell ht =>
      obtain rfl := Member.group.inj (List.mem_singleton.mp h)
      exact ⟨_, hcell, ht⟩
  · exact fun ⟨cell, hcell, ht⟩ => .group (List.mem_singleton_self _) hcell ht

theorem not_leads_nil {heap : Heap κ T} {t : T} : ¬Leads heap [] t := by
  rw [leads_iff]
  rintro ⟨member, hmem, -⟩
  exact List.not_mem_nil hmem

/-- What members lead to only depends on the heap below them. -/
theorem leads_congr {heap heap' : Heap κ T} (hdesc : Descending heap) {n : ℕ}
    (hagree : ∀ i < n, heap'[i]? = heap[i]?) {members : List (Member T)}
    (hbelow : Below n members) {t : T} : Leads heap' members t ↔ Leads heap members t := by
  induction n using Nat.strong_induction_on generalizing members with
  | _ n ih =>
  rw [leads_iff, @leads_iff _ _ heap members]
  refine exists_congr fun member => and_congr_right fun hmem => ?_
  cases member with
  | item item => rw [leads_item, leads_item]
  | group id =>
    have hid := hbelow id hmem
    rw [leads_group, leads_group, hagree id hid]
    refine exists_congr fun cell => and_congr_right fun hcell => ?_
    exact ih id hid (fun i hi => hagree i (hi.trans hid)) (hdesc id cell hcell)

/-! ### Cycles -/

/-- The first group has the second one as a member. -/
def HasMember (heap : Heap κ T) (id member : ℕ) : Prop :=
  ∃ cell, heap[id]? = some cell ∧ .group member ∈ cell.members

/-- No group is a member of itself, a member of a member of itself, and so on. -/
def Acyclic (heap : Heap κ T) : Prop := ∀ id, ¬Relation.TransGen (HasMember heap) id id

theorem Descending.lt_of_hasMember {heap : Heap κ T} (h : Descending heap) {id member : ℕ}
    (hmember : HasMember heap id member) : member < id := by
  obtain ⟨cell, hcell, hmem⟩ := hmember
  exact h id cell hcell member hmem

/-- **References that point downwards make no cycle.** -/
theorem Descending.acyclic {heap : Heap κ T} (h : Descending heap) : Acyclic heap := by
  have hlt : ∀ id below, Relation.TransGen (HasMember heap) id below → below < id := by
    intro id below hpath
    induction hpath with
    | single hmember => exact h.lt_of_hasMember hmember
    | tail _ hmember ih => exact (h.lt_of_hasMember hmember).trans ih
  exact fun id hcycle => lt_irrefl id (hlt id id hcycle)

/-! ### Folds -/

section Fold

variable (empty : κ → β) (addItem : β → T → β) (addGroup : β → β → β)

/-- Adds one member; `sub` is the value of a group. -/
def foldMember (sub : Cell κ T → β) (heap : Heap κ T) (acc : β) : Member T → β
  | .item item => addItem acc item
  | .group id =>
    match heap[id]? with
    | some cell => addGroup acc (sub cell)
    | none => acc

/-- A value computed over the hierarchy below a group, down to the given depth. -/
def fold (heap : Heap κ T) : ℕ → Cell κ T → β
  | 0, cell => empty cell.name
  | depth + 1, cell =>
    cell.members.foldl (foldMember addItem addGroup (fold heap depth) heap) (empty cell.name)

variable {empty addItem addGroup}

/-- **A fold only depends on the heap below, and the depth does not matter.** -/
theorem fold_congr {heap heap' : Heap κ T} (hdesc : Descending heap) {n : ℕ}
    (hagree : ∀ i < n, heap'[i]? = heap[i]?) {depth depth' : ℕ} {cell : Cell κ T}
    (hbelow : Below n cell.members) (hdepth : n < depth) (hdepth' : n < depth') :
    fold empty addItem addGroup heap' depth' cell =
      fold empty addItem addGroup heap depth cell := by
  induction n using Nat.strong_induction_on generalizing depth depth' cell with
  | _ n ih =>
  obtain ⟨depth, rfl⟩ := Nat.exists_eq_succ_of_ne_zero (Nat.ne_zero_of_lt hdepth)
  obtain ⟨depth', rfl⟩ := Nat.exists_eq_succ_of_ne_zero (Nat.ne_zero_of_lt hdepth')
  rw [fold, fold]
  refine List.foldl_ext _ _ _ fun acc member hmem => ?_
  cases member with
  | item item => rfl
  | group id =>
    have hid := hbelow id hmem
    rw [foldMember, foldMember, hagree id hid]
    rcases hcell : heap[id]? with _ | cell'
    · rfl
    · have hsub := ih id hid (fun i hi => hagree i (hi.trans hid)) (hdesc id cell' hcell)
        (hid.trans_le (Nat.lt_succ_iff.mp hdepth)) (hid.trans_le (Nat.lt_succ_iff.mp hdepth'))
      exact congrArg (addGroup acc) hsub

/-- **A fold that collects from items collects from those the members lead to.**  A group only
refers to groups that were made before, so the induction is on the ids. -/
theorem fold_iff {γ : Type} {P : β → γ → Prop} {Q : T → γ → Prop}
    (hempty : ∀ name c, ¬P (empty name) c)
    (hitem : ∀ acc item c, P (addItem acc item) c ↔ P acc c ∨ Q item c)
    (hgroup : ∀ acc sub c, P (addGroup acc sub) c ↔ P acc c ∨ P sub c)
    {heap : Heap κ T} (hdesc : Descending heap) {n : ℕ} {depth : ℕ} {cell : Cell κ T}
    (hbelow : Below n cell.members) (hdepth : n < depth) {c : γ} :
    P (fold empty addItem addGroup heap depth cell) c ↔
      ∃ t, Leads heap cell.members t ∧ Q t c := by
  induction n using Nat.strong_induction_on generalizing depth cell with
  | _ n ih =>
  obtain ⟨depth, rfl⟩ := Nat.exists_eq_succ_of_ne_zero (Nat.ne_zero_of_lt hdepth)
  -- a member that is a group was made before, so the depth is enough for it
  have hmember : ∀ member ∈ cell.members, ∀ acc,
      P (foldMember addItem addGroup (fold empty addItem addGroup heap depth) heap acc member) c ↔
        P acc c ∨ ∃ t, Leads heap [member] t ∧ Q t c := by
    intro member hmem acc
    cases member with
    | item item => simp only [foldMember, hitem, leads_item, exists_eq_left]
    | group id =>
      have hid := hbelow id hmem
      simp only [foldMember, leads_group]
      rcases hcell : heap[id]? with _ | cell'
      · simp
      · have hsub := ih id hid (hdesc id cell' hcell) (hid.trans_le (Nat.lt_succ_iff.mp hdepth))
        simp only [hgroup, hsub, Option.some.injEq, exists_eq_left']
  have hfold : ∀ (l : List (Member T)), (∀ member ∈ l, member ∈ cell.members) → ∀ acc,
      P (l.foldl (foldMember addItem addGroup (fold empty addItem addGroup heap depth) heap) acc)
        c ↔ P acc c ∨ ∃ t, Leads heap l t ∧ Q t c := by
    intro l
    induction l with
    | nil =>
      intro _ acc
      exact (or_iff_left fun ⟨_, h, _⟩ => not_leads_nil h).symm
    | cons member l ihl =>
      intro hsub acc
      have hsplit : ∀ t, Leads heap (member :: l) t ↔ Leads heap [member] t ∨ Leads heap l t :=
        fun t => leads_append (l := [member])
      rw [List.foldl_cons, ihl (fun m hm => hsub m (List.mem_cons_of_mem _ hm)),
        hmember member (hsub member List.mem_cons_self), or_assoc]
      simp only [hsplit, or_and_right, exists_or]
  rw [fold, hfold _ (fun _ h => h)]
  exact or_iff_right (hempty cell.name c)

section Runs

variable (empty addItem addGroup)

/-- A recursive operation over members, as it runs: it goes through the members in order, and
computes the value of a group from the members of the group before it goes on. -/
inductive Runs (heap : Heap κ T) : List (Member T) → β → β → Prop
  | done {acc : β} : Runs heap [] acc acc
  | item {item : T} {members : List (Member T)} {acc result : β}
      (hrest : Runs heap members (addItem acc item) result) :
      Runs heap (.item item :: members) acc result
  | group {id : ℕ} {cell : Cell κ T} {members : List (Member T)} {acc value result : β}
      (hcell : heap[id]? = some cell) (hvalue : Runs heap cell.members (empty cell.name) value)
      (hrest : Runs heap members (addGroup acc value) result) :
      Runs heap (.group id :: members) acc result

end Runs

/-- **A recursive operation ends, with the value of the fold**, when all groups exist.  The ids
go down along the recursion, and the depth with them. -/
theorem runs_fold {heap : Heap κ T} (hdesc : Descending heap) {n depth : ℕ} (cell : Cell κ T)
    (hbelow : Below n cell.members) (hexists : n ≤ heap.length) (hdepth : n < depth) :
    Runs empty addItem addGroup heap cell.members (empty cell.name)
      (fold empty addItem addGroup heap depth cell) := by
  induction n using Nat.strong_induction_on generalizing depth cell with
  | _ n ih =>
  obtain ⟨depth, rfl⟩ := Nat.exists_eq_succ_of_ne_zero (Nat.ne_zero_of_lt hdepth)
  -- the depth goes down with the ids, so it never runs out
  have hmembers : ∀ (l : List (Member T)), Below n l → ∀ acc,
      Runs empty addItem addGroup heap l acc
        (l.foldl (foldMember addItem addGroup (fold empty addItem addGroup heap depth) heap)
          acc) := by
    intro l
    induction l with
    | nil => exact fun _ _ => .done
    | cons member l ihl =>
      intro hl acc
      obtain ⟨hmember, hrest⟩ := (below_append (l := [member])).mp hl
      cases member with
      | item item => exact .item (ihl hrest _)
      | group id =>
        have hid := below_group.mp hmember
        obtain ⟨sub, hcell⟩ : ∃ sub, heap[id]? = some sub :=
          ⟨_, List.getElem?_eq_getElem (hid.trans_le hexists)⟩
        have hvalue := ih id hid sub (hdesc id sub hcell) (hid.le.trans hexists)
          (hid.trans_le (Nat.lt_succ_iff.mp hdepth))
        rw [List.foldl_cons, foldMember, hcell]
        exact .group hcell hvalue (ihl hrest _)
  rw [fold]
  exact hmembers cell.members hbelow (empty cell.name)

/-- A recursive operation has one result. -/
theorem Runs.unique {heap : Heap κ T} {members : List (Member T)} {acc result result' : β}
    (h : Runs empty addItem addGroup heap members acc result)
    (h' : Runs empty addItem addGroup heap members acc result') : result = result' := by
  induction h generalizing result' with
  | done =>
    cases h'
    rfl
  | item _ ih =>
    cases h' with
    | item hrest' => exact ih hrest'
  | group hcell _ _ ihvalue ih =>
    cases h' with
    | group hcell' hvalue' hrest' =>
      obtain rfl := Option.some.inj (hcell.symm.trans hcell')
      obtain rfl := ihvalue hvalue'
      exact ih hrest'

end Fold

/-- Every recursive operation over the members ends, with one result. -/
def Terminates (heap : Heap κ T) (name : κ) (members : List (Member T)) : Prop :=
  ∀ (β : Type) (empty : κ → β) (addItem : β → T → β) (addGroup : β → β → β),
    ∃! result, Runs empty addItem addGroup heap members (empty name) result

/-- **Recursive operations end** when references point downwards to groups that exist. -/
theorem Descending.terminates {heap : Heap κ T} (h : Descending heap) (name : κ)
    {members : List (Member T)} (hbelow : Below heap.length members) :
    Terminates heap name members := by
  intro β empty addItem addGroup
  have hruns : Runs empty addItem addGroup heap members (empty name) _ :=
    runs_fold h ⟨name, members⟩ hbelow le_rfl (Nat.lt_succ_self _)
  exact ⟨_, hruns, fun result hresult => hresult.unique hruns⟩

end RulesAnalyzer.Shared
