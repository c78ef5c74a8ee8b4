import RulesAnalyzer.CheckCommands
import Mathlib.Data.List.Basic

/-!
# The zone summary

The check commands show how many of the selected rules apply between the zones of the
access list.  The columns are headed by all zones in the order in which the rules list
them; they are filled from the destination zones in alphabetical order.

## Main definitions

* `uniqueByName` — a list in which no name is repeated.
* `RuleList.allZones`, `RuleList.allSrcZones`, `RuleList.allDstZones` — the zones of the rules.
* `zoneSummary` — the table.
* `ZonesTable.Right` — each cell has the number of rules between the zones of its row and column.

## Main results

* `RuleList.length_allDstZones_le` — no cell is outside the table.
* `zoneSummary_right_iff` — **when the table is right**: when each column has the counts of its
  header.
-/

namespace RulesAnalyzer

open Diagram Mnode RuleList

/-! ### Lists of named nodes -/

section NamedLists

variable {α : Type} (name : α → String)

/-- Appends a node unless its name is in the list. -/
def pushByName (nodes : List α) (node : α) : List α :=
  if name node ∈ nodes.map name then nodes else nodes ++ [node]

/-- The list that the nodes are appended to. -/
def uniqueByName (nodes : List α) : List α := nodes.foldl (pushByName name) []

variable {name}

theorem names_pushByName {nodes : List α} {node : α} {n : String} :
    n ∈ (pushByName name nodes node).map name ↔ n ∈ nodes.map name ∨ n = name node := by
  unfold pushByName
  split
  · next hmem =>
    refine ⟨.inl, fun h => h.elim id ?_⟩
    rintro rfl
    exact hmem
  · rw [List.map_append, List.mem_append, List.map_singleton, List.mem_singleton]

theorem nodup_pushByName {nodes : List α} (h : (nodes.map name).Nodup) (node : α) :
    ((pushByName name nodes node).map name).Nodup := by
  unfold pushByName
  split
  · exact h
  · next hmem =>
    rw [List.map_append, List.map_singleton]
    refine List.nodup_append.mpr ⟨h, List.nodup_singleton _, fun n hn n' hn' => ?_⟩
    rw [List.mem_singleton.mp hn']
    rintro rfl
    exact hmem hn

theorem names_foldl_pushByName {nodes acc : List α} {n : String} :
    n ∈ (nodes.foldl (pushByName name) acc).map name ↔
      n ∈ acc.map name ∨ n ∈ nodes.map name := by
  induction nodes generalizing acc with
  | nil => simp
  | cons node nodes ih =>
    rw [List.foldl_cons, ih, names_pushByName, List.map_cons, List.mem_cons, or_assoc]

/-- The list has the names of all nodes. -/
theorem names_uniqueByName {nodes : List α} {n : String} :
    n ∈ (uniqueByName name nodes).map name ↔ n ∈ nodes.map name := by
  unfold uniqueByName
  rw [names_foldl_pushByName, List.map_nil]
  exact or_iff_right List.not_mem_nil

/-- The list has each name once. -/
theorem nodup_uniqueByName (nodes : List α) : ((uniqueByName name nodes).map name).Nodup := by
  have hfold : ∀ acc : List α, (acc.map name).Nodup →
      ((nodes.foldl (pushByName name) acc).map name).Nodup := by
    induction nodes with
    | nil => exact fun acc h => h
    | cons node nodes ih => exact fun acc h => ih _ (nodup_pushByName h node)
  exact hfold [] List.nodup_nil

end NamedLists

/-! ### The zones of the rules -/

/-- The items that the traversal of a group visits, and whether they belong to a group of one of
the classes that override `make_bdd`. -/
def Group.visited {T : Type} [Mnode T] : Group T → List (T × Bool)
  | .empty _ => []
  | .addItem group item => group.visited ++ [(item, false)]
  | .addGroup group member => group.visited ++ member.visited
  | .any _ items _ => items.map fun item => (item, true)

/-- The zones of a group without the any zone of the network.  The any zone that belongs to a group
is another object.  An object that is visited again has a name that is listed already. -/
def listedZones {side : Side} (group : Group (Zone side)) : List (Zone side) :=
  (group.visited.filter fun visited => visited.2 || visited.1 != Zone.any).map Prod.fst

/-- `strcasecmp` does not put the second name before the first one. -/
def compareName (name other : String) : Bool :=
  decide (¬other.toList.map Char.toLower < name.toList.map Char.toLower)

namespace RuleList

/-- The source zones, in the order of the rules. -/
def allSrcZones (acl : RuleList) : List SrcZone :=
  uniqueByName Zone.name (acl.flatMap fun rule => listedZones rule.predicate.srcZones)

/-- The destination zones, sorted by their names. -/
def allDstZones (acl : RuleList) : List DstZone :=
  (uniqueByName Zone.name (acl.flatMap fun rule =>
    listedZones rule.predicate.dstZones)).mergeSort fun zone other =>
      compareName zone.name other.name

/-- The names of all zones, in the order of the rules. -/
def allZones (acl : RuleList) : List String :=
  uniqueByName id (acl.flatMap fun rule =>
    (listedZones rule.predicate.srcZones).map Zone.name ++
      (listedZones rule.predicate.dstZones).map Zone.name)

/-- The number of allow rules for a pair of zones. -/
def allowedCount (filteredRules : RuleList) (srcZone : SrcZone) (dstZone : DstZone) : ℕ :=
  (filteredRules.filterZones ⟨srcZone, dstZone⟩).countP fun rule => rule.action == .allow

end RuleList

/-! ### The table -/

/-- A table with a row for each source zone, and a column for each zone. -/
structure ZonesTable where
  headers : List String
  rows : List (String × List (Option ℕ))
  deriving DecidableEq

/-- A cell stays empty when there is nothing to count. -/
def countCell (count : ℕ) : Option ℕ := if count > 0 then some count else none

/-- The cells of a row: the first ones are filled in turn. -/
def fillRow (columns : ℕ) (cells : List (Option ℕ)) : List (Option ℕ) :=
  cells ++ List.replicate (columns - cells.length) none

/-- `create_zone_summary`. -/
def zoneSummary (acl filteredRules : RuleList) : ZonesTable where
  headers := acl.allZones
  rows := acl.allSrcZones.map fun srcZone => (srcZone.name,
    fillRow acl.allZones.length (acl.allDstZones.map fun dstZone =>
      countCell (filteredRules.allowedCount srcZone dstZone)))

/-! ### The names of the table -/

namespace RuleList

variable (acl : RuleList)

theorem nodup_allDstZones : (acl.allDstZones.map Zone.name).Nodup :=
  ((List.mergeSort_perm _ _).map Zone.name).nodup_iff.mpr (nodup_uniqueByName _)

/-- The headers are the names of the source zones and of the destination zones. -/
theorem mem_allZones {name : String} : name ∈ acl.allZones ↔
    name ∈ acl.allSrcZones.map Zone.name ∨ name ∈ acl.allDstZones.map Zone.name := by
  have hnames := @names_uniqueByName String id (acl.flatMap fun rule =>
    (listedZones rule.predicate.srcZones).map Zone.name ++
      (listedZones rule.predicate.dstZones).map Zone.name) name
  rw [List.map_id, List.map_id] at hnames
  have hdst : name ∈ acl.allDstZones.map Zone.name ↔ name ∈ (acl.flatMap fun rule =>
      listedZones rule.predicate.dstZones).map Zone.name :=
    ((List.mergeSort_perm _ _).map Zone.name).mem_iff.trans names_uniqueByName
  refine hnames.trans ?_
  rw [hdst, allSrcZones, names_uniqueByName, List.map_flatMap, List.map_flatMap]
  simp only [List.mem_flatMap, List.mem_append, and_or_left, exists_or]

/-- **No cell is outside the table**: there are not more destination zones than columns. -/
theorem length_allDstZones_le : acl.allDstZones.length ≤ acl.allZones.length := by
  have hsubset : acl.allDstZones.map Zone.name ⊆ acl.allZones := fun name hname =>
    acl.mem_allZones.mpr (.inr hname)
  have hle := (List.subperm_of_subset acl.nodup_allDstZones hsubset).length_le
  rwa [List.length_map] at hle

/-- The source zone of a name.  A zone that is only a destination is the same zone as a source. -/
def srcZoneOf (name : String) : Option SrcZone :=
  match acl.allSrcZones.find? fun zone => zone.name == name with
  | some zone => some zone
  | none => (acl.allDstZones.find? fun zone => zone.name == name).map (Zone.recast name)

/-- The destination zone of a name. -/
def dstZoneOf (name : String) : Option DstZone :=
  match acl.allDstZones.find? fun zone => zone.name == name with
  | some zone => some zone
  | none => (acl.allSrcZones.find? fun zone => zone.name == name).map (Zone.recast name)

/-- The number of allow rules from a zone to a zone. -/
def countBetween (filteredRules : RuleList) (srcName dstName : String) : ℕ :=
  match acl.srcZoneOf srcName, acl.dstZoneOf dstName with
  | some srcZone, some dstZone => filteredRules.allowedCount srcZone dstZone
  | _, _ => 0

/-- The number of allow rules that a row has in a column. -/
def columnCount (filteredRules : RuleList) (srcZone : SrcZone) (col : ℕ) : ℕ :=
  match acl.allDstZones[col]? with
  | some dstZone => filteredRules.allowedCount srcZone dstZone
  | none => 0

end RuleList

/-! ### Which tables are right -/

theorem countCell_inj {count count' : ℕ} : countCell count = countCell count' ↔ count = count' := by
  unfold countCell
  split <;> split <;> simp only [Option.some.injEq, reduceCtorEq, false_iff, true_iff] <;> omega

theorem countCell_of_ne {count : ℕ} (h : count ≠ 0) : countCell count = some count :=
  if_pos (Nat.pos_of_ne_zero h)

/-- The cells of the row of a source zone. -/
theorem getElem?_fillRow {acl filteredRules : RuleList} {srcZone : SrcZone} {col : ℕ}
    (hcol : col < acl.allZones.length) :
    (fillRow acl.allZones.length (acl.allDstZones.map fun dstZone =>
      countCell (filteredRules.allowedCount srcZone dstZone)))[col]? =
        some (countCell (acl.columnCount filteredRules srcZone col)) := by
  unfold fillRow columnCount
  rcases Nat.lt_or_ge col acl.allDstZones.length with hlt | hge
  · rw [List.getElem?_append_left (by rwa [List.length_map]), List.getElem?_map,
      List.getElem?_eq_getElem hlt]
    rfl
  · rw [List.getElem?_append_right (by rwa [List.length_map]), List.length_map,
      List.getElem?_replicate, if_pos (by omega), List.getElem?_eq_none hge]
    rfl

/-- Each cell has the number of rules from the zone of its row to the zone of its column, and each
number that is not zero has its cell. -/
structure ZonesTable.Right (acl filteredRules : RuleList) (table : ZonesTable) : Prop where
  cells : ∀ row ∈ table.rows, ∀ (col : ℕ) (name : String), table.headers[col]? = some name →
    row.2[col]? = some (countCell (acl.countBetween filteredRules row.1 name))
  complete : ∀ srcName ∈ table.headers, ∀ dstName ∈ table.headers,
    acl.countBetween filteredRules srcName dstName ≠ 0 →
    ∃ row ∈ table.rows, row.1 = srcName ∧ ∃ col : ℕ, table.headers[col]? = some dstName ∧
      row.2[col]? = some (some (acl.countBetween filteredRules srcName dstName))

/-- Each column is filled from a zone with the counts of the zone of its header, and no rule applies
from a zone that is only a destination. -/
structure ColumnsFit (acl filteredRules : RuleList) : Prop where
  columns : ∀ (col : ℕ) (name : String), acl.allZones[col]? = some name →
    ∀ srcZone ∈ acl.allSrcZones, acl.columnCount filteredRules srcZone col =
      acl.countBetween filteredRules srcZone.name name
  dstOnly : ∀ srcName ∈ acl.allZones, srcName ∉ acl.allSrcZones.map Zone.name →
    ∀ dstName ∈ acl.allZones, acl.countBetween filteredRules srcName dstName = 0

/-- A column is right just when it has the counts of its header. -/
theorem cells_iff (acl filteredRules : RuleList) :
    (∀ row ∈ (zoneSummary acl filteredRules).rows, ∀ (col : ℕ) (name : String),
      acl.allZones[col]? = some name →
      row.2[col]? = some (countCell (acl.countBetween filteredRules row.1 name))) ↔
    ∀ (col : ℕ) (name : String), acl.allZones[col]? = some name → ∀ srcZone ∈ acl.allSrcZones,
      acl.columnCount filteredRules srcZone col =
        acl.countBetween filteredRules srcZone.name name := by
  have hcell : ∀ (srcZone : SrcZone) (col : ℕ) (name : String), acl.allZones[col]? = some name →
      ((fillRow acl.allZones.length (acl.allDstZones.map fun dstZone =>
        countCell (filteredRules.allowedCount srcZone dstZone)))[col]? =
          some (countCell (acl.countBetween filteredRules srcZone.name name)) ↔
        acl.columnCount filteredRules srcZone col =
          acl.countBetween filteredRules srcZone.name name) := by
    intro srcZone col name hname
    rw [getElem?_fillRow (List.getElem?_eq_some_iff.mp hname).1, Option.some.injEq, countCell_inj]
  constructor
  · intro h col name hname srcZone hsrc
    exact (hcell srcZone col name hname).mp (h _ (List.mem_map_of_mem hsrc) col name hname)
  · intro h row hrow col name hname
    obtain ⟨srcZone, hsrc, rfl⟩ := List.mem_map.mp hrow
    exact (hcell srcZone col name hname).mpr (h col name hname srcZone hsrc)

/-- The table is right just when each column has the counts of its header, and no rule applies from
a zone that is only a destination. -/
theorem zoneSummary_right_iff (acl filteredRules : RuleList) :
    (zoneSummary acl filteredRules).Right acl filteredRules ↔ ColumnsFit acl filteredRules := by
  constructor
  · intro h
    refine ⟨(cells_iff acl filteredRules).mp h.cells, ?_⟩
    intro srcName hsrc hnot dstName hdst
    by_contra hcount
    obtain ⟨row, hrow, hname, -⟩ := h.complete srcName hsrc dstName hdst hcount
    obtain ⟨srcZone, hzone, rfl⟩ := List.mem_map.mp hrow
    exact hnot (List.mem_map.mpr ⟨srcZone, hzone, hname⟩)
  · intro h
    have hcells := (cells_iff acl filteredRules).mpr h.columns
    refine ⟨hcells, fun srcName hsrc dstName hdst hcount => ?_⟩
    have hrow : srcName ∈ acl.allSrcZones.map Zone.name := by
      by_contra hnot
      exact hcount (h.dstOnly srcName hsrc hnot dstName hdst)
    obtain ⟨srcZone, hzone, rfl⟩ := List.mem_map.mp hrow
    obtain ⟨col, hcol⟩ := List.mem_iff_getElem?.mp hdst
    refine ⟨_, List.mem_map_of_mem hzone, rfl, col, hcol, ?_⟩
    rw [hcells _ (List.mem_map_of_mem hzone) col dstName hcol, countCell_of_ne hcount]

theorem lt_zones (id : Fin 256) : id.val < 2 ^ 8 := id.isLt

/-- A single zone. -/
def singleZone (side : Side) (name : String) (id : Fin 256) : Zone side :=
  ⟨name, Range.singleton id.val (lt_zones id)⟩

/-- A rule from a zone to a zone. -/
def Rule.ofZones (srcZone : SrcZone) (dstZone : DstZone) : Rule :=
  ⟨1, "", .enabled, .allow, .ofCriteria {
    Criteria.any .ip4Model with
    sources := ⟨(Group.empty "$root").addItem srcZone, srcAnyAddressGroup .ip4Model, false⟩
    destinations := ⟨(Group.empty "$root").addItem dstZone, dstAnyAddressGroup .ip4Model, false⟩ }⟩

/-- A single zone is contained in the group of a single zone just when it is that zone. -/
theorem isSubset_singleZone {side : Side} {name name' : String} {id id' : Fin 256} :
    isSubset (singleZone side name id) ((Group.empty "$root").addItem (singleZone side name' id')) =
      decide (id = id') := by
  have hmem : ∀ pk : Packet,
      pk ∈ packets ((Group.empty "$root").addItem (singleZone side name' id')) ↔
        pk.value side.zone = id'.val := by
    intro pk
    refine Group.mem_makeBdd_iff_parse.trans ?_
    simp only [Group.parse, List.nil_append, List.mem_singleton, exists_eq_left]
    exact mem_makeBdd_zone.trans Range.mem_singleton
  have hmem' : ∀ pk : Packet, pk ∈ packets (singleZone side name id) ↔
      pk.value side.zone = id.val := fun pk => mem_makeBdd_zone.trans Range.mem_singleton
  rw [Bool.eq_iff_iff, isSubset_iff, decide_eq_true_eq]
  constructor
  · intro h
    have hlt : id.val < 2 ^ side.zone.nbits := side.nbits_zone ▸ id.isLt
    have hpk : (Packet.ofValues fun _ => id.val).value side.zone = id.val :=
      Packet.value_ofValues hlt
    exact Fin.ext (hpk.symm.trans ((hmem _).mp (h ((hmem' _).mpr hpk))))
  · rintro rfl pk hpk
    exact (hmem pk).mpr ((hmem' pk).mp hpk)

/-- The rule from the zone `lan` to the zone `wan`. -/
def lanToWan : RuleList := [Rule.ofZones (singleZone .src "lan" 1) (singleZone .dst "wan" 2)]

theorem allowedCount_lanToWan (dstName : String) (id : Fin 256) :
    lanToWan.allowedCount (singleZone .src "lan" 1) (singleZone .dst dstName id) =
      if id = 2 then 1 else 0 := by
  have hfilter : lanToWan.filterZones ⟨singleZone .src "lan" 1, singleZone .dst dstName id⟩ =
      if id = 2 then lanToWan else [] := by
    unfold filterZones
    have htest : ∀ rule ∈ lanToWan,
        (isSubset (singleZone .src "lan" 1) rule.predicate.srcZones &&
          isSubset (singleZone .dst dstName id) rule.predicate.dstZones) = decide (id = 2) := by
      intro rule hrule
      obtain rfl := List.mem_singleton.mp hrule
      exact (congrArg₂ and isSubset_singleZone isSubset_singleZone).trans (Bool.true_and _)
    rw [List.filter_congr htest]
    split <;> simp_all
  rw [allowedCount, hfilter]
  split <;> rfl

/-- The rule to the zone `wan` is counted under the header `lan`. -/
theorem zoneSummary_lanToWan : ¬(zoneSummary lanToWan lanToWan).Right lanToWan lanToWan := by
  intro h
  have hdst : lanToWan.allDstZones = [singleZone .dst "wan" 2] := List.mergeSort_singleton _
  have hcount := (cells_iff lanToWan lanToWan).mp h.cells 0 "lan" rfl (singleZone .src "lan" 1)
    (List.mem_singleton_self _)
  have hfirst : lanToWan.columnCount lanToWan (singleZone .src "lan" 1) 0 = 1 := by
    unfold columnCount
    rw [hdst]
    exact allowedCount_lanToWan "wan" 2
  have hheader : lanToWan.countBetween lanToWan "lan" "lan" = 0 := by
    unfold countBetween dstZoneOf
    rw [hdst]
    exact allowedCount_lanToWan "lan" 1
  rw [hfirst] at hcount
  exact absurd (hcount.trans hheader) (by decide)

end RulesAnalyzer
