import RulesAnalyzer.Buddy.Kernel

/-!
# The operators of the diagram package

The recursions behind `bdd_apply` and `bdd_not`.  Both keep intermediate results on
the reference stack, where a garbage collection inside `bdd_makenode` finds them,
and look into one cache, in which an entry that is overwritten is lost.  An entry
of a negation leaves the field of the right operand as it was.

## Main definitions

* `oprres`, `applyShortcut` — results on constants, and results without a recursion.
* `applyRec`, `notRec` — the recursions.
* `bddApply`, `bddNot` — the operators.
-/

namespace RulesAnalyzer.Buddy

open Effect

/-- The number of an operator. -/
def BddOp.code : BddOp → ℕ
  | .and => 0
  | .xor => 1
  | .or => 2
  | .nand => 3
  | .nor => 4
  | .imp => 5
  | .biimp => 6
  | .diff => 7
  | .less => 8
  | .invimp => 9
  | .not => 10

/-- The results on constants; the index is `left << 1 | right`. -/
def oprres : BddOp → List ℕ
  | .and => [0, 0, 0, 1]
  | .xor => [0, 1, 1, 0]
  | .or => [0, 1, 1, 1]
  | .nand => [1, 1, 1, 0]
  | .nor => [1, 0, 0, 0]
  | .imp => [1, 1, 0, 1]
  | .biimp => [1, 0, 0, 1]
  | .diff => [0, 0, 1, 0]
  | .less => [0, 1, 0, 0]
  | .invimp => [1, 0, 1, 1]
  | .not => [1, 1, 0, 0]

/-- The results that are known without a recursion. -/
def applyShortcut : BddOp → ℕ → ℕ → Option ℕ
  | .and, l, r =>
    if l = r then some l
    else if l = 0 ∨ r = 0 then some 0
    else if l = 1 then some r
    else if r = 1 then some l
    else none
  | .or, l, r =>
    if l = r then some l
    else if l = 1 ∨ r = 1 then some 1
    else if l = 0 then some r
    else if r = 0 then some l
    else none
  | .xor, l, r =>
    if l = r then some 0 else if l = 0 then some r else if r = 0 then some l else none
  | .nand, l, r => if l = 0 ∨ r = 0 then some 1 else none
  | .nor, l, r => if l = 1 ∨ r = 1 then some 0 else none
  | .imp, l, r => if l = 0 then some 1 else if l = 1 then some r else if r = 1 then some 1 else none
  | _, _, _ => none

/-! ### Nodes and cache entries -/

namespace Kernel

/-- The level of a node: the variable that it decides on. -/
def level (k : Kernel) (n : ℕ) : ℕ := (k.nodes n).level

/-- The branch of a node for a variable that is false. -/
def low (k : Kernel) (n : ℕ) : ℕ := (k.nodes n).low.getD 0

/-- The branch of a node for a variable that is true. -/
def high (k : Kernel) (n : ℕ) : ℕ := (k.nodes n).high

/-- The cache after a change of one entry. -/
def modifyEntry (k : Kernel) (slot : ℕ) (f : BddCacheData → BddCacheData) : Kernel :=
  { k with applycache := Function.update k.applycache slot (f (k.applycache slot)) }

end Kernel

/-- The entry of the cache for an operation on two nodes. -/
def applyhash (l r : ℕ) (op : BddOp) : ℕ := (triple (.ofNat l) (.ofNat r) (.ofNat op.code)).toNat

/-! ### The recursions -/

/-- Two calls, whose results are on the stack for as long as the node over them is made. -/
def makeBranches (env : Environment) (level : Kernel → ℕ) (lo hi : Kernel → KernelM Kernel ℕ) :
    KernelM Kernel ℕ := do
  let k ← get
  pushref (← lo k)
  let k ← get
  pushref (← hi k)
  let k ← get
  let res ← bddMakenode env (level k) (← readref 2) (← readref 1)
  popref 2
  return res

/-- The recursion of `bdd_apply`, of a depth at most `depth`. -/
def applyRec (env : Environment) (applyop : BddOp) : ℕ → ℕ → ℕ → KernelM Kernel ℕ
  | 0, _, _ => throw .depth
  | depth + 1, l, r =>
    match applyShortcut applyop l r with
    | some res => pure res
    | none =>
      if l < 2 ∧ r < 2 then pure ((oprres applyop).getD (l <<< 1 ||| r) 0)
      else do
        let k ← get
        let slot := applyhash l r applyop % k.tablesize
        let entry := k.applycache slot
        if entry.a = some l ∧ entry.b = r ∧ entry.c = applyop then return entry.res
        else
          let res ← (
            if k.level l = k.level r then
              makeBranches env (·.level l) (fun k => applyRec env applyop depth (k.low l) (k.low r))
                fun k => applyRec env applyop depth (k.high l) (k.high r)
            else if k.level l < k.level r then
              makeBranches env (·.level l) (fun k => applyRec env applyop depth (k.low l) r)
                fun k => applyRec env applyop depth (k.high l) r
            else
              makeBranches env (·.level r) (fun k => applyRec env applyop depth l (k.low r))
                fun k => applyRec env applyop depth l (k.high r))
          modify (·.modifyEntry slot fun _ => ⟨some l, r, applyop, res⟩)
          return res

/-- The recursion of `bdd_not`. -/
def notRec (env : Environment) : ℕ → ℕ → KernelM Kernel ℕ
  | 0, _ => throw .depth
  | depth + 1, r =>
    if r = 0 then pure 1
    else if r = 1 then pure 0
    else do
      let k ← get
      let slot := r % k.tablesize
      let entry := k.applycache slot
      if entry.a = some r ∧ entry.c = .not then return entry.res
      else
        let res ← makeBranches env (·.level r) (fun k => notRec env depth (k.low r))
          fun k => notRec env depth (k.high r)
        modify (·.modifyEntry slot fun entry => { entry with a := some r, c := .not, res := res })
        return res

/-! ### The operators -/

/-- The check of an argument. -/
def check (r : ℕ) : KernelM Kernel PUnit := do
  let k ← get
  if k.running = false then throw .running
  else if k.nodesize ≤ r then throw .illbdd
  else if 2 ≤ r ∧ (k.nodes r).low = none then throw .illbdd
  else pure ⟨⟩

/-- The negation of a diagram.  The stack of intermediate results is emptied first. -/
def bddNot (env : Environment) (r : ℕ) : KernelM Kernel ℕ := do
  check r
  initref
  notRec env recursionDepth r

/-- A binary operation on two diagrams.  Only the numbers of the binary operators are
accepted; the negation has one as well, for its entries in the cache. -/
def bddApply (env : Environment) (l r : ℕ) (op : BddOp) : KernelM Kernel ℕ := do
  check l
  check r
  if op = .not then throw .op
  else
    initref
    applyRec env op recursionDepth l r

end RulesAnalyzer.Buddy
