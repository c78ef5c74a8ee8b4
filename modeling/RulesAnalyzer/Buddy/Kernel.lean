import RulesAnalyzer.Effect.Weakest
import Mathlib.Data.Nat.Prime.Defs
import Mathlib.Logic.Function.Basic

/-!
# The kernel of the diagram package

All nodes of all diagrams are in one table.  A node is its index: the constants are
the nodes `0` and `1`, and `bdd_makenode` finds the node with a level and two
children before it builds one, so that equal diagrams have the same index.  The
same table holds, in two of its fields, the chains of a hash table over the nodes
(`hash` is the head of the chain of a bucket, `next` the link) and the list of the
free nodes.  Diagrams that are in use have a reference count or are on a stack; a
garbage collection marks what these reach and frees the rest.

The default error handler ends the process, so an error is an exception.  The
package does not check that its stack is large enough; the model raises `overflow`
where it would write behind its end.

## Main definitions

* `BddNode`, `Kernel` — nodes, and the variables of the kernel.
* `Environment` — the search for prime numbers and the allocator.
* `bddInit`, `bddSetvarnum`, `bddIthvar` — initialisation and variables.
* `bddAddref`, `bddDelref` — reference counts.
* `bddMark`, `bddGbc` — garbage collection.
* `bddNoderesize`, `bddMakenode` — the unique table.
-/

namespace RulesAnalyzer.Buddy

open Effect

/-- The error codes of the package that are used here, and two that only the model has. -/
inductive BddError
  | memory
  | var
  | range
  | running
  | userBreak
  | op
  | decvnum
  | nodenum
  | illbdd
  | bvecSize
  /-- A write behind the end of the reference stack, which the package does not notice. -/
  | overflow
  /-- A recursion below the depth that the model follows. -/
  | depth
  deriving DecidableEq, Repr

/-- Programs of the package. -/
abbrev KernelM (σ : Type) := Program σ BddError

/-! ### Nodes -/

/-- The largest number of variables: a level has 21 bits, beside the mark. -/
def maxvar : ℕ := 0x1FFFFF

/-- The largest reference count, of 10 bits.  A node that reaches it is never freed. -/
def maxref : ℕ := 0x3FF

/-- The bit of the level that marks a node. -/
def markon : ℕ := 0x200000

/-- The bits of a level that are not the mark. -/
def markoff : ℕ := 0x1FFFFF

/-- An entry of the node table; `low` is `-1` in a free node. -/
structure BddNode where
  refcou : ℕ
  level : ℕ
  low : Option ℕ
  high : ℕ
  /-- The head of the chain of the bucket with the index of this entry. -/
  hash : ℕ
  /-- The next node of the chain or of the free list; `0` at the end. -/
  next : ℕ
  deriving DecidableEq, Repr

namespace BddNode

/-- Sets the mark of the collector. -/
def setMark (node : BddNode) : BddNode := { node with level := node.level ||| markon }

/-- Clears the mark of the collector. -/
def unmark (node : BddNode) : BddNode := { node with level := node.level &&& markoff }

/-- Whether the collector has reached a node. -/
def marked (node : BddNode) : Bool := node.level &&& markon != 0

/-- Counts a reference; a counter that is full stays full. -/
def incref (node : BddNode) : BddNode :=
  if node.refcou < maxref then { node with refcou := node.refcou + 1 } else node

/-- Removes a reference, unless the counter is full. -/
def decref (node : BddNode) : BddNode :=
  if node.refcou ≠ maxref ∧ node.refcou > 0 then { node with refcou := node.refcou - 1 } else node

end BddNode

/-- The Cantor pairing function in 32 bits. -/
def pair (a b : UInt32) : UInt32 := (a + b) * (a + b + 1) / 2 + a

/-- Mixes three numbers, the third with the pair of the others. -/
def triple (a b c : UInt32) : UInt32 := pair c (pair a b)

/-- The bucket of a node. -/
def nodehash (nodesize level low high : ℕ) : ℕ :=
  (triple (.ofNat level) (.ofNat low) (.ofNat high)).toNat % nodesize

/-! ### The state -/

/-- The binary operators, and negation. -/
inductive BddOp
  | and | xor | or | nand | nor | imp | biimp | diff | less | invimp | not
  deriving DecidableEq, Repr

/-- An entry of an operator cache; `a` is `-1` in an empty entry. -/
structure BddCacheData where
  a : Option ℕ
  b : ℕ
  c : BddOp
  res : ℕ
  deriving DecidableEq, Repr

/-- The variables of the package. -/
structure Kernel where
  running : Bool
  nodesize : ℕ
  /-- The largest table; `0` for no limit. -/
  maxnodesize : ℕ
  maxnodeincrease : ℕ
  nodes : ℕ → BddNode
  freepos : ℕ
  freenum : ℕ
  varnum : ℕ
  /-- The nodes of the variables and of their negations, in turn. -/
  varset : ℕ → ℕ
  /-- The reference stack, the top first. -/
  refstack : List ℕ
  refstacksize : ℕ
  applycache : ℕ → BddCacheData
  tablesize : ℕ

/-- What the kernel is given: the search for a prime number near a number, and whether the
allocator has room for a table. -/
structure Environment where
  primeGte : ℕ → ℕ
  primeLte : ℕ → ℕ
  malloc : ℕ → Bool
  prime_primeGte : ∀ n, 2 ≤ n → (primeGte n).Prime
  three_le_primeGte : ∀ n, 2 ≤ n → 3 ≤ primeGte n
  prime_primeLte : ∀ n, 3 ≤ n → (primeLte n).Prime
  le_primeLte : ∀ n p, 3 ≤ p → p.Prime → p ≤ n → p ≤ primeLte n
  primeLte_le : ∀ n, 3 ≤ n → primeLte n ≤ n

/-- The table after a change of one entry. -/
def Kernel.modifyNode (k : Kernel) (n : ℕ) (f : BddNode → BddNode) : Kernel :=
  { k with nodes := Function.update k.nodes n (f (k.nodes n)) }

/-! ### The reference stack -/

/-- Empties the stack of intermediate results.  Every operation starts with it, also when the last
one was left by an error. -/
def initref : KernelM Kernel PUnit := modify fun k => { k with refstack := [] }

/-- Protects an intermediate result from the collector.  The stack has a fixed size: the source does
not look whether there is room, so where it would write behind the stack the model fails. -/
def pushref (a : ℕ) : KernelM Kernel PUnit := do
  let k ← get
  if k.refstack.length < k.refstacksize then
    modify fun k => { k with refstack := a :: k.refstack }
  else throw .overflow

/-- The entry that is `a` below the top. -/
def readref (a : ℕ) : KernelM Kernel ℕ := do
  let k ← get
  return k.refstack.getD (a - 1) 0

/-- Drops the topmost intermediate results. -/
def popref (a : ℕ) : KernelM Kernel PUnit :=
  modify fun k => { k with refstack := k.refstack.drop a }

/-! ### Reference counts -/

/-- Counts one more reference to a node.  Constants are not counted, and a full counter stays. -/
def bddAddref (root : ℕ) : KernelM Kernel ℕ := do
  let k ← get
  if root < 2 ∨ k.running = false then return root
  else if k.nodesize ≤ root then throw .illbdd
  else if (k.nodes root).low = none then throw .illbdd
  else
    modify (·.modifyNode root .incref)
    return root

/-- Counts one reference less.  A node without references stays in the table until the next
collection. -/
def bddDelref (root : ℕ) : KernelM Kernel ℕ := do
  let k ← get
  if root < 2 ∨ k.running = false then return root
  else if k.nodesize ≤ root then throw .illbdd
  else if (k.nodes root).low = none then throw .illbdd
  else if (k.nodes root).refcou = 0 then throw .userBreak
  else
    modify (·.modifyNode root .decref)
    return root

/-! ### Garbage collection -/

/-- More calls than one path of nodes, or two of them side by side, can nest. -/
def recursionDepth : ℕ := 2 * maxvar + 1

/-- Marks a node and what is below it. -/
def bddMark : ℕ → ℕ → KernelM Kernel PUnit
  | 0, _ => throw .depth
  | depth + 1, i =>
    if i < 2 then pure ⟨⟩
    else do
      let k ← get
      match (k.nodes i).low with
      | none => pure ⟨⟩
      | some low =>
        if (k.nodes i).marked then pure ⟨⟩
        else do
          modify (·.modifyNode i .setMark)
          bddMark depth low
          let k ← get
          bddMark depth (k.nodes i).high

/-- Puts a node at the head of the chain of its bucket. -/
def insertBucket (n : ℕ) (k : Kernel) : Kernel :=
  let node := k.nodes n
  let hash := nodehash k.nodesize node.level (node.low.getD 0) node.high
  (k.modifyNode n fun node => { node with next := (k.nodes hash).hash }).modifyNode hash
    fun node => { node with hash := n }

/-- Puts a node at the head of the free list. -/
def insertFree (n : ℕ) (k : Kernel) : Kernel :=
  { k.modifyNode n fun node => { node with next := k.freepos } with
    freepos := n
    freenum := k.freenum + 1 }

/-- One round of the two loops that link all nodes anew. -/
def relinkNode (keep : BddNode → Bool) (onKeep onDrop : BddNode → BddNode) (n : ℕ) (k : Kernel) :
    Kernel :=
  if keep (k.nodes n) then insertBucket n (k.modifyNode n onKeep)
  else insertFree n (k.modifyNode n onDrop)

/-- The loop, from the last node down to node `2`. -/
def relink (keep : BddNode → Bool) (onKeep onDrop : BddNode → BddNode) (k : Kernel) : Kernel :=
  (List.range' 2 (k.nodesize - 2)).foldr (relinkNode keep onKeep onDrop)
    { k with freepos := 0, freenum := 0 }

/-- Links the nodes that are in use into their buckets, and the others into the free list. -/
def bddGbcRehash : Kernel → Kernel := relink (·.low.isSome) id id

/-- Links the marked nodes into their buckets without the mark, and frees the others. -/
def gbcSweep : Kernel → Kernel :=
  relink (fun node => node.marked && node.low.isSome) .unmark fun node => { node with low := none }

/-- Clears the cache of operations, whose entries may name freed nodes.  Only the first field of an
entry is reset: an entry is empty when it is -1. -/
def bddOperatorReset (k : Kernel) : Kernel :=
  { k with applycache := fun n => { k.applycache n with a := none } }

/-- Marks from a node with a reference count, and empties the bucket of its index. -/
def gbcRoot (n : ℕ) : KernelM Kernel PUnit := do
  let k ← get
  (if 0 < (k.nodes n).refcou then bddMark recursionDepth n else pure ⟨⟩)
  modify (·.modifyNode n fun node => { node with hash := 0 })

/-- Frees the nodes that neither a reference nor the stack of intermediate results reaches, and
builds the chains of the table anew. -/
def bddGbc : KernelM Kernel PUnit := do
  let k ← get
  k.refstack.reverse.forM (bddMark recursionDepth)
  (List.range k.nodesize).forM gbcRoot
  modify gbcSweep
  modify bddOperatorReset

/-! ### The unique table -/

/-- The size of the next table. -/
def Environment.newNodesize (env : Environment) (k : Kernel) : ℕ :=
  let doubled := k.nodesize <<< 1
  let increased :=
    if doubled > k.nodesize + k.maxnodeincrease then k.nodesize + k.maxnodeincrease else doubled
  env.primeLte (if increased > k.maxnodesize ∧ k.maxnodesize > 0 then k.maxnodesize else increased)

/-- The entries of a table of another size; new ones are free. -/
def resizeNodes (doRehash : Bool) (k : Kernel) (n : ℕ) : BddNode :=
  if n < k.nodesize then if doRehash then { k.nodes n with hash := 0 } else k.nodes n
  else ⟨0, 0, none, 0, 0, n + 1⟩

/-- The new entries are put before the free list, and all nodes are linked anew on demand. -/
def resizeTable (doRehash : Bool) (nodesize : ℕ) (k : Kernel) : Kernel :=
  let grown := { k with nodesize := nodesize, nodes := resizeNodes doRehash k }
  let linked := { grown.modifyNode (nodesize - 1) fun node => { node with next := k.freepos } with
    freepos := k.nodesize
    freenum := k.freenum + (nodesize - k.nodesize) }
  if doRehash then bddGbcRehash linked else linked

/-- Grows the table of nodes, up to the allowed size.  The answer -1 says that it has that size
already. -/
def bddNoderesize (env : Environment) (doRehash : Bool) : KernelM Kernel ℤ := do
  let k ← get
  if k.nodesize ≥ k.maxnodesize ∧ k.maxnodesize > 0 then return -1
  else if env.malloc (env.newNodesize k) = false then throw .memory
  else
    modify (resizeTable doRehash (env.newNodesize k))
    return 0

/-- The table grows when a collection leaves less than this percentage of it free. -/
def minfreenodes : ℕ := 20

/-- The node has this level and these children. -/
def IsNode (nodes : ℕ → BddNode) (level low high n : ℕ) : Prop :=
  (nodes n).level = level ∧ (nodes n).low = some low ∧ (nodes n).high = high

instance (nodes : ℕ → BddNode) (level low high : ℕ) : DecidablePred (IsNode nodes level low high) :=
  fun _ => inferInstanceAs (Decidable (_ ∧ _))

/-- Searches a chain of at most `fuel` nodes. -/
def searchChain (nodes : ℕ → BddNode) (level low high : ℕ) : ℕ → ℕ → Except BddError (Option ℕ)
  | 0, _ => .error .depth
  | fuel + 1, res =>
    if res = 0 then .ok none
    else if IsNode nodes level low high res then .ok (some res)
    else searchChain nodes level low high fuel (nodes res).next

/-- Makes room: a collection, and a larger table when the collection did not free enough. -/
def makeRoom (env : Environment) : KernelM Kernel PUnit := do
  bddGbc
  let k ← get
  let _ ← (if k.freenum * 100 / k.nodesize ≤ minfreenodes then bddNoderesize env true else pure 0)
  let k ← get
  if k.freepos = 0 then throw .nodenum else pure ⟨⟩

/-- Takes the first free node for a new one, at the head of the chain of its bucket. -/
def buildNode (level low high : ℕ) (k : Kernel) : Kernel :=
  let hash := nodehash k.nodesize level low high
  let res := k.freepos
  let taken := { k with freepos := (k.nodes res).next, freenum := k.freenum - 1 }
  (taken.modifyNode res fun node =>
      { node with
        level := level
        low := some low
        high := high
        next := (taken.nodes hash).hash }).modifyNode hash
    fun node => { node with hash := res }

/-- The node of a level and two branches.  A node that the table has is reused, so that equal
diagrams are equal nodes; a table without a free node is collected and, when that frees too
little, grown. -/
def bddMakenode (env : Environment) (level low high : ℕ) : KernelM Kernel ℕ :=
  if low = high then pure low
  else do
    let k ← get
    let hash := nodehash k.nodesize level low high
    match ← MonadExcept.ofExcept (searchChain k.nodes level low high k.nodesize (k.nodes hash).hash)
      with
    | some res => return res
    | none =>
      (if k.freepos = 0 then makeRoom env else pure ⟨⟩)
      let k ← get
      modify (buildNode level low high)
      return k.freepos

/-! ### Initialisation and variables -/

/-- An entry of the first table. -/
def initNode (nodesize n : ℕ) : BddNode :=
  let next := if n = nodesize - 1 then 0 else n + 1
  if n < 2 then ⟨maxref, 0, some n, n, 0, next⟩ else ⟨0, 0, none, 0, 0, next⟩

/-- The kernel with a first table. -/
def initKernel (maxnodesize nodesize tablesize : ℕ) : Kernel where
  running := true
  nodesize := nodesize
  maxnodesize := maxnodesize
  maxnodeincrease := 50000
  nodes := initNode nodesize
  freepos := 2
  freenum := nodesize - 2
  varnum := 0
  varset := fun _ => 0
  refstack := []
  refstacksize := 0
  applycache := fun _ => ⟨none, 0, .and, 0⟩
  tablesize := tablesize

/-- Starts the package: both tables get a prime number of entries, the first of at least
`initnodesize` and the second of at least `cs`. -/
def bddInit (env : Environment) (initnodesize cs : ℕ) : KernelM Kernel PUnit := do
  let k ← get
  if k.running then throw .running
  else
    let nodesize := env.primeGte initnodesize
    let tablesize := env.primeGte cs
    if env.malloc nodesize && env.malloc tablesize then
      set (initKernel k.maxnodesize nodesize tablesize)
    else throw .memory

/-- Records the nodes of a variable, which are never freed. -/
def setVariable (bdv var nvar : ℕ) (k : Kernel) : Kernel :=
  let k := { k with
    varset := Function.update (Function.update k.varset (bdv * 2) var) (bdv * 2 + 1) nvar
    varnum := bdv + 1 }
  (k.modifyNode var fun node => { node with refcou := maxref }).modifyNode nvar
    fun node => { node with refcou := maxref }

/-- Defines a variable by its node and the node of its negation. -/
def addVariable (env : Environment) (bdv : ℕ) : KernelM Kernel PUnit := do
  let var ← bddMakenode env bdv 0 1
  pushref var
  let nvar ← bddMakenode env bdv 1 0
  popref 1
  modify (setVariable bdv var nvar)

/-- Adds variables up to a number.  Each has the node of the variable and that of its negation,
which are never freed. -/
def bddSetvarnum (env : Environment) (num : ℕ) : KernelM Kernel ℤ := do
  let k ← get
  if num < 1 ∨ num > maxvar then throw .range
  else if num < k.varnum then throw .decvnum
  else if num = k.varnum then return 0
  else if env.malloc (num * 2) = false then throw .memory
  else
    modify fun k => { k with refstack := [], refstacksize := num * 2 + 4 }
    (List.range' k.varnum (num - k.varnum)).forM (addVariable env)
    modify (·.modifyNode 0 fun node => { node with level := num })
    modify (·.modifyNode 1 fun node => { node with level := num })
    return 0

/-- The node of a variable. -/
def bddIthvar (var : ℕ) : KernelM Kernel ℕ := do
  let k ← get
  if k.varnum ≤ var then throw .var else return k.varset (var * 2)

end RulesAnalyzer.Buddy
