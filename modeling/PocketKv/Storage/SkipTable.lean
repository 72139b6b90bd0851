import PocketKv.Library.Links
import PocketKv.Storage.Engine

/-!
# The skip list engine
-/

namespace PocketKv.Storage

open Library.Links Resp

/-- `KVS_SKIPLIST_MAX_LEVEL`. -/
def kvsSkiplistMaxLevel : ℕ := 12

/-- `RAND_MAX`. -/
def randMax : ℕ := 2 ^ 31 - 1

/-- `kvs_skipnode_t`, without the pointers. -/
structure SkipNode where
  key : Bytes
  value : Bytes
  level : ℕ

/-- `kvs_skiptable_t`, with the memory for its nodes. -/
structure SkipTable where
  level : ℕ
  count : ℤ
  node : ℕ → SkipNode
  /-- `forward i a` is `a->forward[i]`. -/
  forward : ℕ → ℕ → Option ℕ
  fresh : ℕ

/-- The address of `inst->header`. -/
def skipHeader : ℕ := 0

/-- `update`, with NULL where nothing was noted. -/
abbrev SkipUpdate := ℕ → Option ℕ

/-! ### Levels -/

/-- The loop of `random_level`; `rand` has the results of `rand`. -/
def randomLevelLoop (rand : ℕ → ℕ) : ℕ → ℕ → ℕ
  | 0, level => level
  | fuel + 1, level =>
    if 2 * rand level < randMax + 1 ∧ level < kvsSkiplistMaxLevel then randomLevelLoop rand fuel (level + 1)
    else level

/-- `random_level`. -/
def randomLevel (rand : ℕ → ℕ) : ℕ := randomLevelLoop rand (kvsSkiplistMaxLevel + 1) 0

namespace SkipTable

/-- The key of `a` is before the key. -/
def below (T : SkipTable) (key : Bytes) (a : ℕ) : Bool := strcmp (T.node a).key key = .lt

/-- `a->forward[i] = b`. -/
def setForward (T : SkipTable) (i a : ℕ) (b : Option ℕ) : SkipTable :=
  { T with forward := Function.update T.forward i (Function.update (T.forward i) a b) }

end SkipTable

/-- `skiptable_search_node` over the levels, from one level less than its first argument. -/
def skipSearchLoop (T : SkipTable) (key : Bytes) : ℕ → ℕ → SkipUpdate → ℕ × SkipUpdate
  | 0, cur, update => (cur, update)
  | i + 1, cur, update =>
    let cur := advance (T.forward i) (T.below key) T.fresh cur
    skipSearchLoop T key i cur (Function.update update i (some cur))

/-- `skiptable_search_node`: the node, and `update`. -/
def skiptableSearchNode (T : SkipTable) (key : Bytes) : Option ℕ × SkipUpdate :=
  let (cur, update) := skipSearchLoop T key (T.level + 1) skipHeader fun _ => none
  ((T.forward 0 cur).filter fun a => strcmp (T.node a).key key = .eq, update)

/-! ### The operations -/

/-- `kvs_skiptable_create`, in a memory with any contents. -/
def kvsSkiptableCreate (mem : ℕ → SkipNode) (pointers : ℕ → ℕ → Option ℕ) : SkipTable where
  level := 0
  count := 0
  node := mem
  forward := fun i => Function.update (pointers i) skipHeader none
  fresh := 1

/-- `kvs_skiptable_mod`; `alloc` tells whether the memory for the value is there. -/
def kvsSkiptableMod (T : SkipTable) (key value : Bytes) (alloc : Bool) : ℤ × SkipTable :=
  match (skiptableSearchNode T key).1 with
  | none => (1, T)
  | some a =>
    if !alloc then (-2, T)
    else (0, { T with node := Function.update T.node a { T.node a with value := value } })

/-- `skipnode_create`, if there is memory. -/
def skipnodeCreate (T : SkipTable) (level : ℕ) (key value : Bytes) : SkipTable :=
  { T with
    node := Function.update T.node T.fresh { key := key, value := value, level := level }
    forward := fun i => Function.update (T.forward i) T.fresh none
    fresh := T.fresh + 1 }

/-- An iteration of the loop of `kvs_skiptable_set` that puts a node in. -/
def linkAt (update : SkipUpdate) (a : ℕ) (T : SkipTable) (i : ℕ) : SkipTable :=
  match update i with
  | none => T
  | some prev => (T.setForward i a (T.forward i prev)).setForward i prev (some a)

/-- `kvs_skiptable_set`; `alloc` tells whether the memory for the node, or for the value, is there. -/
def kvsSkiptableSet (T : SkipTable) (key value : Bytes) (rand : ℕ → ℕ) (alloc : Bool) : ℤ × SkipTable :=
  let update := (skiptableSearchNode T key).2
  match (skiptableSearchNode T key).1 with
  | some _ => kvsSkiptableMod T key value alloc
  | none =>
    let level := randomLevel rand
    let update : SkipUpdate := fun i => if T.level < i ∧ i ≤ level then some skipHeader else update i
    let T := if T.level < level then { T with level := level } else T
    if !alloc then (-2, T)
    else
      let a := T.fresh
      let T := (List.range (level + 1)).foldl (linkAt update a) (skipnodeCreate T level key value)
      (0, { T with count := wrap32 (T.count + 1) })

/-- `kvs_skiptable_get`. -/
def kvsSkiptableGet (T : SkipTable) (key : Bytes) : Option Bytes :=
  (skiptableSearchNode T key).1.map fun a => (T.node a).value

/-- The loop of `kvs_skiptable_del` that takes a node out, from level `i`. -/
def unlinkLoop (update : SkipUpdate) (a : ℕ) : ℕ → ℕ → SkipTable → SkipTable
  | 0, _, T => T
  | fuel + 1, i, T =>
    match update i with
    | none => T
    | some prev =>
      if T.forward i prev ≠ some a then T
      else unlinkLoop update a fuel (i + 1) (T.setForward i prev (T.forward i a))

/-- The loop of `kvs_skiptable_del` that lowers `inst->level`. -/
def lowerLevel (first : ℕ → Option ℕ) : ℕ → ℕ
  | 0 => 0
  | level + 1 => if first (level + 1) = none then lowerLevel first level else level + 1

/-- `kvs_skiptable_del`. -/
def kvsSkiptableDel (T : SkipTable) (key : Bytes) : ℤ × SkipTable :=
  let update := (skiptableSearchNode T key).2
  match (skiptableSearchNode T key).1 with
  | none => (1, T)
  | some a =>
    let T := unlinkLoop update a (T.level + 1) 0 T
    (0, { T with level := lowerLevel (T.forward · skipHeader) T.level, count := wrap32 (T.count - 1) })

/-- `kvs_skiptable_exist`. -/
def kvsSkiptableExist (T : SkipTable) (key : Bytes) : ℤ := if (kvsSkiptableGet T key).isSome then 0 else 1

/-- The loop of `kvs_skiptable_foreach`; the callback has a state. -/
def foreachLoop {σ : Type*} (T : SkipTable) (cb : Bytes → Bytes → σ → ℤ × σ) : ℕ → Option ℕ → σ → ℤ × σ
  | fuel + 1, some cur, s =>
    let (rc, s) := cb (T.node cur).key (T.node cur).value s
    if rc ≠ 0 then (rc, s) else foreachLoop T cb fuel (T.forward 0 cur) s
  | _, _, s => (0, s)

/-- `kvs_skiptable_foreach`. -/
def kvsSkiptableForeach {σ : Type*} (T : SkipTable) (cb : Bytes → Bytes → σ → ℤ × σ) (s : σ) : ℤ × σ :=
  foreachLoop T cb T.fresh (T.forward 0 skipHeader) s

/-! ### Calls -/

/-- A call, with the random numbers that it draws and with its allocation. -/
inductive SkipCall where
  | set (key value : Bytes) (rand : ℕ → ℕ) (alloc : Bool)
  | mod (key value : Bytes) (alloc : Bool)
  | del (key : Bytes)
  | get (key : Bytes)
  | exist (key : Bytes)

/-- What the call returns, and the table after it. -/
def SkipTable.call (T : SkipTable) : SkipCall → EngineReply × SkipTable
  | .set key value rand alloc => (kvsSkiptableSet T key value rand alloc).map .code id
  | .mod key value alloc => (kvsSkiptableMod T key value alloc).map .code id
  | .del key => (kvsSkiptableDel T key).map .code id
  | .get key => (.value (kvsSkiptableGet T key), T)
  | .exist key => (.code (kvsSkiptableExist T key), T)

/-- The table after a call. -/
def SkipTable.step (T : SkipTable) (c : SkipCall) : SkipTable := (T.call c).2

end PocketKv.Storage
