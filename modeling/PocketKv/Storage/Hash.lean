import PocketKv.Library.Chains
import PocketKv.Storage.Engine

/-!
# The hash engine
-/

namespace PocketKv.Storage

open Library Resp Function

/-! ### SipHash-2-4 -/

/-- The state of SipHash. -/
structure Sip where
  v0 : UInt64
  v1 : UInt64
  v2 : UInt64
  v3 : UInt64

/-- `_rotl64`. -/
def rotl64 (x b : UInt64) : UInt64 := (x <<< b) ||| (x >>> (64 - b))

/-- `SIPROUND`. -/
def Sip.round (s : Sip) : Sip :=
  let v0 := s.v0 + s.v1
  let v1 := rotl64 s.v1 13 ^^^ v0
  let v0 := rotl64 v0 32
  let v2 := s.v2 + s.v3
  let v3 := rotl64 s.v3 16 ^^^ v2
  let v0 := v0 + v3
  let v3 := rotl64 v3 21 ^^^ v0
  let v2 := v2 + v1
  let v1 := rotl64 v1 17 ^^^ v2
  let v2 := rotl64 v2 32
  ⟨v0, v1, v2, v3⟩

/-- `v3 ^= m; SIPROUND; SIPROUND; v0 ^= m`. -/
def Sip.absorb (s : Sip) (m : UInt64) : Sip :=
  let s := Sip.round (Sip.round { s with v3 := s.v3 ^^^ m })
  { s with v0 := s.v0 ^^^ m }

/-- Up to eight bytes as a little-endian word. -/
def sipWord (bs : Bytes) : UInt64 := bs.foldr (fun b m => b.toUInt64 ||| (m <<< 8)) 0

/-- The loop of `_siphash24` over the whole words; and the bytes that are left over. -/
def sipBlocks : Bytes → Sip → Sip × Bytes
  | b0 :: b1 :: b2 :: b3 :: b4 :: b5 :: b6 :: b7 :: bs, s =>
    sipBlocks bs (s.absorb (sipWord [b0, b1, b2, b3, b4, b5, b6, b7]))
  | bs, s => (s, bs)

/-- `_siphash24`. -/
def siphash24 (bs : Bytes) (k0 k1 : UInt64) : UInt64 :=
  let s : Sip := ⟨k0 ^^^ 0x736f6d6570736575, k1 ^^^ 0x646f72616e646f6d, k0 ^^^ 0x6c7967656e657261,
    k1 ^^^ 0x7465646279746573⟩
  let (s, rest) := sipBlocks bs s
  let s := s.absorb (((bs.length.toUInt64 &&& 0xff) <<< 56) ||| sipWord rest)
  let s := { s with v2 := s.v2 ^^^ 0xff }
  let s := s.round.round.round.round
  s.v0 ^^^ s.v1 ^^^ s.v2 ^^^ s.v3

/-! ### Tables -/

/-- `hashnode_t`; the chains that `next` makes are lists. -/
structure HashNode where
  hv : UInt32
  key : Bytes
  /-- The bytes at `value` that have been written. -/
  block : Bytes
  vlen : ℕ
  vcap : ℕ
  deriving DecidableEq

/-- `hashtable_t`. -/
structure Hashtable where
  nodes : ℕ → List HashNode
  /-- `nodes` is not `NULL`. -/
  allocated : Bool
  maxSlots : ℕ
  count : ℤ

/-- `kvs_hash_t`. -/
structure KvsHash where
  ht : Fin 2 → Hashtable
  rehashIdx : Option ℕ
  k0 : UInt64
  k1 : UInt64
  /-- What `getrandom`, or the clock where it fails, will give for a seed, one after the other. -/
  draws : ℕ → UInt64 × UInt64

/-- `HASH_INIT_SIZE`. -/
def hashInitSize : ℕ := 4096

/-- `HASH_LOAD_FACTOR`. -/
def hashLoadFactor : ℕ := 2

/-- `REHASH_STEP_BUCKETS`. -/
def rehashStepBuckets : ℕ := 10

/-- A table after `memset` to 0. -/
def Hashtable.none : Hashtable := ⟨fun _ => [], false, 0, 0⟩

/-- A table of empty chains. -/
def Hashtable.new (maxSlots : ℕ) : Hashtable := ⟨fun _ => [], true, maxSlots, 0⟩

namespace KvsHash

/-- The engine with another table in place `t`. -/
def setTable (h : KvsHash) (t : Fin 2) (tab : Hashtable) : KvsHash :=
  { h with ht := update h.ht t tab }

/-- The seed is not 0, which stands for none. -/
def seeded (h : KvsHash) : Bool := h.k0 != 0 || h.k1 != 0

end KvsHash

/-- `_hash_seed`. -/
def hashSeed (h : KvsHash) : KvsHash :=
  if h.seeded then h
  else { h with k0 := (h.draws 0).1, k1 := (h.draws 0).2, draws := fun i => h.draws (i + 1) }

/-- The hash of a key under the seed as it is. -/
def KvsHash.hashOf (h : KvsHash) (key : Bytes) : UInt32 := (siphash24 key h.k0 h.k1).toUInt32

/-- `_hash_raw`. -/
def hashRaw (h : KvsHash) (key : Bytes) : UInt32 × KvsHash :=
  let h := hashSeed h
  (h.hashOf key, h)

/-- `_hash_idx`. -/
def hashIdx (hv : UInt32) (size : ℕ) : ℕ := hv.toNat % size

/-- `_create_node_len`. -/
def createNodeLen (hv : UInt32) (key value : Bytes) : HashNode where
  hv := hv
  key := key
  block := value ++ [0]
  vlen := value.length
  vcap := value.length + 1

/-- `_overwrite_value`: in place if the buffer is large enough. -/
def overwriteValue (value : Bytes) (n : HashNode) : HashNode :=
  if value.length + 1 ≤ n.vcap then
    { n with block := value ++ 0 :: n.block.drop (value.length + 1), vlen := value.length }
  else
    let newCap := if n.vcap = 0 then 64 else n.vcap * 2
    let newCap := if newCap < value.length + 1 then value.length + 1 else newCap
    { n with block := value ++ [0], vlen := value.length, vcap := newCap }

/-- The engine before it has a seed. -/
def KvsHash.blank (draws : ℕ → UInt64 × UInt64) : KvsHash where
  ht t := if t = 0 then .new hashInitSize else .none
  rehashIdx := none
  k0 := 0
  k1 := 0
  draws := draws

/-- `kvs_hash_create`. -/
def kvsHashCreate (draws : ℕ → UInt64 × UInt64) : KvsHash := hashSeed (.blank draws)

/-- A node at the head of a chain. -/
def Hashtable.push (tab : Hashtable) (idx : ℕ) (n : HashNode) : Hashtable :=
  { tab with nodes := update tab.nodes idx (n :: tab.nodes idx), count := tab.count + 1 }

/-- The first node with the key leaves its chain. -/
def Hashtable.unlink (tab : Hashtable) (idx : ℕ) (key : Bytes) : Hashtable :=
  { tab with
    nodes := update tab.nodes idx ((tab.nodes idx).eraseP (·.key = key))
    count := if 0 < tab.count then tab.count - 1 else tab.count }

/-! ### Rehashing -/

/-- The inner loop of `_rehash_step`: the nodes of a chain go into the other table. -/
def migrate (h1 : Hashtable) (chain : List HashNode) : Hashtable :=
  chain.foldl (fun h1 node => h1.push (hashIdx node.hv h1.maxSlots) node) h1

/-- The outer loop of `_rehash_step`: the two tables and `rehash_idx`. -/
def rehashLoop : ℕ → ℕ → Hashtable → Hashtable → ℕ → Hashtable × Hashtable × ℕ
  | 0, _, h0, h1, idx => (h0, h1, idx)
  | fuel + 1, remaining, h0, h1, idx =>
    if 0 < remaining ∧ idx < h0.maxSlots then
      let chain := h0.nodes idx
      if chain ≠ [] then
        rehashLoop fuel (remaining - 1)
          { h0 with nodes := update h0.nodes idx [], count := h0.count - chain.length }
          (migrate h1 chain) (idx + 1)
      else rehashLoop fuel remaining h0 h1 (idx + 1)
    else (h0, h1, idx)

/-- `_rehash_step`. -/
def rehashStep (h : KvsHash) (buckets : ℕ) : KvsHash :=
  match h.rehashIdx with
  | none => h
  | some idx =>
    let (h0, h1, idx) := rehashLoop ((h.ht 0).maxSlots - idx) buckets (h.ht 0) (h.ht 1) idx
    if h0.maxSlots ≤ idx then { (h.setTable 0 h1).setTable 1 .none with rehashIdx := none }
    else { (h.setTable 0 h0).setTable 1 h1 with rehashIdx := some idx }

/-- Where `_maybe_expand` and `_maybe_shrink` start a rehash. -/
def startRehash (h : KvsHash) (newSize : ℕ) : KvsHash :=
  { h.setTable 1 (.new newSize) with rehashIdx := some 0 }

/-- `_maybe_expand`. -/
def maybeExpand (h : KvsHash) : KvsHash :=
  if h.rehashIdx.isSome then h
  else if (h.ht 0).count ≤ (h.ht 0).maxSlots * hashLoadFactor then h
  else startRehash h ((h.ht 0).maxSlots * 2)

/-- `_maybe_shrink`. -/
def maybeShrink (h : KvsHash) : KvsHash :=
  if h.rehashIdx.isSome then h
  else if (h.ht 0).maxSlots ≤ hashInitSize then h
  else if ((h.ht 0).maxSlots / 8 : ℕ) < (h.ht 0).count then h
  else
    let newSize := (h.ht 0).maxSlots / 2
    startRehash h (if newSize < hashInitSize then hashInitSize else newSize)

/-! ### Lookups -/

/-- Where a node is. -/
structure Place where
  t : Fin 2
  idx : ℕ
  node : HashNode

/-- The search of one table in `_find_node`. -/
def probe (h : KvsHash) (t : Fin 2) (key : Bytes) : Option Place × KvsHash :=
  let (hv, h) := hashRaw h key
  let idx := hashIdx hv (h.ht t).maxSlots
  ((((h.ht t).nodes idx).find? (·.key = key)).map (⟨t, idx, ·⟩), h)

/-- `_find_node`. -/
def findNode (h : KvsHash) (key : Bytes) : Option Place × KvsHash :=
  let first := if (h.ht 0).allocated ∧ 0 < (h.ht 0).count then probe h 0 key else (none, h)
  match first with
  | (some p, h) => (some p, h)
  | (none, h) =>
    if h.rehashIdx.isSome ∧ (h.ht 1).allocated ∧ 0 < (h.ht 1).count then probe h 1 key else (none, h)

/-- The value of the node at `p` is overwritten. -/
def overwriteAt (h : KvsHash) (p : Place) (value : Bytes) : KvsHash :=
  let tab := h.ht p.t
  h.setTable p.t { tab with
    nodes := update tab.nodes p.idx
      (modifyFirst (·.key = p.node.key) (overwriteValue value) (tab.nodes p.idx)) }

/-! ### The operations -/

/-- `kvs_hash_exist`. -/
def kvsHashExist (h : KvsHash) (key : Bytes) : ℤ × KvsHash :=
  let key := cstr key
  let (p, h) := findNode (rehashStep h rehashStepBuckets) key
  (if p.isSome then 0 else 1, h)

/-- `kvs_hash_get`: the C string at the pointer that is returned. -/
def kvsHashGet (h : KvsHash) (key : Bytes) : Option Bytes × KvsHash :=
  let key := cstr key
  let (p, h) := findNode (rehashStep h rehashStepBuckets) key
  (p.map fun p => cstr p.node.block, h)

/-- `kvs_hash_get_len`: as many bytes at the pointer that is returned as it says. -/
def kvsHashGetLen (h : KvsHash) (key : Bytes) : Option Bytes × KvsHash :=
  let key := cstr key
  let (p, h) := findNode (rehashStep h rehashStepBuckets) key
  (p.map fun p => p.node.block.take p.node.vlen, h)

/-- The new node of `kvs_hash_set`. -/
def insertNode (h : KvsHash) (key value : Bytes) : KvsHash :=
  let (hv, h) := hashRaw h key
  let t : Fin 2 := if h.rehashIdx.isSome then 1 else 0
  let idx := hashIdx hv (h.ht t).maxSlots
  maybeExpand (h.setTable t ((h.ht t).push idx (createNodeLen hv key value)))

/-- What `kvs_hash_set` and `kvs_hash_set_len` do with the bytes of the value. -/
def setBytes (h : KvsHash) (key value : Bytes) : ℤ × KvsHash :=
  match findNode (rehashStep h rehashStepBuckets) key with
  | (some p, h) => (0, overwriteAt h p value)
  | (none, h) => (0, insertNode h key value)

/-- `kvs_hash_set`. -/
def kvsHashSet (h : KvsHash) (key value : Bytes) : ℤ × KvsHash := setBytes h (cstr key) (cstr value)

/-- `kvs_hash_set_len`. -/
def kvsHashSetLen (h : KvsHash) (key value : Bytes) : ℤ × KvsHash := setBytes h (cstr key) value

/-- `kvs_hash_mod`. -/
def kvsHashMod (h : KvsHash) (key value : Bytes) : ℤ × KvsHash :=
  match findNode (rehashStep h rehashStepBuckets) (cstr key) with
  | (some p, h) => (0, overwriteAt h p (cstr value))
  | (none, h) => (1, h)

/-- `kvs_hash_del`. -/
def kvsHashDel (h : KvsHash) (key : Bytes) : ℤ × KvsHash :=
  let key := cstr key
  let (hv, h) := hashRaw (rehashStep h rehashStepBuckets) key
  let idx0 := hashIdx hv (h.ht 0).maxSlots
  let idx1 := hashIdx hv (h.ht 1).maxSlots
  if (h.ht 0).allocated ∧ 0 < (h.ht 0).count ∧ ((h.ht 0).nodes idx0).any (·.key = key) then
    (0, maybeShrink (h.setTable 0 ((h.ht 0).unlink idx0 key)))
  else if h.rehashIdx.isSome ∧ (h.ht 1).allocated ∧ 0 < (h.ht 1).count ∧
      ((h.ht 1).nodes idx1).any (·.key = key) then
    (0, maybeShrink (h.setTable 1 ((h.ht 1).unlink idx1 key)))
  else (1, h)

/-! ### Calls -/

/-- A call of the engine. -/
inductive HashCall where
  | set (key value : Bytes)
  | setLen (key value : Bytes)
  | get (key : Bytes)
  | getLen (key : Bytes)
  | mod (key value : Bytes)
  | del (key : Bytes)
  | exist (key : Bytes)

/-- What the call returns, and the engine after it. -/
def KvsHash.call (h : KvsHash) : HashCall → EngineReply × KvsHash
  | .set key value => (kvsHashSet h key value).map .code id
  | .setLen key value => (kvsHashSetLen h key value).map .code id
  | .get key => (kvsHashGet h key).map .value id
  | .getLen key => (kvsHashGetLen h key).map .value id
  | .mod key value => (kvsHashMod h key value).map .code id
  | .del key => (kvsHashDel h key).map .code id
  | .exist key => (kvsHashExist h key).map .code id

/-- The engine after a call. -/
def KvsHash.step (h : KvsHash) (c : HashCall) : KvsHash := (h.call c).2

/-! ### The nodes -/

/-- The nodes of a table. -/
def Hashtable.all (tab : Hashtable) : Multiset HashNode := contents tab.nodes tab.maxSlots

/-- The nodes of both tables. -/
def KvsHash.all (h : KvsHash) : Multiset HashNode := (h.ht 0).all + (h.ht 1).all

/-- The nodes of a table in the order of its chains. -/
def Hashtable.walk (tab : Hashtable) : List HashNode :=
  if tab.allocated then (List.range tab.maxSlots).flatMap tab.nodes else []

/-- The nodes in the order of the loops; table 1 only if `rehash_idx` is not -1. -/
def vsearchWalk (h : KvsHash) : List HashNode :=
  (h.ht 0).walk ++ if h.rehashIdx.isSome then (h.ht 1).walk else []

end PocketKv.Storage
