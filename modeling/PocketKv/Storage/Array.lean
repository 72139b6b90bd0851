import PocketKv.Resp.Build
import PocketKv.Storage.Hash

/-!
# The array engine
-/

namespace PocketKv.Storage

open Resp

/-- `KVS_ARRAY_SIZE`. -/
def kvsArraySize : ℕ := 1024 * 1024

/-- `kvs_array_item_t`, with `none` for NULL. -/
structure ArrayItem where
  key : Option Bytes := none
  value : Option Bytes := none
  deriving DecidableEq

/-- `kvs_array_t`. -/
structure KvsArray where
  /-- `table`; its length is `KVS_ARRAY_SIZE`. -/
  table : ℕ → ArrayItem
  /-- `table` is not NULL. -/
  allocated : Bool
  total : ℤ
  nextSlot : ℤ
  /-- A slot outside `table` was accessed. -/
  crashed : Bool
  /-- The first `free_count` slots of `free_list`, the last one first. -/
  freeList : List ℕ
  freeCap : ℕ
  index : KvsHash

/-- `kvs_array_create`. -/
def kvsArrayCreate (draws : ℕ → UInt64 × UInt64) : KvsArray where
  table := fun _ => {}
  allocated := false
  total := 0
  nextSlot := 0
  crashed := false
  freeList := []
  freeCap := 0
  index := kvsHashCreate draws

/-- A number, as `"%d"` prints it. -/
def printInt (n : ℤ) : Bytes := if n < 0 then 45 :: decimal n.natAbs else decimal n.natAbs

/-- `find_slot`, with `none` for -1. -/
def findSlot (A : KvsArray) (key : Bytes) : Option ℕ × KvsArray :=
  let v := (kvsHashGet A.index key).1
  let slot := v.bind fun v => if 0 ≤ atoi v ∧ atoi v < kvsArraySize then some (atoi v).toNat else none
  (slot, { A with index := (kvsHashGet A.index key).2 })

/-- `inst->table[slot] = item`, for a slot of the table. -/
def KvsArray.setItem (A : KvsArray) (slot : ℕ) (item : ArrayItem) : KvsArray :=
  { A with table := Function.update A.table slot item }

/-- `kvs_array_mod`. -/
def kvsArrayMod (A : KvsArray) (key value : Bytes) : ℤ × KvsArray :=
  match findSlot A key with
  | (none, A) => (1, A)
  | (some slot, A) => (0, A.setItem slot { A.table slot with value := some (cstr value) })

/-- The rest of `kvs_array_set`, with the slot for the key; nothing is returned if the slot is outside the
table. -/
def storeAt (A : KvsArray) (slot : ℤ) (key value : Bytes) : Option ℤ × KvsArray :=
  if slot < 0 ∨ kvsArraySize ≤ slot then (none, { A with crashed := true })
  else
    let A := { A.setItem slot.toNat ⟨some (cstr key), some (cstr value)⟩ with total := wrap32 (A.total + 1) }
    (some 0, { A with index := (kvsHashSet A.index key (printInt slot)).2 })

/-- The part of `kvs_array_set` that takes a slot for a new key. -/
def storeNew (A : KvsArray) (key value : Bytes) : Option ℤ × KvsArray :=
  match A.freeList with
  | slot :: rest => storeAt { A with freeList := rest } slot key value
  | [] =>
    let slot := A.nextSlot
    let A := { A with nextSlot := wrap32 (A.nextSlot + 1) }
    -- `slot` may be negative here
    if kvsArraySize ≤ slot then (some (-1), A) else storeAt A slot key value

/-- The table is allocated by the first set. -/
def KvsArray.allocate (A : KvsArray) : KvsArray :=
  if A.allocated then A else { A with table := fun _ => {}, allocated := true }

/-- `kvs_array_set`; nothing is returned after a fault. -/
def kvsArraySet (A : KvsArray) (key value : Bytes) : Option ℤ × KvsArray :=
  match findSlot A.allocate key with
  | (some _, A) => (kvsArrayMod A key value).map some id
  | (none, A) => storeNew A key value

/-- `kvs_array_get`. -/
def kvsArrayGet (A : KvsArray) (key : Bytes) : Option Bytes × KvsArray :=
  match findSlot A key with
  | (none, A) => (none, A)
  | (some slot, A) => ((A.table slot).value, A)

/-- A slot goes on the stack of free ones, which grows if it is full. -/
def KvsArray.pushFree (A : KvsArray) (slot : ℕ) : KvsArray :=
  let freeCap := if A.freeList.length = A.freeCap then (if A.freeCap = 0 then 16 else A.freeCap * 2) else A.freeCap
  { A with freeCap := freeCap, freeList := if A.freeList.length < freeCap then slot :: A.freeList else A.freeList }

/-- `kvs_array_del`. -/
def kvsArrayDel (A : KvsArray) (key : Bytes) : ℤ × KvsArray :=
  match findSlot A key with
  | (none, A) => (1, A)
  | (some slot, A) =>
    let A := { A.setItem slot {} with total := if 0 < A.total then A.total - 1 else A.total }
    let A := A.pushFree slot
    (0, { A with index := (kvsHashDel A.index key).2 })

/-- `kvs_array_exist`. -/
def kvsArrayExist (A : KvsArray) (key : Bytes) : ℤ × KvsArray :=
  let (slot, A) := findSlot A key
  (if slot.isSome then 0 else 1, A)

/-! ### Calls -/

/-- What a call returns, and the array after it. After a fault there is no process that could answer. -/
def KvsArray.call (A : KvsArray) (c : EngineCall) : EngineReply × KvsArray :=
  if A.crashed then (.fault, A)
  else
    match c with
    | .set key value => (kvsArraySet A key value).map (·.elim .fault .code) id
    | .get key => (kvsArrayGet A key).map .value id
    | .mod key value => (kvsArrayMod A key value).map .code id
    | .del key => (kvsArrayDel A key).map .code id
    | .exist key => (kvsArrayExist A key).map .code id

/-- The array after a call. -/
def KvsArray.step (A : KvsArray) (c : EngineCall) : KvsArray := (A.call c).2

end PocketKv.Storage
