import PocketKv.Library.Table
import PocketKv.Resp.Bytes

/-!
# The storage engines
-/

namespace PocketKv.Store

open Library Resp

/-- The four engines. -/
inductive Engine where
  /-- `KVS_ENGINE_ARRAY`. -/
  | array
  /-- `KVS_ENGINE_RBTREE`. -/
  | rbtree
  /-- `KVS_ENGINE_HASH`. -/
  | hash
  /-- `KVS_ENGINE_SKIPTABLE`. -/
  | skiptable
  deriving DecidableEq

/-- What an engine returns: 0, 1 or below. -/
inductive Rc where
  /-- `0`. -/
  | ok
  /-- `1`: there is no such key, document, field or deadline. -/
  | miss
  | fail
  deriving DecidableEq

/-- A table of keys and values. -/
abbrev Table (α β : Type) := AList fun _ : α => β

/-- A key in an engine. -/
abbrev Slot := Engine × Bytes

/-- The data of the server. -/
structure Db where
  /-- `global_array`, `global_rbtree`, `global_hash` and `global_skiptable`. -/
  kv : Table Slot Bytes
  /-- `global_expire`: the deadlines. -/
  ttl : Table Slot ℤ
  /-- `global_doc`. -/
  docs : Table Bytes (Table Bytes Bytes)

/-- The data at the start. -/
def Db.empty : Db := ⟨∅, ∅, ∅⟩

/-- `KVS_ARRAY_SIZE`. -/
def kvsArraySize : ℕ := 1024 * 1024

/-- The number of documents with which `doc_rehash` refuses to grow the table. -/
def docTableMax : ℕ := 2 ^ 22

/-! ### Engines -/

/-- The keys of the array engine. -/
def Db.arrayKeys (s : Db) : List Slot := s.kv.keys.filter (·.1 = .array)

/-- No new key fits into the engine. -/
def Db.full (s : Db) : Engine → Bool
  | .array => kvsArraySize ≤ s.arrayKeys.length
  | _ => false

/-- `kvs_*_exist`. -/
def engineExist (s : Db) (e : Engine) (k : Bytes) : Bool := (s.kv.lookup (e, k)).isSome

/-- `kvs_*_get`. -/
def engineGet (s : Db) (e : Engine) (k : Bytes) : Option Bytes := s.kv.lookup (e, k)

/-- The data with the value under the key. -/
def Db.put (s : Db) (e : Engine) (k v : Bytes) : Db := { s with kv := s.kv.insert (e, k) v }

/-- `kvs_*_mod`. -/
def engineMod (s : Db) (e : Engine) (k v : Bytes) : Rc × Db :=
  if engineExist s e k then (.ok, s.put e k v) else (.miss, s)

/-- `engine_set`, and `kvs_hash_set_len` for the hash engine: an existing key is overwritten. -/
def engineSet (s : Db) (e : Engine) (k v : Bytes) : Rc × Db :=
  if engineExist s e k then engineMod s e k v
  else if s.full e then (.fail, s)
  else (.ok, s.put e k v)

/-- `kvs_*_del`. -/
def engineDel (s : Db) (e : Engine) (k : Bytes) : Rc × Db :=
  if engineExist s e k then (.ok, { s with kv := s.kv.erase (e, k) }) else (.miss, s)

/-! ### Deadlines -/

/-- `kvs_expire_set`. -/
def expireSet (now : ℤ) (s : Db) (e : Engine) (k : Bytes) (ttlMs : ℤ) : Rc × Db :=
  if ttlMs ≤ 0 then (.fail, s)
  else (.ok, { s with ttl := s.ttl.insert (e, k) (wrap64 (now + ttlMs)) })

/-- The data without the deadline of the key. -/
def Db.clear (s : Db) (e : Engine) (k : Bytes) : Db := { s with ttl := s.ttl.erase (e, k) }

/-- `kvs_expire_del` and `kvs_expire_persist`. -/
def expireDel (s : Db) (e : Engine) (k : Bytes) : Rc × Db :=
  match s.ttl.lookup (e, k) with
  | none => (.miss, s)
  | some _ => (.ok, s.clear e k)

/-- `kvs_expire_is_expired`. -/
def expireIsExpired (now : ℤ) (s : Db) (e : Engine) (k : Bytes) : Bool :=
  match s.ttl.lookup (e, k) with
  | none => false
  | some d => d ≤ now

/-- `kvs_expire_ttl`, in seconds, rounded up. -/
def expireTtl (now : ℤ) (s : Db) (e : Engine) (k : Bytes) : ℤ :=
  match s.ttl.lookup (e, k) with
  | none => -1
  | some d => if d ≤ now then -2 else (d - now + 999) / 1000

/-- The data without the key and its deadline. -/
def Db.drop (s : Db) (e : Engine) (k : Bytes) : Db :=
  { s with kv := s.kv.erase (e, k), ttl := s.ttl.erase (e, k) }

/-- `kvs_try_expire`. -/
def tryExpire (now : ℤ) (s : Db) (e : Engine) (k : Bytes) : Db :=
  if expireIsExpired now s e k then (expireDel (engineDel s e k).2 e k).2 else s

/-! ### Several keys, locks -/

/-- `engine_upsert`. -/
def engineUpsert (now : ℤ) (s : Db) (e : Engine) (k v : Bytes) : Rc × Db :=
  let s := tryExpire now s e k
  if engineExist s e k then (.ok, (expireDel (engineMod s e k v).2 e k).2) else engineSet s e k v

/-- The loop of `handle_multi_set` over the keys and values. -/
def upsertAll (now : ℤ) (s : Db) (e : Engine) : List (Bytes × Bytes) → Rc × Db
  | [] => (.ok, s)
  | (k, v) :: kvs =>
    match engineUpsert now s e k v with
    | (.ok, s') => upsertAll now s' e kvs
    | (_, s') => (.fail, s')

/-- `kvs_lock_acquire`. -/
def lockAcquire (now : ℤ) (s : Db) (e : Engine) (k token : Bytes) (ttlMs : ℤ) : Rc × Db :=
  if ttlMs ≤ 0 then (.fail, s)
  else
    let s := tryExpire now s e k
    if engineExist s e k then (.miss, s)
    else
      match engineSet s e k token with
      | (.ok, s') =>
        match expireSet now s' e k ttlMs with
        | (.ok, s'') => (.ok, s'')
        | (_, s'') => (.fail, (expireDel (engineDel s'' e k).2 e k).2)
      | (_, s') => (.fail, s')

/-- `kvs_lock_release`. -/
def lockRelease (now : ℤ) (s : Db) (e : Engine) (k token : Bytes) : Rc × Db :=
  let s := tryExpire now s e k
  if engineGet s e k = some token then (.ok, (expireDel (engineDel s e k).2 e k).2) else (.miss, s)

/-- `kvs_lock_renew`. -/
def lockRenew (now : ℤ) (s : Db) (e : Engine) (k token : Bytes) (ttlMs : ℤ) : Rc × Db :=
  if ttlMs ≤ 0 then (.fail, s)
  else
    let s := tryExpire now s e k
    if engineGet s e k = some token then expireSet now s e k ttlMs else (.miss, s)

/-! ### Documents -/

/-- `kvs_doc_set`. -/
def docSet (s : Db) (d f v : Bytes) : Rc × Db :=
  match s.docs.lookup d with
  | some fields => (.ok, { s with docs := s.docs.insert d (fields.insert f v) })
  | none =>
    if docTableMax ≤ s.docs.keys.length then (.fail, s)
    else (.ok, { s with docs := s.docs.insert d (AList.singleton f v) })

/-- `kvs_doc_del_field`. -/
def docDelField (s : Db) (d f : Bytes) : Rc × Db :=
  match s.docs.lookup d with
  | none => (.miss, s)
  | some fields =>
    if (fields.lookup f).isSome then (.ok, { s with docs := s.docs.insert d (fields.erase f) })
    else (.miss, s)

/-- `kvs_doc_del`. -/
def docDel (s : Db) (d : Bytes) : Rc × Db :=
  if (s.docs.lookup d).isSome then (.ok, { s with docs := s.docs.erase d }) else (.miss, s)

/-- `kvs_doc_field_count`. -/
def docFieldCount (s : Db) (d : Bytes) : ℤ :=
  match s.docs.lookup d with
  | none => -1
  | some fields => fields.keys.length

/-- One key after the other is given up to `try_expire`. -/
def expireAll (now : ℤ) (s : Db) (slots : List Slot) : Db :=
  slots.foldl (fun s x => tryExpire now s x.1 x.2) s

end PocketKv.Store
