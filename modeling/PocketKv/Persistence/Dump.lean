import PocketKv.Library.LittleEndian
import PocketKv.Store.Engines

/-!
# The dump format
-/

namespace PocketKv.Persistence

open Library Resp Store List Option

/-- What a record is about: the engines' numbers `1` to `5`. -/
inductive Kind where
  | kv (e : Engine)
  /-- `KVS_ENGINE_DOC`: a document. -/
  | doc
  deriving DecidableEq

/-- The number in a record. -/
def Kind.id : Kind → UInt8
  | .kv .array => 1
  | .kv .rbtree => 2
  | .kv .hash => 3
  | .kv .skiptable => 4
  | .doc => 5

/-- What a number stands for. -/
def kindOf (id : UInt8) : Option Kind :=
  if id = 1 then some (.kv .array)
  else if id = 2 then some (.kv .rbtree)
  else if id = 3 then some (.kv .hash)
  else if id = 4 then some (.kv .skiptable)
  else if id = 5 then some .doc
  else none

@[simp] lemma kindOf_id (kind : Kind) : kindOf kind.id = some kind := by
  rcases kind with (_ | _ | _ | _) | _ <;> rfl

/-- A record of a dump. -/
structure Record where
  kind : Kind
  key : Bytes
  value : Bytes
  /-- The deadline, if the flag `KVSD_FLAG_HAS_EXPIRE` is set. -/
  expire : Option ℕ
  deriving DecidableEq

/-! ### Loading -/

/-- A token of a document's value that has a `=`: the name and the value of a field. -/
def fieldOf (tok : Bytes) : Option (Bytes × Bytes) :=
  if 61 ∈ tok then some (tok.takeWhile (· != 61), (tok.dropWhile (· != 61)).tail) else none

/-- The fields that the loop over `strtok_r` finds in a document's value. -/
def docFields (value : Bytes) : List (Bytes × Bytes) :=
  (((cstr value).splitOn 32).filter (· ≠ [])).filterMap fieldOf

/-- The `switch` over the engine. -/
def loadEntry (s : Db) (kind : Kind) (key value : Bytes) : Db :=
  match kind with
  | .kv e => (engineSet s e (cstr key) (cstr value)).2
  | .doc => (docFields value).foldl (fun s f => (docSet s (cstr key) f.1 f.2).2) s

/-- The deadline of a record is set. -/
def loadExpire (now : ℤ) (s : Db) (kind : Kind) (key : Bytes) (expireAtMs : ℕ) : Db :=
  match kind with
  | .kv e =>
    let ttlMs := wrap64 (expireAtMs - now)
    if 0 < ttlMs then (expireSet now s e (cstr key) ttlMs).2 else s
  | .doc => s

/-- A length and as many bytes. -/
def readBlob (xs : Bytes) : Option (Bytes × Bytes) :=
  if xs.length < 4 then none
  else
    let n := leNat (xs.take 4)
    let xs := xs.drop 4
    if xs.length < n then none else some (xs.take n, xs.drop n)

/-- A record up to its value: engine, flags, key, value and what comes after. -/
def readEntry : Bytes → Option (Kind × UInt8 × Bytes × Bytes × Bytes)
  | id :: flags :: xs => do
    let kind ← kindOf id
    let (key, xs) ← readBlob xs
    let (value, xs) ← readBlob xs
    return (kind, flags, key, value, xs)
  | _ => none

/-- The loop of `replay_dump_file`; each turn consumes some of the file. -/
def replayLoop (now : ℤ) : ℕ → Bytes → Db → Db
  | 0, _, s => s
  | n + 1, xs, s =>
    match readEntry xs with
    | none => s
    | some (kind, flags, key, value, xs) =>
      let s := loadEntry s kind key value
      if flags &&& 1 = 0 then replayLoop now n xs s
      else if xs.length < 8 then s
      else replayLoop now n (xs.drop 8) (loadExpire now s kind key (leNat (xs.take 8)))

/-- `replay_dump_file`: the offset in the header, and the data. -/
def replayDumpFile (now : ℤ) (file : Bytes) (s : Db) : ℕ × Db :=
  if file.length < 8 then (0, s)
  else (leNat (file.take 8), replayLoop now file.length (file.drop 8) s)

/-! ### Writing -/

/-- `DUMP_WRITE_KV_EX`. -/
def Record.encode (r : Record) : Bytes :=
  [r.kind.id, if r.expire.isSome then 1 else 0] ++ leBytes 4 r.key.length ++ r.key ++
    leBytes 4 r.value.length ++ r.value ++ (r.expire.map (leBytes 8)).getD []

/-- The lengths and the deadline fit into their fields. -/
def Record.Fits (r : Record) : Prop :=
  r.key.length < 2 ^ 32 ∧ r.value.length < 2 ^ 32 ∧ ∀ x ∈ r.expire, x < 2 ^ 64

instance (r : Record) : Decidable r.Fits := inferInstanceAs (Decidable (_ ∧ _ ∧ _))

/-- The deadline that the record of a key gets, from the whole seconds that are left. -/
def dumpExpire (now : ℤ) (s : Db) (e : Engine) (k : Bytes) : Option ℕ :=
  if 0 ≤ expireTtl now s e k then some ((now + expireTtl now s e k * 1000) % 2 ^ 64).toNat else none

/-- The record of a key. -/
def kvRecord (now : ℤ) (s : Db) (x : Sigma fun _ : Slot => Bytes) : Record :=
  ⟨.kv x.1.1, cstr x.1.2, cstr x.2, dumpExpire now s x.1.1 x.1.2⟩

/-- A field, as `"%s=%s"` prints it. -/
def docItem (f : Sigma fun _ : Bytes => Bytes) : Bytes := cstr f.1 ++ 61 :: cstr f.2

/-- The record of a document; nothing if it is too long. -/
def docRecord (d : Sigma fun _ : Bytes => Table Bytes Bytes) : Option Record :=
  let items := d.2.entries.map docItem
  if (items.map (·.length + 1)).sum < bufferCap - 4 then
    some ⟨.doc, cstr d.1, [32].intercalate items, none⟩
  else none

/-- The records of an engine. -/
def engineRecords (now : ℤ) (s : Db) (e : Engine) : List Record :=
  (s.kv.entries.filter (·.1.1 = e)).map (kvRecord now s)

/-- The records of a dump. -/
def dumpRecords (now : ℤ) (s : Db) : Option (List Record) := do
  let docs ← s.docs.entries.mapM docRecord
  let recs := engineRecords now s .hash ++ engineRecords now s .array ++ engineRecords now s .rbtree ++
    engineRecords now s .skiptable ++ docs
  if ∀ r ∈ recs, r.Fits then some recs else none

/-- `kvs_dump_to_fd`. -/
def kvsDumpToFd (now : ℤ) (aofOffset : ℕ) (s : Db) : Option Bytes :=
  (dumpRecords now s).map fun recs => leBytes 8 aofOffset ++ recs.flatMap Record.encode

/-- `kvs_dump_set_aof_offset`. -/
def kvsDumpSetAofOffset (file : Bytes) (off : ℕ) : Bytes := leBytes 8 off ++ file.drop 8

/-! ### What was written is loaded -/

/-- A record is loaded. -/
def loadRecord (now : ℤ) (s : Db) (r : Record) : Db :=
  match r.expire with
  | none => loadEntry s r.kind r.key r.value
  | some x => loadExpire now (loadEntry s r.kind r.key r.value) r.kind r.key x

/-- Records are loaded. -/
def loadRecords (now : ℤ) (s : Db) (recs : List Record) : Db := recs.foldl (loadRecord now) s

lemma readBlob_encode {b : Bytes} (h : b.length < 2 ^ 32) (xs : Bytes) :
    readBlob (leBytes 4 b.length ++ (b ++ xs)) = some (b, xs) := by
  have hn : leNat (leBytes 4 b.length) = b.length := leNat_leBytes_of_lt (by omega)
  unfold readBlob
  rw [if_neg (by simp), take_leBytes_append, drop_leBytes_append, hn]
  simp

variable {r : Record}

lemma readEntry_encode (h : r.Fits) (xs : Bytes) :
    readEntry (r.encode ++ xs) = some (r.kind, if r.expire.isSome then 1 else 0, r.key, r.value,
      (r.expire.map (leBytes 8)).getD [] ++ xs) := by
  simp only [Record.encode, append_assoc, cons_append, nil_append, readEntry, kindOf_id,
    Option.bind_eq_bind, bind_some, readBlob_encode h.1, readBlob_encode h.2.1]
  rfl

lemma replayLoop_encode (now : ℤ) (h : r.Fits) (n : ℕ) (xs : Bytes) (s : Db) :
    replayLoop now (n + 1) (r.encode ++ xs) s = replayLoop now n xs (loadRecord now s r) := by
  rw [replayLoop, readEntry_encode h]
  cases hx : r.expire with
  | none => simp [loadRecord, hx]
  | some x =>
    have hlt : x < 2 ^ 64 := h.2.2 x (by simp [hx])
    have hx' : leNat (leBytes 8 x) = x := leNat_leBytes_of_lt (by omega)
    have hlen : ¬(leBytes 8 x ++ xs).length < 8 := by simp
    simp only [isSome_some, if_true, map_some, getD_some, take_leBytes_append,
      drop_leBytes_append, hx', loadRecord, hx]
    rw [if_neg (by decide), if_neg hlen]

variable {recs : List Record} {α β : Type*} {l : List α}

lemma replayLoop_encodeAll (now : ℤ) (h : ∀ r ∈ recs, r.Fits) (n : ℕ) (s : Db)
    (hn : recs.length ≤ n) :
    replayLoop now n (recs.flatMap Record.encode) s = loadRecords now s recs := by
  induction recs generalizing n s with
  | nil => cases n <;> rfl
  | cons r rs ih =>
    obtain ⟨n, rfl⟩ : ∃ m, n = m + 1 := ⟨n - 1, by simp at hn; omega⟩
    rw [flatMap_cons, replayLoop_encode now (h r (by simp))]
    exact ih (fun r' hr' => h r' (by simp [hr'])) n _ (by simpa using hn)

lemma length_le_encodeAll (recs : List Record) : recs.length ≤ (recs.flatMap Record.encode).length := by
  induction recs with
  | nil => simp
  | cons r rs ih =>
    have hr : 1 ≤ r.encode.length := by simp [Record.encode]
    simp only [flatMap_cons, length_append, length_cons]
    omega

lemma replayDumpFile_encode (now : ℤ) (off : ℕ) (h : ∀ r ∈ recs, r.Fits) (s : Db) :
    replayDumpFile now (leBytes 8 off ++ recs.flatMap Record.encode) s =
      (off % 256 ^ 8, loadRecords now s recs) := by
  have hlen := length_le_encodeAll recs
  unfold replayDumpFile
  rw [if_neg (by simp), take_leBytes_append, drop_leBytes_append, leNat_leBytes,
    replayLoop_encodeAll now h _ _ (by rw [length_append]; omega)]

/-! ### The records of a dump -/

lemma mem_of_mapM {f : α → Option β} {l' : List β} (h : l.mapM f = some l')
    {b : β} : b ∈ l' ↔ ∃ a ∈ l, f a = some b := by
  induction l generalizing l' with
  | nil =>
    obtain rfl : [] = l' := by simpa using h
    simp
  | cons a as ih =>
    rw [mapM_cons] at h
    simp only [Option.bind_eq_bind, Option.bind_eq_some_iff, Option.pure_def, Option.some.injEq] at h
    obtain ⟨b', hb', bs, hbs, rfl⟩ := h
    simp [ih hbs, hb', eq_comm]

lemma mapM_eq_none {f : α → Option β} {a : α} (ha : a ∈ l) (hf : f a = none) : l.mapM f = none := by
  induction l with
  | nil => simp at ha
  | cons b l ih =>
    rw [mapM_cons]
    rcases mem_cons.mp ha with rfl | ha
    · rw [hf]
      rfl
    · rw [ih ha]
      cases f b <;> rfl

lemma exists_mapM {f : α → Option β} (h : ∀ a, a ∈ l → (f a).isSome = true) : ∃ l', l.mapM f = some l' := by
  induction l with
  | nil => exact ⟨[], rfl⟩
  | cons a l ih =>
    obtain ⟨b, hb⟩ := Option.isSome_iff_exists.mp (h a mem_cons_self)
    obtain ⟨l', hl⟩ := ih fun c hc => h c (mem_cons_of_mem a hc)
    exact ⟨b :: l', by rw [mapM_cons, hb, hl]; rfl⟩

lemma mem_engineRecords {now : ℤ} {s : Db} {e : Engine} :
    r ∈ engineRecords now s e ↔ ∃ x ∈ s.kv.entries, x.1.1 = e ∧ kvRecord now s x = r := by
  simp [engineRecords, and_assoc]

lemma dumpRecords_eq_some {now : ℤ} {s : Db} (h : dumpRecords now s = some recs) :
    (∀ r ∈ recs, r.Fits) ∧ ∀ r, r ∈ recs ↔
      (∃ x ∈ s.kv.entries, kvRecord now s x = r) ∨ ∃ d ∈ s.docs.entries, docRecord d = some r := by
  simp only [dumpRecords, Option.bind_eq_bind, Option.bind_eq_some_iff] at h
  obtain ⟨docs, hdocs, h⟩ := h
  split at h
  · cases h
    refine ⟨‹_›, fun r => ?_⟩
    simp only [mem_append, mem_engineRecords, mem_of_mapM hdocs]
    refine or_congr ?_ Iff.rfl
    constructor
    · rintro (((h | h) | h) | h) <;> exact ⟨h.choose, h.choose_spec.1, h.choose_spec.2.2⟩
    · rintro ⟨x, hx, hr⟩
      cases he : x.1.1 with
      | array => exact .inl (.inl (.inr ⟨x, hx, he, hr⟩))
      | rbtree => exact .inl (.inr ⟨x, hx, he, hr⟩)
      | hash => exact .inl (.inl (.inl ⟨x, hx, he, hr⟩))
      | skiptable => exact .inr ⟨x, hx, he, hr⟩
  · cases h

end PocketKv.Persistence
