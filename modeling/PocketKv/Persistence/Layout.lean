import PocketKv.Persistence.DumpWriter
import PocketKv.Persistence.Loading
import PocketKv.Storage.Doc
import PocketKv.Storage.HashRefinement
import PocketKv.Storage.RbWalk
import PocketKv.Store.Runs

/-!
# The dump of the engines as they lie in memory
-/

namespace PocketKv.Persistence

open Library Resp Store Storage List

/-- The engines as they lie in memory. -/
structure Layout where
  /-- `global_hash`. -/
  hash : KvsHash
  /-- The slots of `global_array`: a key and its value. -/
  array : ℕ → Option (Bytes × Bytes)
  /-- `global_rbtree`. -/
  rbtree : RbTree
  /-- The keys and values along `forward[0]` of `global_skiptable`. -/
  skiptable : List (Bytes × Bytes)
  /-- `global_doc`. -/
  docs : DocTable

/-! ### A document as text -/

/-- A field, as `"%s=%s "` prints it. -/
def fieldText (f : DocField) : Bytes := f.name ++ 61 :: (f.value ++ [32])

/-- The fields of a chain. -/
def chainText (d : Doc) (j : ℕ) : Bytes := (d.fields j).flatMap fieldText

/-- The first `n` turns of the loop over the chains. -/
def docText (d : Doc) (n : ℕ) : Bytes :=
  (List.range n).foldl (fun text j => if text.length < bufferCap - 4 then text ++ chainText d j else text) []

/-- The text in the buffer, without the last blank; nothing if it is too long. -/
def formatDoc (d : Doc) : Option Bytes :=
  let text := docText d kvsDocFieldBuckets
  if text.length < bufferCap then some (if text.getLast? = some 32 then text.dropLast else text) else none

namespace Layout

/-- The loops over the two tables. -/
def hashWalk (h : KvsHash) : List HashNode :=
  (List.finRange 2).flatMap fun t =>
    if (h.ht t).allocated then (List.range (h.ht t).maxSlots).flatMap (h.ht t).nodes else []

/-- The loop over the slots. -/
def arrayWalk (L : Layout) : List (Bytes × Bytes) := (List.range Store.kvsArraySize).filterMap L.array

/-- The loop over the documents. -/
def docWalk (L : Layout) : List Doc := (List.range L.docs.size).flatMap L.docs.buckets

/-- `DUMP_WRITE_KV_EX` for a key. -/
def entryRecord (now : ℤ) (s : Db) (e : Engine) (x : Bytes × Bytes) : Record := kvRecord now s ⟨(e, x.1), x.2⟩

/-- `DUMP_WRITE_KV_EX` for a document. -/
def docEntry (d : Doc) : Option Record := (formatDoc d).map fun text => ⟨.doc, d.key, text, none⟩

/-- The records of the dump; the deadlines are those of `s`. -/
def records (now : ℤ) (s : Db) (L : Layout) : Option (List Record) := do
  let nodes ← rbWalk L.rbtree (2 * L.rbtree.fresh + 1) L.rbtree.root []
  let docs ← L.docWalk.mapM docEntry
  let recs := (hashWalk L.hash).map (fun n => entryRecord now s .hash (n.key, n.block)) ++
    L.arrayWalk.map (entryRecord now s .array) ++
    nodes.map (fun n => entryRecord now s .rbtree (L.rbtree.entry n)) ++
    L.skiptable.map (entryRecord now s .skiptable) ++ docs
  if ∀ r ∈ recs, r.Fits then some recs else none

end Layout

/-- What is handed to `dump_write_buf` for a record. -/
def Record.pieces (r : Record) : List Bytes :=
  [[r.kind.id], [if r.expire.isSome then 1 else 0], leBytes 4 r.key.length, r.key, leBytes 4 r.value.length, r.value] ++
    (r.expire.map (leBytes 8)).toList

/-- `kvs_dump_to_fd` on the engines as they lie in memory. -/
def Layout.kvsDumpToFd (results : ℕ → ℤ) (now : ℤ) (aofOffset : ℕ) (s : Db) (L : Layout) : Option Bytes :=
  (L.records now s).bind fun recs => dumpPieces results (leBytes 8 aofOffset :: recs.flatMap Record.pieces)

lemma Record.flatten_pieces (r : Record) : r.pieces.flatten = r.encode := by
  rw [pieces, encode, flatten_append]
  cases r.expire <;> simp

lemma flatten_flatMap_pieces (recs : List Record) : (recs.flatMap Record.pieces).flatten = recs.flatMap Record.encode := by
  induction recs with
  | nil => rfl
  | cons r recs ih => rw [flatMap_cons, flatten_append, r.flatten_pieces, ih, flatMap_cons]

lemma Layout.kvsDumpToFd_eq {results : ℕ → ℤ} (h : ∀ n, 0 < results n) (now : ℤ) (aofOffset : ℕ) (s : Db) (L : Layout) :
    L.kvsDumpToFd results now aofOffset s = (L.records now s).map fun recs => leBytes 8 aofOffset ++ recs.flatMap Record.encode := by
  rw [kvsDumpToFd]
  cases L.records now s with
  | none => rfl
  | some recs =>
    rw [Option.bind_some, Option.map_some, dumpPieces_eq h, flatten_cons, flatten_flatMap_pieces]

/-! ### Layouts that hold the data -/

/-- The fields of a document. -/
def docView (s : Db) (d : Bytes) : Option (Bytes → Option Bytes) := (s.docs.lookup d).map fun fields f => fields.lookup f

/-- The engines hold the data. -/
structure Layout.Holds (L : Layout) (s : Db) : Prop where
  hash : ∃ m, Abs L.hash m ∧ ∀ k, m.lookup k = s.kv.lookup (.hash, k)
  array : ∀ k v, s.kv.lookup (.array, k) = some v ↔ ∃ i, i < Store.kvsArraySize ∧ L.array i = some (k, v)
  rbtree : ∃ t, Valid L.rbtree t ∧ t.toList.length < 2 ^ 63 ∧ ∀ k v, s.kv.lookup (.rbtree, k) = some v ↔ (k, v) ∈ t.toList
  skiptable : ∀ k v, s.kv.lookup (.skiptable, k) = some v ↔ (k, v) ∈ L.skiptable
  inv : L.docs.Inv
  docs : L.docs.read = docView s

namespace Layout

lemma mem_tableWalk {tab : Hashtable} (h : tab.allocated = false → tab.all = 0) {n : HashNode} :
    n ∈ (if tab.allocated then (List.range tab.maxSlots).flatMap tab.nodes else []) ↔ n ∈ tab.all := by
  cases hall : tab.allocated with
  | true => rw [if_pos rfl, Hashtable.all, contents_eq_coe, Multiset.mem_coe]
  | false => simp [h hall]

lemma mem_hashWalk {h : KvsHash} (hi : h.Inv) {n : HashNode} : n ∈ hashWalk h ↔ n ∈ h.all := by
  have h0 : (h.ht 0).allocated = false → (h.ht 0).all = 0 := fun hf => by
    rw [hi.live.1] at hf
    cases hf
  have h1 : (h.ht 1).allocated = false → (h.ht 1).all = 0 := by
    intro hf
    cases hidx : h.rehashIdx with
    | none => rw [hi.idle hidx, Hashtable.all_none]
    | some idx =>
      rw [(hi.busy idx hidx).1] at hf
      cases hf
  rw [hashWalk, KvsHash.all, Multiset.mem_add, ← mem_tableWalk h0, ← mem_tableWalk h1, mem_flatMap]
  simp only [mem_finRange, true_and, Fin.exists_fin_two]

variable {d : Doc}

lemma mem_docWalk {L : Layout} : d ∈ L.docWalk ↔ d ∈ L.docs.all := by
  rw [DocTable.all, contents_eq_coe, Multiset.mem_coe]
  rfl

variable {L : Layout} {s : Db} {n : ℕ}

section

variable (h : L.Holds s)
include h

lemma Holds.mem_hash (now : ℤ) (r : Record) :
    r ∈ (hashWalk L.hash).map (fun n => entryRecord now s .hash (n.key, n.block)) ↔
      ∃ k v, s.kv.lookup (.hash, k) = some v ∧ kvRecord now s ⟨(.hash, k), v⟩ = r := by
  obtain ⟨m, habs, hm⟩ := h.hash
  have hrecord : ∀ {n}, n ∈ L.hash.all →
      entryRecord now s .hash (n.key, n.block) = kvRecord now s ⟨(.hash, n.key), n.val⟩ := by
    intro n hn
    have hsound : n.Sound := by
      rcases Multiset.mem_add.mp hn with hn | hn
      · exact (habs.inv.sound 0).nodes n hn
      · exact (habs.inv.sound 1).nodes n hn
    rw [entryRecord, kvRecord, kvRecord, hsound.cstr_block]
  simp only [mem_map, mem_hashWalk habs.inv, ← hm, habs.represents.lookup]
  constructor
  · rintro ⟨n, hn, rfl⟩
    exact ⟨n.key, n.val, ⟨n, hn, rfl, rfl⟩, (hrecord hn).symm⟩
  · rintro ⟨k, v, ⟨n, hn, rfl, rfl⟩, rfl⟩
    exact ⟨n, hn, hrecord hn⟩

omit h in
lemma mem_entries {l : List (Bytes × Bytes)} {e : Engine} (hl : ∀ k v, s.kv.lookup (e, k) = some v ↔ (k, v) ∈ l)
    (now : ℤ) (r : Record) : r ∈ l.map (entryRecord now s e) ↔
      ∃ k v, s.kv.lookup (e, k) = some v ∧ kvRecord now s ⟨(e, k), v⟩ = r := by
  simp only [mem_map, hl, Prod.exists]
  rfl

lemma Holds.mem_array (now : ℤ) (r : Record) :
    r ∈ L.arrayWalk.map (entryRecord now s .array) ↔
      ∃ k v, s.kv.lookup (.array, k) = some v ∧ kvRecord now s ⟨(.array, k), v⟩ = r :=
  mem_entries (fun k v => (h.array k v).trans (by simp [arrayWalk])) now r

lemma Holds.mem_rbtree (now : ℤ) : ∃ nodes,
    rbWalk L.rbtree (2 * L.rbtree.fresh + 1) L.rbtree.root [] = some nodes ∧ ∀ r,
      (r ∈ nodes.map (fun n => entryRecord now s .rbtree (L.rbtree.entry n)) ↔
        ∃ k v, s.kv.lookup (.rbtree, k) = some v ∧ kvRecord now s ⟨(.rbtree, k), v⟩ = r) := by
  obtain ⟨t, hvalid, hsize, ht⟩ := h.rbtree
  refine ⟨inorder t, rbWalk_root hvalid hsize, fun r => ?_⟩
  have hmap : (inorder t).map (fun n => entryRecord now s .rbtree (L.rbtree.entry n)) =
      t.toList.map (entryRecord now s .rbtree) := by
    rw [← map_entry_inorder hvalid.shows.tree, map_map]
    rfl
  rw [hmap]
  exact mem_entries ht now r

lemma Holds.mem_skiptable (now : ℤ) (r : Record) :
    r ∈ L.skiptable.map (entryRecord now s .skiptable) ↔
      ∃ k v, s.kv.lookup (.skiptable, k) = some v ∧ kvRecord now s ⟨(.skiptable, k), v⟩ = r :=
  mem_entries h.skiptable now r

/-! ### The records -/

lemma Holds.lookup_doc (hd : d ∈ L.docs.all) :
    ∃ fields, s.docs.lookup d.key = some fields ∧ ∀ f, d.read f = fields.lookup f := by
  have hread : L.docs.read d.key = some d.read := congrArg (Option.map Doc.read) (h.inv.docFind_iff.mpr ⟨hd, rfl⟩)
  rw [h.docs] at hread
  obtain ⟨fields, hl, heq⟩ := Option.map_eq_some_iff.mp hread
  exact ⟨fields, hl, fun f => (congrFun heq f).symm⟩

end

lemma fits_kvRecord (hs : s.Sound n) (hn : n < 2 ^ 32) (now : ℤ) {x : Slot} {v : Bytes} (hv : s.kv.lookup x = some v) :
    (kvRecord now s ⟨x, v⟩).Fits := by
  have hstore := hs.kv x v hv
  refine ⟨?_, ?_, fun e he => ?_⟩
  · exact ((length_cstr_le _).trans hstore.key_le).trans_lt hn
  · exact ((length_cstr_le _).trans hstore.value_le).trans_lt hn
  · simp only [kvRecord, dumpExpire] at he
    split at he
    · obtain rfl := Option.some.inj he
      omega
    · cases he

lemma length_formatDoc {text : Bytes} (h : formatDoc d = some text) : text.length < bufferCap := by
  unfold formatDoc at h
  simp only at h
  split at h
  · rename_i hlt
    obtain rfl := Option.some.inj h
    split
    · rw [length_dropLast]
      omega
    · exact hlt
  · cases h

lemma fits_docEntry (h : L.Holds s) (hs : s.Sound n) (hn : n < 2 ^ 32) (hd : d ∈ L.docs.all) {r : Record}
    (hr : docEntry d = some r) : r.Fits := by
  obtain ⟨text, htext, rfl⟩ := Option.map_eq_some_iff.mp hr
  obtain ⟨fields, hl, -⟩ := h.lookup_doc hd
  refine ⟨(hs.docs d.key fields hl).2.1.trans_lt hn, ?_, fun e he => (by cases he)⟩
  exact (length_formatDoc htext).trans (by decide)

/-- The records are those of the keys and of the documents. -/
def Recorded (now : ℤ) (s : Db) (L : Layout) (recs : List Record) : Prop :=
  ∀ r, r ∈ recs ↔ (∃ x v, s.kv.lookup x = some v ∧ kvRecord now s ⟨x, v⟩ = r) ∨ ∃ d, d ∈ L.docs.all ∧ docEntry d = some r

lemma Holds.records_eq (h : L.Holds s) (hs : s.Sound n) (hn : n < 2 ^ 32) (now : ℤ)
    (hdocs : ∀ d, d ∈ L.docs.all → (formatDoc d).isSome = true) :
    ∃ recs, L.records now s = some recs ∧ (∀ r ∈ recs, r.Fits) ∧ L.Recorded now s recs := by
  obtain ⟨nodes, hnodes, htree⟩ := h.mem_rbtree now
  have hentry : ∀ d, d ∈ L.docWalk → (docEntry d).isSome = true := fun d hd => by
    rw [docEntry, Option.isSome_map]
    exact hdocs d (mem_docWalk.mp hd)
  obtain ⟨docs, hmap⟩ := exists_mapM hentry
  simp only [records, hnodes, hmap, Option.bind_eq_bind, Option.bind_some]
  generalize hrecs : _ ++ docs = recs
  have hmem : L.Recorded now s recs := by
    intro r
    rw [← hrecs]
    simp only [mem_append, h.mem_hash, h.mem_array, htree, h.mem_skiptable, mem_of_mapM hmap, mem_docWalk]
    refine or_congr ?_ Iff.rfl
    constructor
    · rintro (((⟨k, v, hv, hr⟩ | ⟨k, v, hv, hr⟩) | ⟨k, v, hv, hr⟩) | ⟨k, v, hv, hr⟩) <;> exact ⟨_, v, hv, hr⟩
    · rintro ⟨⟨e, k⟩, v, hv, hr⟩
      cases e with
      | hash => exact .inl (.inl (.inl ⟨k, v, hv, hr⟩))
      | array => exact .inl (.inl (.inr ⟨k, v, hv, hr⟩))
      | rbtree => exact .inl (.inr ⟨k, v, hv, hr⟩)
      | skiptable => exact .inr ⟨k, v, hv, hr⟩
  have hfits : ∀ r ∈ recs, r.Fits := by
    intro r hr
    rcases (hmem r).mp hr with ⟨x, v, hv, rfl⟩ | ⟨d, hd, hr⟩
    · exact fits_kvRecord hs hn now hv
    · exact fits_docEntry h hs hn hd hr
  exact ⟨recs, if_pos hfits, hfits, hmem⟩

lemma records_none (hd : d ∈ L.docs.all) (hnone : formatDoc d = none) (now : ℤ) (s : Db) : L.records now s = none := by
  have hmap : L.docWalk.mapM docEntry = none := mapM_eq_none (mem_docWalk.mpr hd) (by rw [docEntry, hnone]; rfl)
  simp only [records, hmap, Option.bind_eq_bind, Option.bind_none, Option.bind_fun_none]

end Layout

end PocketKv.Persistence
