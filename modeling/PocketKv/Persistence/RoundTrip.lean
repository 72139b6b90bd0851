import PocketKv.Persistence.Layout
import PocketKv.Persistence.Restore

/-!
# Dump and load
-/

namespace PocketKv.Persistence

open Library Resp Store Storage List

/-! ### The text of a document -/

/-- The length of the text of a field. -/
def fieldLen (f : DocField) : ℕ := f.name.length + f.value.length + 2

/-- The length of the text after the first `n` chains. -/
def docLen (d : Doc) (n : ℕ) : ℕ :=
  (List.range n).foldl (fun len j => if len < bufferCap - 4 then len + ((d.fields j).map fieldLen).sum else len) 0

lemma docText_succ (d : Doc) (n : ℕ) : docText d (n + 1) =
    if (docText d n).length < bufferCap - 4 then docText d n ++ chainText d n else docText d n := by
  rw [docText, range_succ, foldl_append]
  rfl

lemma docLen_succ (d : Doc) (n : ℕ) : docLen d (n + 1) =
    if docLen d n < bufferCap - 4 then docLen d n + ((d.fields n).map fieldLen).sum else docLen d n := by
  rw [docLen, range_succ, foldl_append]
  rfl

lemma length_chainText (d : Doc) (j : ℕ) : (chainText d j).length = ((d.fields j).map fieldLen).sum := by
  rw [chainText, length_flatMap]
  congr 1
  refine map_congr_left fun f _ => ?_
  simp only [fieldText, fieldLen, length_append, length_cons, length_nil]
  omega

lemma length_docText (d : Doc) (n : ℕ) : (docText d n).length = docLen d n := by
  induction n with
  | zero => rfl
  | succ n ih =>
    rw [docText_succ, docLen_succ, ih]
    split
    · rw [length_append, ih, length_chainText]
    · exact ih

lemma isSome_formatDoc (d : Doc) : (formatDoc d).isSome = true ↔ docLen d kvsDocFieldBuckets < bufferCap := by
  unfold formatDoc
  simp only [length_docText]
  split <;> simp [*]

/-! ### Loading the records -/

variable {now : ℤ} {results : ℕ → ℤ} {docs : DocTable}

section Load

variable {L : Layout} {s : Db} {n : ℕ} {recs : List Record}

lemma card_arrayKeys (L : Layout) : (L.arrayWalk.map fun x => (Engine.array, cstr x.1)).toFinset.card ≤ Store.kvsArraySize := by
  refine (toFinset_card_le _).trans ?_
  rw [length_map]
  exact (length_filterMap_le _ _).trans_eq length_range

lemma card_docKeys (h : L.Holds s) : (L.docWalk.map fun d => cstr d.key).toFinset.card ≤ docTableMax := by
  refine (toFinset_card_le _).trans ?_
  have hlen : L.docWalk.length = L.docs.all.card := by
    rw [DocTable.all, contents_eq_coe]
    rfl
  have hcount := h.inv.count
  have hle := h.inv.count_le
  have hsize : L.docs.size ≤ docTableMax := Nat.le_of_dvd (Nat.two_pow_pos 22) h.inv.size_dvd
  rw [length_map, hlen]
  omega

lemma load_dump (h : L.Holds s) (hs : s.Sound n) (hn : n < 2 ^ 32) (hres : ∀ i, 0 < results i)
    (now now' : ℤ) (off : ℕ) (hdocs : ∀ d, d ∈ L.docs.all → docLen d kvsDocFieldBuckets < bufferCap) :
    ∃ (file : Bytes) (recs : List Record), L.kvsDumpToFd results now off s = some file ∧
      (replayDumpFile now' file .empty).2.read = applyWrites (fun _ => none) (recs.flatMap (recordWrites now')) ∧
      L.Recorded now s recs := by
  obtain ⟨recs, hrecs, hfits, hmem⟩ := h.records_eq hs hn now fun d hd => (isSome_formatDoc d).mpr (hdocs d hd)
  refine ⟨_, recs, by rw [Layout.kvsDumpToFd_eq hres, hrecs]; rfl, ?_, hmem⟩
  have hamong : ∀ r ∈ recs, r.Among (L.arrayWalk.map fun x => (Engine.array, cstr x.1)).toFinset
      (L.docWalk.map fun d => cstr d.key).toFinset := by
    intro r hr
    rcases (hmem r).mp hr with ⟨⟨e, k⟩, v, hv, rfl⟩ | ⟨d, hd, hr⟩
    · refine ⟨fun hkind => ?_, fun hkind => (by cases hkind)⟩
      obtain rfl : e = .array := by simpa [kvRecord] using hkind
      obtain ⟨i, hi, hslot⟩ := (h.array k v).mp hv
      refine mem_toFinset.mpr (mem_map.mpr ⟨(k, v), ?_, by simp [kvRecord, cstr_cstr]⟩)
      exact mem_filterMap.mpr ⟨i, mem_range.mpr hi, hslot⟩
    · obtain ⟨text, -, rfl⟩ := Option.map_eq_some_iff.mp hr
      refine ⟨fun hkind => (by cases hkind), fun _ => mem_toFinset.mpr (mem_map.mpr ⟨d, ?_, rfl⟩)⟩
      exact Layout.mem_docWalk.mpr hd
  rw [replayDumpFile_encode now' off hfits, loadRecords_writes now' (card_arrayKeys L) (card_docKeys h) hamong within_empty,
    Db.read_empty]

/-! ### The keys -/

lemma mem_recordWrites_kv {r : Record} {x : Slot} {w : Val} :
    (Cell.kv x, w) ∈ recordWrites now r ↔ r.IsOf x ∧ w = .bytes (cstr r.value) := by
  have hexpire : ∀ e, (Cell.kv x, w) ∉ expireWrites now r.kind r.key e := by
    intro e hmem
    unfold expireWrites at hmem
    generalize r.kind = kind at hmem
    cases kind with
    | doc => simp at hmem
    | kv e' =>
      simp only at hmem
      split at hmem <;> simp at hmem
  have hentry : (Cell.kv x, w) ∈ entryWrites r.kind r.key r.value ↔ r.IsOf x ∧ w = .bytes (cstr r.value) := by
    unfold entryWrites Record.IsOf
    cases r.kind with
    | doc => simp
    | kv e => simp [Prod.ext_iff, eq_comm]
  rw [recordWrites, mem_append, hentry]
  refine ⟨fun h => h.resolve_right fun hmem => ?_, .inl⟩
  cases hx : r.expire with
  | none => simp [hx] at hmem
  | some e =>
    rw [hx] at hmem
    exact hexpire e hmem

lemma isOf_kvRecord (hs : s.Sound n) {x y : Slot} {v : Bytes} (hv : s.kv.lookup x = some v) (now : ℤ) :
    (kvRecord now s ⟨x, v⟩).IsOf y ↔ x = y := by
  have hkey : cstr x.2 = x.2 := cstr_eq_self fun b hb h0 => (hs.kv x v hv).key (h0 ▸ hb)
  simp [Record.IsOf, kvRecord, hkey, Prod.ext_iff]

/-- The records of keys are those of the data. -/
def KeyRecords (now : ℤ) (s : Db) (recs : List Record) : Prop :=
  ∀ r, (r ∈ recs ∧ r.kind ≠ .doc) ↔ ∃ x v, s.kv.lookup x = some v ∧ kvRecord now s ⟨x, v⟩ = r

lemma keyRecords_of_mem {isDoc : Record → Prop} (hdoc : ∀ r, isDoc r → r.kind = .doc)
    (hmem : ∀ r, r ∈ recs ↔ (∃ x v, s.kv.lookup x = some v ∧ kvRecord now s ⟨x, v⟩ = r) ∨ isDoc r) : KeyRecords now s recs := by
  intro r
  rw [hmem]
  constructor
  · rintro ⟨hr, hkind⟩
    exact hr.resolve_right fun h => hkind (hdoc r h)
  · rintro ⟨x, v, hv, rfl⟩
    exact ⟨.inl ⟨x, v, hv, rfl⟩, fun h => by cases h⟩

lemma kind_docEntry {L : Layout} (r : Record) (h : ∃ d, d ∈ L.docs.all ∧ Layout.docEntry d = some r) : r.kind = .doc := by
  obtain ⟨d, -, hr⟩ := h
  obtain ⟨text, -, rfl⟩ := Option.map_eq_some_iff.mp hr
  rfl

lemma keyRecords_of_dump (h : dumpRecords now s = some recs) : KeyRecords now s recs := by
  have hdoc : ∀ r, (∃ d ∈ s.docs.entries, docRecord d = some r) → r.kind = .doc := by
    rintro r ⟨d, -, hr⟩
    unfold docRecord at hr
    simp only at hr
    split at hr
    · cases hr
      rfl
    · cases hr
  refine keyRecords_of_mem hdoc fun r => ((dumpRecords_eq_some h).2 r).trans (or_congr_left ?_)
  constructor
  · rintro ⟨x, hx, rfl⟩
    exact ⟨x.1, x.2, AList.mem_lookup_iff.mpr hx, rfl⟩
  · rintro ⟨x, v, hv, rfl⟩
    exact ⟨⟨x, v⟩, AList.mem_lookup_iff.mp hv, rfl⟩

variable (hmem : KeyRecords now s recs)
include hmem

lemma isOf_iff (hs : s.Sound n) {r : Record} {x : Slot} :
    (r ∈ recs ∧ r.IsOf x) ↔ ∃ v, s.kv.lookup x = some v ∧ r = kvRecord now s ⟨x, v⟩ := by
  constructor
  · rintro ⟨hr, hof⟩
    obtain ⟨y, v, hv, rfl⟩ := (hmem r).mp ⟨hr, fun h => by cases hof.1.symm.trans h⟩
    obtain rfl := (isOf_kvRecord hs hv now).mp hof
    exact ⟨v, hv, rfl⟩
  · rintro ⟨v, hv, rfl⟩
    exact ⟨((hmem _).mpr ⟨x, v, hv, rfl⟩).1, (isOf_kvRecord hs hv now).mpr rfl⟩

lemma loaded_kv (hs : s.Sound n) (now' : ℤ) (x : Slot) :
    applyWrites (fun _ => none) (recs.flatMap (recordWrites now')) (.kv x) = (s.kv.lookup x).map fun v => .bytes (cstr v) := by
  refine applyWrites_cell (fun w hw => ?_) fun hne => ?_
  · obtain ⟨r, hr, hw⟩ := mem_flatMap.mp hw
    obtain ⟨hof, rfl⟩ := mem_recordWrites_kv.mp hw
    obtain ⟨v, hv, rfl⟩ := (isOf_iff hmem hs).mp ⟨hr, hof⟩
    rw [hv, Option.map_some, kvRecord, cstr_cstr]
  · obtain ⟨w, hw⟩ := Option.ne_none_iff_exists'.mp hne
    obtain ⟨v, hv, -⟩ := Option.map_eq_some_iff.mp hw
    obtain ⟨hr, hof⟩ := (isOf_iff hmem hs).mpr ⟨v, hv, rfl⟩
    exact mem_map.mpr ⟨_, mem_flatMap.mpr ⟨_, hr, mem_recordWrites_kv.mpr ⟨hof, rfl⟩⟩, rfl⟩

omit hmem in
lemma mortal_kvRecord {now' : ℤ} (hs : s.Sound n) (hnow : 1000 ≤ now) (hle : now ≤ now') (hlive : s.Lasts now') (x : Slot) (v : Bytes) :
    (kvRecord now s ⟨x, v⟩).Mortal now' ↔ x ∈ s.ttl := by
  cases hd : s.ttl.lookup x with
  | none =>
    have hnone : dumpExpire now s x.1 x.2 = none := by simp [dumpExpire, expireTtl, hd]
    refine iff_of_false (fun hm => ?_) (AList.lookup_eq_none.mp hd)
    obtain ⟨e, he, -⟩ := hm
    rw [kvRecord, hnone] at he
    cases he
  | some d =>
    have hlt := hlive x d hd
    have hmax := hs.ttl x d hd
    have hsome : dumpExpire now s x.1 x.2 = some ((now + (d - now + 999) / 1000 * 1000) % 2 ^ 64).toNat := by
      have hpos : ¬ d ≤ now := by omega
      have hdiv : 0 ≤ (d - now + 999) / 1000 := by omega
      simp [dumpExpire, expireTtl, hd, hpos, hdiv]
    refine iff_of_true ⟨_, hsome, ?_⟩ (mem_of_lookup hd)
    have hexp : (now + (d - now + 999) / 1000 * 1000) % 2 ^ 64 = now + (d - now + 999) / 1000 * 1000 := by omega
    rw [hexp, Int.toNat_of_nonneg (by omega), wrap64_of_lt (by omega) (by omega)]
    omega

lemma loaded_ttl {now' : ℤ} (hs : s.Sound n) (hnow : 1000 ≤ now) (hle : now ≤ now') (hlive : s.Lasts now') (x : Slot) :
    applyWrites (fun _ => none) (recs.flatMap (recordWrites now')) (.ttl x) ≠ none ↔ x ∈ s.ttl := by
  have hcell : Cell.ttl x ∈ (recs.flatMap (recordWrites now')).map Prod.fst ↔ x ∈ s.ttl := by
    rw [map_flatMap, mem_flatMap]
    constructor
    · rintro ⟨r, hr, hcell⟩
      obtain ⟨hof, hmortal⟩ := mem_recordCells_ttl.mp hcell
      obtain ⟨v, hv, rfl⟩ := (isOf_iff hmem hs).mp ⟨hr, hof⟩
      exact (mortal_kvRecord hs hnow hle hlive x v).mp hmortal
    · intro hx
      obtain ⟨v, hv⟩ := exists_lookup (hs.coherent x hx)
      obtain ⟨hr, hof⟩ := (isOf_iff hmem hs).mpr ⟨v, hv, rfl⟩
      exact ⟨_, hr, mem_recordCells_ttl.mpr ⟨hof, (mortal_kvRecord hs hnow hle hlive x v).mpr hx⟩⟩
  rw [← hcell]
  exact ⟨mem_of_applyWrites, fun h => applyWrites_ne_none_of_mem h _⟩

variable {now' : ℤ} {s' : Db} (hread : s'.read = applyWrites (fun _ => none) (recs.flatMap (recordWrites now')))
include hread

lemma lookup_loaded (hs : s.Sound n) (x : Slot) : s'.kv.lookup x = (s.kv.lookup x).map cstr := by
  have hcell : s'.read (.kv x) = (s.kv.lookup x).map fun v => .bytes (cstr v) := hread ▸ loaded_kv hmem hs now' x
  exact map_bytes_inj (hcell.trans (Option.map_map _ _ _).symm)

lemma mem_ttl_loaded (hs : s.Sound n) (hnow : 1000 ≤ now) (hle : now ≤ now') (hlive : s.Lasts now') (x : Slot) :
    x ∈ s'.ttl ↔ x ∈ s.ttl := by
  rw [← loaded_ttl hmem hs hnow hle hlive x, ← hread, Db.read_ttl_ne_none]

end Load

lemma cstr_eq_iff (v : Bytes) : cstr v = v ↔ 0 ∉ v :=
  ⟨fun h => h ▸ isCstr_cstr v, fun h => cstr_eq_self fun _ hb h0 => h (h0 ▸ hb)⟩

lemma docLen_of_dump {L : Layout} {s : Db} {off : ℕ} {file : Bytes}
    (h : L.kvsDumpToFd results now off s = some file) : ∀ d, d ∈ L.docs.all → docLen d kvsDocFieldBuckets < bufferCap := by
  intro d hd
  rw [← isSome_formatDoc, Option.isSome_iff_ne_none]
  intro hnone
  rw [Layout.kvsDumpToFd, Layout.records_none hd hnone] at h
  cases h

/-- **The keys come back from a dump**, with their values and deadlines, exactly if no value of the hash engine has
a NUL byte and every document fits into its buffer. -/
theorem kv_dump_round_trip {evs : List (ℤ × StoreEvent)} (hargs : ∀ ev, ev ∈ evs → ev.2.Within (2 ^ 32 - 1)) {L : Layout}
    (hL : L.Holds (runEvents evs)) {results : ℕ → ℤ} (hres : ∀ i, 0 < results i) {now now' : ℤ} (hnow : 1000 ≤ now)
    (hle : now ≤ now') (hlive : (runEvents evs).Lasts now') (off : ℕ) :
    (∃ file, L.kvsDumpToFd results now off (runEvents evs) = some file ∧
      (∀ x, (replayDumpFile now' file .empty).2.kv.lookup x = (runEvents evs).kv.lookup x) ∧
      ∀ x, x ∈ (replayDumpFile now' file .empty).2.ttl ↔ x ∈ (runEvents evs).ttl) ↔
    (∀ d, d ∈ L.docs.all → docLen d kvsDocFieldBuckets < bufferCap) ∧
      ∀ k v, (runEvents evs).kv.lookup (.hash, k) = some v → 0 ∉ v := by
  have hs := sound_runEvents hargs
  have hload := load_dump hL hs (by decide) hres now now' off
  constructor
  · rintro ⟨file, hfile, hkv, -⟩
    have hdocs := docLen_of_dump hfile
    refine ⟨hdocs, fun k v hv => ?_⟩
    obtain ⟨file', recs, hfile', hread, hmem⟩ := hload hdocs
    obtain rfl := Option.some.inj (hfile.symm.trans hfile')
    have hl := lookup_loaded (keyRecords_of_mem kind_docEntry hmem) hread hs (.hash, k)
    rw [hkv, hv, Option.map_some] at hl
    exact (cstr_eq_iff v).mp (Option.some.inj hl).symm
  · rintro ⟨hdocs, hnul⟩
    obtain ⟨file, recs, hfile, hread, hmem⟩ := hload hdocs
    have hmem := keyRecords_of_mem kind_docEntry hmem
    refine ⟨file, hfile, fun x => ?_, mem_ttl_loaded hmem hread hs hnow hle hlive⟩
    rw [lookup_loaded hmem hread hs x]
    cases hv : (runEvents evs).kv.lookup x with
    | none => rfl
    | some v =>
      refine congrArg some ((cstr_eq_iff v).mpr ?_)
      obtain ⟨e, k⟩ := x
      cases e with
      | hash => exact hnul k v hv
      | array | rbtree | skiptable => exact (hs.kv _ v hv).value (fun h => by cases h)

/-! ### Small layouts -/

/-- Only the hash engine and the documents are in use. -/
def smallLayout (h : KvsHash) (docs : DocTable) : Layout where
  hash := h
  array _ := none
  rbtree := kvsRbtreeCreate fun _ => ⟨.black, 0, 0, 0, [], []⟩
  skiptable := []
  docs := docs

lemma holds_smallLayout {h : KvsHash} {m : Store.Table Bytes Bytes} {s : Db} (hash : Abs h m)
    (hkv : ∀ x, s.kv.lookup x = if x.1 = .hash then m.lookup x.2 else none) (hinv : docs.Inv) (hdocs : docs.read = docView s) :
    (smallLayout h docs).Holds s where
  hash := ⟨m, hash, fun k => by rw [hkv, if_pos rfl]⟩
  array k v := iff_of_false (by rw [hkv, if_neg (by simp)]; simp) (by simp [smallLayout])
  rbtree := by
    obtain ⟨t, hvalid, hrep⟩ := treeAbs_create fun _ => ⟨.black, 0, 0, 0, [], []⟩
    have hnil : t.toList = [] := eq_nil_iff_forall_not_mem.mpr fun x hx => by
      cases hrep.lookup_of_mem (Multiset.mem_coe.mpr hx)
    refine ⟨t, hvalid, by simp [hnil], fun k v => ?_⟩
    rw [hkv, if_neg (by simp), hnil]
    simp
  skiptable k v := by
    rw [hkv, if_neg (by simp)]
    simp [smallLayout]
  inv := hinv
  docs := hdocs

lemma lookup_hash_insert {kv : Store.Table Slot Bytes} {m : Store.Table Bytes Bytes}
    (h : ∀ x, kv.lookup x = if x.1 = .hash then m.lookup x.2 else none) (k v : Bytes) (x : Slot) :
    (kv.insert (.hash, k) v).lookup x = if x.1 = .hash then (m.insert k v).lookup x.2 else none := by
  rw [lookup_insert_eq, lookup_insert_eq, h]
  by_cases he : x.1 = .hash <;> simp [he, Prod.ext_iff]

/-- The hash engine after `HSET k v`. -/
def oneKey (v : Bytes) : Layout := smallLayout (kvsHashSetLen (kvsHashCreate fun _ => (1, 2)) (str "k") v).2 kvsDocCreate

/-- `HSET k v`. -/
def setKey (v : Bytes) : List (ℤ × StoreEvent) := [(1000, .command [str "HSET", str "k", v])]

lemma runEvents_setKey (v : Bytes) : runEvents (setKey v) = ⟨AList.insert (.hash, str "k") v ∅, ∅, ∅⟩ := rfl

lemma holds_oneKey (v : Bytes) : (oneKey v).Holds (runEvents (setKey v)) := by
  have hset := (abs_create fun _ => (1, 2)).setBytes (by decide) (cstr (str "k")) v
  rw [runEvents_setKey]
  exact holds_smallLayout hset.2 (lookup_hash_insert (fun x => by simp) _ v) DocTable.inv_create rfl

lemma within_setKey {v : Bytes} {n : ℕ} (hn : 4 ≤ n) (hv : v.length ≤ n) : ∀ ev, ev ∈ setKey v → ev.2.Within n := by
  intro ev hev
  obtain rfl := mem_singleton.mp hev
  intro a ha
  simp only [mem_cons, not_mem_nil, or_false] at ha
  rcases ha with rfl | rfl | rfl
  · exact hn
  · exact le_trans (by decide) hn
  · exact hv

lemma fits_of_all_zero (h : docs.all = 0) : ∀ d, d ∈ docs.all → docLen d kvsDocFieldBuckets < bufferCap := by
  intro d hd
  rw [h] at hd
  exact absurd hd (Multiset.notMem_zero d)

lemma fits_oneKey (v : Bytes) : ∀ d, d ∈ (oneKey v).docs.all → docLen d kvsDocFieldBuckets < bufferCap :=
  fits_of_all_zero DocTable.all_create

/-- Three keys, one of them with a deadline. -/
def setKeys : List (ℤ × StoreEvent) :=
  [(1000, .command [str "HSET", str "k", str "v"]), (1000, .command [str "HSETEX", str "l", str "50", str "w"]),
    (1500, .command [str "HSET", str "m", str "x"])]

/-- The hash engine after them. -/
def threeKeys : Layout :=
  smallLayout ([("k", "v"), ("l", "w"), ("m", "x")].foldl (fun h kv => (kvsHashSetLen h (str kv.1) (str kv.2)).2)
    (kvsHashCreate fun _ => (1, 2))) kvsDocCreate

lemma runEvents_setKeys : runEvents setKeys =
    ⟨AList.insert (.hash, str "m") (str "x") (AList.insert (.hash, str "l") (str "w")
      (AList.insert (.hash, str "k") (str "v") ∅)), AList.insert (.hash, str "l") 51000 ∅, ∅⟩ := rfl

lemma holds_threeKeys : threeKeys.Holds (runEvents setKeys) := by
  have h₁ := ((abs_create fun _ => (1, 2)).setBytes (by decide) (cstr (str "k")) (str "v")).2
  have h₂ := (h₁.setBytes (by decide +kernel) (cstr (str "l")) (str "w")).2
  have h₃ := (h₂.setBytes (by decide +kernel) (cstr (str "m")) (str "x")).2
  rw [runEvents_setKeys]
  refine holds_smallLayout h₃ ?_ DocTable.inv_create rfl
  exact lookup_hash_insert (lookup_hash_insert (lookup_hash_insert (fun x => by simp) _ _) _ _) _ _

/-- The values are C strings, and the deadline is not past. -/
theorem kv_dump_round_trip_text : ∃ file, threeKeys.kvsDumpToFd (fun _ => 1) 2000 0 (runEvents setKeys) = some file ∧
    (∀ x, (replayDumpFile 3000 file .empty).2.kv.lookup x = (runEvents setKeys).kv.lookup x) ∧
    ∀ x, x ∈ (replayDumpFile 3000 file .empty).2.ttl ↔ x ∈ (runEvents setKeys).ttl := by
  have hargs : ∀ ev, ev ∈ setKeys → ev.2.Within (2 ^ 32 - 1) := by
    intro ev hev
    simp only [setKeys, mem_cons, not_mem_nil, or_false] at hev
    rcases hev with rfl | rfl | rfl <;> unfold StoreEvent.Within <;> decide
  refine (kv_dump_round_trip hargs holds_threeKeys (fun _ => Int.one_pos) (by decide) (by decide) (fun x d hd => ?_) 0).mpr
    ⟨fits_of_all_zero DocTable.all_create, fun k v hv => ?_⟩
  · rw [runEvents_setKeys, lookup_insert_eq] at hd
    split at hd
    · cases hd
      decide
    · cases hd
  · rw [runEvents_setKeys] at hv
    simp only [lookup_insert_eq] at hv
    split_ifs at hv <;> cases hv <;> decide

/-- **A value is cut at its first NUL byte**: what `HSET` has stored as `a`, 0, `b` is `a` after the dump was loaded. -/
theorem kv_dump_cuts_value : ∃ file, (oneKey [97, 0, 98]).kvsDumpToFd (fun _ => 1) 2000 0 (runEvents (setKey [97, 0, 98])) = some file ∧
    (runEvents (setKey [97, 0, 98])).kv.lookup (.hash, str "k") = some [97, 0, 98] ∧
    (replayDumpFile 3000 file .empty).2.kv.lookup (.hash, str "k") = some [97] := by
  have hs := sound_runEvents (within_setKey (v := [97, 0, 98]) (n := 4) (by decide) (by decide))
  obtain ⟨file, recs, hfile, hread, hmem⟩ := load_dump (holds_oneKey [97, 0, 98]) hs (by decide) (fun _ => Int.one_pos)
    2000 3000 0 (fits_oneKey _)
  refine ⟨file, hfile, rfl, ?_⟩
  rw [lookup_loaded (keyRecords_of_mem kind_docEntry hmem) hread hs]
  rfl

end PocketKv.Persistence
