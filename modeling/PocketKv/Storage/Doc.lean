import PocketKv.Library.Chains
import PocketKv.Storage.Engine

/-!
# The document engine
-/

namespace PocketKv.Storage

open Library Resp Function Option Multiset

/-- `kvs_doc_field_t`. -/
structure DocField where
  name : Bytes
  value : Bytes
  deriving DecidableEq

/-- `kvs_doc_t`. -/
structure Doc where
  key : Bytes
  fields : ℕ → List DocField
  fieldCount : ℤ

/-- `kvs_doc_table_t`. -/
structure DocTable where
  buckets : ℕ → List Doc
  size : ℕ
  count : ℤ

/-- `KVS_DOC_BUCKETS`. -/
def kvsDocBuckets : ℕ := 1024

/-- `KVS_DOC_FIELD_BUCKETS`, the `bucket_count` of every document. -/
def kvsDocFieldBuckets : ℕ := 16

/-- The largest size of the table, `1 << 22`. -/
def docSizeMax : ℕ := 2 ^ 22

/-- The hash of `doc_hash`. -/
def fnv1a (key : Bytes) : UInt32 := key.foldl (fun h b => (h ^^^ b.toUInt32) * 16777619) 2166136261

/-- `doc_hash`. -/
def docHash (key : Bytes) (buckets : ℕ) : ℕ := (fnv1a key).toNat % buckets

/-- `kvs_doc_create`. -/
def kvsDocCreate : DocTable := ⟨fun _ => [], kvsDocBuckets, 0⟩

/-- `doc_find`. -/
def docFind (tab : DocTable) (key : Bytes) : Option Doc :=
  (tab.buckets (docHash key tab.size)).find? fun d => d.key = key

/-- A document at the head of its new chain. -/
def docRelink (size : ℕ) (nb : ℕ → List Doc) (d : Doc) : ℕ → List Doc :=
  update nb (docHash d.key size) (d :: nb (docHash d.key size))

/-- The loop of `doc_rehash`. -/
def docRehashLoop (tab : DocTable) (size : ℕ) : ℕ → List Doc :=
  (List.range tab.size).foldl (fun nb i => (tab.buckets i).foldl (docRelink size) nb) fun _ => []

/-- `doc_rehash`. -/
def docRehash (tab : DocTable) : Option DocTable :=
  if docSizeMax < tab.size * 2 then none
  else some { tab with buckets := docRehashLoop tab (tab.size * 2), size := tab.size * 2 }

/-- The table is doubled if it has a document for each chain. -/
def docGrow (tab : DocTable) : Option DocTable := if tab.size ≤ tab.count then docRehash tab else some tab

/-- `doc_create_entry`. -/
def docCreateEntry (tab : DocTable) (key : Bytes) : Option DocTable :=
  (docGrow tab).map fun tab =>
    let idx := docHash key tab.size
    { tab with
      buckets := update tab.buckets idx (⟨key, fun _ => [], 0⟩ :: tab.buckets idx), count := tab.count + 1 }

/-- `field_find`. -/
def fieldFind (d : Doc) (name : Bytes) : Option DocField :=
  (d.fields (docHash name kvsDocFieldBuckets)).find? fun f => f.name = name

/-- `kvs_doc_set`, once there is the document. -/
def docSetField (d : Doc) (field value : Bytes) : Doc :=
  let idx := docHash field kvsDocFieldBuckets
  match fieldFind d field with
  | some _ =>
    let chain := modifyFirst (fun f => f.name = field) ({ · with value := value }) (d.fields idx)
    { d with fields := update d.fields idx chain }
  | none =>
    { d with fields := update d.fields idx (⟨field, value⟩ :: d.fields idx), fieldCount := wrap32 (d.fieldCount + 1) }

/-- The document with the key is changed. -/
def DocTable.modify (tab : DocTable) (key : Bytes) (f : Doc → Doc) : DocTable :=
  let idx := docHash key tab.size
  { tab with buckets := update tab.buckets idx (modifyFirst (fun d => d.key = key) f (tab.buckets idx)) }

/-- `kvs_doc_set`. -/
def kvsDocSet (tab : DocTable) (key field value : Bytes) : ℤ × DocTable :=
  match (docFind tab key).elim (docCreateEntry tab key) fun _ => some tab with
  | none => (-1, tab)
  | some tab => (0, tab.modify key (docSetField · field value))

/-- `kvs_doc_get`. -/
def kvsDocGet (tab : DocTable) (key field : Bytes) : Option Bytes :=
  (docFind tab key).bind fun d => (fieldFind d field).map DocField.value

/-- A field leaves its chain. -/
def docDropField (d : Doc) (field : Bytes) : Doc :=
  let idx := docHash field kvsDocFieldBuckets
  { d with
    fields := update d.fields idx ((d.fields idx).eraseP fun f => f.name = field), fieldCount := wrap32 (d.fieldCount - 1) }

/-- `kvs_doc_del_field`. -/
def kvsDocDelField (tab : DocTable) (key field : Bytes) : ℤ × DocTable :=
  match docFind tab key with
  | none => (1, tab)
  | some d =>
    match fieldFind d field with
    | none => (1, tab)
    | some _ => (0, tab.modify key (docDropField · field))

/-- `kvs_doc_del`. -/
def kvsDocDel (tab : DocTable) (key : Bytes) : ℤ × DocTable :=
  match docFind tab key with
  | none => (1, tab)
  | some _ =>
    let idx := docHash key tab.size
    (0, { tab with
      buckets := update tab.buckets idx ((tab.buckets idx).eraseP fun d => d.key = key), count := tab.count - 1 })

/-- `kvs_doc_exist`. -/
def kvsDocExist (tab : DocTable) (key : Bytes) : ℤ := if (docFind tab key).isSome then 0 else 1

/-- `kvs_doc_field_exist`. -/
def kvsDocFieldExist (tab : DocTable) (key field : Bytes) : ℤ :=
  match docFind tab key with
  | none => 1
  | some d => if (fieldFind d field).isSome then 0 else 1

/-- `kvs_doc_field_count`. -/
def kvsDocFieldCount (tab : DocTable) (key : Bytes) : ℤ := ((docFind tab key).map Doc.fieldCount).getD (-1)

/-! ### The fields of a document -/

variable {n : ℕ}

namespace Doc

variable {d : Doc} {field value : Bytes}

/-- The fields of a document. -/
def all (d : Doc) : Multiset DocField := contents d.fields kvsDocFieldBuckets

/-- Every field is in the chain that its name selects, no name is there twice, and the fields are counted in
an `int`. -/
structure Inv (d : Doc) : Prop where
  placed : Placed DocField.name (docHash · kvsDocFieldBuckets) d.fields kvsDocFieldBuckets
  count : d.fieldCount = wrap32 d.all.card

/-- The value of a field. -/
def read (d : Doc) (field : Bytes) : Option Bytes := (fieldFind d field).map DocField.value

lemma docHash_lt (key : Bytes) (h : 0 < n) : docHash key n < n := Nat.mod_lt _ h

lemma inv_empty (key : Bytes) : Inv ⟨key, fun _ => [], 0⟩ :=
  ⟨placed_nil _ fun k => docHash_lt k (by decide), by rw [all, contents_nil]; rfl⟩

lemma Inv.fieldFind_iff (h : d.Inv) {f : DocField} : fieldFind d field = some f ↔ f ∈ d.all ∧ f.name = field :=
  h.placed.find_iff

lemma Inv.fieldFind_none (h : d.Inv) : fieldFind d field = none ↔ ∀ f, f ∈ d.all → f.name ≠ field :=
  h.placed.find_none_iff

lemma Inv.read_iff (h : d.Inv) : d.read field = some value ↔ ⟨field, value⟩ ∈ d.all := by
  rw [read, map_eq_some_iff]
  constructor
  · rintro ⟨f, hf, rfl⟩
    obtain ⟨hmem, rfl⟩ := h.fieldFind_iff.mp hf
    exact hmem
  · intro hmem
    exact ⟨⟨field, value⟩, h.fieldFind_iff.mpr ⟨hmem, rfl⟩, rfl⟩

lemma key_docSetField (d : Doc) (field value : Bytes) : (docSetField d field value).key = d.key := by
  unfold docSetField
  split <;> rfl

lemma Inv.setField (h : d.Inv) (field value : Bytes) :
    (docSetField d field value).Inv ∧ (docSetField d field value).read = update d.read field (some value) := by
  cases hfind : fieldFind d field with
  | none =>
    have hnew : ∀ f, f ∈ contents d.fields kvsDocFieldBuckets → f.name ≠ DocField.name ⟨field, value⟩ :=
      h.fieldFind_none.mp hfind
    obtain ⟨hplaced, hall⟩ := h.placed.cons hnew
    have hnext : docSetField d field value =
        { d with
          fields := update d.fields (docHash field kvsDocFieldBuckets)
            (⟨field, value⟩ :: d.fields (docHash field kvsDocFieldBuckets))
          fieldCount := wrap32 (d.fieldCount + 1) } := by
      simp only [docSetField, hfind]
    rw [hnext]
    refine ⟨⟨hplaced, ?_⟩, funext fun k => ?_⟩
    · rw [all, hall, card_cons, h.count, all, Nat.cast_succ, wrap32_wrap32_add]
    · rw [read, fieldFind, h.placed.find_cons hnew, update_apply, apply_ite (Option.map DocField.value)]
      rfl
  | some f =>
    obtain ⟨hmem, rfl⟩ := h.fieldFind_iff.mp hfind
    obtain ⟨hplaced, hall⟩ := h.placed.modify hmem (f := fun f => { f with value := value }) rfl rfl
    have hnext : docSetField d f.name value =
        { d with
          fields := update d.fields (docHash f.name kvsDocFieldBuckets)
            (modifyFirst (fun g => g.name = f.name) ({ · with value := value }) (d.fields (docHash f.name kvsDocFieldBuckets))) } := by
      simp only [docSetField, hfind]
    rw [hnext]
    refine ⟨⟨hplaced, ?_⟩, funext fun k => ?_⟩
    · have hcard := congrArg Multiset.card hall
      rw [card_cons, card_cons] at hcard
      rw [all, Nat.succ.inj hcard]
      exact h.count
    · have hget := h.placed.find_modify hmem (f := fun f => { f with value := value }) rfl k rfl
      rw [read, fieldFind, hget, update_apply, apply_ite (Option.map DocField.value)]
      rfl

lemma Inv.dropField (h : d.Inv) (hfind : (fieldFind d field).isSome = true) :
    (docDropField d field).Inv ∧ (docDropField d field).read = update d.read field none := by
  obtain ⟨f, hf⟩ := Option.isSome_iff_exists.mp hfind
  obtain ⟨hmem, rfl⟩ := h.fieldFind_iff.mp hf
  obtain ⟨hplaced, hall⟩ := h.placed.erase hmem rfl
  refine ⟨⟨hplaced, ?_⟩, funext fun k => ?_⟩
  · have hcard : d.all.card = (docDropField d f.name).all.card + 1 := by
      rw [all, hall, card_cons]
      rfl
    change wrap32 (d.fieldCount - 1) = _
    rw [h.count, hcard, Nat.cast_succ, wrap32_wrap32_sub, add_sub_cancel_right]
  · rw [read, fieldFind, docDropField, h.placed.find_erase hmem k rfl, update_apply,
      apply_ite (Option.map DocField.value)]
    rfl

end Doc

/-! ### The table -/

namespace DocTable

variable {tab tab' : DocTable} {key field value : Bytes}

/-- The documents of a table. -/
def all (tab : DocTable) : Multiset Doc := contents tab.buckets tab.size

/-- Every document is in the chain that its key selects and in order, no key is there twice, the documents are
counted, and the table has doubled some number of times. -/
structure Inv (tab : DocTable) : Prop where
  placed : Placed Doc.key (docHash · tab.size) tab.buckets tab.size
  docs : ∀ d, d ∈ tab.all → d.Inv
  count : tab.count = tab.all.card
  size_dvd : tab.size ∣ docSizeMax
  count_le : tab.count ≤ tab.size

/-- A document as a map. -/
def read (tab : DocTable) (key : Bytes) : Option (Bytes → Option Bytes) := (docFind tab key).map Doc.read

lemma Inv.docFind_iff (h : tab.Inv) {d : Doc} : docFind tab key = some d ↔ d ∈ tab.all ∧ d.key = key :=
  h.placed.find_iff

lemma Inv.docFind_none (h : tab.Inv) : docFind tab key = none ↔ ∀ d, d ∈ tab.all → d.key ≠ key :=
  h.placed.find_none_iff

lemma all_create : kvsDocCreate.all = 0 := contents_nil _

lemma inv_create : kvsDocCreate.Inv where
  placed := placed_nil _ fun k => Doc.docHash_lt k (Nat.succ_pos 1023)
  docs := by simp [all_create]
  count := by rw [all_create, card_zero, kvsDocCreate, Nat.cast_zero]
  size_dvd := ⟨2 ^ 12, by decide⟩
  count_le := by decide

lemma kvsDocGet_eq (tab : DocTable) (key field : Bytes) : kvsDocGet tab key field = (tab.read key).bind fun m => m field := by
  rw [kvsDocGet, read]
  cases docFind tab key <;> rfl

lemma dvd_double (h : n ∣ docSizeMax) (hle : n * 2 ≤ docSizeMax) : n * 2 ∣ docSizeMax := by
  obtain ⟨j, -, rfl⟩ := (Nat.dvd_prime_pow Nat.prime_two).mp h
  rw [← pow_succ] at hle ⊢
  exact pow_dvd_pow 2 ((Nat.pow_le_pow_iff_right (by decide)).mp hle)

lemma eq_of_dvd_of_lt (h : n ∣ docSizeMax) (hlt : docSizeMax < n * 2) : n = docSizeMax := by
  obtain ⟨c, hc⟩ := h
  have hpos : 0 < n * c := hc ▸ Nat.two_pow_pos 22
  have hc1 : c = 1 := by
    have hc0 : 0 < c := Nat.pos_of_mul_pos_left hpos
    have hc2 : c < 2 := Nat.lt_of_mul_lt_mul_left (hc ▸ hlt)
    omega
  rw [hc, hc1, mul_one]

variable (h : tab.Inv)
include h

lemma Inv.rehash (hre : docRehash tab = some tab') : tab'.Inv ∧ tab'.all = tab.all ∧ tab'.count < tab'.size := by
  have hpos : 0 < tab.size := Nat.lt_of_le_of_lt (Nat.zero_le _) (h.placed.slot_lt [])
  unfold docRehash at hre
  split at hre
  · cases hre
  · rename_i hle
    obtain rfl := Option.some.inj hre
    have hlist : tab.all = ((List.range tab.size).flatMap tab.buckets : List Doc) := contents_eq_coe ..
    have hempty : Placed Doc.key (docHash · (tab.size * 2)) (fun _ => []) (tab.size * 2) :=
      placed_nil _ fun k => Doc.docHash_lt k (by omega)
    have hnodup : (((((List.range tab.size).flatMap tab.buckets : List Doc) : Multiset Doc) +
        contents (fun _ => []) (tab.size * 2)).map Doc.key).Nodup := by
      rw [contents_nil, add_zero, ← hlist]
      exact h.placed.nodup
    obtain ⟨hplaced, hcontents⟩ := hempty.foldl_cons _ hnodup
    rw [contents_nil, add_zero, ← hlist, List.foldl_flatMap] at hcontents
    rw [List.foldl_flatMap] at hplaced
    have hall : DocTable.all { tab with buckets := docRehashLoop tab (tab.size * 2), size := tab.size * 2 } = tab.all := hcontents
    refine ⟨⟨hplaced, fun d hd => h.docs d (hall ▸ hd), ?_, dvd_double h.size_dvd (not_lt.mp hle), ?_⟩, hall, ?_⟩
    · rw [hall]
      exact h.count
    all_goals
      have := h.count_le
      push_cast
      omega

lemma Inv.read_congr (h' : tab'.Inv) (hall : tab'.all = tab.all) : tab'.read = tab.read := by
  refine funext fun k => congrArg (Option.map Doc.read) (Option.ext fun d => ?_)
  rw [h.docFind_iff, h'.docFind_iff, hall]

lemma Inv.grow (hgrow : docGrow tab = some tab') : tab'.Inv ∧ tab'.all = tab.all ∧ tab'.count < tab'.size := by
  unfold docGrow at hgrow
  split at hgrow
  · exact h.rehash hgrow
  · obtain rfl := Option.some.inj hgrow
    exact ⟨h, rfl, by omega⟩

lemma Inv.grow_none : docGrow tab = none ↔ tab.count = docSizeMax := by
  have hle := h.count_le
  have hpos : 0 < docSizeMax := Nat.two_pow_pos 22
  have hdvd : tab.size ≤ docSizeMax := Nat.le_of_dvd hpos h.size_dvd
  unfold docGrow docRehash
  constructor
  · intro hgrow
    split at hgrow
    · split at hgrow
      · have hsize := eq_of_dvd_of_lt h.size_dvd ‹_›
        omega
      · cases hgrow
    · cases hgrow
  · intro hfull
    rw [if_pos (by omega), if_pos (by omega)]

lemma Inv.createEntry (hnew : docFind tab key = none)
    (hcreate : docCreateEntry tab key = some tab') :
    tab'.Inv ∧ tab'.read = update tab.read key (some fun _ => none) := by
  obtain ⟨grown, hgrow, rfl⟩ := Option.map_eq_some_iff.mp hcreate
  obtain ⟨hg, hall, hlt⟩ := h.grow hgrow
  have hfresh : ∀ d, d ∈ contents grown.buckets grown.size → d.key ≠ Doc.key ⟨key, fun _ => [], 0⟩ := by
    intro d hd
    exact h.docFind_none.mp hnew d (hall ▸ hd)
  obtain ⟨hplaced, hcontents⟩ := hg.placed.cons hfresh
  refine ⟨⟨hplaced, fun d hd => ?_, ?_, hg.size_dvd, ?_⟩, funext fun k => ?_⟩
  · rw [all, hcontents, mem_cons] at hd
    rcases hd with rfl | hd
    · exact Doc.inv_empty key
    · exact hg.docs d hd
  · rw [all, hcontents, card_cons, hg.count]
    push_cast
    rfl
  · exact hlt
  · rw [← h.read_congr hg hall, read, docFind, hg.placed.find_cons hfresh, update_apply, apply_ite (Option.map Doc.read)]
    rfl

lemma Inv.modify {d : Doc} (hfind : docFind tab key = some d) {f : Doc → Doc} (hkey : (f d).key = d.key)
    (hf : (f d).Inv) : (tab.modify key f).Inv ∧ (tab.modify key f).read = update tab.read key (some (f d).read) := by
  obtain ⟨hmem, rfl⟩ := h.docFind_iff.mp hfind
  obtain ⟨hplaced, hall⟩ := h.placed.modify hmem hkey rfl
  have hcard := congrArg Multiset.card hall
  rw [card_cons, card_cons] at hcard
  refine ⟨⟨hplaced, fun b hb => ?_, ?_, h.size_dvd, h.count_le⟩, funext fun k => ?_⟩
  · have hb' : b ∈ f d ::ₘ tab.all := hall ▸ mem_cons_of_mem hb
    rcases Multiset.mem_cons.mp hb' with rfl | hb'
    · exact hf
    · exact h.docs b hb'
  · rw [all]
    refine h.count.trans (congrArg _ ?_)
    exact (Nat.succ.inj hcard).symm
  · rw [read, docFind]
    refine (congrArg (Option.map Doc.read) (h.placed.find_modify hmem hkey k rfl)).trans ?_
    rw [update_apply, apply_ite (Option.map Doc.read)]
    rfl

/-! #### The operations -/

lemma Inv.set (key field value : Bytes) :
    (kvsDocSet tab key field value).2.Inv ∧
      ((kvsDocSet tab key field value).1 = 0 ∧ (kvsDocSet tab key field value).2.read = update tab.read key
          (some (update ((tab.read key).getD fun _ => none) field (some value))) ∨
        kvsDocSet tab key field value = (-1, tab) ∧ tab.read key = none ∧ tab.count = docSizeMax) := by
  have hset {tab : DocTable} {d : Doc} (h : tab.Inv) (hfind : docFind tab key = some d) :
      (tab.modify key (docSetField · field value)).Inv ∧ (tab.modify key (docSetField · field value)).read =
        update tab.read key (some (update ((tab.read key).getD fun _ => none) field (some value))) := by
    obtain ⟨hinv, hread⟩ := (h.docs d (h.docFind_iff.mp hfind).1).setField field value
    obtain ⟨hinv', hread'⟩ := h.modify hfind (f := (docSetField · field value))
      (Doc.key_docSetField d field value) hinv
    refine ⟨hinv', hread'.trans ?_⟩
    have hd : tab.read key = some d.read := congrArg (Option.map Doc.read) hfind
    rw [hd, getD_some, hread]
  cases hfind : docFind tab key with
  | some d =>
    have hnext : kvsDocSet tab key field value = (0, tab.modify key (docSetField · field value)) := by
      rw [kvsDocSet, hfind]
      rfl
    rw [hnext]
    exact ⟨(hset h hfind).1, .inl ⟨rfl, (hset h hfind).2⟩⟩
  | none =>
    have hread : tab.read key = none := congrArg (Option.map Doc.read) hfind
    cases hcreate : docCreateEntry tab key with
    | none =>
      have hnext : kvsDocSet tab key field value = (-1, tab) := by
        rw [kvsDocSet, hfind, elim_none, hcreate]
      rw [hnext]
      exact ⟨h, .inr ⟨rfl, hread, h.grow_none.mp (Option.map_eq_none_iff.mp hcreate)⟩⟩
    | some tab' =>
      have hnext : kvsDocSet tab key field value = (0, tab'.modify key (docSetField · field value)) := by
        rw [kvsDocSet, hfind, elim_none, hcreate]
      obtain ⟨hinv, hadded⟩ := h.createEntry hfind hcreate
      have hempty : tab'.read key = some fun _ => none := by rw [hadded, update_self]
      obtain ⟨d, hd, -⟩ := Option.map_eq_some_iff.mp hempty
      obtain ⟨hinv', hread'⟩ := hset hinv hd
      rw [hnext]
      refine ⟨hinv', .inl ⟨rfl, ?_⟩⟩
      rw [hread', hempty, hadded, update_idem, hread]
      rfl

lemma Inv.delField (key field : Bytes) :
    (kvsDocDelField tab key field).2.Inv ∧ (kvsDocDelField tab key field).2.read =
        update tab.read key ((tab.read key).map fun m => update m field none) ∧
      (kvsDocDelField tab key field).1 = if ((tab.read key).bind fun m => m field).isSome then 0 else 1 := by
  cases hfind : docFind tab key with
  | none =>
    have hread : tab.read key = none := congrArg (Option.map Doc.read) hfind
    have hnext : kvsDocDelField tab key field = (1, tab) := by rw [kvsDocDelField, hfind]
    rw [hnext, hread]
    refine ⟨h, ?_, rfl⟩
    rw [map_none, ← hread, update_eq_self]
  | some d =>
    have hread : tab.read key = some d.read := congrArg (Option.map Doc.read) hfind
    have hd := h.docs d (h.docFind_iff.mp hfind).1
    rw [hread, map_some, bind_some]
    cases hfield : fieldFind d field with
    | none =>
      have hnone : d.read field = none := congrArg (Option.map DocField.value) hfield
      have hnext : kvsDocDelField tab key field = (1, tab) := by simp only [kvsDocDelField, hfind, hfield]
      rw [hnext, hnone]
      refine ⟨h, ?_, rfl⟩
      rw [← hnone, update_eq_self, ← hread, update_eq_self]
    | some f =>
      have hsome : d.read field = some f.value := congrArg (Option.map DocField.value) hfield
      have hnext : kvsDocDelField tab key field = (0, tab.modify key (docDropField · field)) := by
        simp only [kvsDocDelField, hfind, hfield]
      obtain ⟨hinv, hdrop⟩ := hd.dropField (hfield ▸ rfl : (fieldFind d field).isSome = true)
      obtain ⟨hinv', hread'⟩ := h.modify hfind (f := (docDropField · field)) rfl hinv
      rw [hnext, hsome]
      exact ⟨hinv', by rw [hread', hdrop], rfl⟩

lemma Inv.del (key : Bytes) :
    (kvsDocDel tab key).2.Inv ∧ (kvsDocDel tab key).2.read = update tab.read key none ∧
      (kvsDocDel tab key).1 = if (tab.read key).isSome then 0 else 1 := by
  cases hfind : docFind tab key with
  | none =>
    have hread : tab.read key = none := congrArg (Option.map Doc.read) hfind
    have hnext : kvsDocDel tab key = (1, tab) := by rw [kvsDocDel, hfind]
    rw [hnext, hread]
    refine ⟨h, ?_, rfl⟩
    rw [← hread, update_eq_self]
  | some d =>
    have hread : tab.read key = some d.read := congrArg (Option.map Doc.read) hfind
    obtain ⟨hmem, rfl⟩ := h.docFind_iff.mp hfind
    obtain ⟨hplaced, hall⟩ := h.placed.erase hmem rfl
    have hcard := congrArg Multiset.card hall
    rw [card_cons] at hcard
    have hcount := h.count
    have hle := h.count_le
    rw [all, hcard] at hcount
    rw [kvsDocDel, hfind, hread]
    refine ⟨⟨hplaced, fun b hb => h.docs b ?_, ?_, h.size_dvd, ?_⟩, funext fun k => ?_, rfl⟩
    · rw [all, hall]
      exact mem_cons_of_mem hb
    · rw [hcount]
      push_cast
      exact add_sub_cancel_right _ _
    · exact (Int.sub_le_self _ (by decide)).trans hle
    · rw [read, docFind]
      refine (congrArg (Option.map Doc.read) (h.placed.find_erase hmem k rfl)).trans ?_
      rw [update_apply, apply_ite (Option.map Doc.read)]
      rfl

end DocTable

end PocketKv.Storage
