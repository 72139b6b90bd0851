import PocketKv.Library.Run
import PocketKv.Resp.Replies
import PocketKv.Storage.Doc
import PocketKv.Store.Engines

/-!
# The document engine is a finite map of finite maps
-/

namespace PocketKv.Storage

open Library Resp Function Option

/-! ### The calls -/

/-- A call of the engine. -/
inductive DocCall where
  | set (key field value : Bytes)
  | get (key field : Bytes)
  | delField (key field : Bytes)
  | del (key : Bytes)
  | exist (key : Bytes)
  | fieldExist (key field : Bytes)
  | fieldCount (key : Bytes)
  deriving DecidableEq

namespace DocTable

/-- What the call returns, and the table after it. -/
def call (tab : DocTable) : DocCall → EngineReply × DocTable
  | .set key field value => (.code (kvsDocSet tab key field value).1, (kvsDocSet tab key field value).2)
  | .get key field => (.value (kvsDocGet tab key field), tab)
  | .delField key field => (.code (kvsDocDelField tab key field).1, (kvsDocDelField tab key field).2)
  | .del key => (.code (kvsDocDel tab key).1, (kvsDocDel tab key).2)
  | .exist key => (.code (kvsDocExist tab key), tab)
  | .fieldExist key field => (.code (kvsDocFieldExist tab key field), tab)
  | .fieldCount key => (.code (kvsDocFieldCount tab key), tab)

/-- The table after a call. -/
def step (tab : DocTable) (c : DocCall) : DocTable := (tab.call c).2

end DocTable

/-- Documents as finite maps. -/
abbrev DocMap := Store.Table Bytes (Store.Table Bytes Bytes)

/-- What a call does to the map, and what it returns. -/
def docMapCall (m : DocMap) : DocCall → EngineReply × DocMap
  | .set key field value => (.code 0, m.insert key (((m.lookup key).getD ∅).insert field value))
  | .get key field => (.value ((m.lookup key).bind (·.lookup field)), m)
  | .delField key field =>
    if ((m.lookup key).bind (·.lookup field)).isSome then
      (.code 0, m.insert key (((m.lookup key).getD ∅).erase field))
    else (.code 1, m)
  | .del key => if (m.lookup key).isSome then (.code 0, m.erase key) else (.code 1, m)
  | .exist key => (.code (if (m.lookup key).isSome then 0 else 1), m)
  | .fieldExist key field => (.code (if ((m.lookup key).bind (·.lookup field)).isSome then 0 else 1), m)
  | .fieldCount key => (.code ((m.lookup key).elim (-1) fun fields => fields.keys.length), m)

/-- The map after a call. -/
def docMapStep (m : DocMap) (c : DocCall) : DocMap := (docMapCall m c).2

/-- There is room: for a document, in a table of `1 << 22` chains with one document for each; for a field, in an `int`. -/
def HasRoom (m : DocMap) : DocCall → Prop
  | .set key field _ =>
    match m.lookup key with
    | none => m.keys.length < docSizeMax
    | some fields => (fields.lookup field).isSome ∨ fields.keys.length < 2 ^ 31 - 1
  | _ => True

/-! ### The table shows the map -/

/-- The documents are those of the map, and none has more fields than an `int` can count. -/
structure DocAbs (tab : DocTable) (m : DocMap) : Prop where
  inv : tab.Inv
  read : ∀ key, tab.read key = (m.lookup key).map fun fields field => fields.lookup field
  small : ∀ key fields, m.lookup key = some fields → fields.keys.length < 2 ^ 31

variable {fields : Store.Table Bytes Bytes} {c : DocCall}

lemma Doc.Inv.card_eq {d : Doc} (h : d.Inv) (hread : ∀ field, d.read field = fields.lookup field) :
    d.all.card = fields.keys.length := by
  have hrep : Represents DocField.name DocField.value d.all fields := by
    refine ⟨h.placed.nodup, fun k v => ?_⟩
    rw [← hread, h.read_iff]
    constructor
    · intro hmem
      exact ⟨_, hmem, rfl, rfl⟩
    · rintro ⟨f, hmem, rfl, rfl⟩
      exact hmem
  exact hrep.card

namespace DocAbs

variable {tab tab' : DocTable} {m : DocMap} {key field value : Bytes}

lemma create : DocAbs kvsDocCreate ∅ where
  inv := DocTable.inv_create
  read := fun _ => rfl
  small := fun key fields hl => by
    rw [AList.lookup_empty] at hl
    cases hl

variable (h : DocAbs tab m)
include h

lemma find (key : Bytes) :
    (∃ d fields, docFind tab key = some d ∧ m.lookup key = some fields ∧ d.Inv ∧ ∀ field, d.read field = fields.lookup field) ∨
      docFind tab key = none ∧ m.lookup key = none := by
  have hread := h.read key
  rw [DocTable.read] at hread
  cases hfind : docFind tab key with
  | none =>
    rw [hfind] at hread
    exact .inr ⟨rfl, Option.map_eq_none_iff.mp hread.symm⟩
  | some d =>
    rw [hfind] at hread
    obtain ⟨fields, hl, heq⟩ := Option.map_eq_some_iff.mp hread.symm
    exact .inl ⟨d, fields, rfl, hl, h.inv.docs d (h.inv.docFind_iff.mp hfind).1, fun f => (congrFun heq f).symm⟩

lemma count : tab.count = m.keys.length := by
  have hrep : Represents Doc.key (fun d => (m.lookup d.key).getD ∅) tab.all m := by
    refine ⟨h.inv.placed.nodup, fun k v => ?_⟩
    constructor
    · intro hl
      rcases h.find k with ⟨d, fields, hfind, hl', -⟩ | ⟨-, hnone⟩
      · obtain ⟨hmem, rfl⟩ := h.inv.docFind_iff.mp hfind
        exact ⟨d, hmem, rfl, by rw [hl]; rfl⟩
      · rw [hl] at hnone
        cases hnone
    · rintro ⟨d, hmem, rfl, rfl⟩
      have hfound := h.inv.docFind_iff.mpr ⟨hmem, rfl⟩
      rcases h.find d.key with ⟨d', fields, -, hl, -⟩ | ⟨hnone, -⟩
      · rw [hl]
        rfl
      · rw [hfound] at hnone
        cases hnone
  rw [h.inv.count, hrep.card]

lemma fieldCount {d : Doc} (hd : d.Inv)
    (hl : m.lookup key = some fields) (hread : ∀ field, d.read field = fields.lookup field) :
    d.fieldCount = fields.keys.length := by
  have hsmall := h.small key fields hl
  rw [hd.count, hd.card_eq hread]
  exact wrap32_of_mem (by omega) (by omega)

lemma get (key field : Bytes) : kvsDocGet tab key field = (m.lookup key).bind (·.lookup field) := by
  rw [DocTable.kvsDocGet_eq, h.read]
  cases m.lookup key <;> rfl

lemma fieldExist (key field : Bytes) :
    kvsDocFieldExist tab key field = if ((m.lookup key).bind (·.lookup field)).isSome then 0 else 1 := by
  rw [← h.get, kvsDocGet, kvsDocFieldExist]
  cases docFind tab key with
  | none => rfl
  | some d => rw [bind_some, isSome_map]

lemma exist (key : Bytes) : kvsDocExist tab key = if (m.lookup key).isSome then 0 else 1 := by
  rw [kvsDocExist]
  rcases h.find key with ⟨d, fields, hfind, hl, -⟩ | ⟨hfind, hl⟩
  · rw [hfind, hl]
    rfl
  · rw [hfind, hl]
    rfl

lemma kvsDocFieldCount_eq (key : Bytes) :
    kvsDocFieldCount tab key = (m.lookup key).elim (-1) fun fields => (fields.keys.length : ℤ) := by
  rw [kvsDocFieldCount]
  rcases h.find key with ⟨d, fields, hfind, hl, hd, hread⟩ | ⟨hfind, hl⟩
  · rw [hfind, hl]
    exact h.fieldCount hd hl hread
  · rw [hfind, hl]
    rfl

lemma insert (hinv : tab'.Inv)
    (hread : tab'.read = update tab.read key (some fun field => fields.lookup field))
    (hsmall : fields.keys.length < 2 ^ 31) : DocAbs tab' (m.insert key fields) := by
  refine ⟨hinv, ?_, ?_⟩
  · intro k
    rw [hread, lookup_insert_eq, update_apply, h.read, apply_ite (Option.map _)]
    rfl
  · intro k fs hl
    rw [lookup_insert_eq] at hl
    split at hl
    · obtain rfl := Option.some.inj hl
      exact hsmall
    · exact h.small k fs hl

lemma read_set (key field value : Bytes) :
    update ((tab.read key).getD fun _ => none) field (some value) =
      fun f => (((m.lookup key).getD ∅).insert field value).lookup f := by
  funext f
  rw [lookup_insert_eq, update_apply, h.read]
  cases m.lookup key <;> rfl

lemma length_set (hroom : HasRoom m (.set key field value)) :
    (((m.lookup key).getD ∅).insert field value).keys.length < 2 ^ 31 := by
  rw [length_insert]
  rw [HasRoom] at hroom
  cases hl : m.lookup key with
  | none => exact (by decide : 1 < 2 ^ 31)
  | some fields =>
    rw [hl] at hroom
    have hsmall := h.small key fields hl
    rw [getD_some]
    split
    · exact hsmall
    · rename_i hnew
      have hlt := hroom.resolve_left hnew
      omega

lemma set (hroom : HasRoom m (.set key field value)) :
    (kvsDocSet tab key field value).1 = 0 ∧
      DocAbs (kvsDocSet tab key field value).2 (m.insert key (((m.lookup key).getD ∅).insert field value)) := by
  obtain ⟨hinv, ⟨hcode, hread⟩ | ⟨-, hnone, hfull⟩⟩ := h.inv.set key field value
  · rw [h.read_set] at hread
    exact ⟨hcode, h.insert hinv hread (h.length_set hroom)⟩
  · rw [h.read, map_eq_none_iff] at hnone
    rw [HasRoom, hnone] at hroom
    have hcount := h.count
    omega

lemma delField (key field : Bytes) :
    (tab.call (.delField key field)).1 = (docMapCall m (.delField key field)).1 ∧
      DocAbs (tab.call (.delField key field)).2 (docMapCall m (.delField key field)).2 := by
  obtain ⟨hinv, hread, hcode⟩ := h.inv.delField key field
  rw [← DocTable.kvsDocGet_eq, h.get] at hcode
  rw [DocTable.call, docMapCall, hcode]
  cases hl : m.lookup key with
  | none =>
    have hnone : tab.read key = none := by rw [h.read, hl]; rfl
    rw [hnone, map_none, ← hnone, update_eq_self] at hread
    exact ⟨rfl, hinv, fun k => by rw [hread]; exact h.read k, h.small⟩
  | some fields =>
    have herase : tab.read key = some fun f => fields.lookup f := by rw [h.read, hl]; rfl
    have hread' : (kvsDocDelField tab key field).2.read =
        update tab.read key (some fun f => (fields.erase field).lookup f) := by
      rw [hread, herase]
      refine congrArg (fun m => update tab.read key (some m)) (funext fun f => ?_)
      exact (update_apply ..).trans (lookup_erase_eq ..).symm
    rw [bind_some, getD_some]
    split
    · exact ⟨rfl, h.insert hinv hread' ((length_erase_le fields field).trans_lt (h.small key fields hl))⟩
    · rename_i hnone
      rw [not_isSome_iff_eq_none] at hnone
      refine ⟨rfl, hinv, fun k => ?_, h.small⟩
      rw [hread', erase_eq_self hnone, ← herase, update_eq_self, h.read]

lemma del (key : Bytes) :
    (tab.call (.del key)).1 = (docMapCall m (.del key)).1 ∧
      DocAbs (tab.call (.del key)).2 (docMapCall m (.del key)).2 := by
  obtain ⟨hinv, hread, hcode⟩ := h.inv.del key
  have herase : DocAbs (kvsDocDel tab key).2 (m.erase key) := by
    refine ⟨hinv, fun k => ?_, fun k fields hl => ?_⟩
    · rw [hread, lookup_erase_eq, update_apply, h.read, apply_ite (Option.map _)]
      rfl
    · rw [lookup_erase_eq] at hl
      split at hl
      · cases hl
      · exact h.small k fields hl
  rw [h.read, isSome_map] at hcode
  rw [DocTable.call, docMapCall, hcode]
  split
  · exact ⟨rfl, herase⟩
  · rename_i hnone
    rw [not_isSome_iff_eq_none] at hnone
    rw [erase_eq_self hnone] at herase
    exact ⟨rfl, herase⟩

lemma call (hroom : HasRoom m c) :
    (tab.call c).1 = (docMapCall m c).1 ∧ DocAbs (tab.call c).2 (docMapCall m c).2 := by
  cases c with
  | set key field value =>
    obtain ⟨hcode, habs⟩ := h.set hroom
    exact ⟨congrArg EngineReply.code hcode, habs⟩
  | get key field => exact ⟨congrArg EngineReply.value (h.get key field), h⟩
  | delField key field => exact h.delField key field
  | del key => exact h.del key
  | exist key => exact ⟨congrArg EngineReply.code (h.exist key), h⟩
  | fieldExist key field => exact ⟨congrArg EngineReply.code (h.fieldExist key field), h⟩
  | fieldCount key => exact ⟨congrArg EngineReply.code (h.kvsDocFieldCount_eq key), h⟩

lemma rehash (hre : docRehash tab = some tab') : DocAbs tab' m := by
  obtain ⟨hinv, hall, -⟩ := h.inv.rehash hre
  refine ⟨hinv, fun key => ?_, h.small⟩
  rw [h.inv.read_congr hinv hall, h.read]

end DocAbs

/-! ### Chains and counters -/

/-- Documents and fields are in their chains, are those of the map, and are counted. -/
structure DocShape (tab : DocTable) (m : DocMap) : Prop where
  docs : Placed Doc.key (docHash · tab.size) tab.buckets tab.size
  fields : ∀ d, d ∈ tab.all → Placed DocField.name (docHash · kvsDocFieldBuckets) d.fields kvsDocFieldBuckets
  contents : ∀ key, tab.read key = (m.lookup key).map fun fields field => fields.lookup field
  /-- `count`. -/
  count : tab.count = m.keys.length
  /-- `field_count`. -/
  fieldCount : ∀ d fields, d ∈ tab.all → m.lookup d.key = some fields → d.fieldCount = fields.keys.length

variable {tab : DocTable} {m : DocMap}

lemma DocAbs.shape (h : DocAbs tab m) : DocShape tab m where
  docs := h.inv.placed
  fields := fun d hd => (h.inv.docs d hd).placed
  contents := h.read
  count := h.count
  fieldCount := by
    intro d fields hd hl
    have hfound := h.inv.docFind_iff.mpr ⟨hd, rfl⟩
    rcases h.find d.key with ⟨d', fields', hfind, hl', hinv, hread⟩ | ⟨hnone, -⟩
    · rw [hfound] at hfind
      obtain rfl := Option.some.inj hfind
      obtain rfl := Option.some.inj (hl.symm.trans hl')
      exact h.fieldCount hinv hl hread
    · rw [hfound] at hnone
      cases hnone

lemma DocTable.Inv.limits (h : tab.Inv) (hshape : DocShape tab m) :
    m.keys.length ≤ docSizeMax ∧ ∀ key fields, m.lookup key = some fields → fields.keys.length < 2 ^ 31 := by
  constructor
  · have hle : tab.size ≤ docSizeMax := Nat.le_of_dvd (Nat.two_pow_pos 22) h.size_dvd
    have hcount := hshape.count
    have hfull := h.count_le
    omega
  · intro key fields hl
    have hread := hshape.contents key
    rw [hl] at hread
    obtain ⟨d, hfind, -⟩ := Option.map_eq_some_iff.mp hread
    obtain ⟨hd, rfl⟩ := h.docFind_iff.mp hfind
    have hcount := hshape.fieldCount d fields hd hl
    have hlt : d.fieldCount < 2 ^ 31 := by
      rw [(h.docs d hd).count]
      exact Int.bmod_lt (by decide)
    omega

lemma DocAbs.hasRoom (h : DocAbs tab m) (hshape : DocShape (tab.step c) (docMapStep m c)) : HasRoom m c := by
  cases c with
  | set key field value =>
    obtain ⟨hdocs, hfields⟩ := (h.inv.set key field value).1.limits hshape
    change (m.insert key _).keys.length ≤ docSizeMax at hdocs
    rw [length_insert] at hdocs
    rw [HasRoom]
    cases hl : m.lookup key with
    | none =>
      rw [hl] at hdocs
      exact hdocs
    | some fields =>
      have hnew := hfields key _ (AList.lookup_insert _)
      rw [hl, getD_some, length_insert] at hnew
      split at hnew
      · rename_i hsome
        exact .inl hsome
      · exact .inr (by omega)
  | _ => trivial

/-- After the calls the table is what they make of a map. -/
structure DocRefines (cs : List DocCall) (tab : DocTable) : Prop where
  answers : answers DocTable.call kvsDocCreate cs = answers docMapCall ∅ cs
  shape : DocShape tab (cs.foldl docMapStep ∅)
  /-- Those after a `doc_rehash`. -/
  rehash : ∀ tab', docRehash tab = some tab' → DocShape tab' (cs.foldl docMapStep ∅)

lemma docAbs_run {cs : List DocCall} (hrun : GuardedRun docMapStep HasRoom ∅ cs) :
    answers docMapCall ∅ cs = answers DocTable.call kvsDocCreate cs ∧
      DocAbs (cs.foldl DocTable.step kvsDocCreate) (cs.foldl docMapStep ∅) := by
  have hstep : ∀ (m : DocMap) (tab : DocTable) (c : DocCall), DocAbs tab m → HasRoom m c →
      (docMapCall m c).1 = (tab.call c).1 ∧ DocAbs (tab.call c).2 (docMapCall m c).2 := by
    intro m tab c habs hroom
    obtain ⟨hanswer, hnext⟩ := habs.call hroom
    exact ⟨hanswer.symm, hnext⟩
  exact answers_eq hstep DocAbs.create hrun

/-- **The document engine refines the map**: the calls return what those of a map of maps do, the documents and
fields are in the chains that their names select and are counted, just if there is room for every document and field
that a call adds. -/
theorem doc_engine_refines_iff (cs : List DocCall) :
    (∀ pre, pre <+: cs → DocRefines pre (pre.foldl DocTable.step kvsDocCreate)) ↔
      GuardedRun docMapStep HasRoom ∅ cs := by
  constructor
  · -- the last call of the run is the one to look at: before it there was room
    intro hall
    induction cs using List.reverseRecOn with
    | nil => trivial
    | append_singleton cs c ih =>
      have hrun := ih fun pre hpre => hall pre (hpre.trans (List.prefix_append cs [c]))
      have hshape := (hall (cs ++ [c]) List.prefix_rfl).shape
      rw [List.foldl_append, List.foldl_append] at hshape
      exact hrun.append ⟨(docAbs_run hrun).2.hasRoom hshape, trivial⟩
  · intro hrun pre hpre
    obtain ⟨hanswers, habs⟩ := docAbs_run (hrun.of_prefix hpre)
    exact ⟨hanswers.symm, habs.shape, fun tab' hre => (habs.rehash hre).shape⟩

/-! ### A full table -/

/-- A set of a field in the `i`-th of some documents. -/
def addDoc (i : ℕ) : DocCall := .set (decimal i) [102] [118]

/-- One in each of the first `n`. -/
def addDocs (n : ℕ) : List DocCall := (List.range n).map addDoc

lemma addDocs_succ (n : ℕ) : addDocs (n + 1) = addDocs n ++ [addDoc n] := by
  rw [addDocs, List.range_succ, List.map_append]
  rfl

lemma lookup_addDocs (n k : ℕ) : ((((addDocs n).foldl docMapStep ∅).lookup (decimal k)).isSome = true ↔ k < n) ∧
    ((addDocs n).foldl docMapStep ∅).keys.length = n := by
  induction n generalizing k with
  | zero =>
    refine ⟨?_, rfl⟩
    change ((∅ : DocMap).lookup (decimal k)).isSome = true ↔ _
    rw [AList.lookup_empty]
    simp
  | succ n ih =>
    rw [addDocs_succ, List.foldl_append]
    generalize hm : (addDocs n).foldl docMapStep ∅ = m at ih
    change (((m.insert (decimal n) _).lookup (decimal k)).isSome = true ↔ _) ∧ (m.insert (decimal n) _).keys.length = _
    have hnew : ¬ (m.lookup (decimal n)).isSome = true := fun hsome => (lt_irrefl n) ((ih n).1.mp hsome)
    rw [length_insert, if_neg hnew, (ih k).2, lookup_insert_eq]
    refine ⟨?_, rfl⟩
    split
    · rename_i heq
      rw [decimal_inj heq]
      simp
    · rename_i hne
      have hkn : k ≠ n := fun heq => hne (congrArg decimal heq)
      rw [(ih k).1]
      omega

lemma lookup_addDoc (n : ℕ) : ((addDocs n).foldl docMapStep ∅).lookup (decimal n) = none := by
  have hnot : ¬ (((addDocs n).foldl docMapStep ∅).lookup (decimal n)).isSome = true :=
    fun hsome => lt_irrefl n ((lookup_addDocs n n).1.mp hsome)
  rwa [not_isSome_iff_eq_none] at hnot

lemma room_addDocs {n : ℕ} (hn : n ≤ docSizeMax) : GuardedRun docMapStep HasRoom ∅ (addDocs n) := by
  induction n with
  | zero => trivial
  | succ n ih =>
    rw [addDocs_succ]
    refine (ih (by omega)).append ⟨?_, trivial⟩
    rw [addDoc, HasRoom, lookup_addDoc]
    rw [(lookup_addDocs n n).2]
    exact hn

lemma DocTable.Inv.set_full (h : tab.Inv) {key : Bytes} (hnew : docFind tab key = none) (hfull : tab.count = docSizeMax)
    (field value : Bytes) : kvsDocSet tab key field value = (-1, tab) := by
  have hcreate : docCreateEntry tab key = none := by rw [docCreateEntry, h.grow_none.mpr hfull, map_none]
  rw [kvsDocSet, hnew, elim_none, hcreate]

lemma addDoc_refused {n : ℕ} (hn : n = docSizeMax) :
    ((addDocs n).foldl DocTable.step kvsDocCreate).count = n ∧
      ((addDocs n).foldl DocTable.step kvsDocCreate).call (addDoc n) =
        (.code (-1), (addDocs n).foldl DocTable.step kvsDocCreate) ∧
      (docMapCall ((addDocs n).foldl docMapStep ∅) (addDoc n)).1 = .code 0 := by
  have habs := (docAbs_run (room_addDocs hn.le)).2
  have hcount := habs.count
  rw [(lookup_addDocs n n).2] at hcount
  refine ⟨hcount, ?_, rfl⟩
  rcases habs.find (decimal n) with ⟨d, fields, -, hl, -⟩ | ⟨hnew, -⟩
  · rw [lookup_addDoc] at hl
    cases hl
  · rw [addDoc, DocTable.call, habs.inv.set_full hnew (by rw [hcount, hn])]

/-- After `1 << 22` documents the next one is refused, for want of chains. -/
theorem full_doc_table_refuses :
    let n := docSizeMax
    let tab := (addDocs n).foldl DocTable.step kvsDocCreate
    tab.count = n ∧ tab.call (addDoc n) = (.code (-1), tab) ∧
      (docMapCall ((addDocs n).foldl docMapStep ∅) (addDoc n)).1 = .code 0 := by
  intro n tab
  exact addDoc_refused (n := n) rfl

end PocketKv.Storage
