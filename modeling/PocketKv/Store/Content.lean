import PocketKv.Library.Replay
import PocketKv.Store.Steps

/-!
# What commands do to the contents
-/

namespace PocketKv.Store

open Library Resp Function

/-! ### Contents -/

/-- The cells but for the deadlines. -/
def Db.content (s : Db) : Cell → Option Val
  | .ttl _ => none
  | c => s.read c

lemma Db.content_kv (s : Db) (x : Slot) : s.content (.kv x) = (s.kv.lookup x).map .bytes := rfl

@[simp] lemma Db.content_empty : Db.empty.content = fun _ => none := by
  funext c
  cases c <;> rfl

lemma Db.content_congr {s t : Db} (hkv : s.kv = t.kv) (hdocs : s.docs = t.docs) : s.content = t.content := by
  funext c
  cases c <;> simp [content, read, hkv, hdocs]

lemma Db.content_put (s : Db) (e : Engine) (k v : Bytes) :
    (s.put e k v).content = update s.content (.kv (e, k)) (some (.bytes v)) := by
  funext c
  cases c with
  | ttl x => rw [update_of_ne (by simp)]; rfl
  | kv x => exact congrFun (Db.read_put s e k v) (.kv x)
  | doc d => rfl
  | field d f => rfl

lemma Db.content_erase (s : Db) (x : Slot) :
    ({ s with kv := s.kv.erase x } : Db).content = update s.content (.kv x) none := by
  funext c
  cases c with
  | kv y =>
    simp only [content, read, lookup_erase_eq, update_apply, Cell.kv.injEq]
    split <;> rfl
  | ttl y => rfl
  | doc d => rfl
  | field d f => rfl

lemma Db.content_putField (s : Db) (d f v : Bytes) :
    (s.putField d f v).content = applyWrites s.content [(.doc d, .present), (.field d f, .bytes v)] := by
  funext c
  cases c with
  | ttl x => rfl
  | kv x => rfl
  | doc d' => exact congrFun (Db.read_putField s d f v) (.doc d')
  | field d' f' => exact congrFun (Db.read_putField s d f v) (.field d' f')

lemma update_same {κ ν : Type*} [DecidableEq κ] {m : κ → ν} {c : κ} {v : ν} (h : m c = v) :
    update m c v = m := by
  rw [← h, update_eq_self]

/-! ### The operations of the engines -/

section

variable (now : ℤ) (s : Db) (e : Engine) (k v : Bytes)

@[simp] lemma content_expireDel : (expireDel s e k).2.content = s.content := by
  rw [expireDel_snd]
  exact Db.content_congr rfl rfl

@[simp] lemma content_expireSet (ttlMs : ℤ) : (expireSet now s e k ttlMs).2.content = s.content := by
  unfold expireSet
  split
  · rfl
  · exact Db.content_congr rfl rfl

lemma content_engineDel : (engineDel s e k).2.content = update s.content (.kv (e, k)) none := by
  rw [engineDel_snd]
  exact Db.content_erase s (e, k)

lemma content_tryExpire : (tryExpire now s e k).content =
    if expireIsExpired now s e k then update s.content (.kv (e, k)) none else s.content := by
  rw [tryExpire_eq]
  split
  · rw [← Db.content_erase]
    exact Db.content_congr rfl rfl
  · rfl

lemma update_content_tryExpire (w : Option Val) :
    update (tryExpire now s e k).content (.kv (e, k)) w = update s.content (.kv (e, k)) w := by
  rw [content_tryExpire]
  split
  · exact update_idem ..
  · rfl

lemma content_engineMod : (engineMod s e k v).2.content =
    if engineExist s e k then update s.content (.kv (e, k)) (some (.bytes v)) else s.content := by
  unfold engineMod
  split
  · exact Db.content_put s e k v
  · rfl

lemma content_docDelField (d f : Bytes) :
    (docDelField s d f).2.content = update s.content (.field d f) none := by
  unfold docDelField
  cases hd : s.docs.lookup d with
  | none => exact (update_same (by simp [Db.content, Db.read, hd])).symm
  | some fields =>
    simp only
    cases hf : fields.lookup f with
    | none => exact (update_same (by simp [Db.content, Db.read, hd, hf])).symm
    | some w =>
      funext c
      cases c with
      | kv x => rfl
      | ttl x => rfl
      | doc d' =>
        by_cases h : d' = d
        · subst h
          simp [Db.content, Db.read, hd]
        · simp [Db.content, Db.read, h]
      | field d' f' =>
        simp only [Db.content, Db.read, Option.isSome_some, if_true, lookup_insert_eq, update_apply,
          Cell.field.injEq]
        by_cases h : d' = d
        · subst h
          by_cases h' : f' = f
          · subst h'
            simp
          · simp [h', hd]
        · simp [h]

/-- The cells of a document. -/
def docCells (d : Bytes) : Cell → Option (Option Val)
  | .doc d' => if d' = d then some none else none
  | .field d' _ => if d' = d then some none else none
  | _ => none

lemma docDel_snd (d : Bytes) : (docDel s d).2 = s.withDocs (s.docs.erase d) := by
  unfold docDel Db.withDocs
  cases hd : s.docs.lookup d with
  | none => simp [erase_eq_self hd]
  | some fields => rfl

lemma content_docDel (d : Bytes) : (docDel s d).2.content = fun c => (docCells d c).getD (s.content c) := by
  rw [docDel_snd]
  funext c
  cases c with
  | kv x => rfl
  | ttl x => rfl
  | doc d' =>
    simp only [Db.content, Db.read, Db.withDocs, lookup_erase_eq, docCells]
    split <;> rfl
  | field d' f =>
    simp only [Db.content, Db.read, Db.withDocs, lookup_erase_eq, docCells]
    split <;> rfl

end

/-! ### Commands as operations -/

/-- The values that `MSET` writes. -/
def pairWrites (e : Engine) (kvs : List (Bytes × Bytes)) : List (Cell × Val) :=
  kvs.map fun kv => (.kv (e, kv.1), .bytes kv.2)

lemma Db.content_cases {s : Db} {P : Cell → Prop} (hkv : ∀ x v, s.kv.lookup x = some v → P (.kv x))
    (hne : ∀ d fields, s.docs.lookup d = some fields → fields.entries ≠ [])
    (hfield : ∀ d fields f v, s.docs.lookup d = some fields → fields.lookup f = some v → P (.doc d) ∧ P (.field d f))
    {c : Cell} (hc : s.content c ≠ none) : P c := by
  cases c with
  | ttl x => exact absurd rfl hc
  | kv x =>
    obtain ⟨v, hv⟩ := exists_lookup (Db.read_kv_ne_none.mp hc)
    exact hkv x v hv
  | doc d =>
    obtain ⟨fields, hd⟩ := exists_lookup (Db.read_doc_ne_none.mp hc)
    obtain ⟨⟨f, v⟩, hf⟩ := List.exists_mem_of_ne_nil _ (hne d fields hd)
    exact (hfield d fields f v hd (AList.mem_lookup_iff.mpr hf)).1
  | field d f =>
    obtain ⟨fields, hd, hf⟩ := Db.read_field_ne_none.mp hc
    obtain ⟨v, hv⟩ := exists_lookup hf
    exact (hfield d fields f v hd hv).2

/-- What a command does to the cells. -/
def Cmd.op : Cmd → Op Cell Val
  | .lock k token _ => .assignIf (.kv (.array, k)) (some (.bytes token)) (·.isNone)
  | .unlock k token => .assignIf (.kv (.array, k)) none (· == some (.bytes token))
  | .docset d f v => .writes [(.doc d, .present), (.field d f, .bytes v)]
  | .docdel d f => .assignCell (.field d f) none
  | .docdrop d => .assign (docCells d)
  | .set e k v => .assignCell (.kv (e, k)) (some (.bytes v))
  | .setex e k _ v => .assignCell (.kv (e, k)) (some (.bytes v))
  | .mset e _ (some kvs) => .writes (pairWrites e kvs)
  | .mod e k v => .assignIf (.kv (e, k)) (some (.bytes v)) (·.isSome)
  | .del e k => .assignCell (.kv (e, k)) none
  | _ => .skip

/-- The keys that a command writes. -/
def Cmd.slots : Cmd → List Slot
  | .lock k _ _ | .unlock k _ => [(.array, k)]
  | .set e k _ | .setex e k _ _ | .mod e k _ | .del e k => [(e, k)]
  | .mset e _ (some kvs) => kvs.map fun kv => (e, kv.1)
  | _ => []

/-- The documents that a command writes. -/
def Cmd.docs : Cmd → List Bytes
  | .docset d _ _ => [d]
  | _ => []

/-- The first key of `MSET` is the first of its pairs. -/
def Cmd.Formed : Cmd → Prop
  | .mset _ first (some kvs) => first = kvs.head?.map Prod.fst
  | _ => True

lemma Cmd.Formed.ite {p : Prop} [Decidable p] {a b : Cmd} (ha : a.Formed) (hb : b.Formed) :
    (if p then a else b).Formed := by
  split
  · exact ha
  · exact hb

lemma mset_formed (e : Engine) (argv : List Bytes) :
    (Cmd.mset e (argv[1]?.map cstr) (if argv.length < 3 then none else pairs argv.tail)).Formed := by
  rcases argv with _ | ⟨c, _ | ⟨k, _ | ⟨v, t⟩⟩⟩
  · exact True.intro
  · exact True.intro
  · exact True.intro
  · rw [if_neg (by simp), List.tail_cons, pairs]
    cases pairs t with
    | none => exact True.intro
    | some kvs => rfl

lemma decodeEngine_formed (e : Engine) (op : Bytes) (argv : List Bytes) : (decodeEngine e op argv).Formed := by
  refine .ite True.intro (.ite (mset_formed e argv) ?_)
  iterate 10 refine .ite True.intro ?_
  exact True.intro

lemma decode_formed (argv : List Bytes) : (decode argv).Formed := by
  iterate 12 refine .ite True.intro ?_
  exact decodeEngine_formed ..

lemma Cmd.local_op (c : Cmd) : c.op.Local := by
  cases c with
  | lock k token ms => exact Op.local_assignIf _ _ _
  | unlock k token => exact Op.local_assignIf (Cell.kv (.array, k)) none (· == some (Val.bytes token))
  | mod e k v => exact Op.local_assignIf _ _ _
  | mset e first kvs =>
    cases kvs with
    | none => exact Op.local_assign _
    | some kvs => exact Op.local_assign _
  | _ => exact Op.local_assign _

lemma Cmd.assigns_kv (c : Cmd) (x : Slot) : c.op.assigns (.kv x) = none ↔ x ∉ c.slots := by
  cases c with
  | lock k token ms | unlock k token | set e k v | setex e k secs v | mod e k v | del e k =>
    simp only [op, slots, Op.assignIf, Op.assignCell, Op.assign, update_apply, Cell.kv.injEq, List.mem_singleton]
    split <;> simp [*]
  | mset e first kvs =>
    cases kvs with
    | none => simp [op, slots, Op.skip]
    | some kvs =>
      simp only [op, slots, Op.writes, Op.assign, Option.map_eq_none_iff]
      have hmem : Cell.kv x ∈ (pairWrites e kvs).map Prod.fst ↔ x ∈ kvs.map fun kv => (e, kv.1) := by
        simp [pairWrites]
      rw [← hmem]
      constructor
      · intro h hx
        exact applyWrites_ne_none_of_mem hx _ h
      · exact fun h => applyWrites_of_notMem h _
  | docset d f v => simp [op, slots, Op.writes, Op.assign, applyWrites, update_apply]
  | docdel d f => simp [op, slots, Op.assignCell, Op.assign]
  | docdrop d => simp [op, slots, Op.assign, docCells]
  | _ => simp [op, slots, Op.skip]

/-! ### Writes that succeed -/

section

variable {now : ℤ} {s s' : Db} {e : Engine} {k v : Bytes} {held : Slot → Option Bytes} {kvs : List (Bytes × Bytes)}
  {c : Cmd} {m : Cell → Option Val} {wrote : Bool}

lemma settleLock_db (failed : String) (r : Rc × Db) : (settleLock failed r).db = r.2 := by
  obtain ⟨rc, t⟩ := r
  cases rc <;> rfl

lemma settle_ok {isSet missing : Bool} {r : Rc × Db} (h : (settle isSet missing r).wrote = true) :
    r.1 = .ok ∧ (settle isSet missing r).db = r.2 :=
  ⟨(settle_wrote_iff isSet missing r).mp h, settle_db isSet missing r⟩

lemma settleDoc_db (missing failed : String) (r : Rc × Db) : (settleDoc missing failed r).db = r.2 := by
  obtain ⟨rc, t⟩ := r
  cases rc <;> rfl

lemma content_clear (s : Db) (e : Engine) (k : Bytes) : (s.clear e k).content = s.content := Db.content_congr rfl rfl

lemma content_stamp (s : Db) (e : Engine) (k : Bytes) (d : ℤ) : (s.stamp e k d).content = s.content :=
  Db.content_congr rfl rfl

lemma content_put_tryExpire (v : Bytes) : ((tryExpire now s e k).put e k v).content =
    update s.content (.kv (e, k)) (some (.bytes v)) := by
  rw [Db.content_put, update_content_tryExpire]

lemma content_drop_tryExpire : ((tryExpire now s e k).drop e k).content = update s.content (.kv (e, k)) none := by
  rw [← update_content_tryExpire now, ← Db.content_erase]
  exact Db.content_congr rfl rfl

lemma content_engineUpsert (h : (engineUpsert now s e k v).1 = .ok) :
    (engineUpsert now s e k v).2.content = update s.content (.kv (e, k)) (some (.bytes v)) := by
  have hroom := engineUpsert_ok.mp h
  simp only [engineUpsert, engineMod, engineExist_tryExpire, engineSet_eq_put (hasRoom_iff.mp hroom)]
  split
  · rw [expireDel_snd, content_clear, content_put_tryExpire]
  · exact content_put_tryExpire v

lemma content_upsertAll (h : (upsertAll now s e kvs).1 = .ok) :
    (upsertAll now s e kvs).2.content = applyWrites s.content (pairWrites e kvs) := by
  induction kvs generalizing s with
  | nil => rfl
  | cons kv kvs ih =>
    obtain ⟨k, v⟩ := kv
    have hone : (engineUpsert now s e k v).1 = .ok → _ := content_engineUpsert
    unfold upsertAll at h ⊢
    rcases hu : engineUpsert now s e k v with ⟨rc, t⟩
    rw [hu] at h hone
    cases rc with
    | ok =>
      rw [ih h, hone rfl]
      rfl
    | miss => cases h
    | fail => cases h

lemma content_upsertAll_first (first : Option Bytes)
    (hfirst : first = kvs.head?.map Prod.fst)
    (h : (upsertAll now (first.elim s (tryExpire now s e)) e kvs).1 = .ok) :
    (upsertAll now (first.elim s (tryExpire now s e)) e kvs).2.content =
      applyWrites s.content (pairWrites e kvs) := by
  rw [content_upsertAll h]
  cases kvs with
  | nil =>
    subst hfirst
    rfl
  | cons kv kvs =>
    subst hfirst
    simp only [pairWrites, List.map_cons, applyWrites_cons, List.head?_cons, Option.map_some, Option.elim_some,
      update_content_tryExpire]

lemma tryExpire_of_lookup {w : Bytes} (h : (tryExpire now s e k).kv.lookup (e, k) = some w) : tryExpire now s e k = s :=
  tryExpire_of_live (by rw [← engineExist_tryExpire, engineExist, h]; rfl)

lemma Ran.overwrites {t : Db} (hran : Ran now s c wrote t) (hc : c.Formed) (h : wrote = true) :
    t.content = c.op.overwrite s.content := by
  cases hran with
  | set v _ => rw [content_clear, content_put_tryExpire, Cmd.op, Op.assignCell_overwrite]
  | mod v _ => rw [content_clear, content_put_tryExpire, Cmd.op, Op.assignIf_overwrite]
  | setex v _ _ => rw [content_stamp, content_put_tryExpire, Cmd.op, Op.assignCell_overwrite]
  | lock token _ _ _ => rw [content_stamp, content_put_tryExpire, Cmd.op, Op.assignIf_overwrite]
  | del e k => rw [content_drop_tryExpire, Cmd.op, Op.assignCell_overwrite]
  | unlock _ => rw [content_drop_tryExpire, Cmd.op, Op.assignIf_overwrite]
  | expire hlive _ =>
    rw [content_stamp, tryExpire_of_live hlive]
    rfl
  | persist hlive _ =>
    rw [content_clear, tryExpire_of_live hlive]
    rfl
  | renew _ hget =>
    rw [content_stamp, tryExpire_of_lookup hget]
    rfl
  | mset e first kvs =>
    rw [Cmd.op, Op.writes_overwrite]
    exact content_upsertAll_first first hc ((upsertAll_ok kvs).mpr h)
  | docset f v _ => rw [Db.content_putField, Cmd.op, Op.writes_overwrite]
  | @docdel d f fields hd hf =>
    have hdb : (docDelField s d f).2 = s.withDocs (s.docs.insert d (fields.erase f)) := by
      simp only [docDelField, hd, if_pos hf]
      rfl
    rw [← hdb, content_docDelField, Cmd.op, Op.assignCell_overwrite]
  | docdrop d =>
    rw [← docDel_snd, content_docDel]
    rfl
  | _ => cases h

lemma exec_overwrites (hc : c.Formed) (h : (exec now s c).wrote = true) :
    (exec now s c).db.content = c.op.overwrite s.content :=
  (exec_ran now s c).overwrites hc h

/-- The lock that the command takes is free or has its token. -/
def Cmd.grants (held : Slot → Option Bytes) : Cmd → Bool
  | .lock k token _ => held (.array, k) = none ∨ held (.array, k) = some token
  | _ => true

lemma Ran.settles {t : Db} (hran : Ran now s c wrote t) (h : wrote = true)
    (hheld : ∀ x, m (.kv x) = (held x).map .bytes)
    (hm : ∀ x v, s.kv.lookup x = some v → held x = some v) (hgrants : c.grants held = true) : c.op.Settles m := by
  cases hran with
  | lock token _ _ _ =>
    unfold Op.Settles
    rw [Cmd.op, Op.assignIf_apply, Op.assignIf_overwrite]
    rcases of_decide_eq_true hgrants with hnone | hsome
    · rw [if_pos (by simp [hheld, hnone])]
    · rw [update_same (by rw [hheld, hsome]; rfl), ite_self]
  | unlock hget =>
    have hfound := hm _ _ (tryExpire_of_lookup hget ▸ hget)
    exact Op.settles_of_accepts (by simp [Cmd.op, Op.assignIf, hheld, hfound])
  | mod v hlive =>
    obtain ⟨w, hw⟩ := Option.isSome_iff_exists.mp (Bool.and_eq_true_iff.mp hlive).1
    exact Op.settles_of_accepts (by simp [Cmd.op, Op.assignIf, hheld, hm _ _ hw])
  | lockLate | lockMiss | unlockMiss | modMiss => cases h
  | _ => exact Op.settles_of_accepts rfl

lemma exec_settles (h : (exec now s c).wrote = true)
    (hheld : ∀ x, m (.kv x) = (held x).map .bytes) (hm : ∀ x v, s.kv.lookup x = some v → held x = some v)
    (hgrants : c.grants held = true) : c.op.Settles m :=
  (exec_ran now s c).settles h hheld hm hgrants

end

end PocketKv.Store
