import PocketKv.Library.Writes
import PocketKv.Store.Engines

/-!
# The data as a memory
-/

namespace PocketKv.Store

open Library Resp List Function

variable {s : Db} {d k : Bytes} {e : Engine} {x : Slot}

/-- The places where data are kept. -/
inductive Cell where
  | kv (x : Slot)
  | ttl (x : Slot)
  | doc (d : Bytes)
  | field (d f : Bytes)
  deriving DecidableEq

/-- What is kept there. -/
inductive Val where
  | bytes (v : Bytes)
  | deadline (t : ℤ)
  | present
  deriving DecidableEq

lemma map_bytes_inj {a b : Option Bytes} (h : a.map Val.bytes = b.map Val.bytes) : a = b :=
  Option.map_injective (fun _ _ => Val.bytes.inj) h

/-- What is in a cell. -/
def Db.read (s : Db) : Cell → Option Val
  | .kv x => (s.kv.lookup x).map .bytes
  | .ttl x => (s.ttl.lookup x).map .deadline
  | .doc d => (s.docs.lookup d).map fun _ => .present
  | .field d f => ((s.docs.lookup d).bind (·.lookup f)).map .bytes

@[simp] lemma Db.read_empty : Db.empty.read = fun _ => none := by
  funext c
  cases c <;> rfl

lemma Db.read_kv_ne_none : s.read (.kv x) ≠ none ↔ x ∈ s.kv := by
  rw [Db.read, ne_eq, Option.map_eq_none_iff, AList.lookup_eq_none, not_not]

lemma Db.read_ttl_ne_none : s.read (.ttl x) ≠ none ↔ x ∈ s.ttl := by
  rw [Db.read, ne_eq, Option.map_eq_none_iff, AList.lookup_eq_none, not_not]

lemma Db.read_doc_ne_none : s.read (.doc d) ≠ none ↔ d ∈ s.docs := by
  rw [Db.read, ne_eq, Option.map_eq_none_iff, AList.lookup_eq_none, not_not]

lemma Db.read_field_ne_none {d f : Bytes} :
    s.read (.field d f) ≠ none ↔ ∃ fields, s.docs.lookup d = some fields ∧ f ∈ fields := by
  rw [Db.read, ne_eq, Option.map_eq_none_iff]
  cases s.docs.lookup d with
  | none => simp
  | some fields => simp [AList.lookup_eq_none]

/-- The data fit into the tables. -/
structure Db.Fits (s : Db) : Prop where
  array : s.arrayKeys.length ≤ kvsArraySize
  docs : s.docs.keys.length ≤ docTableMax

/-! ### Writes -/

lemma Db.read_put (s : Db) (e : Engine) (k v : Bytes) :
    (s.put e k v).read = update s.read (.kv (e, k)) (some (.bytes v)) := by
  funext c
  cases c with
  | kv x =>
    simp only [Db.read, Db.put, lookup_insert_eq, update_apply, Cell.kv.injEq]
    split <;> rfl
  | ttl x => rfl
  | doc d => rfl
  | field d f => rfl

lemma Db.read_expireSet {ttlMs : ℤ} (h : 0 < ttlMs) (now : ℤ) (s : Db) (e : Engine) (k : Bytes) :
    (expireSet now s e k ttlMs).2.read =
      update s.read (.ttl (e, k)) (some (.deadline (wrap64 (now + ttlMs)))) := by
  rw [expireSet, if_neg (by omega)]
  funext c
  cases c with
  | kv x => rfl
  | ttl x =>
    simp only [Db.read, lookup_insert_eq, update_apply, Cell.ttl.injEq]
    split <;> rfl
  | doc d => rfl
  | field d f => rfl

/-- The data with the field of the document. -/
def Db.putField (s : Db) (d f v : Bytes) : Db :=
  { s with docs := s.docs.insert d (((s.docs.lookup d).getD ∅).insert f v) }

lemma Db.read_putField (s : Db) (d f v : Bytes) :
    (s.putField d f v).read =
      applyWrites s.read [(.doc d, .present), (.field d f, .bytes v)] := by
  funext c
  simp only [applyWrites, List.foldl_cons, foldl_nil]
  cases c with
  | kv x => rfl
  | ttl x => rfl
  | doc d' =>
    simp only [Db.read, Db.putField, lookup_insert_eq, update_apply, Cell.doc.injEq, reduceCtorEq,
      if_false]
    split <;> rfl
  | field d' f' =>
    simp only [Db.read, Db.putField, lookup_insert_eq, update_apply, Cell.field.injEq,
      reduceCtorEq, if_false]
    by_cases hd : d' = d
    · subst hd
      simp only [if_true, Option.bind_some, lookup_insert_eq, true_and]
      split
      · rfl
      · cases s.docs.lookup d' <;> rfl
    · simp [hd]

/-! ### Room -/

lemma engineSet_eq_put
    (h : (s.kv.lookup (e, k)).isSome = true ∨ s.full e = false) (v : Bytes) :
    engineSet s e k v = (.ok, s.put e k v) := by
  unfold engineSet engineMod engineExist
  by_cases hx : (s.kv.lookup (e, k)).isSome = true
  · rw [if_pos hx, if_pos hx]
  · rw [if_neg hx, if_neg (by simp [h.resolve_left hx])]

lemma docSet_eq_put
    (h : (s.docs.lookup d).isSome = true ∨ s.docs.keys.length < docTableMax) (f v : Bytes) :
    docSet s d f v = (.ok, s.putField d f v) := by
  unfold docSet Db.putField
  cases hl : s.docs.lookup d with
  | some fields => rfl
  | none =>
    have hroom : ¬docTableMax ≤ s.docs.keys.length := by
      rw [hl] at h
      exact not_le.mpr (h.resolve_left (by simp))
    simp only [if_neg hroom]
    rfl

/-- The keys and the documents are among the given ones. -/
structure Db.Within (K : Finset Slot) (D : Finset Bytes) (s : Db) : Prop where
  array : ∀ k, (Engine.array, k) ∈ s.kv → (Engine.array, k) ∈ K
  docs : ∀ d ∈ s.docs, d ∈ D

variable {K : Finset Slot} {D : Finset Bytes}

lemma length_lt_card {α : Type*} [DecidableEq α] {l : List α} (hl : l.Nodup) {s : Finset α}
    (hs : ∀ x ∈ l, x ∈ s) {a : α} (ha : a ∈ s) (hal : a ∉ l) : l.length < s.card := by
  rw [← toFinset_card_of_nodup hl]
  refine Finset.card_lt_card ⟨fun x hx => hs x (mem_toFinset.mp hx), fun hsub => hal ?_⟩
  exact mem_toFinset.mp (hsub ha)

lemma Db.Within.not_full (h : s.Within K D) (hK : K.card ≤ kvsArraySize)
    (hk : e = .array → (e, k) ∈ K) : (s.kv.lookup (e, k)).isSome = true ∨ s.full e = false := by
  by_cases hx : (s.kv.lookup (e, k)).isSome = true
  · exact .inl hx
  · right
    cases e with
    | array =>
      have hmem : ∀ x ∈ s.arrayKeys, x ∈ K := by
        rintro ⟨e', k'⟩ hx'
        obtain ⟨hkeys, he⟩ := mem_filter.mp hx'
        obtain rfl : e' = .array := by simpa using he
        exact h.array k' (AList.mem_keys.mpr hkeys)
      have hnot : (Engine.array, k) ∉ s.arrayKeys := fun hm =>
        hx (AList.lookup_isSome.mpr (AList.mem_keys.mpr (mem_filter.mp hm).1))
      have hlt : s.arrayKeys.length < K.card := length_lt_card (s.kv.nodupKeys.filter _) hmem (hk rfl) hnot
      simp only [Db.full, decide_eq_false_iff_not, not_le]
      omega
    | rbtree => rfl
    | hash => rfl
    | skiptable => rfl

lemma Db.Within.doc_room (h : s.Within K D) (hD : D.card ≤ docTableMax) (hd : d ∈ D) :
    (s.docs.lookup d).isSome = true ∨ s.docs.keys.length < docTableMax := by
  by_cases hx : (s.docs.lookup d).isSome = true
  · exact .inl hx
  · right
    have hnot : d ∉ s.docs.keys := fun hm => hx (AList.lookup_isSome.mpr (AList.mem_keys.mpr hm))
    have hlt : s.docs.keys.length < D.card :=
      length_lt_card s.docs.nodupKeys (fun x hx' => h.docs x (AList.mem_keys.mpr hx')) hd hnot
    omega

lemma Db.mem_arrayKeys : x ∈ s.arrayKeys ↔ x ∈ s.kv ∧ x.1 = .array := by
  rw [arrayKeys, mem_filter, ← AList.mem_keys, decide_eq_true_iff]

lemma Db.Within.fits (h : s.Within K D) (hK : K.card ≤ kvsArraySize) (hD : D.card ≤ docTableMax) : s.Fits := by
  constructor
  · have hnodup : s.arrayKeys.Nodup := s.kv.nodupKeys.filter _
    rw [← toFinset_card_of_nodup hnodup]
    refine (Finset.card_le_card fun x hx => ?_).trans hK
    obtain ⟨e, k⟩ := x
    obtain ⟨hmem, rfl⟩ := Db.mem_arrayKeys.mp (mem_toFinset.mp hx)
    exact h.array k hmem
  · have hnodup : s.docs.keys.Nodup := s.docs.nodupKeys
    rw [← toFinset_card_of_nodup hnodup]
    refine (Finset.card_le_card fun d hd => ?_).trans hD
    exact h.docs d (AList.mem_keys.mpr (mem_toFinset.mp hd))

lemma Db.Within.put (h : s.Within K D) (hk : e = .array → (e, k) ∈ K) (v : Bytes) : (s.put e k v).Within K D := by
  refine ⟨fun k' hm => ?_, h.docs⟩
  rcases (AList.mem_insert _).mp hm with he | hm
  · obtain ⟨rfl, rfl⟩ := Prod.mk.inj he
    exact hk rfl
  · exact h.array k' hm

lemma Db.Within.putField (h : s.Within K D) (hd : d ∈ D) (f v : Bytes) : (s.putField d f v).Within K D := by
  refine ⟨h.array, fun d' hm => ?_⟩
  rcases (AList.mem_insert _).mp hm with rfl | hm
  · exact hd
  · exact h.docs d' hm

end PocketKv.Store
