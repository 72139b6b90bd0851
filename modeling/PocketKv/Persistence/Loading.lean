import PocketKv.Persistence.Dump
import PocketKv.Store.Cells

/-!
# Loading a dump, as writes
-/

namespace PocketKv.Persistence

open Library Resp Store List

variable {r : Record} {now : ℤ} {recs : List Record}

/-- What the entry of a record writes. -/
def entryWrites (kind : Kind) (key value : Bytes) : List (Cell × Val) :=
  match kind with
  | .kv e => [(.kv (e, cstr key), .bytes (cstr value))]
  | .doc =>
    (docFields value).flatMap fun f => [(.doc (cstr key), .present), (.field (cstr key) f.1, .bytes f.2)]

/-- What its deadline writes. -/
def expireWrites (now : ℤ) (kind : Kind) (key : Bytes) (expireAtMs : ℕ) : List (Cell × Val) :=
  match kind with
  | .kv e =>
    let ttlMs := wrap64 (expireAtMs - now)
    if 0 < ttlMs then [(.ttl (e, cstr key), .deadline (wrap64 (now + ttlMs)))] else []
  | .doc => []

/-- What a record writes. -/
def recordWrites (now : ℤ) (r : Record) : List (Cell × Val) :=
  entryWrites r.kind r.key r.value ++
    match r.expire with
    | none => []
    | some x => expireWrites now r.kind r.key x

/-- The key of a record in the array engine, or its document, is among the given ones. -/
structure Record.Among (K : Finset Slot) (D : Finset Bytes) (r : Record) : Prop where
  array : r.kind = .kv .array → (Engine.array, cstr r.key) ∈ K
  docs : r.kind = .doc → cstr r.key ∈ D

variable {K : Finset Slot} {D : Finset Bytes} {s : Db}

/-! ### The cells of a record -/

/-- The record is about the key. -/
def Record.IsOf (r : Record) (x : Slot) : Prop := r.kind = .kv x.1 ∧ cstr r.key = x.2

/-- The record is about the document. -/
def Record.IsDoc (r : Record) (d : Bytes) : Prop := r.kind = .doc ∧ cstr r.key = d

/-- The deadline is in the future. -/
def Record.Mortal (now : ℤ) (r : Record) : Prop := ∃ x ∈ r.expire, 0 < wrap64 (x - now)

instance (r : Record) (x : Slot) : Decidable (r.IsOf x) := inferInstanceAs (Decidable (_ ∧ _))

instance (r : Record) (d : Bytes) : Decidable (r.IsDoc d) := inferInstanceAs (Decidable (_ ∧ _))

instance (now : ℤ) (r : Record) : Decidable (r.Mortal now) :=
  match h : r.expire with
  | none => .isFalse (by simp [Record.Mortal, h])
  | some x => decidable_of_iff (0 < wrap64 (x - now)) (by simp [Record.Mortal, h])

/-- The cells that a record writes. -/
def recordCells (now : ℤ) (r : Record) : List Cell := (recordWrites now r).map Prod.fst

lemma mem_recordCells {c : Cell} :
    c ∈ recordCells now r ↔ c ∈ (entryWrites r.kind r.key r.value).map Prod.fst ∨
      ∃ x ∈ r.expire, c ∈ (expireWrites now r.kind r.key x).map Prod.fst := by
  unfold recordCells recordWrites
  cases r.expire <;> simp

lemma mem_expireWrites {c : Cell} :
    (∃ x ∈ r.expire, c ∈ (expireWrites now r.kind r.key x).map Prod.fst) ↔
      ∃ y, c = .ttl y ∧ r.IsOf y ∧ r.Mortal now := by
  unfold expireWrites Record.IsOf Record.Mortal
  cases hkind : r.kind with
  | doc => simp
  | kv e =>
    constructor
    · rintro ⟨x, hx, hc⟩
      dsimp only at hc
      split at hc
      · exact ⟨(e, cstr r.key), by simpa using hc, ⟨rfl, rfl⟩, x, hx, ‹_›⟩
      · simp at hc
    · rintro ⟨⟨e', k⟩, rfl, ⟨he, rfl⟩, x, hx, hpos⟩
      cases he
      exact ⟨x, hx, by simp [hpos]⟩

lemma mem_recordCells_kv {x : Slot} : Cell.kv x ∈ recordCells now r ↔ r.IsOf x := by
  rw [mem_recordCells, mem_expireWrites]
  unfold entryWrites Record.IsOf
  cases r.kind with
  | doc => simp
  | kv e => simp [Prod.ext_iff, eq_comm]

lemma mem_recordCells_ttl {x : Slot} : Cell.ttl x ∈ recordCells now r ↔ r.IsOf x ∧ r.Mortal now := by
  rw [mem_recordCells, mem_expireWrites]
  unfold entryWrites
  cases r.kind <;> simp

lemma mem_recordCells_doc {d : Bytes} : Cell.doc d ∈ recordCells now r ↔ r.IsDoc d ∧ docFields r.value ≠ [] := by
  rw [mem_recordCells, mem_expireWrites]
  unfold entryWrites Record.IsDoc
  cases r.kind with
  | kv e => simp
  | doc =>
    simp only [map_flatMap, mem_flatMap, reduceCtorEq, false_and, exists_false, or_false, true_and]
    constructor
    · rintro ⟨f, hf, hd⟩
      exact ⟨by simpa [eq_comm] using hd, ne_nil_of_mem hf⟩
    · rintro ⟨rfl, hne⟩
      obtain ⟨f, fs, hfs⟩ := exists_cons_of_ne_nil hne
      exact ⟨f, by simp [hfs], by simp⟩

lemma mem_recordCells_field {d f : Bytes} :
    Cell.field d f ∈ recordCells now r ↔ r.IsDoc d ∧ f ∈ (docFields r.value).map Prod.fst := by
  rw [mem_recordCells, mem_expireWrites]
  unfold entryWrites Record.IsDoc
  cases r.kind with
  | kv e => simp
  | doc =>
    simp only [map_flatMap, mem_flatMap, mem_map, reduceCtorEq, false_and, exists_false, or_false, true_and]
    constructor
    · rintro ⟨g, hg, w, hw, he⟩
      simp only [mem_cons, not_mem_nil, or_false] at hw
      rcases hw with rfl | rfl
      · cases he
      · cases he
        exact ⟨rfl, g, hg, rfl⟩
    · rintro ⟨rfl, g, hg, rfl⟩
      exact ⟨g, hg, (.field (cstr r.key) g.1, .bytes g.2), by simp, rfl⟩

/-! ### With room -/

lemma docs_writes (hD : D.card ≤ docTableMax) {d : Bytes} (hd : d ∈ D) (fs : List (Bytes × Bytes))
    (hs : s.Within K D) :
    (fs.foldl (fun s f => (docSet s d f.1 f.2).2) s).Within K D ∧
      (fs.foldl (fun s f => (docSet s d f.1 f.2).2) s).read =
        applyWrites s.read (fs.flatMap fun f => [(.doc d, .present), (.field d f.1, .bytes f.2)]) := by
  induction fs generalizing s with
  | nil => exact ⟨hs, rfl⟩
  | cons f fs ih =>
    obtain ⟨hw, hread⟩ := ih (hs.putField hd f.1 f.2)
    simp only [List.foldl_cons, docSet_eq_put (hs.doc_room hD hd), flatMap_cons]
    exact ⟨hw, by rw [hread, Db.read_putField, ← applyWrites_append]⟩

lemma loadEntry_writes (hK : K.card ≤ kvsArraySize) (hD : D.card ≤ docTableMax)
    (hr : r.Among K D) (hs : s.Within K D) :
    (loadEntry s r.kind r.key r.value).Within K D ∧
      (loadEntry s r.kind r.key r.value).read =
        applyWrites s.read (entryWrites r.kind r.key r.value) := by
  cases hkind : r.kind with
  | kv e =>
    have hk : e = .array → (e, cstr r.key) ∈ K := fun he => by
      subst he
      exact hr.array hkind
    simp only [loadEntry, engineSet_eq_put (hs.not_full hK hk)]
    exact ⟨hs.put hk _, Db.read_put s e _ _⟩
  | doc => exact docs_writes hD (hr.docs hkind) (docFields r.value) hs

lemma read_loadExpire (now : ℤ) (s : Db) (kind : Kind) (key : Bytes) (x : ℕ) :
    (loadExpire now s kind key x).read = applyWrites s.read (expireWrites now kind key x) := by
  cases kind with
  | kv e =>
    simp only [loadExpire, expireWrites]
    split
    · rename_i hpos
      exact Db.read_expireSet hpos now s e _
    · rfl
  | doc => rfl

lemma within_loadExpire (now : ℤ) (hs : s.Within K D) (kind : Kind) (key : Bytes) (x : ℕ) :
    (loadExpire now s kind key x).Within K D := by
  cases kind with
  | kv e =>
    simp only [loadExpire, expireSet]
    split
    · split <;> exact ⟨hs.array, hs.docs⟩
    · exact hs
  | doc => exact hs

lemma loadRecord_writes (now : ℤ) (hK : K.card ≤ kvsArraySize) (hD : D.card ≤ docTableMax)
    (hr : r.Among K D) (hs : s.Within K D) :
    (loadRecord now s r).Within K D ∧
      (loadRecord now s r).read = applyWrites s.read (recordWrites now r) := by
  obtain ⟨hw, hread⟩ := loadEntry_writes hK hD hr hs
  unfold loadRecord recordWrites
  cases r.expire with
  | none => exact ⟨hw, by rw [append_nil, hread]⟩
  | some x => exact ⟨within_loadExpire now hw _ _ _, by rw [applyWrites_append, ← hread, read_loadExpire]⟩

lemma loadRecords_writes (now : ℤ) (hK : K.card ≤ kvsArraySize) (hD : D.card ≤ docTableMax)
    (hrecs : ∀ r ∈ recs, r.Among K D) (hs : s.Within K D) :
    (loadRecords now s recs).read = applyWrites s.read (recs.flatMap (recordWrites now)) := by
  induction recs generalizing s with
  | nil => rfl
  | cons r rs ih =>
    obtain ⟨hw, hread⟩ := loadRecord_writes now hK hD (hrecs r (by simp)) hs
    rw [loadRecords, List.foldl_cons, ← loadRecords, flatMap_cons, applyWrites_append, ← hread]
    exact ih (fun r' hr' => hrecs r' (by simp [hr'])) hw

lemma snapshot_among {t₀ : ℤ} {M : Db} (hM : M.Fits)
    (h : dumpRecords t₀ M = some recs) :
    ∃ (K : Finset Slot) (D : Finset Bytes), K.card ≤ kvsArraySize ∧ D.card ≤ docTableMax ∧
      ∀ r ∈ recs, r.Among K D := by
  refine ⟨(M.arrayKeys.map fun x => (x.1, cstr x.2)).toFinset, (M.docs.keys.map cstr).toFinset, ?_, ?_,
    fun r hr => ?_⟩
  · refine (toFinset_card_le _).trans ?_
    rw [length_map]
    exact hM.array
  · refine (toFinset_card_le _).trans ?_
    rw [length_map]
    exact hM.docs
  · rcases ((dumpRecords_eq_some h).2 r).mp hr with ⟨x, hx, rfl⟩ | ⟨d, hd, hdoc⟩
    · refine ⟨fun hkind => ?_, fun hkind => (by cases hkind)⟩
      have he : x.1.1 = .array := by simpa [kvRecord] using hkind
      refine mem_toFinset.mpr (mem_map.mpr ⟨x.1, ?_, ?_⟩)
      · exact mem_filter.mpr ⟨mem_map.mpr ⟨x, hx, rfl⟩, by simpa using he⟩
      · simp [kvRecord, he, cstr_cstr]
    · simp only [docRecord] at hdoc
      split at hdoc
      · cases hdoc
        refine ⟨fun hkind => (by cases hkind), fun _ => ?_⟩
        refine mem_toFinset.mpr (mem_map.mpr ⟨d.1, mem_map.mpr ⟨d, hd, rfl⟩, ?_⟩)
        simp [cstr_cstr]
      · cases hdoc

/-! ### Nothing is removed -/

/-- There is a value in the second database wherever there is one in the first. -/
def Grows (s s' : Db) : Prop := ∀ c, s.read c ≠ none → s'.read c ≠ none

lemma grows_engineSet (s : Db) (e : Engine) (k v : Bytes) : Grows s (engineSet s e k v).2 := by
  have hput : Grows s (s.put e k v) := fun c hc => by
    rw [Db.read_put]
    exact applyWrites_ne_none hc [(.kv (e, k), .bytes v)]
  by_cases hroom : (s.kv.lookup (e, k)).isSome = true ∨ s.full e = false
  · rw [engineSet_eq_put hroom]
    exact hput
  · rw [not_or, Bool.not_eq_true, Bool.not_eq_false] at hroom
    rw [engineSet, engineExist, hroom.1, hroom.2]
    exact fun _ hc => hc

lemma grows_docSet (s : Db) (d f v : Bytes) : Grows s (docSet s d f v).2 := by
  intro c hc
  by_cases hroom : (s.docs.lookup d).isSome = true ∨ s.docs.keys.length < docTableMax
  · rw [docSet_eq_put hroom, Db.read_putField]
    exact applyWrites_ne_none hc _
  · rw [not_or, Bool.not_eq_true, Option.isSome_eq_false_iff, Option.isNone_iff_eq_none, not_lt] at hroom
    rw [docSet, hroom.1]
    simp only [if_pos hroom.2]
    exact hc

lemma grows_loadEntry (s : Db) (kind : Kind) (key value : Bytes) : Grows s (loadEntry s kind key value) := by
  cases kind with
  | kv e => exact grows_engineSet s e _ _
  | doc =>
    unfold loadEntry
    induction docFields value generalizing s with
    | nil => exact fun _ hc => hc
    | cons f fs ih => exact fun c hc => ih _ c (grows_docSet s _ _ _ c hc)

lemma grows_loadRecords (now : ℤ) (s : Db) (recs : List Record) : Grows s (loadRecords now s recs) := by
  induction recs generalizing s with
  | nil => exact fun _ hc => hc
  | cons r rs ih =>
    intro c hc
    refine ih _ c ?_
    have hentry := grows_loadEntry s r.kind r.key r.value c hc
    unfold loadRecord
    split
    · exact hentry
    · rw [read_loadExpire]
      exact applyWrites_ne_none hentry _

/-! ### Records over what is there -/

/-- The cells that records write. -/
def cellsOf (now : ℤ) (recs : List Record) : List Cell := recs.flatMap (recordCells now)

lemma map_fst_writes (now : ℤ) (recs : List Record) :
    (recs.flatMap (recordWrites now)).map Prod.fst = cellsOf now recs :=
  map_flatMap

lemma within_empty : Db.empty.Within K D :=
  ⟨fun _ h => absurd h (AList.notMem_empty _), fun _ h => absurd h (AList.notMem_empty _)⟩

lemma within_of_cover (hrecs : ∀ r ∈ recs, r.Among K D)
    (h : ∀ c, s.read c = none ∨ c ∈ cellsOf now recs) : s.Within K D := by
  constructor
  · intro k hk
    obtain ⟨r, hr, hc⟩ := mem_flatMap.mp ((h _).resolve_left (Db.read_kv_ne_none.mpr hk))
    obtain ⟨hkind, rfl⟩ := mem_recordCells_kv.mp hc
    exact (hrecs r hr).array hkind
  · intro d hd
    obtain ⟨r, hr, hc⟩ := mem_flatMap.mp ((h _).resolve_left (Db.read_doc_ne_none.mpr hd))
    obtain ⟨⟨hkind, rfl⟩, -⟩ := mem_recordCells_doc.mp hc
    exact (hrecs r hr).docs hkind

lemma loadRecords_same_iff (now : ℤ) (hK : K.card ≤ kvsArraySize) (hD : D.card ≤ docTableMax)
    (hrecs : ∀ r ∈ recs, r.Among K D) (s : Db) :
    (loadRecords now s recs).read = (loadRecords now Db.empty recs).read ↔
      ∀ c, s.read c = none ∨ c ∈ cellsOf now recs := by
  have hempty : (loadRecords now Db.empty recs).read =
      applyWrites (fun _ => none) (recs.flatMap (recordWrites now)) := by
    rw [← Db.read_empty]
    exact loadRecords_writes now hK hD hrecs within_empty
  rw [hempty, ← map_fst_writes]
  constructor
  · intro hsame c
    by_cases hc : s.read c = none
    · exact .inl hc
    · refine .inr (mem_of_applyWrites ?_)
      rw [← hsame]
      exact grows_loadRecords now s recs c hc
  · intro hcover
    have hs : s.Within K D := by
      rw [map_fst_writes] at hcover
      exact within_of_cover hrecs hcover
    rw [loadRecords_writes now hK hD hrecs hs, applyWrites_eq hcover]

end PocketKv.Persistence
