import PocketKv.Persistence.Loading
import PocketKv.Replication.FullSync

/-!
# What a full synchronisation leaves behind
-/

namespace PocketKv.Replication

open Library Resp Store Persistence

/-- The same content. -/
def Same (s t : Db) : Prop := s.read = t.read

/-- The records of the snapshot that `kvs_dump_to_fd` makes at time `t₀`. -/
def snapshotRecords (t₀ : ℤ) (M : Db) : List Record := (dumpRecords t₀ M).getD []

/-- The snapshot of the data `M` sets all that a replica with the data `s` has: each key has a record; each deadline
belongs to a key whose record has one that has not passed; each document has a record with at least one field, and
all its fields are in it. -/
def Covers (t₀ now : ℤ) (M s : Db) : Prop :=
  (∀ x ∈ s.kv.keys, ∃ r ∈ snapshotRecords t₀ M, r.IsOf x) ∧
  (∀ x ∈ s.ttl.keys, ∃ r ∈ snapshotRecords t₀ M, r.IsOf x ∧ r.Mortal now) ∧
  ∀ d ∈ s.docs.entries,
    (∃ r ∈ snapshotRecords t₀ M, r.IsDoc d.1 ∧ docFields r.value ≠ []) ∧
    ∀ f ∈ d.2.keys, ∃ r ∈ snapshotRecords t₀ M, r.IsDoc d.1 ∧ f ∈ (docFields r.value).map Prod.fst

instance (t₀ now : ℤ) (M s : Db) : Decidable (Covers t₀ now M s) := inferInstanceAs (Decidable (_ ∧ _ ∧ _))

lemma covers_iff {t₀ now : ℤ} {M s : Db} :
    Covers t₀ now M s ↔ ∀ c, s.read c = none ∨ c ∈ cellsOf now (snapshotRecords t₀ M) := by
  simp only [← imp_iff_not_or.trans (or_congr_left not_not), cellsOf, List.mem_flatMap]
  constructor
  · rintro ⟨hkv, httl, hdocs⟩ c hc
    cases c with
    | kv x =>
      obtain ⟨r, hr, hx⟩ := hkv x (AList.mem_keys.mp (Db.read_kv_ne_none.mp hc))
      exact ⟨r, hr, mem_recordCells_kv.mpr hx⟩
    | ttl x =>
      obtain ⟨r, hr, hx⟩ := httl x (AList.mem_keys.mp (Db.read_ttl_ne_none.mp hc))
      exact ⟨r, hr, mem_recordCells_ttl.mpr hx⟩
    | doc d =>
      obtain ⟨fields, hd⟩ := exists_lookup (Db.read_doc_ne_none.mp hc)
      obtain ⟨r, hr, hx⟩ := (hdocs ⟨d, fields⟩ (AList.mem_lookup_iff.mp hd)).1
      exact ⟨r, hr, mem_recordCells_doc.mpr hx⟩
    | field d f =>
      obtain ⟨fields, hd, hf⟩ := Db.read_field_ne_none.mp hc
      obtain ⟨r, hr, hx⟩ := (hdocs ⟨d, fields⟩ (AList.mem_lookup_iff.mp hd)).2 f (AList.mem_keys.mp hf)
      exact ⟨r, hr, mem_recordCells_field.mpr hx⟩
  · intro h
    refine ⟨fun x hx => ?_, fun x hx => ?_, fun d hd => ⟨?_, fun f hf => ?_⟩⟩
    · obtain ⟨r, hr, hc⟩ := h (.kv x) (Db.read_kv_ne_none.mpr (AList.mem_keys.mpr hx))
      exact ⟨r, hr, mem_recordCells_kv.mp hc⟩
    · obtain ⟨r, hr, hc⟩ := h (.ttl x) (Db.read_ttl_ne_none.mpr (AList.mem_keys.mpr hx))
      exact ⟨r, hr, mem_recordCells_ttl.mp hc⟩
    · have hmem : d.1 ∈ s.docs := AList.lookup_isSome.mp (by rw [AList.mem_lookup_iff.mpr hd]; rfl)
      obtain ⟨r, hr, hc⟩ := h (.doc d.1) (Db.read_doc_ne_none.mpr hmem)
      exact ⟨r, hr, mem_recordCells_doc.mp hc⟩
    · have hread : s.read (.field d.1 f) ≠ none :=
        Db.read_field_ne_none.mpr ⟨d.2, AList.mem_lookup_iff.mpr hd, AList.mem_keys.mpr hf⟩
      obtain ⟨r, hr, hc⟩ := h (.field d.1 f) hread
      exact ⟨r, hr, mem_recordCells_field.mp hc⟩

/-- **Convergence**: a replica that finishes the full sync has the store and the deadlines of an empty server that
loads the snapshot, with the snapshot as its dump and an empty append-only file, exactly if the snapshot sets all
that it had before. -/
theorem fullsync_converges_iff (t₀ now : ℤ) (off : ℕ) {M : Db} {snapshot : Bytes} {S : Slave} (hM : M.Fits)
    (hsnap : kvsDumpToFd t₀ off M = some snapshot) (hfile : S.received = some snapshot)
    (hdone : S.finishDone = false) :
    (Same (S.finishFullsync now).db (replayDumpFile now snapshot Db.empty).2 ∧
      (S.finishFullsync now).dump = some (kvsDumpSetAofOffset snapshot 0) ∧
      (S.aof.disabled = false → S.aof.isOpen = true → (S.finishFullsync now).aof.content = [])) ↔
    Covers t₀ now M S.db := by
  obtain ⟨recs, hrecs, rfl⟩ := Option.map_eq_some_iff.mp hsnap
  obtain ⟨K, D, hK, hD, hamong⟩ := snapshot_among hM hrecs
  have hfits := (dumpRecords_eq_some hrecs).1
  have hfinish : S.finishFullsync now =
      (S.close.adopt now (leBytes 8 off ++ recs.flatMap Record.encode)).sendRepldone
        (some (leBytes 8 off ++ recs.flatMap Record.encode)) := by
    unfold Slave.finishFullsync
    rw [hdone, hfile]
    rfl
  have hdb : (S.finishFullsync now).db = loadRecords now S.db recs := by
    rw [hfinish]
    exact congrArg Prod.snd (replayDumpFile_encode now off hfits S.db)
  have haof : S.aof.disabled = false → S.aof.isOpen = true → (S.finishFullsync now).aof.content = [] := by
    intro hdis hopen
    rw [hfinish]
    simp [Slave.sendRepldone, Slave.adopt, Slave.close, persistAofRebase, hdis, hopen, Aof.content,
      Aof.drainPending]
  rw [covers_iff, snapshotRecords, hrecs, Option.getD_some, ← loadRecords_same_iff now hK hD hamong, hdb,
    replayDumpFile_encode now off hfits]
  refine ⟨fun h => h.1, fun h => ⟨h, ?_, haof⟩⟩
  rw [hfinish]
  rfl

/-- A replica that has received all of the snapshot. -/
def receivedBy (db : Db) (snapshot : Bytes) : Slave :=
  { loading := true, targetBytes := snapshot.length, loadedBytes := snapshot.length, tmp := some snapshot
    db := db, attempt := snapshot }

/-- A store with two keys. -/
def twoKeys : Db := (Db.empty.put .hash (str "a") (str "2")).put .array (str "b") (str "3")

/-- A replica that had an older value of one of the keys converges. -/
theorem fullsync_converges_older_value :
    Covers 0 0 twoKeys (Db.empty.put .hash (str "a") (str "1")) ∧
    let snapshot := (kvsDumpToFd 0 0 twoKeys).getD []
    let S := receivedBy (Db.empty.put .hash (str "a") (str "1")) snapshot
    Same (S.finishFullsync 0).db (replayDumpFile 0 snapshot Db.empty).2 ∧
      (S.finishFullsync 0).dump = some (kvsDumpSetAofOffset snapshot 0) ∧
      (S.aof.disabled = false → S.aof.isOpen = true → (S.finishFullsync 0).aof.content = []) :=
  ⟨by decide, (fullsync_converges_iff 0 0 0 (M := twoKeys) ⟨by decide, by decide⟩ (by decide) rfl rfl).mpr
    (by decide)⟩

/-- A replica keeps a key that the master does not have. -/
theorem fullsync_keeps_stale_key :
    let snapshot := (kvsDumpToFd 0 0 twoKeys).getD []
    let S := receivedBy (Db.empty.put .hash (str "c") (str "1")) snapshot
    ¬Same (S.finishFullsync 0).db (replayDumpFile 0 snapshot Db.empty).2 ∧
      engineGet (S.finishFullsync 0).db .hash (str "c") = some (str "1") := by
  refine ⟨fun h => ?_, by decide⟩
  have hc := congrFun h (.kv (.hash, str "c"))
  exact absurd hc (by decide)

end PocketKv.Replication
