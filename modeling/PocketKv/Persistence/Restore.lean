import PocketKv.Persistence.Loading
import PocketKv.Resp.Build
import PocketKv.Store.Lasting

/-!
# What a dump gives back
-/

namespace PocketKv.Persistence

open Library Resp Store List

/-- A dump says all that there is: no NUL byte in a value, no document without a field, no blank in a field, no `=`
in its name, and the deadlines have passed when it is loaded, or do not pass until the end of the recovery. -/
def dumpable (t t' now : ℤ) (s : Db) : Bool :=
  (dumpRecords now s).isSome &&
  s.kv.entries.all (fun x => cstr x.1.2 = x.1.2 ∧ cstr x.2 = x.2 ∧
    ∀ d ∈ dumpExpire now s x.1.1 x.1.2, (d : ℤ) ≤ t ∨ t' < d ∧ d < 2 ^ 63) &&
  s.docs.entries.all (fun d => cstr d.1 = d.1 ∧ d.2.entries ≠ [] ∧
    ∀ f ∈ d.2.entries, cstr f.1 = f.1 ∧ cstr f.2 = f.2 ∧ 32 ∉ f.1 ∧ 61 ∉ f.1 ∧ 32 ∉ f.2)

/-! ### Documents -/

lemma fieldOf_docItem {f : Sigma fun _ : Bytes => Bytes} (h₁ : cstr f.1 = f.1) (h₂ : cstr f.2 = f.2)
    (heq : 61 ∉ f.1) : fieldOf (docItem f) = some (f.1, f.2) := by
  have hne : ∀ b ∈ f.1, (b != 61) = true := fun b hb => by
    rw [bne_iff_ne]
    rintro rfl
    exact heq hb
  unfold docItem fieldOf
  rw [h₁, h₂, if_pos (by simp), takeWhile_append_of_pos hne, dropWhile_append_of_pos hne]
  simp

lemma nul_notMem_cstr {bs : Bytes} (h : cstr bs = bs) : 0 ∉ bs := by
  intro hmem
  rw [← h] at hmem
  have := mem_takeWhile_imp hmem
  simp at this

lemma docFields_items {fs : List (Sigma fun _ : Bytes => Bytes)} (hne : fs ≠ [])
    (h : ∀ f ∈ fs, cstr f.1 = f.1 ∧ cstr f.2 = f.2 ∧ 32 ∉ f.1 ∧ 61 ∉ f.1 ∧ 32 ∉ f.2) :
    docFields ([32].intercalate (fs.map docItem)) = fs.map fun f => (f.1, f.2) := by
  have hblank : ∀ item ∈ fs.map docItem, (32 : UInt8) ∉ item := by
    intro item hitem
    obtain ⟨f, hf, rfl⟩ := mem_map.mp hitem
    obtain ⟨h₁, h₂, hb₁, -, hb₂⟩ := h f hf
    simp [docItem, h₁, h₂, hb₁, hb₂]
  have hnul : ∀ b ∈ [32].intercalate (fs.map docItem), b ≠ 0 := by
    intro b hb
    rcases mem_intercalate_blank hb with rfl | ⟨item, hitem, hb⟩
    · decide
    · obtain ⟨f, hf, rfl⟩ := mem_map.mp hitem
      obtain ⟨h₁, h₂, -⟩ := h f hf
      rintro rfl
      have h0 : (0 : UInt8) ∈ f.1 ∨ (0 : UInt8) ∈ f.2 := by simpa [docItem, h₁, h₂] using hb
      exact h0.elim (nul_notMem_cstr h₁) (nul_notMem_cstr h₂)
  have hitems : (fs.map docItem).filter (fun x => decide (x ≠ [])) = fs.map docItem := by
    refine filter_eq_self.mpr fun item hitem => ?_
    obtain ⟨f, -, rfl⟩ := mem_map.mp hitem
    simp [docItem]
  unfold docFields
  rw [cstr_eq_self hnul, splitOn_intercalate _ hblank (by simpa using hne), hitems, filterMap_map]
  clear hne hblank hnul hitems
  induction fs with
  | nil => rfl
  | cons f fs ih =>
    obtain ⟨h₁, h₂, -, heq, -⟩ := h f mem_cons_self
    rw [filterMap_cons, Function.comp_apply, fieldOf_docItem h₁ h₂ heq, map_cons,
      ih fun g hg => h g (mem_cons_of_mem _ hg)]

/-! ### Records -/

section

variable {t t' now clock : ℤ} {s : Db} {x : Sigma fun _ : Slot => Bytes}
  {d : Sigma fun _ : Bytes => Table Bytes Bytes} {recs : List Record} {w : Cell × Val}

section

variable (h : dumpable t t' now s = true)
include h

lemma dumpable_key (hx : x ∈ s.kv.entries) :
    cstr x.1.2 = x.1.2 ∧ cstr x.2 = x.2 ∧
      ∀ d ∈ dumpExpire now s x.1.1 x.1.2, (d : ℤ) ≤ t ∨ t' < d ∧ d < 2 ^ 63 := by
  simp only [dumpable, Bool.and_eq_true, all_eq_true, decide_eq_true_eq] at h
  exact h.1.2 x hx

lemma dumpable_doc
    (hd : d ∈ s.docs.entries) : cstr d.1 = d.1 ∧ d.2.entries ≠ [] ∧
      ∀ f ∈ d.2.entries, cstr f.1 = f.1 ∧ cstr f.2 = f.2 ∧ 32 ∉ f.1 ∧ 61 ∉ f.1 ∧ 32 ∉ f.2 := by
  simp only [dumpable, Bool.and_eq_true, all_eq_true, decide_eq_true_eq] at h
  exact h.2 d hd

lemma kvRecord_writes (ht : 0 ≤ t) (ht' : t' < 2 ^ 63)
    (hclock : t ≤ clock) (hclock' : clock ≤ t') (hx : x ∈ s.kv.entries)
    (hw : w ∈ recordWrites clock (kvRecord now s x)) :
    w = (.kv x.1, .bytes x.2) ∨ ∃ d, t' < d ∧ w = (.ttl x.1, .deadline d) := by
  obtain ⟨hkey, hvalue, hexpire⟩ := dumpable_key h hx
  rcases mem_append.mp hw with hw | hw
  · left
    have := mem_singleton.mp hw
    rwa [kvRecord, cstr_cstr, cstr_cstr, hkey, hvalue] at this
  · right
    cases hd : dumpExpire now s x.1.1 x.1.2 with
    | none => simp [kvRecord, hd] at hw
    | some d =>
      simp only [kvRecord, hd, expireWrites] at hw
      split at hw
      · rename_i hpos
        refine ⟨wrap64 (clock + wrap64 (d - clock)), ?_, ?_⟩
        · rcases hexpire d (by rw [hd]; rfl) with hpast | ⟨hlate, hshort⟩
          · -- a deadline that has passed is not set
            unfold wrap64 at hpos
            rw [Int.bmod_eq_of_le (by omega) (by omega)] at hpos
            omega
          · rw [wrap64_of_lt (x := d - clock) (by omega) (by omega), wrap64_of_lt (by omega) (by omega)]
            omega
        · have := mem_singleton.mp hw
          rwa [cstr_cstr, hkey] at this
      · cases hw

lemma docRecord_writes (clock : ℤ)
    (hd : d ∈ s.docs.entries) {r : Record}
    (hr : docRecord d = some r) :
    recordWrites clock r =
      d.2.entries.flatMap fun f => [(.doc d.1, .present), (.field d.1 f.1, .bytes f.2)] := by
  obtain ⟨hname, hne, hfields⟩ := dumpable_doc h hd
  simp only [docRecord] at hr
  split at hr
  · obtain rfl := Option.some.inj hr
    simp [recordWrites, entryWrites, append_nil, hname, docFields_items hne hfields, flatMap_map]
  · cases hr

end

lemma mem_content_of_kv (hx : x ∈ s.kv.entries) : s.content (.kv x.1) = some (.bytes x.2) := by
  rw [Db.content_kv, AList.mem_lookup_iff.mpr hx]
  rfl

variable (h : dumpable t t' now s = true)
include h

lemma dump_writes_content (ht : 0 ≤ t) (ht' : t' < 2 ^ 63)
    (hclock : t ≤ clock) (hclock' : clock ≤ t') (hrecs : dumpRecords now s = some recs)
    (hw : w ∈ recs.flatMap (recordWrites clock)) :
    s.content w.1 = some w.2 ∨ ∃ x d, t' < d ∧ w = (.ttl x, .deadline d) := by
  obtain ⟨r, hr, hw⟩ := mem_flatMap.mp hw
  rcases ((dumpRecords_eq_some hrecs).2 r).mp hr with ⟨x, hx, rfl⟩ | ⟨d, hd, hdoc⟩
  · rcases kvRecord_writes h ht ht' hclock hclock' hx hw with rfl | ⟨d, hlate, rfl⟩
    · exact .inl (mem_content_of_kv hx)
    · exact .inr ⟨_, d, hlate, rfl⟩
  · rw [docRecord_writes h clock hd hdoc] at hw
    obtain ⟨f, hf, hw⟩ := mem_flatMap.mp hw
    have hlookup : s.docs.lookup d.1 = some d.2 := AList.mem_lookup_iff.mpr hd
    have hfield : d.2.lookup f.1 = some f.2 := AList.mem_lookup_iff.mpr hf
    simp only [mem_cons, not_mem_nil, or_false] at hw
    left
    rcases hw with rfl | rfl
    · simp [Db.content, Db.read, hlookup]
    · simp [Db.content, Db.read, hlookup, hfield]

lemma dump_covers (clock : ℤ)
    (hrecs : dumpRecords now s = some recs) {c : Cell} (hc : s.content c ≠ none) :
    c ∈ (recs.flatMap (recordWrites clock)).map Prod.fst := by
  rw [map_fst_writes]
  have hmem := (dumpRecords_eq_some hrecs).2
  have hdoc {d : Bytes} {fields : Table Bytes Bytes} (hd : s.docs.lookup d = some fields) :
      ∃ r ∈ recs, docRecord ⟨d, fields⟩ = some r := by
    have hentry := AList.mem_lookup_iff.mp hd
    simp only [dumpRecords, Option.bind_eq_bind, Option.bind_eq_some_iff] at hrecs
    obtain ⟨docs, hdocs, hrecs⟩ := hrecs
    have hsome : (docRecord ⟨d, fields⟩).isSome = true := by
      by_contra hnone
      have hmapM := mapM_eq_none hentry (Option.not_isSome_iff_eq_none.mp hnone)
      rw [hdocs] at hmapM
      cases hmapM
    obtain ⟨r, hr⟩ := Option.isSome_iff_exists.mp hsome
    exact ⟨r, (hmem r).mpr (.inr ⟨_, hentry, hr⟩), hr⟩
  refine Db.content_cases (fun x v hv => ?_) (fun d fields hd => (dumpable_doc h (AList.mem_lookup_iff.mp hd)).2.1)
    (fun d fields f v hd hf => ?_) hc
  · have hx := AList.mem_lookup_iff.mp hv
    refine mem_flatMap.mpr ⟨_, (hmem _).mpr (.inl ⟨⟨x, v⟩, hx, rfl⟩), mem_recordCells_kv.mpr ⟨rfl, ?_⟩⟩
    simp only [kvRecord, cstr_cstr]
    exact (dumpable_key h hx).1
  · obtain ⟨r, hr, hrd⟩ := hdoc hd
    have hwrites {w : Cell × Val} (hw : w ∈ [(Cell.doc d, Val.present), (Cell.field d f, Val.bytes v)]) :
        w.1 ∈ cellsOf clock recs := by
      refine mem_flatMap.mpr ⟨r, hr, ?_⟩
      rw [recordCells, docRecord_writes h clock (AList.mem_lookup_iff.mp hd) hrd]
      exact mem_map_of_mem (mem_flatMap.mpr ⟨⟨f, v⟩, AList.mem_lookup_iff.mp hf, hw⟩)
    exact ⟨hwrites mem_cons_self, hwrites (w := (.field d f, .bytes v)) (by simp)⟩

lemma dump_restores (ht : 0 ≤ t) (ht' : t' < 2 ^ 63) (hfits : s.Fits)
    (hclock : t ≤ clock) (hclock' : clock ≤ t')
    (hrecs : dumpRecords now s = some recs) :
    (loadRecords clock Db.empty recs).content = s.content ∧ (loadRecords clock Db.empty recs).Lasts t' := by
  obtain ⟨K, D, hK, hD, hamong⟩ := snapshot_among hfits hrecs
  have hread := loadRecords_writes clock hK hD hamong within_empty
  rw [Db.read_empty] at hread
  have hwrites {w : Cell × Val} := dump_writes_content h ht ht' hclock hclock' hrecs (w := w)
  refine ⟨?_, fun x d hx => ?_⟩
  · funext c
    have hcell (hc : ∀ x, c ≠ .ttl x) :
        applyWrites (fun _ => none) (recs.flatMap (recordWrites clock)) c = s.content c := by
      refine applyWrites_cell (fun v hv => ?_) (dump_covers h clock hrecs)
      rcases hwrites hv with hcontent | ⟨x, d, -, he⟩
      · exact hcontent
      · exact absurd (congrArg Prod.fst he) (hc x)
    rw [← hread] at hcell
    cases c with
    | ttl x => rfl
    | kv x => exact hcell nofun
    | doc d => exact hcell nofun
    | field d f => exact hcell nofun
  · have hmem : (Cell.ttl x, Val.deadline d) ∈ recs.flatMap (recordWrites clock) := by
      refine mem_of_applyWrites_eq ?_
      rw [← hread, Db.read, hx]
      rfl
    rcases hwrites hmem with hcontent | ⟨y, d', hlate, he⟩
    · cases hcontent
    · obtain ⟨-, hd⟩ := Prod.mk.inj he
      obtain rfl := Val.deadline.inj hd
      exact hlate

end

end PocketKv.Persistence
