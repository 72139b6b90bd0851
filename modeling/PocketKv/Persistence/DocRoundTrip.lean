import PocketKv.Persistence.RoundTrip

/-!
# Documents through a dump
-/

namespace PocketKv.Persistence

open Library Resp Store Storage List Function

variable {d : Doc} {f : DocField} {w : Val} {v k text : Bytes} {c : Cell} {n : ℕ}

/-! ### The text and its fields -/

/-- The fields in the first `n` chains, without the chains that the dump leaves out. -/
def writtenFields (d : Doc) (n : ℕ) : List DocField :=
  (List.range n).flatMap fun j => if docLen d j < bufferCap - 4 then d.fields j else []

lemma docText_eq (d : Doc) (n : ℕ) : docText d n = (writtenFields d n).flatMap fieldText := by
  induction n with
  | zero => rfl
  | succ n ih =>
    have hlast : writtenFields d (n + 1) = writtenFields d n ++ if docLen d n < bufferCap - 4 then d.fields n else [] := by
      rw [writtenFields, range_succ, flatMap_append, flatMap_singleton]
      rfl
    rw [docText_succ, length_docText, ih, hlast, flatMap_append]
    split
    · rfl
    · rw [flatMap_nil, append_nil]

lemma mem_writtenFields : f ∈ writtenFields d n ↔ ∃ j, j < n ∧ docLen d j < bufferCap - 4 ∧ f ∈ d.fields j := by
  simp only [writtenFields, mem_flatMap, mem_range]
  refine exists_congr fun j => and_congr_right fun _ => ?_
  split <;> simp [*]

/-- The name and the value of a field. -/
def fieldPair (f : DocField) : Sigma fun _ : Bytes => Bytes := ⟨f.name, f.value⟩

/-- They are C strings. -/
def IsField (f : DocField) : Prop := IsCstr f.name ∧ IsCstr f.value

/-- Nothing in a field ends it. -/
def IsPlain (name value : Bytes) : Prop := 32 ∉ name ∧ 61 ∉ name ∧ 32 ∉ value

instance (name value : Bytes) : Decidable (IsPlain name value) := inferInstanceAs (Decidable (_ ∧ _ ∧ _))

lemma cstr_of_isCstr (h : IsCstr v) : cstr v = v := (cstr_eq_iff v).mpr h

lemma fieldText_eq (h : IsField f) : fieldText f = docItem (fieldPair f) ++ [32] := by
  rw [docItem, fieldPair, cstr_of_isCstr h.1, cstr_of_isCstr h.2, fieldText, append_assoc, cons_append]

lemma flatMap_fieldText {fs : List DocField} (hne : fs ≠ []) (hc : ∀ f ∈ fs, IsField f) :
    fs.flatMap fieldText = [32].intercalate (fs.map fun f => docItem (fieldPair f)) ++ [32] := by
  induction fs with
  | nil => exact absurd rfl hne
  | cons f fs ih =>
    have hf := fieldText_eq (hc f mem_cons_self)
    cases fs with
    | nil => simp [hf, List.intercalate]
    | cons g fs =>
      have hrest := ih (cons_ne_nil g fs) fun h hh => hc h (mem_cons_of_mem f hh)
      rw [flatMap_cons, hrest, hf]
      simp [List.intercalate]

lemma formatDoc_eq (h : formatDoc d = some text)
    (hc : ∀ f ∈ writtenFields d kvsDocFieldBuckets, IsField f) :
    text = [32].intercalate ((writtenFields d kvsDocFieldBuckets).map fun f => docItem (fieldPair f)) := by
  unfold formatDoc at h
  simp only [docText_eq] at h
  split at h
  · obtain rfl := Option.some.inj h
    cases hfs : writtenFields d kvsDocFieldBuckets with
    | nil => rfl
    | cons f fs =>
      rw [← hfs, flatMap_fieldText (by rw [hfs]; exact cons_ne_nil f fs) hc, if_pos getLast?_concat, dropLast_concat]
  · cases h

lemma docFields_formatDoc (h : formatDoc d = some text)
    (hc : ∀ f ∈ writtenFields d kvsDocFieldBuckets, IsField f)
    (hplain : ∀ f ∈ writtenFields d kvsDocFieldBuckets, IsPlain f.name f.value) :
    docFields text = (writtenFields d kvsDocFieldBuckets).map fun f => (f.name, f.value) := by
  rw [formatDoc_eq h hc]
  generalize writtenFields d kvsDocFieldBuckets = fs at hc hplain
  by_cases hne : fs = []
  · rw [hne]
    decide
  · have hpairs : ∀ f ∈ fs.map fieldPair, cstr f.1 = f.1 ∧ cstr f.2 = f.2 ∧ 32 ∉ f.1 ∧ 61 ∉ f.1 ∧ 32 ∉ f.2 := by
      intro f hf
      obtain ⟨g, hg, rfl⟩ := mem_map.mp hf
      exact ⟨cstr_of_isCstr (hc g hg).1, cstr_of_isCstr (hc g hg).2, hplain g hg⟩
    have hitems := docFields_items (by simpa using hne) hpairs
    rw [map_map, map_map] at hitems
    exact hitems

lemma notMem_of_mem_splitOn {x : UInt8} {xs tok : Bytes} (h : tok ∈ xs.splitOn x) : x ∉ tok := by
  induction xs generalizing tok with
  | nil =>
    obtain rfl := mem_singleton.mp h
    exact not_mem_nil
  | cons y xs ih =>
    rw [splitOn_cons_eq_if_modifyHead] at h
    split at h
    · rcases mem_cons.mp h with rfl | h
      · exact not_mem_nil
      · exact ih h
    · rename_i hne
      cases hsplit : xs.splitOn x with
      | nil =>
        rw [hsplit] at h
        cases h
      | cons t ts =>
        rw [hsplit, modifyHead_cons] at h
        rcases mem_cons.mp h with rfl | h
        · intro hmem
          rcases mem_cons.mp hmem with rfl | hmem
          · exact hne (beq_self_eq_true x)
          · exact ih (hsplit ▸ mem_cons_self) hmem
        · exact ih (hsplit ▸ mem_cons_of_mem t h)

lemma isPlain_of_mem_docFields {text name value : Bytes} (h : (name, value) ∈ docFields text) : IsPlain name value := by
  obtain ⟨tok, htok, hfield⟩ := mem_filterMap.mp h
  have hblank : 32 ∉ tok := notMem_of_mem_splitOn (mem_of_mem_filter htok)
  rw [fieldOf] at hfield
  split at hfield
  · obtain ⟨rfl, rfl⟩ := Prod.mk.inj (Option.some.inj hfield)
    refine ⟨fun hmem => hblank ?_, fun hmem => ?_, fun hmem => hblank ?_⟩
    · exact (takeWhile_sublist _).subset hmem
    · simpa using mem_takeWhile_imp hmem
    · exact (dropWhile_sublist _).subset (mem_of_mem_tail hmem)
  · cases hfield

/-! ### Documents and cells -/

lemma docView_eq_iff {s s' : Db} :
    docView s' = docView s ↔ (∀ k, s'.read (.doc k) = s.read (.doc k)) ∧ ∀ k f, s'.read (.field k f) = s.read (.field k f) := by
  have hkey : ∀ k, docView s' k = docView s k ↔
      s'.read (.doc k) = s.read (.doc k) ∧ ∀ f, s'.read (.field k f) = s.read (.field k f) := by
    intro k
    simp only [docView, Db.read]
    cases s'.docs.lookup k with
    | none => cases s.docs.lookup k <;> simp
    | some m' =>
      cases s.docs.lookup k with
      | none => simp
      | some m =>
        simp only [Option.map_some, Option.some.injEq, Option.bind_some, true_and, funext_iff]
        refine forall_congr' fun f => ?_
        rw [(Option.map_injective fun _ _ h => Val.bytes.inj h).eq_iff]
  rw [funext_iff]
  constructor
  · intro h
    exact ⟨fun k => ((hkey k).mp (h k)).1, fun k => ((hkey k).mp (h k)).2⟩
  · rintro ⟨hdoc, hfield⟩ k
    exact (hkey k).mpr ⟨hdoc k, hfield k⟩

lemma mem_docWrites {now : ℤ} {r : Record} (hkind : r.kind = .doc) :
    (c, w) ∈ recordWrites now r ↔ ∃ f v, (f, v) ∈ docFields r.value ∧
      ((c, w) = (.doc (cstr r.key), .present) ∨ (c, w) = (.field (cstr r.key) f, .bytes v)) := by
  have hwrites : recordWrites now r =
      (docFields r.value).flatMap fun f => [(.doc (cstr r.key), .present), (.field (cstr r.key) f.1, .bytes f.2)] := by
    rw [recordWrites, hkind]
    cases r.expire with
    | none => exact append_nil _
    | some e => exact append_nil _
  simp only [hwrites, mem_flatMap, Prod.exists, mem_cons, not_mem_nil, or_false]

lemma cell_of_kv {now : ℤ} {r : Record} {e : Engine} (hkind : r.kind = .kv e) (hc : c ∈ recordCells now r) :
    ∃ x, c = .kv x ∨ c = .ttl x := by
  rw [mem_recordCells, mem_expireWrites, hkind] at hc
  rcases hc with hc | ⟨y, rfl, -⟩
  · exact ⟨_, .inl (mem_singleton.mp hc)⟩
  · exact ⟨y, .inr rfl⟩

/-- The fields that are loaded for a document. -/
def loadedFields (d : Doc) : List (Bytes × Bytes) := (formatDoc d).elim [] docFields

section Load

variable {L : Layout} {s : Db} (hL : L.Holds s) {f : Bytes}
include hL

lemma doc_unique {d' : Doc} (hd : d ∈ L.docs.all) (hd' : d' ∈ L.docs.all) (hkey : d'.key = d.key) : d' = d :=
  Option.some.inj ((hL.inv.docFind_iff.mpr ⟨hd', hkey⟩).symm.trans (hL.inv.docFind_iff.mpr ⟨hd, rfl⟩))

lemma read_doc_iff : s.read (.doc k) = some w ↔ w = .present ∧ ∃ d, d ∈ L.docs.all ∧ d.key = k := by
  constructor
  · intro h
    obtain ⟨fields, hl, rfl⟩ := Option.map_eq_some_iff.mp h
    have hview : L.docs.read k = some fun f => fields.lookup f := by rw [hL.docs, docView, hl, Option.map_some]
    obtain ⟨d, hfind, -⟩ := Option.map_eq_some_iff.mp hview
    exact ⟨rfl, d, hL.inv.docFind_iff.mp hfind⟩
  · rintro ⟨rfl, d, hd, rfl⟩
    obtain ⟨fields, hl, -⟩ := hL.lookup_doc hd
    rw [Db.read, hl, Option.map_some]

lemma read_field_iff :
    s.read (.field k f) = some w ↔ ∃ d v, d ∈ L.docs.all ∧ d.key = k ∧ ⟨f, v⟩ ∈ d.all ∧ w = .bytes v := by
  constructor
  · intro h
    obtain ⟨v, hv, rfl⟩ := Option.map_eq_some_iff.mp h
    obtain ⟨fields, hl, hf⟩ := Option.bind_eq_some_iff.mp hv
    obtain ⟨d, hd, rfl⟩ := ((read_doc_iff hL).mp (by rw [Db.read, hl, Option.map_some])).2
    obtain ⟨fields', hl', hread⟩ := hL.lookup_doc hd
    obtain rfl := Option.some.inj (hl'.symm.trans hl)
    exact ⟨d, v, hd, rfl, (hL.inv.docs d hd).read_iff.mp ((hread f).trans hf), rfl⟩
  · rintro ⟨d, v, hd, rfl, hf, rfl⟩
    obtain ⟨fields, hl, hread⟩ := hL.lookup_doc hd
    rw [Db.read, hl, Option.bind_some, ← hread, (hL.inv.docs d hd).read_iff.mpr hf, Option.map_some]

lemma isField_of_mem (hs : s.Sound n) (hd : d ∈ L.docs.all) : IsCstr d.key ∧ ∀ f, f ∈ d.all → IsField f := by
  obtain ⟨fields, hl, hread⟩ := hL.lookup_doc hd
  obtain ⟨hkey, -, hfields⟩ := hs.docs d.key fields hl
  refine ⟨hkey, fun f hf => hfields f.name f.value ?_⟩
  rw [← hread]
  exact (hL.inv.docs d hd).read_iff.mpr hf

variable {recs : List Record} {now : ℤ}
  (hmem : L.Recorded now s recs)
include hmem

lemma mem_writes_iff (hs : s.Sound n) (now' : ℤ) (hc : ∀ x, c ≠ .kv x ∧ c ≠ .ttl x) :
    (c, w) ∈ recs.flatMap (recordWrites now') ↔ ∃ d f v, d ∈ L.docs.all ∧ (f, v) ∈ loadedFields d ∧
      ((c, w) = (.doc d.key, .present) ∨ (c, w) = (.field d.key f, .bytes v)) := by
  constructor
  · intro hw
    obtain ⟨r, hr, hw⟩ := mem_flatMap.mp hw
    rcases (hmem r).mp hr with ⟨x, v, hv, rfl⟩ | ⟨d, hd, hr⟩
    · obtain ⟨y, rfl | rfl⟩ := cell_of_kv rfl (mem_map_of_mem hw)
      · exact absurd rfl (hc y).1
      · exact absurd rfl (hc y).2
    · obtain ⟨text, htext, rfl⟩ := Option.map_eq_some_iff.mp hr
      obtain ⟨f, v, hf, hw⟩ := (mem_docWrites rfl).mp hw
      rw [cstr_of_isCstr (isField_of_mem hL hs hd).1] at hw
      exact ⟨d, f, v, hd, by rwa [loadedFields, htext], hw⟩
  · rintro ⟨d, f, v, hd, hf, hw⟩
    cases htext : formatDoc d with
    | none =>
      rw [loadedFields, htext] at hf
      cases hf
    | some text =>
      rw [loadedFields, htext] at hf
      have hr : Layout.docEntry d = some ⟨.doc, d.key, text, none⟩ := by rw [Layout.docEntry, htext, Option.map_some]
      refine mem_flatMap.mpr ⟨_, (hmem _).mpr (.inr ⟨d, hd, hr⟩), (mem_docWrites rfl).mpr ⟨f, v, hf, ?_⟩⟩
      rwa [cstr_of_isCstr (isField_of_mem hL hs hd).1]

lemma mem_writes_doc (hs : s.Sound n) (now' : ℤ) : (Cell.doc k, w) ∈ recs.flatMap (recordWrites now') ↔
    w = .present ∧ ∃ d, d ∈ L.docs.all ∧ d.key = k ∧ loadedFields d ≠ [] := by
  rw [mem_writes_iff hL hmem hs now' fun x => ⟨fun h => (by cases h), fun h => (by cases h)⟩]
  constructor
  · rintro ⟨d, f, v, hd, hf, hw | hw⟩
    · obtain ⟨hk, rfl⟩ := Prod.mk.inj hw
      exact ⟨rfl, d, hd, (Cell.doc.inj hk).symm, ne_nil_of_mem hf⟩
    · cases (Prod.mk.inj hw).1
  · rintro ⟨rfl, d, hd, rfl, hne⟩
    obtain ⟨⟨f, v⟩, hf⟩ := exists_mem_of_ne_nil _ hne
    exact ⟨d, f, v, hd, hf, .inl rfl⟩

lemma mem_writes_field (hs : s.Sound n) (now' : ℤ) :
    (Cell.field k f, w) ∈ recs.flatMap (recordWrites now') ↔
      ∃ d v, d ∈ L.docs.all ∧ d.key = k ∧ (f, v) ∈ loadedFields d ∧ w = .bytes v := by
  rw [mem_writes_iff hL hmem hs now' fun x => ⟨fun h => (by cases h), fun h => (by cases h)⟩]
  constructor
  · rintro ⟨d, g, v, hd, hg, hw | hw⟩
    · cases (Prod.mk.inj hw).1
    · obtain ⟨hk, rfl⟩ := Prod.mk.inj hw
      obtain ⟨rfl, rfl⟩ := Cell.field.inj hk
      exact ⟨d, v, hd, rfl, hg, rfl⟩
  · rintro ⟨d, v, hd, rfl, hf, rfl⟩
    exact ⟨d, f, v, hd, hf, .inr rfl⟩

end Load

/-! ### The round trip -/

/-- It has a field, nothing in a field ends it, no chain is left out, and the text fits into the buffer. -/
structure DocKept (d : Doc) : Prop where
  nonempty : d.all ≠ 0
  plain : ∀ f, f ∈ d.all → IsPlain f.name f.value
  written : ∀ j, j < kvsDocFieldBuckets → d.fields j ≠ [] → docLen d j < bufferCap - 4
  fits : docLen d kvsDocFieldBuckets < bufferCap

instance (d : Doc) : Decidable (DocKept d) :=
  decidable_of_iff (d.all ≠ 0 ∧ (∀ f ∈ d.all, IsPlain f.name f.value) ∧
      (∀ j < kvsDocFieldBuckets, d.fields j ≠ [] → docLen d j < bufferCap - 4) ∧ docLen d kvsDocFieldBuckets < bufferCap)
    ⟨fun h => ⟨h.1, h.2.1, h.2.2.1, h.2.2.2⟩, fun h => ⟨h.nonempty, h.plain, h.written, h.fits⟩⟩

lemma mem_all_of_written (h : f ∈ writtenFields d kvsDocFieldBuckets) : f ∈ d.all := by
  obtain ⟨j, hj, -, hf⟩ := mem_writtenFields.mp h
  exact mem_contents.mpr ⟨j, hj, hf⟩

lemma loadedFields_eq (hfits : docLen d kvsDocFieldBuckets < bufferCap) (hc : ∀ f, f ∈ d.all → IsField f)
    (hplain : ∀ f, f ∈ d.all → IsPlain f.name f.value) :
    loadedFields d = (writtenFields d kvsDocFieldBuckets).map fun f => (f.name, f.value) := by
  obtain ⟨text, htext⟩ := Option.isSome_iff_exists.mp ((isSome_formatDoc d).mpr hfits)
  rw [loadedFields, htext]
  exact docFields_formatDoc htext (fun f hf => hc f (mem_all_of_written hf)) fun f hf => hplain f (mem_all_of_written hf)

lemma mem_loadedFields (hfits : docLen d kvsDocFieldBuckets < bufferCap) (hc : ∀ f, f ∈ d.all → IsField f)
    (hplain : ∀ f, f ∈ d.all → IsPlain f.name f.value) {name value : Bytes} :
    (name, value) ∈ loadedFields d ↔ ⟨name, value⟩ ∈ writtenFields d kvsDocFieldBuckets := by
  rw [loadedFields_eq hfits hc hplain]
  constructor
  · intro h
    obtain ⟨f, hf, heq⟩ := mem_map.mp h
    obtain ⟨rfl, rfl⟩ := Prod.mk.inj heq
    exact hf
  · intro h
    exact mem_map.mpr ⟨_, h, rfl⟩

lemma DocKept.mem_writtenFields (h : DocKept d) : f ∈ writtenFields d kvsDocFieldBuckets ↔ f ∈ d.all := by
  refine ⟨mem_all_of_written, fun hf => ?_⟩
  obtain ⟨j, hj, hf⟩ := mem_contents.mp hf
  exact Persistence.mem_writtenFields.mpr ⟨j, hj, h.written j hj (ne_nil_of_mem hf), hf⟩

section Load

variable {L : Layout} {s s' : Db} (hL : L.Holds s) (hs : s.Sound n)
  (hfits : ∀ d, d ∈ L.docs.all → docLen d kvsDocFieldBuckets < bufferCap) {recs : List Record} {now now' : ℤ}
  (hmem : L.Recorded now s recs)
  (hread : s'.read = applyWrites (fun _ => none) (recs.flatMap (recordWrites now')))
include hL hs hfits hmem hread

lemma docKept_of_docView (hview : docView s' = docView s) : ∀ d, d ∈ L.docs.all → DocKept d := by
  intro d hd
  obtain ⟨hdoc, hfield⟩ := docView_eq_iff.mp hview
  have hloaded : ∀ f, f ∈ d.all → (f.name, f.value) ∈ loadedFields d := by
    intro f hf
    have hcell : s'.read (.field d.key f.name) = some (.bytes f.value) :=
      (hfield _ _).trans ((read_field_iff hL).mpr ⟨d, f.value, hd, rfl, hf, rfl⟩)
    rw [hread] at hcell
    obtain ⟨d', v, hd', hkey, hmem', hv⟩ := (mem_writes_field hL hmem hs now').mp (mem_of_applyWrites_eq hcell)
    obtain rfl := Val.bytes.inj hv
    exact doc_unique hL hd hd' hkey ▸ hmem'
  have hplain : ∀ f, f ∈ d.all → IsPlain f.name f.value := by
    intro f hf
    have hin := hloaded f hf
    cases htext : formatDoc d with
    | none =>
      rw [loadedFields, htext] at hin
      cases hin
    | some text =>
      rw [loadedFields, htext] at hin
      exact isPlain_of_mem_docFields hin
  have hc := (isField_of_mem hL hs hd).2
  refine ⟨fun hzero => ?_, hplain, fun j hj hne => ?_, hfits d hd⟩
  · -- without a field nothing is loaded for the document
    have hcell : s'.read (.doc d.key) = some .present := (hdoc _).trans ((read_doc_iff hL).mpr ⟨rfl, d, hd, rfl⟩)
    rw [hread] at hcell
    obtain ⟨-, d', hd', hkey, hne⟩ := (mem_writes_doc hL hmem hs now').mp (mem_of_applyWrites_eq hcell)
    obtain rfl := doc_unique hL hd hd' hkey
    obtain ⟨⟨name, value⟩, hf⟩ := exists_mem_of_ne_nil _ hne
    have hall := mem_all_of_written ((mem_loadedFields (hfits d' hd) hc hplain).mp hf)
    rw [hzero] at hall
    exact Multiset.notMem_zero _ hall
  · -- the first field of the chain was loaded, so that its chain was written
    obtain ⟨f, hf⟩ := exists_mem_of_ne_nil _ hne
    have hall : f ∈ d.all := mem_contents.mpr ⟨j, hj, hf⟩
    obtain ⟨i, hi, hlen, hfi⟩ := mem_writtenFields.mp ((mem_loadedFields (hfits d hd) hc hplain).mp (hloaded f hall))
    have hplaced := (hL.inv.docs d hd).placed.placed
    rwa [hplaced j f hj hf, ← hplaced i f hi hfi]

lemma docView_of_docKept (hkept : ∀ d, d ∈ L.docs.all → DocKept d) : docView s' = docView s := by
  have hloaded : ∀ {d name value}, d ∈ L.docs.all → ((name, value) ∈ loadedFields d ↔ ⟨name, value⟩ ∈ d.all) := by
    intro d name value hd
    rw [mem_loadedFields (hfits d hd) (isField_of_mem hL hs hd).2 (hkept d hd).plain, (hkept d hd).mem_writtenFields]
  rw [docView_eq_iff, hread]
  constructor
  · intro k
    refine applyWrites_cell (fun w hw => ?_) fun hne => ?_
    · obtain ⟨rfl, d, hd, hkey, -⟩ := (mem_writes_doc hL hmem hs now').mp hw
      exact (read_doc_iff hL).mpr ⟨rfl, d, hd, hkey⟩
    · obtain ⟨w, hw⟩ := Option.ne_none_iff_exists'.mp hne
      obtain ⟨rfl, d, hd, hkey⟩ := (read_doc_iff hL).mp hw
      obtain ⟨f, hf⟩ := Multiset.exists_mem_of_ne_zero (hkept d hd).nonempty
      have hin : (Cell.doc k, Val.present) ∈ recs.flatMap (recordWrites now') :=
        (mem_writes_doc hL hmem hs now').mpr ⟨rfl, d, hd, hkey, ne_nil_of_mem ((hloaded hd).mpr hf)⟩
      exact mem_map_of_mem hin
  · intro k f
    refine applyWrites_cell (fun w hw => ?_) fun hne => ?_
    · obtain ⟨d, v, hd, hkey, hf, rfl⟩ := (mem_writes_field hL hmem hs now').mp hw
      exact (read_field_iff hL).mpr ⟨d, v, hd, hkey, (hloaded hd).mp hf, rfl⟩
    · obtain ⟨w, hw⟩ := Option.ne_none_iff_exists'.mp hne
      obtain ⟨d, v, hd, hkey, hf, rfl⟩ := (read_field_iff hL).mp hw
      have hin : (Cell.field k f, Val.bytes v) ∈ recs.flatMap (recordWrites now') :=
        (mem_writes_field hL hmem hs now').mpr ⟨d, v, hd, hkey, (hloaded hd).mpr hf, rfl⟩
      exact mem_map_of_mem hin

end Load

/-- **The documents come back from a dump** exactly if all of them are kept. -/
theorem doc_dump_round_trip {evs : List (ℤ × StoreEvent)} (hargs : ∀ ev, ev ∈ evs → ev.2.Within (2 ^ 32 - 1)) {L : Layout}
    (hL : L.Holds (runEvents evs)) {results : ℕ → ℤ} (hres : ∀ i, 0 < results i) (now now' : ℤ) (off : ℕ) :
    (∃ file, L.kvsDumpToFd results now off (runEvents evs) = some file ∧
      docView (replayDumpFile now' file .empty).2 = docView (runEvents evs)) ↔ ∀ d, d ∈ L.docs.all → DocKept d := by
  have hs := sound_runEvents hargs
  have hload := load_dump hL hs (by decide) hres now now' off
  constructor
  · rintro ⟨file, hfile, hview⟩
    have hfits := docLen_of_dump hfile
    obtain ⟨file', recs, hfile', hread, hmem⟩ := hload hfits
    obtain rfl := Option.some.inj (hfile.symm.trans hfile')
    exact docKept_of_docView hL hs hfits hmem hread hview
  · intro hkept
    have hfits : ∀ d, d ∈ L.docs.all → docLen d kvsDocFieldBuckets < bufferCap := fun d hd => (hkept d hd).fits
    obtain ⟨file, recs, hfile, hread, hmem⟩ := hload hfits
    exact ⟨file, hfile, docView_of_docKept hL hs hfits hmem hread hkept⟩

/-! ### Small layouts -/

/-- `DOCSET` of documents, fields and values. -/
def setFields (sets : List (String × String × String)) : List (ℤ × StoreEvent) :=
  sets.map fun x => (1000, .command [str "DOCSET", str x.1, str x.2.1, str x.2.2])

/-- The documents after them. -/
def fieldsTable (sets : List (String × String × String)) : DocTable :=
  sets.foldl (fun tab x => (kvsDocSet tab (str x.1) (str x.2.1) (str x.2.2)).2) kvsDocCreate

/-- The engines after them. -/
def someFields (sets : List (String × String × String)) : Layout :=
  smallLayout (kvsHashCreate fun _ => (1, 2)) (fieldsTable sets)

section

variable {tab : DocTable} {s : Db} (hinv : tab.Inv) (hread : tab.read = docView s)
include hinv hread

lemma read_docSet (hroom : tab.count ≠ docSizeMax) (k f v : Bytes) :
    (kvsDocSet tab k f v).2.Inv ∧ (kvsDocSet tab k f v).2.read = docView (s.putField k f v) := by
  obtain ⟨hinv', ⟨-, hread'⟩ | ⟨-, -, hfull⟩⟩ := hinv.set k f v
  · refine ⟨hinv', hread'.trans (funext fun x => ?_)⟩
    rw [hread, docView, docView, Db.putField, lookup_insert_eq, update_apply]
    split
    · refine congrArg some (funext fun y => ?_)
      dsimp only
      rw [lookup_insert_eq, update_apply]
      cases s.docs.lookup k <;> rfl
    · rfl
  · exact absurd hfull hroom

lemma forall_docs {P : Doc → Prop} (h : ∀ k ∈ s.docs.keys, ∀ d ∈ docFind tab k, P d) : ∀ d, d ∈ tab.all → P d := by
  intro d hd
  have hfind := hinv.docFind_iff.mpr ⟨hd, rfl⟩
  have hkey := congrFun hread d.key
  rw [DocTable.read, hfind] at hkey
  obtain ⟨fields, hl, -⟩ := Option.map_eq_some_iff.mp hkey.symm
  exact h d.key (mem_of_lookup hl) d hfind

end

/-- Two documents, one of them with two fields. -/
def threeFields : List (String × String × String) := [("d", "f", "v"), ("d", "g", "w"), ("e", "f", "x")]

/-- The names and the values have no blank and no `=`. -/
theorem doc_dump_round_trip_fields :
    ∃ file, (someFields threeFields).kvsDumpToFd (fun _ => 1) 2000 0 (runEvents (setFields threeFields)) = some file ∧
      docView (replayDumpFile 3000 file .empty).2 = docView (runEvents (setFields threeFields)) := by
  have hargs : ∀ ev, ev ∈ setFields threeFields → ev.2.Within (2 ^ 32 - 1) := by
    intro ev hev
    simp only [setFields, threeFields, map_cons, map_nil, mem_cons, not_mem_nil, or_false] at hev
    rcases hev with rfl | rfl | rfl <;> unfold StoreEvent.Within <;> decide
  obtain ⟨hinv₁, hread₁⟩ := read_docSet (s := .empty) DocTable.inv_create rfl (by decide) (str "d") (str "f") (str "v")
  obtain ⟨hinv₂, hread₂⟩ := read_docSet hinv₁ hread₁ (by decide +kernel) (str "d") (str "g") (str "w")
  obtain ⟨hinv, hread⟩ := read_docSet hinv₂ hread₂ (by decide +kernel) (str "e") (str "f") (str "x")
  have hL : (someFields threeFields).Holds (runEvents (setFields threeFields)) :=
    holds_smallLayout (abs_create _) (fun x => by simp [show (runEvents (setFields threeFields)).kv = ∅ from rfl]) hinv hread
  have hinv : (fieldsTable threeFields).Inv := hinv
  exact (doc_dump_round_trip hargs hL (fun _ => Int.one_pos) 2000 3000 0).mpr
    (forall_docs hinv hread (by decide +kernel))

lemma read_sole_field {L : Layout} {s s' : Db} (hL : L.Holds s) (hs : s.Sound n) {recs : List Record} {now now' : ℤ}
    (hmem : L.Recorded now s recs)
    (hread : s'.read = applyWrites (fun _ => none) (recs.flatMap (recordWrites now')))
    (hfind : docFind L.docs d.key = some d) {f v : Bytes} (hl : loadedFields d = [(f, v)]) :
    s'.read (.field d.key f) = some (.bytes v) := by
  have hd := (hL.inv.docFind_iff.mp hfind).1
  rw [hread]
  refine applyWrites_cell (fun w hw => ?_) fun _ => ?_
  · obtain ⟨d', v', hd', hkey, hf, rfl⟩ := (mem_writes_field hL hmem hs now').mp hw
    rw [doc_unique hL hd hd' hkey, hl] at hf
    rw [(Prod.mk.inj (mem_singleton.mp hf)).2]
  · have hin : (Cell.field d.key f, Val.bytes v) ∈ recs.flatMap (recordWrites now') :=
      (mem_writes_field hL hmem hs now').mpr ⟨d, v, hd, rfl, by rw [hl]; exact mem_cons_self, rfl⟩
    exact mem_map_of_mem hin

/-- **A value is cut at its first blank**: what `DOCSET` has stored as `a b` is `a` after the dump was loaded. -/
theorem doc_dump_cuts_value :
    ∃ file, (someFields [("d", "f", "a b")]).kvsDumpToFd (fun _ => 1) 2000 0 (runEvents (setFields [("d", "f", "a b")])) =
        some file ∧
      (runEvents (setFields [("d", "f", "a b")])).read (.field (str "d") (str "f")) = some (.bytes (str "a b")) ∧
      (replayDumpFile 3000 file .empty).2.read (.field (str "d") (str "f")) = some (.bytes (str "a")) := by
  have hargs : ∀ ev, ev ∈ setFields [("d", "f", "a b")] → ev.2.Within 6 := by
    intro ev hev
    obtain rfl := mem_singleton.mp hev
    unfold StoreEvent.Within
    decide
  have hs := sound_runEvents hargs
  obtain ⟨hinv, hread⟩ := read_docSet (s := .empty) DocTable.inv_create rfl (by decide) (str "d") (str "f") (str "a b")
  have hL : (someFields [("d", "f", "a b")]).Holds (runEvents (setFields [("d", "f", "a b")])) :=
    holds_smallLayout (abs_create _) (fun x => by simp [show (runEvents (setFields [("d", "f", "a b")])).kv = ∅ from rfl])
      hinv hread
  have hfits : ∀ d, d ∈ (fieldsTable [("d", "f", "a b")]).all → docLen d kvsDocFieldBuckets < bufferCap :=
    forall_docs (s := runEvents (setFields [("d", "f", "a b")])) hinv hread (by decide +kernel)
  obtain ⟨file, recs, hfile, hload, hmem⟩ := load_dump hL hs (by decide) (fun _ => Int.one_pos) 2000 3000 0 hfits
  have hsome : (docFind (fieldsTable [("d", "f", "a b")]) (str "d")).isSome = true := by decide +kernel
  obtain ⟨d, hd⟩ := Option.isSome_iff_exists.mp hsome
  have hkey : d.key = str "d" := (hinv.docFind_iff.mp hd).2
  have hl : ∀ d ∈ docFind (fieldsTable [("d", "f", "a b")]) (str "d"), loadedFields d = [(str "f", str "a")] := by
    decide +kernel
  refine ⟨file, hfile, rfl, ?_⟩
  rw [← hkey] at hd ⊢
  exact read_sole_field hL hs hmem hload hd (hl d (hkey ▸ hd))

end PocketKv.Persistence
