import PocketKv.Persistence.Restart
import PocketKv.Persistence.RoundTrip

/-!
# Deadlines through a restart
-/

namespace PocketKv.Persistence

open Library Resp Store Server List

variable {now time : ℤ} {order : List ℕ} {x : Slot} {v file raw : Bytes} {argv : List Bytes}

/-! ### The history -/

/-- Where the deadline of a key is. -/
inductive Source where
  | command (time : ℤ)
  | dump (time : ℤ)
  deriving DecidableEq

/-- The deadline comes back if the dump is loaded at the time `load` and the recovery ends at `last`. -/
def Source.keeps (load last due : ℤ) : Source → Prop
  | .command time => last ≤ time + 1000
  | .dump time => time < due ∧ load < time + (due - time + 999) / 1000 * 1000

/-- The server, with the deadlines and their sources. -/
structure Timed where
  server : Server
  due : Slot → Option ℤ := fun _ => none
  source : Slot → Source := fun _ => .command 0
  /-- The same for the file of a `BGSAVE`. -/
  sourceSave : Slot → Source := fun _ => .command 0

namespace Timed

/-- An input, with what it does to the deadlines. -/
def step (T : Timed) (i : ServerInput) : Timed :=
  let T' := { T with server := T.server.step i }
  match i with
  | .command now argv _ =>
    let xs := (decode argv).keys
    { T' with
      due := fun x => if x ∈ xs then T'.server.db.ttl.lookup x else T.due x
      source := fun x => if x ∈ xs then .command now else T.source x
      sourceSave := fun x => if x ∈ xs then .command now else T.sourceSave x }
  | .save now _ => { T' with source := fun _ => .dump now }
  | .bgsave now _ => { T' with sourceSave := if T.server.bgsave.isSome then T.sourceSave else fun _ => .dump now }
  | .bgsaveDone => { T' with source := if T.server.bgsave.isSome then T.sourceSave else T.source }
  | _ => T'

/-- The tables of keys that have expired. -/
def tables (T : Timed) : List (Table Slot Bytes) :=
  T.server.expired :: if T.server.bgsave.isSome then [T.server.expiredSave] else []

/-- A lock does not take over an expired key that is in the files, and the array engine has room for such keys
beside those of an `MSET`. -/
def admits (db : Db) (E : Table Slot Bytes) : Cmd → Bool
  | .lock k _ _ => held db E (.array, k) = none
  | .mset .array first kvs => roomFor db E [.mset .array first kvs]
  | _ => true

/-- Before the time `t`: writes that succeed and are taken by the append-only file, dumps, and no end of a rewrite.
-/
def timely (t : ℤ) (T : Timed) : ServerInput → Bool
  | .command now argv raw => now ≤ t && T.server.written now argv raw && T.tables.all fun E => admits T.server.db E (decode argv)
  | .save now _ => 0 ≤ now && (T.server.dumpFile now).isSome && T.server.aof.content.length < 2 ^ 64
  | .bgsave now _ =>
    T.server.bgsave.isSome || 0 ≤ now && (T.server.dumpFile now).isSome && T.server.aof.content.length < 2 ^ 64
  | .rewriteDone _ => T.server.aof.rewrite.isNone
  | _ => true

end Timed

/-! ### What is recovered of a key -/

/-- The recovered data `R` have no keys but those of the files, and the deadlines that are kept. -/
structure Tracks (load last : ℤ) (E : Table Slot Bytes) (due : Slot → Option ℤ) (source : Slot → Source) (db R : Db) : Prop where
  coherent : R.Coherent
  /-- The keys are those that the server holds or has held until they expired; the array engine has their values. -/
  keys : ∀ x v, R.kv.lookup x = some v → ∃ w, held db E x = some w ∧ (x.1 = .array → v = w)
  deadlines : ∀ x d, due x = some d → (source x).keeps load last d → x ∈ R.kv → ∃ d', R.ttl.lookup x = some d' ∧ d' ≤ d + 1000

lemma wrap64_add_le {a b : ℤ} (hab : a ≤ b) (hba : b ≤ a + 1000) : wrap64 b ≤ wrap64 a + 1000 := by
  unfold wrap64
  rw [Int.bmod_def, Int.bmod_def]
  split <;> split <;> omega

namespace Tracks

variable {load last : ℤ} {E : Table Slot Bytes} {due : Slot → Option ℤ} {source : Slot → Source} {db R : Db} {c : Cmd}

variable (h : Tracks load last E due source db R)
include h

lemma frame (time : ℤ) (hx : x ∉ c.keys) :
    (∀ v, (exec now R c).db.kv.lookup x = some v →
        ∃ w, held (exec time db c).db (touch c.slots E) x = some w ∧ (x.1 = .array → v = w)) ∧
      ∀ d, due x = some d → (source x).keeps load last d → x ∈ (exec now R c).db.kv →
        ∃ d', (exec now R c).db.ttl.lookup x = some d' ∧ d' ≤ d + 1000 := by
  obtain ⟨hkv, httl⟩ := exec_frame now R hx
  have hheld : held (exec time db c).db (touch c.slots E) x = held db E x := by
    rw [held, held, (exec_frame time db hx).1, lookup_touch, if_neg fun hmem => hx (c.slots_subset_keys hmem)]
  constructor
  · intro v hv
    rw [hheld]
    exact h.keys x v (hkv ▸ hv)
  · intro d hd hkeep hmem
    rw [httl]
    refine h.deadlines x d hd hkeep (AList.lookup_isSome.mp ?_)
    rw [← hkv]
    exact AList.lookup_isSome.mpr hmem

lemma mset_again {e : Engine} {first : Option Bytes} {kvs : Option (List (Bytes × Bytes))}
    (hwrote : (exec time db (.mset e first kvs)).wrote = true) (hadmits : Timed.admits db E (.mset e first kvs) = true)
    (now : ℤ) : (exec now R (.mset e first kvs)).wrote = true := by
  cases kvs with
  | none => cases (settle_ok hwrote).1
  | some kvs =>
    simp only [exec, settle_wrote_iff]
    by_cases he : e = .array
    · subst he
      obtain ⟨hK, -⟩ := roomFor_card hadmits
      have hR : R.Within (roomKeys db E [.mset .array first (some kvs)]) R.docs.keys.toFinset := by
        refine ⟨fun k hk => mem_roomKeys.mpr (.inl ?_), fun d hd => mem_toFinset.mpr (AList.mem_keys.mp hd)⟩
        obtain ⟨v, hv⟩ := exists_lookup hk
        obtain ⟨w, hw, -⟩ := h.keys _ v hv
        rw [hw]
        exact Option.some_ne_none w
      have hkvs : ∀ kv, kv ∈ kvs → Engine.array = .array → (Engine.array, kv.1) ∈ roomKeys db E [.mset .array first (some kvs)] := by
        intro kv hkv _
        refine mem_roomKeys.mpr (.inr ?_)
        simp only [flatMap_cons, flatMap_nil, append_nil, Cmd.slots]
        exact mem_map.mpr ⟨kv, hkv, rfl⟩
      cases first with
      | none => exact upsertAll_within hK hkvs hR
      | some k =>
        refine upsertAll_within hK hkvs ⟨fun k' hk' => hR.array k' ?_, fun d hd => hR.docs d ?_⟩
        · obtain ⟨v, hv⟩ := exists_lookup hk'
          exact mem_of_lookup (lookup_kv_of_tryExpire hv)
        · have hdocs : (tryExpire now R .array k).docs = R.docs := by
            rw [tryExpire_eq]
            split <;> rfl
          exact hdocs ▸ hd
    · cases first with
      | none => exact upsertAll_of_ne he kvs
      | some k => exact upsertAll_of_ne he kvs

lemma refused_again (hwrote : (exec time db c).wrote = true)
    (hadmits : Timed.admits db E c = true) (hagain : (exec now R c).wrote = false) (hx : x ∈ c.keys)
    (hv : (exec now R c).db.kv.lookup x = some v) : R.kv.lookup x = some v ∧ x ∉ c.slots ∧ c.ttlMs = none := by
  have hmset : ∀ e first kvs, c ≠ .mset e first kvs := by
    rintro e first kvs rfl
    rw [h.mset_again hwrote hadmits now] at hagain
    cases hagain
  obtain ⟨hR, hrefuses⟩ := exec_refused hagain (fun ms => ttlMs_pos hwrote) hmset hx hv
  obtain ⟨w, hw, hvw⟩ := h.keys x v hR
  -- The lock commands would have found the owner that the server knows.
  have howner : ∀ token, x.1 = .array → db.kv.lookup x = some token → v = token := by
    intro token harray htoken
    rw [held_of_lookup htoken] at hw
    rw [hvw harray, Option.some.inj hw]
  cases c with
  | control | docset d f v | docdel d f | docdrop d | docexist d | doccount d | read | unknown a => cases hx
  | owner k | get e k | exist e k | ttl e k => cases hwrote
  | mget e ks => cases ks <;> cases hwrote
  | mset e first kvs => exact absurd rfl (hmset e first kvs)
  | set e k v | setex e k secs v | mod e k v | del e k | expire e k secs => exact hrefuses.elim
  | persist e k => exact ⟨hR, not_mem_nil, rfl⟩
  | lock k token ms =>
    obtain rfl := mem_singleton.mp hx
    rw [of_decide_eq_true hadmits] at hw
    cases hw
  | unlock k token =>
    obtain rfl := mem_singleton.mp hx
    exact absurd (howner token rfl ((exec_ran time db _).held hwrote (.inl rfl))) hrefuses
  | renew k token ms =>
    obtain rfl := mem_singleton.mp hx
    exact absurd (howner token rfl ((exec_ran time db _).held hwrote (.inr ⟨ms, rfl⟩))) hrefuses

lemma named (hdb : db.Coherent) (hc : c.Formed)
    (hwrote : (exec time db c).wrote = true) (hadmits : Timed.admits db E c = true) (htime : time ≤ now) (hnow : now ≤ last)
    (hx : x ∈ c.keys) :
    (∀ v, (exec now R c).db.kv.lookup x = some v →
        ∃ w, held (exec time db c).db (touch c.slots E) x = some w ∧ (x.1 = .array → v = w)) ∧
      ∀ d, (exec time db c).db.ttl.lookup x = some d → (Source.command time).keeps load last d → x ∈ (exec now R c).db.kv →
        ∃ d', (exec now R c).db.ttl.lookup x = some d' ∧ d' ≤ d + 1000 := by
  have hheld : x ∉ c.slots → held (exec time db c).db (touch c.slots E) x = held db E x := by
    intro hslot
    rw [held, held, lookup_kv_exec_of_notMem hc hwrote hslot, lookup_touch, if_neg hslot]
  rw [lookup_ttl_exec hdb hc hwrote hx]
  cases hagain : (exec now R c).wrote with
  | true =>
    rw [lookup_ttl_exec h.coherent hc hagain hx]
    constructor
    · intro v hv
      by_cases hslot : x ∈ c.slots
      · rw [lookup_kv_exec hc hwrote hagain hslot] at hv
        exact ⟨v, held_of_lookup hv, fun _ => rfl⟩
      · rw [lookup_kv_exec_of_notMem hc hagain hslot] at hv
        rw [hheld hslot]
        exact h.keys x v hv
    · intro d hd hkeep _
      obtain ⟨ms, hms, rfl⟩ := Option.map_eq_some_iff.mp hd
      rw [hms]
      have hkeep : last ≤ time + 1000 := hkeep
      exact ⟨_, rfl, wrap64_add_le (by omega) (by omega)⟩
  | false =>
    constructor
    · intro v hv
      obtain ⟨hR, hslot, -⟩ := h.refused_again hwrote hadmits hagain hx hv
      rw [hheld hslot]
      exact h.keys x v hR
    · intro d hd _ hmem
      obtain ⟨v, hv⟩ := exists_lookup hmem
      rw [(h.refused_again hwrote hadmits hagain hx hv).2.2] at hd
      cases hd

lemma command (hdb : db.Coherent) (hc : c.Formed)
    (hwrote : (exec time db c).wrote = true) (hadmits : Timed.admits db E c = true) (htime : time ≤ now) (hnow : now ≤ last) :
    Tracks load last (touch c.slots E) (fun x => if x ∈ c.keys then (exec time db c).db.ttl.lookup x else due x)
      (fun x => if x ∈ c.keys then .command time else source x) (exec time db c).db (exec now R c).db where
  coherent := (exec_edited now R c).coherent h.coherent
  keys := by
    intro x
    by_cases hx : x ∈ c.keys
    · exact (h.named hdb hc hwrote hadmits htime hnow hx).1
    · exact (h.frame time hx).1
  deadlines := by
    intro x
    by_cases hx : x ∈ c.keys
    · simp only [if_pos hx]
      exact (h.named hdb hc hwrote hadmits htime hnow hx).2
    · simp only [if_neg hx]
      exact (h.frame time hx).2

lemma of_held {E' : Table Slot Bytes} {db' : Db}
    (hheld : ∀ x, held db' E' x = held db E x) : Tracks load last E' due source db' R where
  coherent := h.coherent
  keys := fun x v hv => hheld x ▸ h.keys x v hv
  deadlines := h.deadlines

end Tracks

/-! ### What is loaded from a dump -/

lemma mem_recordWrites_ttl {r : Record} {w : Val} : (Cell.ttl x, w) ∈ recordWrites now r ↔
    r.IsOf x ∧ ∃ e ∈ r.expire, 0 < wrap64 (e - now) ∧ w = .deadline (wrap64 (now + wrap64 (e - now))) := by
  have hentry : (Cell.ttl x, w) ∉ entryWrites r.kind r.key r.value := by
    unfold entryWrites
    cases r.kind <;> simp
  rw [recordWrites, mem_append, or_iff_right hentry]
  unfold Record.IsOf expireWrites
  cases r.expire with
  | none => simp
  | some e =>
    cases r.kind with
    | doc => simp
    | kv e' =>
      simp only [Option.mem_def, Option.some.injEq, exists_eq_left', Kind.kv.injEq]
      split
      · rename_i hpos
        simp [hpos, Prod.ext_iff, eq_comm]
      · rename_i hpos
        simp [hpos]

section Dump

variable {db R : Db} {n : ℕ} {recs : List Record} {load : ℤ} (hmem : KeyRecords now db recs)
  (hread : R.read = applyWrites (fun _ => none) (recs.flatMap (recordWrites load)))
include hmem hread

lemma coherent_loaded (hs : db.Sound n) : R.Coherent := by
  intro x hx
  have hne : applyWrites (fun _ => none) (recs.flatMap (recordWrites load)) (.ttl x) ≠ none := by
    rw [← hread]
    exact Db.read_ttl_ne_none.mpr hx
  obtain ⟨w, hw⟩ := Option.ne_none_iff_exists'.mp hne
  obtain ⟨r, hr, hw⟩ := mem_flatMap.mp (mem_of_applyWrites_eq hw)
  obtain ⟨v, hv, -⟩ := (isOf_iff hmem hs).mp ⟨hr, (mem_recordWrites_ttl.mp hw).1⟩
  exact mem_of_lookup (by rw [lookup_loaded hmem hread hs, hv]; rfl)

lemma deadline_loaded (hs : db.Sound n) {d : ℤ} (hv : db.kv.lookup x = some v)
    (hd : db.ttl.lookup x = some d) (hnow : 0 ≤ now) (hload : 1000 ≤ load) (hkeep : (Source.dump now).keeps load load d) :
    ∃ d', R.ttl.lookup x = some d' ∧ d' ≤ d + 1000 := by
  obtain ⟨hlt, hlate⟩ : now < d ∧ load < now + (d - now + 999) / 1000 * 1000 := hkeep
  have hmax := hs.ttl x d hd
  -- The time in the record.
  have hexpire : dumpExpire now db x.1 x.2 = some (now + (d - now + 999) / 1000 * 1000).toNat := by
    have hpos : ¬ d ≤ now := by omega
    have hdiv : 0 ≤ (d - now + 999) / 1000 := by omega
    have hmod : (now + (d - now + 999) / 1000 * 1000) % 2 ^ 64 = now + (d - now + 999) / 1000 * 1000 := by omega
    simp only [dumpExpire, expireTtl, hd, if_neg hpos, if_pos hdiv, hmod]
  generalize hat : now + (d - now + 999) / 1000 * 1000 = at' at hexpire hlate
  have hat' : (at'.toNat : ℤ) = at' := Int.toNat_of_nonneg (by omega)
  have hwrap : wrap64 (at'.toNat - load) = at' - load := by
    rw [hat']
    exact wrap64_of_lt (by omega) (by omega)
  have hcell : applyWrites (fun _ => none) (recs.flatMap (recordWrites load)) (.ttl x) =
      some (.deadline (wrap64 (load + wrap64 (at'.toNat - load)))) := by
    refine applyWrites_cell (fun w hw => ?_) fun _ => ?_
    · obtain ⟨r, hr, hw⟩ := mem_flatMap.mp hw
      obtain ⟨hof, e, he, -, rfl⟩ := mem_recordWrites_ttl.mp hw
      obtain ⟨v', -, rfl⟩ := (isOf_iff hmem hs).mp ⟨hr, hof⟩
      obtain rfl := Option.some.inj (hexpire.symm.trans he)
      rfl
    · obtain ⟨hr, hof⟩ := (isOf_iff hmem hs).mpr ⟨v, hv, rfl⟩
      refine mem_map.mpr ⟨_, mem_flatMap.mpr ⟨_, hr, mem_recordWrites_ttl.mpr ⟨hof, _, hexpire, ?_, rfl⟩⟩, rfl⟩
      omega
  rw [← hread] at hcell
  obtain ⟨d', hd', hval⟩ := Option.map_eq_some_iff.mp hcell
  refine ⟨d', hd', ?_⟩
  have hval : d' = wrap64 (load + wrap64 (at'.toNat - load)) := by simpa using hval
  rw [hval, hwrap]
  have hle := wrap64_le (a := load + (at' - load)) (by omega)
  omega

end Dump

/-! ### The files -/

/-- The files have the deadlines, for a recovery between the times `t` and `t'`. -/
structure Dates (t t' : ℤ) (dump : Option Bytes) (log : Bytes) (E : Table Slot Bytes) (due : Slot → Option ℤ)
    (source : Slot → Source) (db : Db) : Prop where
  offset : header dump ≤ log.length
  whole : Whole (log.drop (header dump))
  loads : ∀ load, 1000 ≤ load → ∀ x d τ, due x = some d → source x = .dump τ → (Source.dump τ).keeps load load d →
    x ∈ (loadDump load dump).2.kv → ∃ d', (loadDump load dump).2.ttl.lookup x = some d' ∧ d' ≤ d + 1000
  rebuilds : ∀ clock, ClockWithin t t' clock → 1000 ≤ clock 0 → Tracks (clock 0) t' E due source db (rebuild clock dump log)

namespace Dates

variable {t t' : ℤ} {dump : Option Bytes} {log : Bytes} {E : Table Slot Bytes} {due : Slot → Option ℤ}
  {source : Slot → Source} {db : Db}

lemma command (h : Dates t t' dump log E due source db) (hdb : db.Coherent) (htime : time ≤ t)
    (hwrote : (exec time db (decode argv)).wrote = true) (hwhole : Whole raw) (hraw : commandsIn raw = [argv])
    (hadmits : Timed.admits db E (decode argv) = true) :
    Dates t t' dump (log ++ raw) (touch (decode argv).slots E)
      (fun x => if x ∈ (decode argv).keys then (exec time db (decode argv)).db.ttl.lookup x else due x)
      (fun x => if x ∈ (decode argv).keys then .command time else source x) (exec time db (decode argv)).db where
  offset := by
    have := h.offset
    rw [length_append]
    omega
  whole := by
    rw [drop_append_of_le_length h.offset]
    exact h.whole.append hwhole
  loads := by
    intro load hload x d τ hd hsource
    by_cases hx : x ∈ (decode argv).keys
    · simp only [if_pos hx] at hsource
      cases hsource
    · simp only [if_neg hx] at hd hsource
      exact h.loads load hload x d τ hd hsource
  rebuilds := by
    intro clock hclock hload
    rw [rebuild_append clock h.offset h.whole, hraw]
    obtain ⟨hfrom, hto⟩ := hclock (1 + ((commandsIn (log.drop (header dump))).map decode).length)
    exact (h.rebuilds clock hclock hload).command hdb (decode_formed argv) hwrote hadmits (by omega) hto

lemma expire (h : Dates t t' dump log E due source db) (now : ℤ) (x : Slot) :
    Dates t t' dump log (lapse now db x E) due source (tryExpire now db x.1 x.2) where
  offset := h.offset
  whole := h.whole
  loads := h.loads
  rebuilds := by
    intro clock hclock hload
    exact (h.rebuilds clock hclock hload).of_held fun y => held_lapse now db x E y

lemma dumped {n : ℕ} (hs : db.Sound n) (hfits : db.Fits) (hdue : ∀ x, x ∈ db.kv → due x = db.ttl.lookup x) (hnow : 0 ≤ now)
    (hlog : log.length < 2 ^ 64) (hfile : kvsDumpToFd now log.length db = some file) :
    Dates t t' (some file) log ∅ due (fun _ => .dump now) db := by
  obtain ⟨recs, hrecs, hheader, hdecode⟩ := dump_loads hlog hfile
  obtain ⟨K, D, hK, hD, hamong⟩ := snapshot_among hfits hrecs
  have hread (load : ℤ) : (loadDump load (some file)).2.read =
      applyWrites (fun _ => none) (recs.flatMap (recordWrites load)) := by
    rw [hdecode, loadRecords_writes load hK hD hamong within_empty, Db.read_empty]
  have hmem : KeyRecords now db recs := keyRecords_of_dump hrecs
  have hloads : ∀ load, 1000 ≤ load → ∀ x d τ, due x = some d → Source.dump now = .dump τ → (Source.dump τ).keeps load load d →
      x ∈ (loadDump load (some file)).2.kv → ∃ d', (loadDump load (some file)).2.ttl.lookup x = some d' ∧ d' ≤ d + 1000 := by
    rintro load hload x d τ hd ⟨⟩ hkeep hx
    obtain ⟨v, hv⟩ := exists_lookup hx
    rw [lookup_loaded hmem (hread load) hs] at hv
    obtain ⟨w, hw, -⟩ := Option.map_eq_some_iff.mp hv
    rw [hdue x (mem_of_lookup hw)] at hd
    exact deadline_loaded hmem (hread load) hs hw hd hnow hload hkeep
  refine ⟨hheader.le, ?_, hloads, fun clock hclock hload => ?_⟩
  · rw [hheader, drop_length]
    exact whole_nil
  · have hrebuild : rebuild clock (some file) log = (loadDump (clock 0) (some file)).2 := by
      rw [rebuild, hheader, drop_length]
      rfl
    rw [hrebuild]
    refine ⟨coherent_loaded hmem (hread _) hs, fun x v hv => ?_, fun x d hd hkeep hx => hloads _ hload x d now hd rfl hkeep hx⟩
    rw [lookup_loaded hmem (hread _) hs] at hv
    obtain ⟨w, hw, rfl⟩ := Option.map_eq_some_iff.mp hv
    refine ⟨w, held_of_lookup hw, fun harray => (cstr_eq_iff w).mpr ((hs.kv x w hw).value fun hhash => ?_)⟩
    rw [harray] at hhash
    cases hhash

end Dates

/-! ### Every state of a run -/

/-- The files have the deadlines. -/
structure Dated (t t' : ℤ) (T : Timed) : Prop where
  on : T.server.aof.On
  orderly : Orderly T.server.aof
  sound : ∃ n, T.server.db.Sound n
  fits : T.server.db.Fits
  due : ∀ x, x ∈ T.server.db.kv → T.due x = T.server.db.ttl.lookup x
  main : Dates t t' T.server.dump T.server.aof.content T.server.expired T.due T.source T.server.db
  /-- The file of a `BGSAVE` and the append-only file. -/
  saving : ∀ file, T.server.bgsave = some file →
    Dates t t' (some file) T.server.aof.content T.server.expiredSave T.due T.sourceSave T.server.db

namespace Dated

variable {t t' : ℤ} {T : Timed}

section

variable (h : Dated t t' T)
include h

lemma moves {A : Aof} (hA : Moves T.server.aof A) (horderly : Orderly A) :
    Dated t t' { T with server := { T.server with aof := A } } where
  on := hA.on h.on
  orderly := horderly
  sound := h.sound
  fits := h.fits
  due := h.due
  main := by
    rw [hA.content h.on]
    exact h.main
  saving file hfile := by
    rw [hA.content h.on]
    exact h.saving file hfile

lemma command (hi : T.timely t (.command now argv raw) = true) : Dated t t' (T.step (.command now argv raw)) := by
  simp only [Timed.timely, written, Bool.and_eq_true, decide_eq_true_eq, all_eq_true] at hi
  obtain ⟨⟨hnow, ⟨hwrote, hsome⟩, hparsed⟩, hadmits⟩ := hi
  obtain ⟨A, hA⟩ := Option.isSome_iff_exists.mp hsome
  obtain ⟨hon, hcontent⟩ := persistAppendPrepare_appends h.on hA
  obtain ⟨hwhole, hraw⟩ := whole_command hparsed
  obtain ⟨n, hs⟩ := h.sound
  have hserver := command_eq hwrote hA
  have hstep : T.step (.command now argv raw) = ⟨T.server.command now argv raw,
      fun x => if x ∈ (decode argv).keys then (exec now T.server.db (decode argv)).db.ttl.lookup x else T.due x,
      fun x => if x ∈ (decode argv).keys then .command now else T.source x,
      fun x => if x ∈ (decode argv).keys then .command now else T.sourceSave x⟩ := by
    simp only [Timed.step, Server.step, hserver]
    rfl
  rw [hstep, hserver]
  refine ⟨hon, h.orderly.prepare hA, hs.command now argv, fits_exec h.fits now _, fun x hx => ?_, ?_, fun file hfile => ?_⟩
  · by_cases hkey : x ∈ (decode argv).keys
    · exact if_pos hkey
    · obtain ⟨hkv, httl⟩ := exec_frame now T.server.db hkey
      have hx : x ∈ T.server.db.kv := by
        refine AList.lookup_isSome.mp ?_
        rw [← hkv]
        exact AList.lookup_isSome.mpr hx
      exact (if_neg hkey).trans ((h.due x hx).trans httl.symm)
  · show Dates t t' T.server.dump A.content _ _ _ _
    rw [hcontent]
    exact h.main.command hs.coherent hnow hwrote hwhole hraw (hadmits _ mem_cons_self)
  · have hfile : T.server.bgsave = some file := hfile
    have hmem : T.server.expiredSave ∈ T.tables := by simp [Timed.tables, hfile]
    show Dates t t' (some file) A.content _ _ _ _
    rw [hcontent]
    exact (h.saving file hfile).command hs.coherent hnow hwrote hwhole hraw (hadmits _ hmem)

lemma expire (now : ℤ) (x : Slot) : Dated t t' (T.step (.expire now x)) where
  on := h.on
  orderly := h.orderly
  sound := by
    obtain ⟨n, hs⟩ := h.sound
    have happly : (StoreEvent.apply now T.server.db (.cycle [x])).Sound n := hs.apply now trivial
    exact ⟨n, happly⟩
  fits := h.fits.tryExpire now x.1 x.2
  due := by
    intro y hy
    show T.due y = (tryExpire now T.server.db x.1 x.2).ttl.lookup y
    have hy : y ∈ (tryExpire now T.server.db x.1 x.2).kv := hy
    rw [tryExpire_eq] at hy ⊢
    split at hy
    · rename_i hexpired
      obtain ⟨hne, hmem⟩ := AList.mem_erase.mp hy
      rw [if_pos hexpired, h.due y hmem]
      exact (AList.lookup_erase_ne hne).symm
    · rename_i hexpired
      rw [if_neg hexpired]
      exact h.due y hy
  main := h.main.expire now x
  saving file hfile := (h.saving file hfile).expire now x

lemma dumped (ho : T.server.aof.inOrder order = true) (hnow : 0 ≤ now) (hlog : T.server.aof.content.length < 2 ^ 64)
    (hfile : T.server.dumpFile now = some file) :
    Dates t t' (some file) (T.server.aof.drainPending order).content ∅ T.due (fun _ => .dump now) T.server.db := by
  obtain ⟨n, hs⟩ := h.sound
  have hoffset : (T.server.aof.drainPending order).writeOffset = T.server.aof.content.length := by
    rw [(h.orderly.drain ho).offset, Aof.file_drainPending ho]
  rw [dumpFile, show (T.server.aof.drainPending []).writeOffset = _ from hoffset] at hfile
  rw [Aof.content_drainPending ho]
  exact .dumped hs h.fits h.due hnow hlog hfile

lemma save (ho : T.server.aof.inOrder order = true) (hi : T.timely t (.save now order) = true) :
    Dated t t' (T.step (.save now order)) := by
  simp only [Timed.timely, Bool.and_eq_true, decide_eq_true_eq] at hi
  obtain ⟨⟨hnow, hsome⟩, hlog⟩ := hi
  obtain ⟨file, hfile⟩ := Option.isSome_iff_exists.mp hsome
  have hdrained := h.moves (moves_drain ho) (h.orderly.drain ho)
  have hserver : T.server.save now order =
      { T.server with aof := T.server.aof.drainPending order, dump := some file, expired := ∅ } := by
    rw [Server.save, hfile]
  simp only [Timed.step, Server.step, hserver]
  exact ⟨hdrained.on, hdrained.orderly, h.sound, h.fits, h.due, h.dumped ho hnow hlog hfile, hdrained.saving⟩

lemma bgsaveStart (ho : T.server.aof.inOrder order = true) (hi : T.timely t (.bgsave now order) = true) :
    Dated t t' (T.step (.bgsave now order)) := by
  have hdrained := h.moves (moves_drain ho) (h.orderly.drain ho)
  cases hsave : T.server.bgsave with
  | some file =>
    simp only [Timed.step, Server.step, Server.bgsaveStart, hsave, Option.isSome_some, if_true]
    exact h
  | none =>
    simp only [Timed.timely, hsave, Option.isSome_none, Bool.false_or, Bool.and_eq_true, decide_eq_true_eq] at hi
    obtain ⟨⟨hnow, hsome⟩, hlog⟩ := hi
    simp only [Timed.step, Server.step, Server.bgsaveStart, hsave]
    exact ⟨hdrained.on, hdrained.orderly, h.sound, h.fits, h.due, hdrained.main,
      fun file hfile => h.dumped ho hnow hlog hfile⟩

lemma bgsaveDone : Dated t t' (T.step .bgsaveDone) := by
  cases hsave : T.server.bgsave with
  | none =>
    simp only [Timed.step, Server.step, Server.bgsaveDone, hsave]
    exact h
  | some file =>
    simp only [Timed.step, Server.step, Server.bgsaveDone, hsave, Option.isSome_some, if_true]
    exact ⟨h.on, h.orderly, h.sound, h.fits, h.due, h.saving file hsave, fun _ hfile => by cases hfile⟩

lemma rewriteStart (ho : T.server.aof.inOrder order = true) (now : ℤ) :
    Dated t t' (T.step (.rewrite now order)) := by
  have hdrained := h.moves (moves_drain ho) (h.orderly.drain ho)
  simp only [Timed.step, Server.step, Server.rewriteStart]
  split
  · rename_i snapshot hnone hsnapshot
    have hstart : persistBgrewriteaofStart snapshot order T.server.aof =
        { T.server.aof.drainPending order with rewrite := some (snapshot, []) } := by
      rw [persistBgrewriteaofStart, hnone]
    rw [hstart]
    exact ⟨⟨hdrained.on.isOpen, hdrained.on.always, hdrained.on.slots⟩, ⟨hdrained.orderly.slots, hdrained.orderly.offset⟩,
      h.sound, h.fits, h.due, hdrained.main, hdrained.saving⟩
  · exact h

lemma step {i : ServerInput} (hi : T.timely t i = true) (ho : T.server.ordered i = true) : Dated t t' (T.step i) := by
  cases i with
  | command now argv raw => exact h.command hi
  | expire now x => exact h.expire now x
  | save now order => exact h.save ho hi
  | bgsave now order => exact h.bgsaveStart ho hi
  | bgsaveDone => exact h.bgsaveDone
  | rewrite now order => exact h.rewriteStart ho now
  | rewriteDone order =>
    have hnone : T.server.aof.rewrite = none := Option.isNone_iff_eq_none.mp hi
    simp only [Timed.step, Server.step, Server.rewriteDone, hnone]
    exact h
  | flush => exact h.moves (moves_flush T.server.aof) h.orderly.flush.1
  | complete i =>
    obtain rfl : i = 0 := of_decide_eq_true ho
    exact h.moves (moves_complete T.server.aof) h.orderly.complete

end

lemma fresh {A : Aof} (hA : Fresh A) (t t' : ℤ) : Dated t t' { server := { aof := A } } where
  on := hA.on
  orderly := ⟨hA.on.slots, by rw [hA.writeOffset, hA.file]; rfl⟩
  sound := ⟨0, sound_empty 0⟩
  fits := ⟨Nat.zero_le _, Nat.zero_le _⟩
  due := fun x hx => absurd hx (AList.notMem_empty x)
  main := by
    have hcontent : A.content = [] := by rw [Aof.content, hA.file, hA.outstanding, hA.cur]; rfl
    rw [hcontent]
    refine ⟨le_refl _, whole_nil, fun _ _ _ _ _ hd => (by cases hd), fun clock _ _ => ?_⟩
    exact ⟨coherent_empty, fun _ _ hv => (by cases hv), fun _ _ hd => (by cases hd)⟩
  saving := fun _ hfile => by cases hfile

end Dated

/-! ### After the restart -/

lemma swept_deadline {R : Db} (now : ℤ) {d : ℤ} (h : x ∈ R.kv → ∃ d', R.ttl.lookup x = some d' ∧ d' ≤ d + 1000) :
    (∀ u, live u (kvsActiveExpireCycle now R) x.1 x.2 = true → u < d + 1000) ∧
      (x ∈ (kvsActiveExpireCycle now R).kv → x ∈ (kvsActiveExpireCycle now R).ttl) := by
  obtain ⟨hkv, httl⟩ : (kvsActiveExpireCycle now R).kv.lookup x = _ ∧ (kvsActiveExpireCycle now R).ttl.lookup x = _ :=
    lookup_expireAll R.ttl.keys x
  by_cases hgone : x ∈ R.ttl.keys ∧ expireIsExpired now R x.1 x.2 = true
  · rw [if_pos hgone] at hkv
    refine ⟨fun u hu => ?_, fun hx => absurd hx (AList.lookup_eq_none.mp hkv)⟩
    rw [live, engineExist, hkv] at hu
    cases hu
  · rw [if_neg hgone] at hkv httl
    constructor
    · intro u hu
      rw [live, Bool.and_eq_true, engineExist, hkv] at hu
      obtain ⟨v, hv⟩ := Option.isSome_iff_exists.mp hu.1
      obtain ⟨d', hd', hle⟩ := h (mem_of_lookup hv)
      have hlt : u < d' := by simpa [expireIsExpired, httl, hd'] using hu.2
      omega
    · intro hx
      obtain ⟨v, hv⟩ := exists_lookup hx
      obtain ⟨d', hd', -⟩ := h (mem_of_lookup (hkv ▸ hv))
      exact mem_of_lookup (httl.trans hd')

/-- **Deadlines through a restart**: a deadline that the files keep comes back; the key is not readable a second
after it, and not without a deadline. -/
theorem deadlines_survive {t t' : ℤ} {A : Aof} (hA : Fresh A) {is : List ServerInput}
    (hrun : GuardedRun Timed.step (fun T i => (T.timely t i && T.server.ordered i) = true)
      { server := { aof := A } } is) {clock : ℕ → ℤ}
    (hclock : ClockWithin t t' clock) (hload : 1000 ≤ clock 0) (disabled : Bool) {order : List ℕ}
    (horder : (is.foldl Timed.step { server := { aof := A } }).server.aof.inOrder order = true) {x : Slot} {d : ℤ}
    (hdue : (is.foldl Timed.step { server := { aof := A } }).due x = some d)
    (hkeep : ((is.foldl Timed.step { server := { aof := A } }).source x).keeps (clock 0) t' d)
    (hdump : disabled = true → ∃ τ, (is.foldl Timed.step { server := { aof := A } }).source x = .dump τ) :
    let S := (is.foldl Timed.step { server := { aof := A } }).server
    let R := persistRecover clock S.dump disabled (S.aof.drainPending order).file
    (∀ u, live u R x.1 x.2 = true → u < d + 1000) ∧ (x ∈ R.kv → x ∈ R.ttl) := by
  intro S R
  have hS : Dated t t' (is.foldl Timed.step { server := { aof := A } }) := by
    refine GuardedRun.invariant (fun T i h hi => ?_) (.fresh hA t t') hrun
    obtain ⟨hi, ho⟩ := Bool.and_eq_true_iff.mp hi
    exact h.step hi ho
  cases disabled with
  | true =>
    obtain ⟨τ, hτ⟩ := hdump rfl
    rw [hτ] at hkeep
    exact swept_deadline _ (hS.main.loads _ hload x d τ hdue hτ hkeep)
  | false =>
    obtain ⟨m, hm⟩ := persistRecover_eq clock S.dump (S.aof.drainPending order).file
    rw [Aof.file_drainPending horder] at hm
    have hR : R = kvsActiveExpireCycle (clock m) (rebuild clock S.dump S.aof.content) := by
      rw [← hm, ← Aof.file_drainPending horder]
    rw [hR]
    exact swept_deadline _ ((hS.main.rebuilds clock hclock hload).deadlines x d hdue hkeep)

/-- Two keys with deadlines, one of them in a dump. -/
def timedRun : List ServerInput :=
  [request 1000 ["SETEX", "a", "5", "v"], .bgsave 1500 [], request 1600 ["LOCK", "b", "owner", "3000"], .bgsaveDone]

/-- What comes back after `timedRun`, loaded from the time 2500 on. -/
def timedRestart : Db :=
  let S := (timedRun.foldl Timed.step { server := {} }).server
  persistRecover (fun i => 2500 + min (i : ℤ) 50) S.dump false (S.aof.drainPending []).file

theorem deadlines_survive_timed :
    ((∀ u, live u timedRestart .array (str "a") = true → u < 6000 + 1000) ∧
      ((.array, str "a") ∈ timedRestart.kv → (.array, str "a") ∈ timedRestart.ttl)) ∧
    ((∀ u, live u timedRestart .array (str "b") = true → u < 4600 + 1000) ∧
      ((.array, str "b") ∈ timedRestart.kv → (.array, str "b") ∈ timedRestart.ttl)) := by
  have hrun : GuardedRun Timed.step (fun T i => (T.timely 2500 i && T.server.ordered i) = true) { server := {} }
      timedRun := by
    decide +kernel
  have horder : (timedRun.foldl Timed.step { server := {} }).server.aof.inOrder [] = true := by decide +kernel
  have hfresh : Fresh {} := ⟨⟨rfl, rfl, fun h => by cases h⟩, rfl, rfl, rfl, rfl, rfl, rfl⟩
  have hclock : ClockWithin 2500 2550 fun i => 2500 + min (i : ℤ) 50 := by
    intro i
    dsimp only
    omega
  constructor
  · have hdue : (timedRun.foldl Timed.step { server := {} }).due (.array, str "a") = some 6000 := by decide +kernel
    refine deadlines_survive hfresh hrun hclock (by decide) false horder hdue ?_ fun h => by cases h
    have hsource : (timedRun.foldl Timed.step { server := {} }).source (.array, str "a") = .dump 1500 := by decide +kernel
    rw [hsource]
    exact ⟨by decide, by decide⟩
  · have hdue : (timedRun.foldl Timed.step { server := {} }).due (.array, str "b") = some 4600 := by decide +kernel
    refine deadlines_survive hfresh hrun hclock (by decide) false horder hdue ?_ fun h => by cases h
    have hsource : (timedRun.foldl Timed.step { server := {} }).source (.array, str "b") = .command 1600 := by decide +kernel
    rw [hsource]
    show (2550 : ℤ) ≤ 1600 + 1000
    decide

/-- A key for one second, in a dump. -/
def briefRun : List ServerInput := [request 1000 ["SETEX", "a", "1", "v"], .save 1500 []]

/-- **A deadline that has passed when the dump is loaded is lost**, and the key stays. From the append-only file it
comes back for another second. -/
theorem deadline_lost :
    GuardedRun Server.step (fun S i => S.proper i = true) {} briefRun ∧
    (let S := briefRun.foldl Server.step {}
     let R := S.recover (fun _ => 10000) []
     S.db.ttl.lookup (.array, str "a") = some 2000 ∧ R.kv.lookup (.array, str "a") = some (str "v") ∧
       R.ttl.lookup (.array, str "a") = none ∧ live 100000 R .array (str "a") = true) ∧
    let S := (briefRun.take 1).foldl Server.step {}
    (S.recover (fun _ => 10000) []).ttl.lookup (.array, str "a") = some 11000 := by
  decide +kernel

end PocketKv.Persistence
