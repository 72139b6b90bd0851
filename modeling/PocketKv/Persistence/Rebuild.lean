import PocketKv.Persistence.Recovery
import PocketKv.Store.Keys

/-!
# What is recovered
-/

namespace PocketKv.Persistence

open Library Resp Store Server List

variable {argv : List Bytes} {raw more log : Bytes} {now : ℤ} {dump : Option Bytes}

/-! ### `persist_recover` as a replay -/

/-- What is read from the two files. -/
def rebuild (clock : ℕ → ℤ) (dump : Option Bytes) (log : Bytes) : Db :=
  replay clock 1 (loadDump (clock 0) dump).2 ((commandsIn (log.drop (header dump))).map decode)

lemma loadDump_fst (now : ℤ) (dump : Option Bytes) : (loadDump now dump).1 = header dump := by
  cases dump with
  | none => rfl
  | some file =>
    simp only [loadDump, replayDumpFile, header]
    split <;> rfl

lemma dump_loads {db : Db} {file : Bytes} (hlog : log.length < 2 ^ 64)
    (hfile : kvsDumpToFd now log.length db = some file) : ∃ recs, dumpRecords now db = some recs ∧
      header (some file) = log.length ∧ ∀ load, (loadDump load (some file)).2 = loadRecords load .empty recs := by
  obtain ⟨recs, hrecs, rfl⟩ := Option.map_eq_some_iff.mp hfile
  have hload (now : ℤ) := replayDumpFile_encode now log.length (dumpRecords_eq_some hrecs).1 Db.empty
  refine ⟨recs, hrecs, ?_, fun load => by rw [loadDump, hload]⟩
  rw [← loadDump_fst now, loadDump, hload, Nat.mod_eq_of_lt (by omega)]

section

variable (clock : ℕ → ℤ)
include clock

lemma foldl_handle (es : List Event) (R : Recovering) :
    (es.foldl (Recovering.handle clock) R).db =
      replay clock R.count R.db ((es.filterMap Event.argv).map decode) := by
  induction es generalizing R with
  | nil => rfl
  | cons e es ih =>
    rw [List.foldl_cons, ih]
    cases e <;> rfl

lemma replayFile_db (file : Bytes) (skip : ℕ) (R : Recovering) :
    (replayFile clock file skip R).db = replay clock R.count R.db ((commandsIn (file.drop skip)).map decode) := by
  unfold replayFile
  split
  · rename_i hshort
    rw [drop_of_length_le hshort]
    rfl
  · have hout : OutsideLoading (recoverHooks clock) replayer R ((respScanner replayer).run (file.drop skip)).1 :=
      fun _ _ _ => rfl
    rw [parseRespStream_outside hout]
    exact foldl_handle clock _ R

lemma persistRecover_eq (dump : Option Bytes) (file : Bytes) :
    ∃ n, persistRecover clock dump false file = kvsActiveExpireCycle (clock n) (rebuild clock dump file) := by
  refine ⟨(replayFile clock file (header dump) ⟨(loadDump (clock 0) dump).2, 1⟩).count, ?_⟩
  unfold persistRecover
  simp only [loadDump_fst, Bool.false_eq_true, if_false, replayFile_db]
  rfl

lemma rebuild_append (hoff : header dump ≤ log.length)
    (hwhole : Whole (log.drop (header dump))) (more : Bytes) :
    rebuild clock dump (log ++ more) =
      replay clock (1 + ((commandsIn (log.drop (header dump))).map decode).length) (rebuild clock dump log)
        ((commandsIn more).map decode) := by
  rw [rebuild, drop_append_of_le_length hoff, commandsIn_append hwhole, map_append, replay_append]
  rfl

end

/-! ### Keys that have expired -/

/-- The contents with the keys that have expired. -/
def overlay (m : Cell → Option Val) (E : Table Slot Bytes) : Cell → Option Val
  | .kv x => (m (.kv x)).or ((E.lookup x).map .bytes)
  | c => m c

lemma overlay_kv (db : Db) (E : Table Slot Bytes) (x : Slot) :
    overlay db.content E (.kv x) = (held db E x).map .bytes := by
  rw [overlay, Db.content_kv, held]
  cases db.kv.lookup x <;> rfl

@[simp] lemma overlay_empty (m : Cell → Option Val) : overlay m ∅ = m := by
  funext c
  cases c with
  | kv x => exact Option.or_none
  | ttl x => rfl
  | doc d => rfl
  | field d f => rfl

lemma held_of_lookup {db : Db} {E : Table Slot Bytes} {x : Slot} {v : Bytes} (hx : db.kv.lookup x = some v) :
    held db E x = some v := by
  rw [held, hx]
  rfl

lemma lookup_touch (xs : List Slot) (E : Table Slot Bytes) (x : Slot) :
    (touch xs E).lookup x = if x ∈ xs then none else E.lookup x := by
  unfold touch
  induction xs generalizing E with
  | nil => rfl
  | cons y ys ih =>
    rw [List.foldl_cons, ih, lookup_erase_eq]
    by_cases hx : x = y
    · simp [hx]
    · simp [hx]

lemma overwrite_overlay (c : Cmd) (m : Cell → Option Val) (E : Table Slot Bytes) :
    c.op.overwrite (overlay m E) = overlay (c.op.overwrite m) (touch c.slots E) := by
  funext cell
  cases cell with
  | kv x =>
    simp only [Op.overwrite, overlay, lookup_touch]
    cases ha : c.op.assigns (.kv x) with
    | none => rw [if_neg ((c.assigns_kv x).mp ha)]; rfl
    | some v =>
      have hx : x ∈ c.slots := by
        by_contra hx
        rw [(c.assigns_kv x).mpr hx] at ha
        cases ha
      rw [if_pos hx]
      exact Option.or_none.symm
  | ttl x => rfl
  | doc d => rfl
  | field d f => rfl

lemma lookup_lapse (now : ℤ) (db : Db) (x : Slot) (E : Table Slot Bytes) (y : Slot) : (lapse now db x E).lookup y =
    if expireIsExpired now db x.1 x.2 ∧ y = x ∧ db.kv.lookup x ≠ none then db.kv.lookup y else E.lookup y := by
  unfold lapse
  cases hx : db.kv.lookup x with
  | none => simp
  | some v =>
    simp only
    split
    · rename_i hexpired
      rw [lookup_insert_eq]
      by_cases hy : y = x
      · subst hy
        simp [hexpired, hx]
      · simp [hy]
    · rename_i hexpired
      simp [hexpired]

lemma held_lapse (now : ℤ) (db : Db) (x : Slot) (E : Table Slot Bytes) (y : Slot) :
    held (tryExpire now db x.1 x.2) (lapse now db x E) y = held db E y := by
  rw [held, held, (lookup_tryExpire ..).1, lookup_lapse]
  by_cases hy : y = (x.1, x.2) ∧ expireIsExpired now db x.1 x.2 = true
  · obtain ⟨hyx, hexpired⟩ := hy
    obtain rfl : y = x := hyx
    cases hv : db.kv.lookup y with
    | none => simp
    | some v => simp [hexpired]
  · rw [if_neg hy, if_neg fun h => hy ⟨h.2.1, h.1⟩]

lemma overlay_lapse (now : ℤ) (db : Db) (x : Slot) (E : Table Slot Bytes) :
    overlay (tryExpire now db x.1 x.2).content (lapse now db x E) = overlay db.content E := by
  funext c
  cases c with
  | kv y => rw [overlay_kv, overlay_kv, held_lapse]
  | ttl y => rfl
  | doc d =>
    simp only [overlay, tryExpire_eq]
    split <;> rfl
  | field d f =>
    simp only [overlay, tryExpire_eq]
    split <;> rfl

/-! ### Files that follow the data -/

/-- What the files rebuild, at any times between `t` and `t'`, has the contents of the data and the keys that have
expired, and deadlines that do not pass. -/
structure Follows (t t' : ℤ) (dump : Option Bytes) (log : Bytes) (E : Table Slot Bytes) (db : Db) : Prop where
  offset : header dump ≤ log.length
  whole : Whole (log.drop (header dump))
  blank : header dump = 0 → ∀ now, (loadDump now dump).2 = Db.empty
  absent : ∀ x v, E.lookup x = some v → db.kv.lookup x = none
  rebuilds : ∀ clock, ClockWithin t t' clock →
    (rebuild clock dump log).content = overlay db.content E ∧ (rebuild clock dump log).Lasts t'

/-- The keys that `roomFor` counts. -/
def roomKeys (db : Db) (E : Table Slot Bytes) (cs : List Cmd) : Finset Slot :=
  ((db.arrayKeys ++ E.keys.filter (·.1 = .array)) ++ (cs.flatMap Cmd.slots).filter (·.1 = .array)).toFinset

/-- The documents that `roomFor` counts. -/
def roomDocs (db : Db) (cs : List Cmd) : Finset Bytes := (db.docs.keys ++ cs.flatMap Cmd.docs).toFinset

section

variable {db R : Db} {E : Table Slot Bytes} {cs : List Cmd}

lemma roomFor_card (h : roomFor db E cs = true) :
    (roomKeys db E cs).card ≤ kvsArraySize ∧ (roomDocs db cs).card ≤ docTableMax := by
  rw [roomKeys, roomDocs, card_toFinset, card_toFinset]
  exact of_decide_eq_true h

lemma mem_roomKeys {k : Bytes} : (Engine.array, k) ∈ roomKeys db E cs ↔
    held db E (.array, k) ≠ none ∨ (Engine.array, k) ∈ cs.flatMap Cmd.slots := by
  have hheld : held db E (.array, k) ≠ none ↔ (Engine.array, k) ∈ db.kv ∨ (Engine.array, k) ∈ E := by
    rw [held, ne_eq, Option.or_eq_none_iff, AList.lookup_eq_none, AList.lookup_eq_none, not_and_or, not_not, not_not]
  simp [roomKeys, hheld, Db.arrayKeys, AList.mem_keys, or_assoc]

lemma among_room {c : Cmd} (hc : c ∈ cs) : c.Among (roomKeys db E cs) (roomDocs db cs) :=
  ⟨fun _ hk => mem_roomKeys.mpr (.inr (mem_flatMap.mpr ⟨c, hc, hk⟩)),
    fun _ hd => mem_toFinset.mpr (mem_append_right _ (mem_flatMap.mpr ⟨c, hc, hd⟩))⟩

lemma within_room (h : R.content = overlay db.content E) : R.Within (roomKeys db E cs) (roomDocs db cs) := by
  constructor
  · intro k hk
    refine mem_roomKeys.mpr (.inl fun hheld => ?_)
    refine Db.read_kv_ne_none.mpr hk ((congrFun h (.kv (.array, k))).trans ?_)
    rw [overlay_kv, hheld]
    rfl
  · intro d hd
    refine mem_toFinset.mpr (mem_append_left _ (AList.mem_keys.mp ?_))
    refine Db.read_doc_ne_none.mp fun hnone => Db.read_doc_ne_none.mpr hd ?_
    exact (congrFun h (.doc d)).trans hnone

lemma within_of_overlay {K : Finset Slot} {D : Finset Bytes} (hR : R.Within K D)
    (h : R.content = overlay db.content E) : db.Within K D := by
  constructor
  · intro k hk
    refine hR.array k (Db.read_kv_ne_none.mp fun hnone => ?_)
    have hcell := (congrFun h (.kv (.array, k))).symm.trans hnone
    exact Db.read_kv_ne_none.mpr hk (Option.or_eq_none_iff.mp hcell).1
  · intro d hd
    refine hR.docs d (Db.read_doc_ne_none.mp fun hnone => ?_)
    exact Db.read_doc_ne_none.mpr hd ((congrFun h (.doc d)).symm.trans hnone)

end

namespace Follows

variable {t t' : ℤ} {E : Table Slot Bytes} {db : Db}

section

variable (h : Follows t t' dump log E db)
include h

lemma replays (ht : 0 ≤ t) {cs : List Cmd}
    (hcs : (commandsIn more).map decode = cs) (hlasts : ∀ c ∈ cs, c.lasts t t' = true)
    (hroom : roomFor db E cs = true) {clock : ℕ → ℤ} (hclock : ClockWithin t t' clock) :
    Becomes t' (roomKeys db E cs) (roomDocs db cs) (rebuild clock dump (log ++ more))
      (applyAll (cs.map Cmd.op) (overlay db.content E)) := by
  obtain ⟨hcontent, hlast⟩ := h.rebuilds clock hclock
  obtain ⟨hK, hD⟩ := roomFor_card hroom
  have hready : Becomes t' (roomKeys db E cs) (roomDocs db cs) (rebuild clock dump log) (overlay db.content E) :=
    ⟨⟨hlast, within_room hcontent⟩, hcontent⟩
  rw [rebuild_append clock h.offset h.whole, hcs]
  exact replay_becomes hK hD ht hclock (fun c hc => ⟨among_room hc, hlasts c hc⟩) _ hready

lemma append_offset (more : Bytes) : header dump ≤ (log ++ more).length := by
  have := h.offset
  rw [length_append]
  omega

lemma append_whole (hmore : Whole more) : Whole ((log ++ more).drop (header dump)) := by
  rw [drop_append_of_le_length h.offset]
  exact h.whole.append hmore

end

lemma command (h : Follows t t' dump log E db) (ht : 0 ≤ t) (htt : t ≤ t')
    (hwrote : (exec now db (decode argv)).wrote = true) (hwhole : Whole raw) (hraw : commandsIn raw = [argv])
    (hlasts : (decode argv).lasts t t' = true) (hgrants : (decode argv).grants (held db E) = true)
    (hroom : roomFor db E [decode argv] = true) :
    Follows t t' dump (log ++ raw) (touch (decode argv).slots E) (exec now db (decode argv)).db ∧
      (decode argv).op.Settles (overlay db.content E) ∧
      (decode argv).op.apply (overlay db.content E) =
        overlay (exec now db (decode argv)).db.content (touch (decode argv).slots E) ∧
      (exec now db (decode argv)).db.Fits := by
  have hsettles : (decode argv).op.Settles (overlay db.content E) :=
    exec_settles hwrote (overlay_kv db E) (fun x v => held_of_lookup) hgrants
  have happly : (decode argv).op.apply (overlay db.content E) =
      overlay (exec now db (decode argv)).db.content (touch (decode argv).slots E) := by
    rw [show (decode argv).op.apply _ = _ from hsettles, overwrite_overlay,
      exec_overwrites (decode_formed argv) hwrote]
  have hcommands : (commandsIn raw).map decode = [decode argv] := by rw [hraw]; rfl
  have hreplays {clock : ℕ → ℤ} (hclock : ClockWithin t t' clock) :=
    h.replays ht hcommands (by simpa using hlasts) hroom hclock
  rw [show applyAll ([decode argv].map Cmd.op) (overlay db.content E) = _ from happly] at hreplays
  refine ⟨⟨h.append_offset raw, h.append_whole hwhole, h.blank, fun x v hx => ?_,
    fun clock hclock => ⟨(hreplays hclock).2, (hreplays hclock).1.lasts⟩⟩, hsettles, happly, ?_⟩
  · -- what stays in the table is not touched
    rw [lookup_touch] at hx
    split at hx
    · cases hx
    · rename_i hslot
      have hcell := congrFun (exec_overwrites (decode_formed argv) hwrote) (.kv x)
      rw [Op.overwrite, ((decode argv).assigns_kv x).mpr hslot, Db.content_kv, Option.getD_none, Db.content_kv,
        h.absent x v hx] at hcell
      exact Option.map_eq_none_iff.mp hcell
  · have hready := hreplays (clockWithin_const htt)
    exact (within_of_overlay hready.1.within hready.2).fits (roomFor_card hroom).1 (roomFor_card hroom).2

lemma expire (h : Follows t t' dump log E db) (now : ℤ) (x : Slot) :
    Follows t t' dump log (lapse now db x E) (tryExpire now db x.1 x.2) := by
  refine ⟨h.offset, h.whole, h.blank, fun y v hy => ?_, fun clock hclock => ?_⟩
  · rw [(lookup_tryExpire ..).1]
    rw [lookup_lapse] at hy
    split
    · rfl
    · rename_i hother
      rw [if_neg fun h => hother ⟨h.2.1, h.1⟩] at hy
      exact h.absent y v hy
  · rw [overlay_lapse]
    exact h.rebuilds clock hclock

lemma nothing (h : Follows t t' dump [] E db) (htt : t ≤ t') : ∀ c, db.content c = none := by
  have hoff : header dump = 0 := Nat.le_zero.mp h.offset
  obtain ⟨hcontent, -⟩ := h.rebuilds _ (clockWithin_const htt)
  rw [rebuild, drop_nil, h.blank hoff] at hcontent
  intro c
  have hcell := congrFun hcontent c
  rw [show (replay (fun _ => t) 1 Db.empty ((commandsIn []).map decode)).content = fun _ => none from
    Db.content_empty] at hcell
  cases c with
  | kv x => exact (Option.or_eq_none_iff.mp hcell.symm).1
  | ttl x => rfl
  | doc d => exact hcell.symm
  | field d f => exact hcell.symm

lemma dumped (h : Follows t t' dump log E db) (ht : 0 ≤ t) (htt : t ≤ t') (ht' : t' < 2 ^ 63) (hfits : db.Fits)
    (hdump : dumpable t t' now db = true) (hlog : log.length < 2 ^ 64) {file : Bytes}
    (hfile : kvsDumpToFd now log.length db = some file) : Follows t t' (some file) log ∅ db := by
  obtain ⟨recs, hrecs, hheader, hload⟩ := dump_loads hlog hfile
  refine ⟨hheader.le, ?_, fun hzero now => ?_, fun x v hx => (by cases hx), fun clock hclock => ?_⟩
  · rw [hheader, drop_length]
    exact whole_nil
  · -- the append-only file is empty, and so are the data
    rw [hheader, length_eq_zero_iff] at hzero
    subst hzero
    have hnone := h.nothing htt
    have hnil : recs = [] := by
      refine eq_nil_iff_forall_not_mem.mpr fun r hr => ?_
      rcases ((dumpRecords_eq_some hrecs).2 r).mp hr with ⟨x, hx, -⟩ | ⟨d, hd, -⟩
      · have := hnone (.kv x.1)
        rw [mem_content_of_kv hx] at this
        cases this
      · have hlookup : db.docs.lookup d.1 = some d.2 := AList.mem_lookup_iff.mpr hd
        have := hnone (.doc d.1)
        simp [Db.content, Db.read, hlookup] at this
    rw [hload, hnil]
    rfl
  · rw [rebuild, hheader, drop_length, hload, overlay_empty]
    exact dump_restores hdump ht ht' hfits (hclock 0).1 (hclock 0).2 hrecs

lemma beside (h : Follows t t' none log E db) (hzero : header dump = 0)
    (hblank : ∀ now, (loadDump now dump).2 = Db.empty) : Follows t t' dump log E db := by
  have hrebuild (clock : ℕ → ℤ) : rebuild clock dump log = rebuild clock none log := by
    rw [rebuild, rebuild, hzero, hblank]
    rfl
  refine ⟨by omega, ?_, fun _ => hblank, h.absent, fun clock hclock => ?_⟩
  · rw [hzero]
    exact h.whole
  · rw [hrebuild]
    exact h.rebuilds clock hclock

end Follows

/-! ### The bytes on their way -/

/-- The bytes that are not written yet are whole commands, the last of the given ones. -/
structure Pends (A : Aof) (argvs : List (List Bytes)) : Prop where
  slots : ∀ s ∈ A.outstanding, Whole s
  cur : Whole A.cur
  last : A.outstanding.flatMap commandsIn ++ commandsIn A.cur <:+ argvs

namespace Pends

variable {A : Aof} {argvs : List (List Bytes)}

section

variable (h : Pends A argvs)
include h

lemma buffer (hwhole : Whole raw) (hraw : commandsIn raw = [argv]) : Pends (A.buffer raw) (argvs ++ [argv]) := by
  refine ⟨h.slots, h.cur.append hwhole, ?_⟩
  obtain ⟨front, hfront⟩ := h.last
  refine ⟨front, ?_⟩
  rw [← hfront]
  simp only [Aof.buffer, commandsIn_append h.cur, hraw, append_assoc]

lemma flush (hon : A.On) : Pends A.flushPendingForce argvs := by
  unfold Aof.flushPendingForce
  split
  · rename_i hsync
    refine ⟨h.slots, whole_nil, ?_⟩
    simp [Aof.syncWrite, hon.slots hsync]
  · unfold Aof.handoff
    split
    · exact h
    · refine ⟨fun s hs => ?_, whole_nil, ?_⟩
      · rcases mem_append.mp hs with hs | hs
        · exact h.slots s hs
        · rw [mem_singleton.mp hs]
          exact h.cur
      · simpa using h.last

lemma complete : Pends (A.complete 0) argvs := by
  rw [Aof.complete_zero]
  split
  · exact h
  · rename_i s ss hslots
    refine ⟨fun s' hs' => h.slots s' (by rw [hslots]; exact mem_cons_of_mem _ hs'), h.cur, ?_⟩
    have hlast := h.last
    rw [hslots, flatMap_cons, append_assoc] at hlast
    exact (suffix_append ..).trans hlast

lemma appendToRewriteBuffer (raw : Bytes) : Pends (A.appendToRewriteBuffer raw) argvs :=
  { h with }

end

lemma drained (A : Aof) (order : List ℕ) (argvs : List (List Bytes)) : Pends (A.drainPending order) argvs :=
  ⟨nofun, whole_nil, nil_suffix⟩

end Pends

lemma prepare_rewrites {A A' : Aof} {argvs : List (List Bytes)} (hon : A.On)
    (ha : persistAppendPrepare raw A = some A') (hwhole : Whole raw) (hraw : commandsIn raw = [argv])
    (hmode : (A.sync && A.perCommand) = false) (hpends : Pends A argvs) :
    A'.rewrite = A.rewrite.map (fun r => (r.1, r.2 ++ raw)) ∧ Pends A' (argvs ++ [argv]) := by
  have hbuffer := hpends.buffer hwhole hraw
  have honbuffer : (A.buffer raw).On := { hon with }
  have hflush := hbuffer.flush honbuffer
  have hkeep : (A.buffer raw).flushPendingForce.rewrite = A.rewrite := by
    unfold Aof.flushPendingForce Aof.handoff
    split_ifs <;> rfl
  have hdone {B : Aof} (hB : Pends B (argvs ++ [argv])) (hr : B.rewrite = A.rewrite) :
      (B.appendToRewriteBuffer raw).rewrite = A.rewrite.map (fun r => (r.1, r.2 ++ raw)) ∧
        Pends (B.appendToRewriteBuffer raw) (argvs ++ [argv]) :=
    ⟨by rw [Aof.appendToRewriteBuffer, hr], hB.appendToRewriteBuffer raw⟩
  cases prepared ha with
  | ignored hoff => simp [hon.isOpen, hon.always] at hoff
  | written hsync hper => simp [hsync, hper] at hmode
  | flushed => exact hdone hflush hkeep
  | buffered => exact hdone hbuffer rfl

/-! ### Rewrites -/

/-- What the commands in the bytes do. -/
def opsIn (log : Bytes) : List (Op Cell Val) := ((commandsIn log).map decode).map Cmd.op

lemma opsIn_append (h : Whole log) (more : Bytes) : opsIn (log ++ more) = opsIn log ++ opsIn more := by
  simp only [opsIn, commandsIn_append h, map_append]

/-- The new file follows the data, and what is on its way to the old one is at its end. -/
structure Rewriting (t t' : ℤ) (A : Aof) (log : Bytes) (E : Table Slot Bytes) (db : Db) : Prop where
  follows : Follows t t' none log E db
  settled : ∃ m, Settled (opsIn log) m ∧ applyAll (opsIn log) m = overlay db.content E
  lasting : ∀ argv ∈ commandsIn log, (decode argv).lasts t t' = true
  pends : Pends A (commandsIn log)

namespace Rewriting

variable {t t' : ℤ} {A A' : Aof} {E : Table Slot Bytes} {db : Db}

lemma command (h : Rewriting t t' A log E db) (ht : 0 ≤ t) (htt : t ≤ t')
    (hwrote : (exec now db (decode argv)).wrote = true) (hwhole : Whole raw) (hraw : commandsIn raw = [argv])
    (hlasts : (decode argv).lasts t t' = true) (hgrants : (decode argv).grants (held db E) = true)
    (hroom : roomFor db E [decode argv] = true) (hpends : Pends A' (commandsIn log ++ [argv])) :
    Rewriting t t' A' (log ++ raw) (touch (decode argv).slots E) (exec now db (decode argv)).db := by
  obtain ⟨hfollows, hsettles, happly, -⟩ := h.follows.command ht htt hwrote hwhole hraw hlasts hgrants hroom
  obtain ⟨m, hsettled, hm⟩ := h.settled
  have hlog : Whole log := h.follows.whole
  have hops : opsIn (log ++ raw) = opsIn log ++ [(decode argv).op] := by
    rw [opsIn_append hlog]
    simp only [opsIn, hraw, map_cons, map_nil]
  have hcommands : commandsIn (log ++ raw) = commandsIn log ++ [argv] := by rw [commandsIn_append hlog, hraw]
  refine ⟨hfollows, ⟨m, ?_, ?_⟩, fun a ha => ?_, by rw [hcommands]; exact hpends⟩
  · rw [hops, Settled.append, hm]
    exact ⟨hsettled, hsettles, trivial⟩
  · rw [hops, applyAll_append, hm]
    exact happly
  · rw [hcommands] at ha
    rcases mem_append.mp ha with ha | ha
    · exact h.lasting a ha
    · rw [mem_singleton.mp ha]
      exact hlasts

lemma expire (h : Rewriting t t' A log E db) (now : ℤ) (x : Slot) :
    Rewriting t t' A log (lapse now db x E) (tryExpire now db x.1 x.2) := by
  refine ⟨h.follows.expire now x, ?_, h.lasting, h.pends⟩
  rw [overlay_lapse]
  exact h.settled

lemma start (hA : Pends A []) (ht : 0 ≤ t) (htt : t ≤ t') (hfits : db.Fits)
    (hdb : rewritable t t' now db = true) {snapshot : Bytes} (hsnapshot : kvsSnapshotToFd now db = some snapshot) :
    Rewriting t t' A snapshot ∅ db := by
  obtain ⟨hwhole, hcommands⟩ := whole_snapshot hsnapshot
  have hreplays {clock : ℕ → ℤ} (hclock : ClockWithin t t' clock) := rewrite_replays ht htt hfits hdb hclock 1
  obtain ⟨-, happly, hsettled⟩ := hreplays (clockWithin_const htt)
  refine ⟨⟨Nat.zero_le _, hwhole, fun _ _ => rfl, fun x v hx => (by cases hx), fun clock hclock => ?_⟩,
    ⟨fun _ => none, ?_, ?_⟩, fun argv hargv => ?_, ⟨hA.slots, hA.cur, hA.last.trans nil_suffix⟩⟩
  · rw [overlay_empty, rebuild, header, drop_zero, hcommands]
    exact ⟨(hreplays hclock).1.2, (hreplays hclock).1.1.lasts⟩
  · rw [opsIn, hcommands]
    exact hsettled
  · rw [opsIn, hcommands, overlay_empty]
    exact happly
  · rw [hcommands] at hargv
    exact (snapshots_of_mem ht htt hdb hargv).lasts

lemma finish (h : Rewriting t t' A log E db) (ht : 0 ≤ t) (hwhole : Whole more)
    (hmore : commandsIn more <:+ commandsIn log)
    (hroom : roomFor db E ((commandsIn more).map decode) = true) : Follows t t' none (log ++ more) E db := by
  obtain ⟨front, hfront⟩ := hmore
  obtain ⟨m, hsettled, hm⟩ := h.settled
  have hops : opsIn log = front.map (fun argv => (decode argv).op) ++ opsIn more := by
    simp only [opsIn, ← hfront, map_append, map_map]
    rfl
  have hagain : applyAll (opsIn more) (overlay db.content E) = overlay db.content E := by
    rw [hops, Settled.append] at hsettled
    rw [hops, applyAll_append] at hm
    have hlocal : ∀ o ∈ opsIn more, o.Local := fun o ho => by
      obtain ⟨c, -, rfl⟩ := mem_map.mp ho
      exact c.local_op
    have := hsettled.2.again hlocal
    rwa [hm] at this
  have hlasts : ∀ c ∈ (commandsIn more).map decode, c.lasts t t' = true := fun c hc => by
    obtain ⟨argv, hargv, rfl⟩ := mem_map.mp hc
    exact h.lasting argv (hfront ▸ mem_append_right _ hargv)
  refine ⟨h.follows.append_offset more, h.follows.append_whole hwhole, h.follows.blank, h.follows.absent,
    fun clock hclock => ?_⟩
  have hreplays := h.follows.replays ht rfl hlasts hroom hclock
  rw [show applyAll (((commandsIn more).map decode).map Cmd.op) _ = _ from hagain] at hreplays
  exact ⟨hreplays.2, hreplays.1.lasts⟩

end Rewriting

end PocketKv.Persistence
