import PocketKv.Persistence.Loading
import PocketKv.Resp.Build
import PocketKv.Resp.Log
import PocketKv.Store.Lasting

/-!
# The commands of a rewrite
-/

namespace PocketKv.Persistence

open Library Resp Store List

variable {args : List Bytes} {now : ℤ} {s : Db}

/-! ### Writing -/

/-- `SET` in an engine. -/
def setName : Engine → String
  | .array => "SET"
  | .rbtree => "RSET"
  | .hash => "HSET"
  | .skiptable => "XSET"

/-- `EXPIRE` in an engine. -/
def expireName : Engine → String
  | .array => "EXPIRE"
  | .rbtree => "REXPIRE"
  | .hash => "HEXPIRE"
  | .skiptable => "XEXPIRE"

/-- `maybe_emit_expire_sink`. -/
def maybeEmitExpire (now : ℤ) (s : Db) (e : Engine) (k : Bytes) : List (List Bytes) :=
  if 0 ≤ expireTtl now s e k then [[str (expireName e), cstr k, decimal (expireTtl now s e k).toNat]] else []

/-- The commands for a key. -/
def snapshotKey (now : ℤ) (s : Db) (x : Sigma fun _ : Slot => Bytes) : List (List Bytes) :=
  [str (setName x.1.1), cstr x.1.2, cstr x.2] :: maybeEmitExpire now s x.1.1 x.1.2

/-- The commands for the keys of an engine: `snapshot_array_sink` and its like. -/
def snapshotEngine (now : ℤ) (s : Db) (e : Engine) : List (List Bytes) :=
  (s.kv.entries.filter (·.1.1 = e)).flatMap (snapshotKey now s)

/-- `snapshot_doc_cb_sink`. -/
def snapshotDoc (d : Sigma fun _ : Bytes => Table Bytes Bytes) : List (List Bytes) :=
  d.2.entries.map fun f => [str "DOCSET", cstr d.1, cstr f.1, cstr f.2]

/-- `snapshot_all_sink`. -/
def snapshotAll (now : ℤ) (s : Db) : List (List Bytes) :=
  snapshotEngine now s .array ++ snapshotEngine now s .rbtree ++ snapshotEngine now s .hash ++
    snapshotEngine now s .skiptable ++ s.docs.entries.flatMap snapshotDoc

/-- `emit_cmd3_sink` and `emit_cmd4_sink`. -/
def emitCmd (args : List Bytes) : Option Bytes :=
  if (respBuildCmd args).length ≤ bufferCap then some (respBuildCmd args) else none

/-- `kvs_snapshot_to_fd`. -/
def kvsSnapshotToFd (now : ℤ) (s : Db) : Option Bytes := ((snapshotAll now s).mapM emitCmd).map List.flatten

/-- No value has a NUL byte, no document is without fields, and no deadline passes before the commands are read. -/
def rewritable (t t' now : ℤ) (s : Db) : Bool :=
  (kvsSnapshotToFd now s).isSome &&
  s.kv.entries.all (fun x => cstr x.1.2 = x.1.2 ∧ cstr x.2 = x.2 ∧
    (0 ≤ expireTtl now s x.1.1 x.1.2 →
      t' - t < expireTtl now s x.1.1 x.1.2 * 1000 ∧ t' + expireTtl now s x.1.1 x.1.2 * 1000 < 2 ^ 63)) &&
  s.docs.entries.all (fun d => cstr d.1 = d.1 ∧ d.2.entries ≠ [] ∧
    ∀ f ∈ d.2.entries, cstr f.1 = f.1 ∧ cstr f.2 = f.2)

/-! ### Reading back -/

lemma whole_emitCmd {raw : Bytes} (hne : args ≠ []) (hlen : args.length ≤ 32)
    (h : emitCmd args = some raw) : Whole raw ∧ commandsIn raw = [args] := by
  unfold emitCmd at h
  split at h
  · rename_i hfits
    obtain rfl := Option.some.inj h
    refine whole_command (respStep_respBuildCmd replayer hne hlen fun a ha => ?_)
    have := length_le_respBuildCmd ha
    unfold bufferCap at hfits
    omega
  · cases h

lemma mem_snapshotEngine {e : Engine} :
    args ∈ snapshotEngine now s e ↔ ∃ x ∈ s.kv.entries, x.1.1 = e ∧ args ∈ snapshotKey now s x := by
  simp [snapshotEngine, and_assoc]

lemma mem_snapshotAll : args ∈ snapshotAll now s ↔
    (∃ x ∈ s.kv.entries, args ∈ snapshotKey now s x) ∨ ∃ d ∈ s.docs.entries, args ∈ snapshotDoc d := by
  simp only [snapshotAll, mem_append, mem_snapshotEngine, mem_flatMap]
  refine or_congr ?_ Iff.rfl
  constructor
  · rintro (((h | h) | h) | h) <;> exact ⟨h.choose, h.choose_spec.1, h.choose_spec.2.2⟩
  · rintro ⟨x, hx, hargs⟩
    cases he : x.1.1 with
    | array => exact .inl (.inl (.inl ⟨x, hx, he, hargs⟩))
    | rbtree => exact .inl (.inl (.inr ⟨x, hx, he, hargs⟩))
    | hash => exact .inl (.inr ⟨x, hx, he, hargs⟩)
    | skiptable => exact .inr ⟨x, hx, he, hargs⟩

lemma decode_set (e : Engine) (k v : Bytes) :
    decode [str (setName e), k, v] = .set e (cstr k) (storedValue e v) := by
  cases e <;> rfl

lemma decode_expire (e : Engine) (k v : Bytes) :
    decode [str (expireName e), k, v] = .expire e (cstr k) (atoll v) := by
  cases e <;> rfl

lemma decode_docset (d f v : Bytes) :
    decode [str "DOCSET", d, f, v] = .docset (cstr d) (cstr f) (cstr v) := rfl

lemma whole_emitAll {argss : List (List Bytes)} (hshape : ∀ args ∈ argss, args ≠ [] ∧ args.length ≤ 32)
    {raws : List Bytes} (h : argss.mapM emitCmd = some raws) :
    Whole raws.flatten ∧ commandsIn raws.flatten = argss := by
  induction argss generalizing raws with
  | nil =>
    obtain rfl : [] = raws := by simpa using h
    exact ⟨rfl, rfl⟩
  | cons args argss ih =>
    rw [mapM_cons] at h
    simp only [Option.bind_eq_bind, Option.bind_eq_some_iff, Option.pure_def, Option.some.injEq] at h
    obtain ⟨raw, hraw, rest, hrest, rfl⟩ := h
    obtain ⟨hne, hlen⟩ := hshape args mem_cons_self
    obtain ⟨hwhole, hcommands⟩ := whole_emitCmd hne hlen hraw
    obtain ⟨hwholes, hcommandss⟩ := ih (fun a ha => hshape a (mem_cons_of_mem _ ha)) hrest
    rw [flatten_cons, commandsIn_append hwhole, hcommands, hcommandss]
    exact ⟨hwhole.append hwholes, rfl⟩

lemma whole_snapshot {log : Bytes} (h : kvsSnapshotToFd now s = some log) :
    Whole log ∧ commandsIn log = snapshotAll now s := by
  obtain ⟨raws, hraws, rfl⟩ := Option.map_eq_some_iff.mp h
  refine whole_emitAll (fun args hargs => ?_) hraws
  rcases mem_snapshotAll.mp hargs with ⟨x, -, hx⟩ | ⟨d, -, hd⟩
  · rcases mem_cons.mp hx with rfl | hx
    · simp
    · unfold maybeEmitExpire at hx
      split at hx
      · obtain rfl := mem_singleton.mp hx
        simp
      · cases hx
  · obtain ⟨f, -, rfl⟩ := mem_map.mp hd
    simp

/-! ### Replaying -/

/-- The command gives back something of the data. -/
inductive Snapshots (t t' : ℤ) (s : Db) : Cmd → Prop where
  | set {e : Engine} {k v : Bytes} (h : s.kv.lookup (e, k) = some v) : Snapshots t t' s (.set e k v)
  | expire {e : Engine} {k : Bytes} {secs : ℤ} (h : (Cmd.expire e k secs).lasts t t' = true) :
    Snapshots t t' s (.expire e k secs)
  | docset {d f v : Bytes} {fields : Table Bytes Bytes} (hd : s.docs.lookup d = some fields)
    (hf : fields.lookup f = some v) : Snapshots t t' s (.docset d f v)

/-- What the command writes. -/
def snapshotWrites : Cmd → List (Cell × Val)
  | .set e k v => [(.kv (e, k), .bytes v)]
  | .docset d f v => [(.doc d, .present), (.field d f, .bytes v)]
  | _ => []

namespace Snapshots

variable {t t' : ℤ} {c : Cmd}

section

variable (h : Snapshots t t' s c)
include h

lemma apply_op (m : Cell → Option Val) : c.op.apply m = applyWrites m (snapshotWrites c) := by
  cases h with
  | set hx => exact Op.assignCell_apply ..
  | expire hlasts => rfl
  | docset hd hf => exact Op.writes_apply ..

lemma settles (m : Cell → Option Val) : c.op.Settles m := by
  cases h <;> exact Op.settles_of_accepts rfl

lemma lasts : c.lasts t t' = true := by
  cases h with
  | set hx => rfl
  | expire hlasts => exact hlasts
  | docset hd hf => rfl

lemma among : c.Among s.arrayKeys.toFinset s.docs.keys.toFinset := by
  cases h with
  | set hx =>
    refine ⟨fun k hk => ?_, nofun⟩
    rw [← mem_singleton.mp hk] at hx
    refine mem_toFinset.mpr (mem_filter.mpr ⟨?_, by simp⟩)
    exact AList.mem_keys.mp (mem_of_lookup hx)
  | expire hlasts => exact ⟨nofun, nofun⟩
  | docset hd hf =>
    refine ⟨nofun, fun d hmem => ?_⟩
    obtain rfl := mem_singleton.mp hmem
    exact mem_toFinset.mpr (AList.mem_keys.mp (mem_of_lookup hd))

lemma writes_content {w : Cell × Val} (hw : w ∈ snapshotWrites c) : s.content w.1 = some w.2 := by
  cases h with
  | set hx =>
    obtain rfl := mem_singleton.mp hw
    simp [Db.content, Db.read, hx]
  | expire hlasts => cases hw
  | docset hd hf =>
    simp only [snapshotWrites, mem_cons, not_mem_nil, or_false] at hw
    rcases hw with rfl | rfl
    · simp [Db.content, Db.read, hd]
    · simp [Db.content, Db.read, hd, hf]

end

lemma applyAll_ops {cs : List Cmd} (h : ∀ c ∈ cs, Snapshots t t' s c) (m : Cell → Option Val) :
    applyAll (cs.map Cmd.op) m = applyWrites m (cs.flatMap snapshotWrites) ∧ Settled (cs.map Cmd.op) m := by
  induction cs generalizing m with
  | nil => exact ⟨rfl, trivial⟩
  | cons c cs ih =>
    have hc := h c mem_cons_self
    obtain ⟨happly, hsettled⟩ := ih (fun d hd => h d (mem_cons_of_mem _ hd)) (c.op.apply m)
    refine ⟨?_, hc.settles m, hsettled⟩
    rw [flatMap_cons, applyWrites_append, ← hc.apply_op]
    exact happly

end Snapshots

section

variable {t t' : ℤ}

lemma rewritable_key (h : rewritable t t' now s = true) {x : Sigma fun _ : Slot => Bytes}
    (hx : x ∈ s.kv.entries) : cstr x.1.2 = x.1.2 ∧ cstr x.2 = x.2 ∧
      (0 ≤ expireTtl now s x.1.1 x.1.2 → t' - t < expireTtl now s x.1.1 x.1.2 * 1000 ∧
        t' + expireTtl now s x.1.1 x.1.2 * 1000 < 2 ^ 63) := by
  simp only [rewritable, Bool.and_eq_true, all_eq_true, decide_eq_true_eq] at h
  exact h.1.2 x hx

lemma rewritable_doc (h : rewritable t t' now s = true) {d : Sigma fun _ : Bytes => Table Bytes Bytes}
    (hd : d ∈ s.docs.entries) : cstr d.1 = d.1 ∧ d.2.entries ≠ [] ∧
      ∀ f ∈ d.2.entries, cstr f.1 = f.1 ∧ cstr f.2 = f.2 := by
  simp only [rewritable, Bool.and_eq_true, all_eq_true, decide_eq_true_eq] at h
  exact h.2 d hd

lemma storedValue_of_cstr (e : Engine) {v : Bytes} (h : cstr v = v) : storedValue e v = v := by
  cases e <;> first | exact h | rfl

lemma snapshots_of_mem (ht : 0 ≤ t) (htt : t ≤ t') (h : rewritable t t' now s = true)
    (hargs : args ∈ snapshotAll now s) : Snapshots t t' s (decode args) := by
  rcases mem_snapshotAll.mp hargs with ⟨x, hx, hargs⟩ | ⟨d, hd, hargs⟩
  · obtain ⟨hkey, hvalue, hlasts⟩ := rewritable_key h hx
    rcases mem_cons.mp hargs with rfl | hargs
    · rw [decode_set, cstr_cstr, hkey, hvalue, storedValue_of_cstr _ hvalue]
      exact .set (AList.mem_lookup_iff.mpr hx)
    · unfold maybeEmitExpire at hargs
      split at hargs
      · rename_i hpos
        obtain rfl := mem_singleton.mp hargs
        obtain ⟨hlong, hshort⟩ := hlasts hpos
        rw [decode_expire, atoll_decimal (by omega), Int.toNat_of_nonneg hpos]
        refine .expire ?_
        simp only [Cmd.lasts, Cmd.ttlMs, Option.all_some, decide_eq_true_eq]
        rw [wrap64_of_lt (by omega) (by omega)]
        exact ⟨hlong, hshort⟩
      · cases hargs
  · obtain ⟨hname, -, hfields⟩ := rewritable_doc h hd
    obtain ⟨f, hf, rfl⟩ := mem_map.mp hargs
    obtain ⟨hf₁, hf₂⟩ := hfields f hf
    rw [decode_docset, hname, hf₁, hf₂, hname, hf₁, hf₂]
    exact .docset (AList.mem_lookup_iff.mpr hd) (AList.mem_lookup_iff.mpr hf)

lemma snapshot_covers (h : rewritable t t' now s = true) {c : Cell} (hc : s.content c ≠ none) :
    c ∈ (((snapshotAll now s).map decode).flatMap snapshotWrites).map Prod.fst := by
  have hmem {args : List Bytes} (hargs : args ∈ snapshotAll now s) {w : Cell × Val}
      (hw : w ∈ snapshotWrites (decode args)) :
      w.1 ∈ (((snapshotAll now s).map decode).flatMap snapshotWrites).map Prod.fst :=
    mem_map_of_mem (mem_flatMap.mpr ⟨_, mem_map_of_mem hargs, hw⟩)
  refine Db.content_cases (fun x v hv => ?_) (fun d fields hd => (rewritable_doc h (AList.mem_lookup_iff.mp hd)).2.1)
    (fun d fields f v hd hf => ?_) hc
  · have hx := AList.mem_lookup_iff.mp hv
    obtain ⟨hkey, hvalue, -⟩ := rewritable_key h hx
    refine hmem (w := (.kv x, .bytes v)) (mem_snapshotAll.mpr (.inl ⟨⟨x, v⟩, hx, mem_cons_self⟩)) ?_
    rw [decode_set, cstr_cstr, hkey, hvalue]
    exact mem_singleton.mpr (by rw [storedValue_of_cstr _ hvalue])
  · have hentry := AList.mem_lookup_iff.mp hd
    obtain ⟨hname, -, hfields⟩ := rewritable_doc h hentry
    obtain ⟨hf₁, hf₂⟩ := hfields ⟨f, v⟩ (AList.mem_lookup_iff.mp hf)
    have hargs : [str "DOCSET", d, f, v] ∈ snapshotAll now s := by
      refine mem_snapshotAll.mpr (.inr ⟨⟨d, fields⟩, hentry, mem_map.mpr ⟨⟨f, v⟩, AList.mem_lookup_iff.mp hf, ?_⟩⟩)
      simp only [hname, hf₁, hf₂]
    have hdecode : decode [str "DOCSET", d, f, v] = .docset d f v := by rw [decode_docset, hname, hf₁, hf₂]
    exact ⟨hmem (w := (.doc d, .present)) hargs (by simp [hdecode, snapshotWrites]),
      hmem (w := (.field d f, .bytes v)) hargs (by simp [hdecode, snapshotWrites])⟩

lemma rewrite_replays (ht : 0 ≤ t) (htt : t ≤ t') (hfits : s.Fits) (h : rewritable t t' now s = true)
    {clock : ℕ → ℤ} (hclock : ClockWithin t t' clock) (i : ℕ) :
    Becomes t' s.arrayKeys.toFinset s.docs.keys.toFinset
      (replay clock i Db.empty ((snapshotAll now s).map decode)) s.content ∧
    applyAll (((snapshotAll now s).map decode).map Cmd.op) (fun _ => none) = s.content ∧
    Settled (((snapshotAll now s).map decode).map Cmd.op) fun _ => none := by
  have hcmds : ∀ c ∈ (snapshotAll now s).map decode, Snapshots t t' s c := fun c hc => by
    obtain ⟨args, hargs, rfl⟩ := mem_map.mp hc
    exact snapshots_of_mem ht htt h hargs
  obtain ⟨happly, hsettled⟩ := Snapshots.applyAll_ops hcmds fun _ => none
  have hcontent : applyAll (((snapshotAll now s).map decode).map Cmd.op) (fun _ => none) = s.content := by
    rw [happly]
    funext c
    refine applyWrites_cell (fun v hv => ?_) (snapshot_covers h)
    obtain ⟨cmd, hcmd, hw⟩ := mem_flatMap.mp hv
    exact (hcmds cmd hcmd).writes_content hw
  have hempty : Becomes t' s.arrayKeys.toFinset s.docs.keys.toFinset Db.empty fun _ => none :=
    ⟨⟨fun x d hx => (by cases hx), within_empty⟩, Db.content_empty⟩
  refine ⟨?_, hcontent, hsettled⟩
  rw [← hcontent]
  exact replay_becomes ((toFinset_card_le _).trans hfits.array) ((toFinset_card_le _).trans hfits.docs) ht
    hclock (fun c hc => ⟨(hcmds c hc).among, (hcmds c hc).lasts⟩) i hempty

end

end PocketKv.Persistence
