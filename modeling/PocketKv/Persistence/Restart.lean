import PocketKv.Persistence.Rebuild

/-!
# A stop and a start
-/

namespace PocketKv.Persistence

open Library Resp Store Server List

variable {now : ℤ} {order : List ℕ} {raw : Bytes} {E : Table Slot Bytes} {A : Aof}

/-! ### The append-only file -/

/-- What is appended stays as it is. -/
structure Moves (A A' : Aof) : Prop where
  on : A.On → A'.On
  disabled : A'.disabled = A.disabled
  content : A.On → A'.content = A.content
  rewrite : A'.rewrite = A.rewrite
  pends : A.On → ∀ argvs, Pends A argvs → Pends A' argvs

lemma moves_flush (A : Aof) : Moves A A.flushPendingForce where
  on h := h.flushPendingForce.1
  disabled := by
    unfold Aof.flushPendingForce Aof.handoff
    split_ifs <;> rfl
  content h := h.flushPendingForce.2
  rewrite := by
    unfold Aof.flushPendingForce Aof.handoff
    split_ifs <;> rfl
  pends h _ hp := hp.flush h

lemma moves_complete (A : Aof) : Moves A (A.complete 0) where
  on h := by
    rw [Aof.complete_zero]
    split
    · exact h
    · rename_i s ss hslots
      exact ⟨h.isOpen, h.always, fun hsync => by simp [h.slots hsync] at hslots⟩
  disabled := by
    unfold Aof.complete
    split <;> rfl
  content _ := Aof.content_complete A
  rewrite := by
    unfold Aof.complete
    split <;> rfl
  pends _ _ hp := hp.complete

lemma moves_drain (h : A.inOrder order = true) : Moves A (A.drainPending order) where
  on h := ⟨h.isOpen, h.always, fun _ => rfl⟩
  disabled := rfl
  content _ := Aof.content_drainPending h
  rewrite := rfl
  pends _ argvs _ := .drained A order argvs

lemma prepare_disabled {A A' : Aof} (h : persistAppendPrepare raw A = some A') : A'.disabled = A.disabled := by
  cases prepared h with
  | ignored | buffered => rfl
  | written | flushed => exact (moves_flush (A.buffer raw)).disabled

lemma prepare_rewrite_none {A A' : Aof} (h : persistAppendPrepare raw A = some A')
    (hnone : A.rewrite = none) : A'.rewrite = none := by
  have hflush : (A.buffer raw).flushPendingForce.rewrite = none := (moves_flush _).rewrite.trans hnone
  cases prepared h with
  | ignored => exact hnone
  | written => exact hflush
  | flushed => exact congrArg (Option.map _) hflush
  | buffered => exact congrArg (Option.map _) hnone

lemma command_eq {S : Server} {argv : List Bytes} (hwrote : (exec now S.db (decode argv)).wrote = true)
    (hA : persistAppendPrepare raw S.aof = some A) : S.command now argv raw =
      ({ S with db := (exec now S.db (decode argv)).db, aof := A } : Server).onExpired (touch (decode argv).slots) := by
  simp [Server.command, hwrote, hA]

lemma finalize_content {r : Bytes × Bytes} (hr : A.rewrite = some r) {argvs : List (List Bytes)}
    (h : Pends A argvs) (ho : A.registered = true ∨ carriedOut order A.outstanding = A.outstanding) :
    ∃ more, Whole more ∧ (finalizeRewriteParent order A).content = r.1 ++ r.2 ++ more ∧
      commandsIn more <:+ A.outstanding.flatMap commandsIn ++ commandsIn A.cur := by
  obtain ⟨hwhole, hcommands⟩ := whole_flatten h.slots
  unfold finalizeRewriteParent
  rw [hr]
  cases hreg : A.registered with
  | true => exact ⟨A.cur, h.cur, by simp [Aof.content], suffix_append ..⟩
  | false =>
    have ho : carriedOut order A.outstanding = A.outstanding := ho.resolve_left (by simp [hreg])
    refine ⟨A.outstanding.flatten ++ A.cur, hwhole.append h.cur, by simp [Aof.content, ho], ?_⟩
    rw [commandsIn_append hwhole, hcommands]

lemma roomFor_mono {db : Db} {cs ds : List Cmd} (hsub : cs ⊆ ds)
    (h : roomFor db E ds = true) : roomFor db E cs = true := by
  obtain ⟨hK, hD⟩ := roomFor_card h
  have hkeys : roomKeys db E cs ⊆ roomKeys db E ds := by
    intro x hx
    simp only [roomKeys, mem_toFinset, mem_append, mem_filter, mem_flatMap] at hx ⊢
    rcases hx with hx | ⟨⟨c, hc, hslot⟩, harray⟩
    · exact .inl hx
    · exact .inr ⟨⟨c, hsub hc, hslot⟩, harray⟩
  have hdocs : roomDocs db cs ⊆ roomDocs db ds := by
    intro d hd
    simp only [roomDocs, mem_toFinset, mem_append, mem_flatMap] at hd ⊢
    rcases hd with hd | ⟨c, hc, hdoc⟩
    · exact .inl hd
    · exact .inr ⟨c, hsub hc, hdoc⟩
  refine decide_eq_true ?_
  rw [← card_toFinset, ← card_toFinset]
  exact ⟨(Finset.card_le_card hkeys).trans hK, (Finset.card_le_card hdocs).trans hD⟩

/-! ### The invariant -/

/-- The files can be recovered from. -/
structure Recoverable (t t' : ℤ) (S : Server) : Prop where
  on : S.aof.On
  enabled : S.aof.disabled = false
  fits : S.db.Fits
  main : Follows t t' S.dump S.aof.content S.expired S.db
  /-- The file of a `BGSAVE` and the append-only file. -/
  saving : ∀ file, S.bgsave = some file → Follows t t' (some file) S.aof.content S.expiredSave S.db
  rewriting : ∀ r, S.aof.rewrite = some r → Rewriting t t' S.aof (r.1 ++ r.2) S.expiredRewrite S.db

namespace Recoverable

variable {t t' : ℤ} {S : Server} {argv : List Bytes}

lemma moves (h : Recoverable t t' S) (hA : Moves S.aof A) : Recoverable t t' { S with aof := A } where
  on := hA.on h.on
  enabled := hA.disabled.trans h.enabled
  fits := h.fits
  main := by
    rw [hA.content h.on]
    exact h.main
  saving file hfile := by
    rw [hA.content h.on]
    exact h.saving file hfile
  rewriting r hr := by
    have hrewriting := h.rewriting r (hA.rewrite ▸ hr)
    exact ⟨hrewriting.follows, hrewriting.settled, hrewriting.lasting, hA.pends h.on _ hrewriting.pends⟩

lemma table_of_followable
    (h : S.followable t t' (.command now argv raw) = true) (hE : E ∈ S.tables) :
    (decode argv).grants (held S.db E) = true ∧ roomFor S.db E [decode argv] = true := by
  simp only [followable, Bool.and_eq_true, all_eq_true] at h
  exact h.1.2 E hE

variable (h : Recoverable t t' S)
include h

lemma command (ht : 0 ≤ t) (htt : t ≤ t')
    (hi : S.followable t t' (.command now argv raw) = true) : Recoverable t t' (S.command now argv raw) := by
  have htable {E : Table Slot Bytes} := table_of_followable hi (E := E)
  simp only [followable, written, Bool.and_eq_true, decide_eq_true_eq] at hi
  obtain ⟨⟨⟨⟨⟨hwrote, hsome⟩, hparsed⟩, hlasts⟩, -⟩, hmode⟩ := hi
  obtain ⟨A, hA⟩ := Option.isSome_iff_exists.mp hsome
  obtain ⟨hon, hcontent⟩ := persistAppendPrepare_appends h.on hA
  obtain ⟨hwhole, hraw⟩ := whole_command hparsed
  have hmain : S.expired ∈ S.tables := mem_cons_self
  obtain ⟨hfollows, -, -, hfits⟩ :=
    h.main.command ht htt hwrote hwhole hraw hlasts (htable hmain).1 (htable hmain).2
  rw [command_eq hwrote hA]
  refine ⟨hon, (prepare_disabled hA).trans h.enabled, hfits, ?_, fun file hfile => ?_, fun r hr => ?_⟩
  · show Follows t t' S.dump A.content _ _
    rw [hcontent]
    exact hfollows
  · have hfile : S.bgsave = some file := hfile
    have hsave : S.expiredSave ∈ S.tables := by simp [tables, hfile]
    show Follows t t' (some file) A.content _ _
    rw [hcontent]
    exact ((h.saving file hfile).command ht htt hwrote hwhole hraw hlasts (htable hsave).1 (htable hsave).2).1
  · have hr : A.rewrite = some r := hr
    cases hold : S.aof.rewrite with
    | none =>
      rw [prepare_rewrite_none hA hold] at hr
      cases hr
    | some r₀ =>
      have hrewriting := h.rewriting r₀ hold
      have htab : S.expiredRewrite ∈ S.tables := by simp [tables, hold]
      rw [hold, Option.isSome_some, Bool.true_and, Bool.not_eq_true'] at hmode
      obtain ⟨hbuffer, hpends⟩ := prepare_rewrites h.on hA hwhole hraw hmode hrewriting.pends
      rw [hbuffer, hold] at hr
      obtain rfl := Option.some.inj hr
      rw [← append_assoc]
      exact hrewriting.command ht htt hwrote hwhole hraw hlasts (htable htab).1 (htable htab).2 hpends

lemma expire (now : ℤ) (x : Slot) : Recoverable t t' (S.expire now x) where
  on := h.on
  enabled := h.enabled
  fits := h.fits.tryExpire now x.1 x.2
  main := h.main.expire now x
  saving file hfile := (h.saving file hfile).expire now x
  rewriting r hr := (h.rewriting r hr).expire now x

lemma dumped (ht : 0 ≤ t) (htt : t ≤ t') (ht' : t' < 2 ^ 63) (ho : S.aof.inOrder order = true)
    (hdump : dumpable t t' now S.db = true) (hoff : S.offsetRight = true) {file : Bytes}
    (hfile : S.dumpFile now = some file) : Follows t t' (some file) (S.aof.drainPending order).content ∅ S.db := by
  simp only [offsetRight, decide_eq_true_eq] at hoff
  rw [dumpFile, hoff.1] at hfile
  rw [Aof.content_drainPending ho]
  exact h.main.dumped ht htt ht' h.fits hdump hoff.2 hfile

lemma save (ht : 0 ≤ t) (htt : t ≤ t') (ht' : t' < 2 ^ 63) (ho : S.aof.inOrder order = true)
    (hdump : dumpable t t' now S.db = true) (hoff : S.offsetRight = true) :
    Recoverable t t' (S.save now order) := by
  have hdrained := h.moves (moves_drain ho)
  unfold Server.save
  split
  · exact hdrained
  · rename_i file hfile
    exact ⟨hdrained.on, hdrained.enabled, h.fits, h.dumped ht htt ht' ho hdump hoff hfile, hdrained.saving,
      hdrained.rewriting⟩

lemma bgsaveStart (ht : 0 ≤ t) (htt : t ≤ t') (ht' : t' < 2 ^ 63) (ho : S.aof.inOrder order = true)
    (hi : S.followable t t' (.bgsave now order) = true) : Recoverable t t' (S.bgsaveStart now order) := by
  have hdrained := h.moves (moves_drain ho)
  unfold Server.bgsaveStart
  split
  · exact h
  · rename_i hnone
    simp only [followable, hnone, Option.isSome_none, Bool.false_or, Bool.and_eq_true] at hi
    exact ⟨hdrained.on, hdrained.enabled, h.fits, hdrained.main,
      fun file hfile => h.dumped ht htt ht' ho hi.1 hi.2 hfile, hdrained.rewriting⟩

lemma bgsaveDone : Recoverable t t' S.bgsaveDone := by
  unfold Server.bgsaveDone
  split
  · exact h
  · rename_i file hfile
    exact ⟨h.on, h.enabled, h.fits, h.saving file hfile, nofun, h.rewriting⟩

lemma rewriteStart (ht : 0 ≤ t) (htt : t ≤ t') (ho : S.aof.inOrder order = true)
    (hi : S.followable t t' (.rewrite now order) = true) : Recoverable t t' (S.rewriteStart now order) := by
  have hdrained := h.moves (moves_drain ho)
  unfold Server.rewriteStart
  split
  · rename_i snapshot hnone hsnapshot
    simp only [followable, hnone, Option.isSome_none, Bool.false_or] at hi
    have hstart : persistBgrewriteaofStart snapshot order S.aof =
        { S.aof.drainPending order with rewrite := some (snapshot, []) } := by
      rw [persistBgrewriteaofStart, hnone]
    rw [hstart]
    refine ⟨⟨hdrained.on.isOpen, hdrained.on.always, hdrained.on.slots⟩, hdrained.enabled, h.fits, hdrained.main,
      hdrained.saving, fun r hr => ?_⟩
    obtain rfl := Option.some.inj hr
    rw [append_nil]
    have hpends := Pends.drained S.aof order []
    exact .start (A := { S.aof.drainPending order with rewrite := some (snapshot, []) })
      { hpends with } ht htt h.fits hi hsnapshot
  · exact h

lemma rewriteDone (ht : 0 ≤ t) (ho : S.ordered (.rewriteDone order) = true)
    (hi : S.followable t t' (.rewriteDone order) = true) : Recoverable t t' (S.rewriteDone order) := by
  cases hr : S.aof.rewrite with
  | none =>
    rw [Server.rewriteDone, hr]
    exact h
  | some r =>
    simp only [followable, hr, Option.isNone_some, Bool.false_or, Bool.and_eq_true, decide_eq_true_eq] at hi
    obtain ⟨⟨hdump, hsave⟩, hroom⟩ := hi
    have hrewriting := h.rewriting r hr
    obtain ⟨more, hwhole, hcontent, hsuffix⟩ := finalize_content hr hrewriting.pends (by simpa [ordered] using ho)
    have hslots := whole_flatten hrewriting.pends.slots
    have hfollows : Follows t t' none (finalizeRewriteParent order S.aof).content S.expiredRewrite S.db := by
      rw [hcontent]
      refine hrewriting.finish ht hwhole (hsuffix.trans hrewriting.pends.last) ?_
      refine roomFor_mono ?_ hroom
      rw [commandsIn_append hslots.1, hslots.2]
      exact fun c hc => map_subset decode hsuffix.subset hc
    rw [Server.rewriteDone, hr]
    refine ⟨?_, ?_, h.fits, hfollows.beside hdump (h.main.blank hdump), fun file hfile => ?_, ?_⟩
    · rw [finalizeRewriteParent, hr]
      exact ⟨h.on.isOpen, h.on.always, fun _ => rfl⟩
    · rw [finalizeRewriteParent, hr]
      exact h.enabled
    · have hfile : S.bgsave = some file := hfile
      rw [hfile] at hsave
      exact hfollows.beside hsave ((h.saving file hfile).blank hsave)
    · intro r' hr'
      have hnone : (finalizeRewriteParent order S.aof).rewrite = none := by rw [finalizeRewriteParent, hr]
      rw [show (finalizeRewriteParent order S.aof).rewrite = some r' from hr'] at hnone
      cases hnone

lemma step (ht : 0 ≤ t) (htt : t ≤ t') (ht' : t' < 2 ^ 63) {i : ServerInput}
    (hi : S.followable t t' i = true) (ho : S.ordered i = true) : Recoverable t t' (S.step i) := by
  cases i with
  | command now argv raw => exact h.command ht htt hi
  | expire now x => exact h.expire now x
  | save now order =>
    simp only [followable, Bool.and_eq_true] at hi
    exact h.save ht htt ht' ho hi.1 hi.2
  | bgsave now order => exact h.bgsaveStart ht htt ht' ho hi
  | bgsaveDone => exact h.bgsaveDone
  | rewrite now order => exact h.rewriteStart ht htt ho hi
  | rewriteDone order => exact h.rewriteDone ht ho hi
  | flush => exact h.moves (moves_flush S.aof)
  | complete i =>
    obtain rfl : i = 0 := of_decide_eq_true ho
    exact h.moves (moves_complete S.aof)

end Recoverable

/-! ### Runs -/

/-- A server with the policy `always` and an append-only file that has nothing in it. -/
structure Fresh (A : Aof) : Prop where
  on : A.On
  enabled : A.disabled = false
  file : A.file = []
  outstanding : A.outstanding = []
  cur : A.cur = []
  writeOffset : A.writeOffset = 0
  rewrite : A.rewrite = none

lemma Recoverable.fresh (hA : Fresh A) (t t' : ℤ) : Recoverable t t' { aof := A } where
  on := hA.on
  enabled := hA.enabled
  fits := ⟨Nat.zero_le _, Nat.zero_le _⟩
  main := by
    have hcontent : A.content = [] := by rw [Aof.content, hA.file, hA.outstanding, hA.cur]; rfl
    rw [hcontent]
    refine ⟨le_refl _, whole_nil, fun _ _ => rfl, fun x v hx => (by cases hx), fun clock hclock => ?_⟩
    rw [overlay_empty]
    exact ⟨rfl, fun x d hx => (by cases hx)⟩
  saving := nofun
  rewriting r hr := by
    rw [hA.rewrite] at hr
    cases hr

lemma Recoverable.recovers {t t' : ℤ} {S : Server} (h : Recoverable t t' S) {clock : ℕ → ℤ}
    (hclock : ClockWithin t t' clock) (ho : S.aof.inOrder order = true) :
    (S.recover clock order).content = overlay S.db.content S.expired := by
  obtain ⟨n, hn⟩ := persistRecover_eq clock S.dump (S.aof.drainPending order).file
  obtain ⟨hcontent, hlasts⟩ := h.main.rebuilds clock hclock
  rw [Server.recover, h.enabled, hn, kvsActiveExpireCycle, Aof.file_drainPending ho, hlasts.expireAll (hclock n).2, hcontent]

/-- **Recovery**: in a run of which the files can follow every step, what is recovered has the contents that the
server held, and nothing else but keys that had expired. -/
theorem recovery_rebuilds {t t' : ℤ} (ht : 0 ≤ t) (htt : t ≤ t') (ht' : t' < 2 ^ 63) {A : Aof} (hA : Fresh A)
    {is : List ServerInput}
    (hrun : GuardedRun Server.step (fun S i => (S.followable t t' i && S.ordered i) = true) { aof := A } is)
    {clock : ℕ → ℤ} (hclock : ClockWithin t t' clock) {order : List ℕ}
    (horder : (is.foldl Server.step { aof := A }).aof.inOrder order = true) (c : Cell) :
    let S := is.foldl Server.step { aof := A }
    (S.recover clock order).content c = S.db.content c ∨ ∃ x ∈ S.expired, c = .kv x ∧ S.db.kv.lookup x = none := by
  intro S
  have hS : Recoverable t t' S := by
    refine GuardedRun.invariant (fun S i h hi => ?_) (.fresh hA t t') hrun
    obtain ⟨hi, ho⟩ := Bool.and_eq_true_iff.mp hi
    exact h.step ht htt ht' hi ho
  rw [hS.recovers hclock horder]
  cases c with
  | kv x =>
    cases hx : S.expired.lookup x with
    | none =>
      left
      rw [overlay, hx]
      exact Option.or_none
    | some v => exact .inr ⟨x, mem_of_lookup hx, rfl, hS.main.absent x v hx⟩
  | ttl x => exact .inl rfl
  | doc d => exact .inl rfl
  | field d f => exact .inl rfl

/-- A command as a client sends it. -/
def request (now : ℤ) (args : List String) : ServerInput :=
  .command now (args.map str) (respBuildCmd (args.map str))

/-- Commands between a rewrite and dumps. -/
def mixedRun : List ServerInput :=
  [request 5 ["SET", "a", "1"], .rewrite 6 [], request 6 ["HSET", "h", "x"], .flush, .complete 0,
    request 7 ["DOCSET", "d", "f", "v"], .rewriteDone [], .bgsave 7 [0], request 7 ["LOCK", "k", "t", "60000"],
    .bgsaveDone, request 8 ["DEL", "a"], .save 8 [], request 9 ["RSETEX", "c", "50", "3"], .expire 60010 (.array, str "k")]

theorem recovery_rebuilds_mixed :
    GuardedRun Server.step (fun S i => (S.followable 100000 100050 i && S.ordered i) = true) {} mixedRun ∧ ∀ c,
      let S := mixedRun.foldl Server.step {}
      (S.recover (fun i => 100000 + min (i : ℤ) 50) []).content c = S.db.content c ∨
        ∃ x ∈ S.expired, c = .kv x ∧ S.db.kv.lookup x = none := by
  have hrun : GuardedRun Server.step (fun S i => (S.followable 100000 100050 i && S.ordered i) = true) {} mixedRun := by
    decide +kernel
  have hfresh : Fresh {} := ⟨⟨rfl, rfl, nofun⟩, rfl, rfl, rfl, rfl, rfl, rfl⟩
  exact ⟨hrun, recovery_rebuilds (by decide) (by decide) (by decide) hfresh hrun (fun i => by omega)
    (by decide +kernel)⟩

/-- A rewrite after a dump. -/
def staleRun : List ServerInput :=
  [request 5 ["SET", "a", "1"], request 5 ["DEL", "a"], .save 5 [], .rewrite 5 [], .rewriteDone [],
    request 6 ["SET", "b", "2"]]

/-- **A rewrite after a dump loses what is written then**: the new file is shorter than the offset in the header of
the dump. -/
theorem rewrite_over_dump_loses_key :
    GuardedRun Server.step (fun S i => S.proper i = true) {} staleRun ∧
    let S := staleRun.foldl Server.step {}
    S.db.content (.kv (.array, str "b")) = some (.bytes (str "2")) ∧
      (S.recover (fun _ => 100) []).content (.kv (.array, str "b")) = none ∧ S.expired.keys = [] := by
  decide +kernel

end PocketKv.Persistence
