import PocketKv.Replication.Transfer

/-!
# What a `REPLDONE` stands for
-/

namespace PocketKv.Replication

open Library Resp Store Persistence List

variable {n : ℕ} {K : Link} {S : Slave} {f D : Bytes}

/-! ### The files hold what was counted -/

lemma length_overwrite (h : f.length = D.length) (o l : ℕ) :
    (Slave.overwrite f o ((D.drop o).take l)).length = D.length := by
  simp only [Slave.overwrite, length_append, length_take, length_drop, h]
  omega

lemma getElem?_overwrite (h : f.length = D.length) (o l i : ℕ) :
    (Slave.overwrite f o ((D.drop o).take l))[i]? = if o ≤ i ∧ i < o + l then D[i]? else f[i]? := by
  by_cases hi : i < D.length
  · by_cases ho : i < o
    · rw [if_neg (by omega), Slave.overwrite, append_assoc, getElem?_append_left (by simp; omega),
        getElem?_take_of_lt ho]
    · by_cases hl : i < o + l
      · rw [if_pos (by omega), Slave.overwrite, append_assoc,
          getElem?_append_right (by simp; omega), getElem?_append_left (by simp; omega),
          getElem?_take_of_lt (by simp; omega), getElem?_drop]
        congr 1
        simp
        omega
      · rw [if_neg (by omega), Slave.overwrite, getElem?_append_right (by simp; omega), getElem?_drop]
        congr 1
        simp
        omega
  · rw [getElem?_eq_none (by rw [length_overwrite h]; omega)]
    split
    · rw [getElem?_eq_none (by omega)]
    · rw [getElem?_eq_none (by omega)]

/-- The whole snapshot was loaded, and became the dump, with the header set for the replica's own append-only file.
-/
def Done.Complete (e : Done) : Prop :=
  e.file = some e.attempt ∧ e.dump = some (kvsDumpSetAofOffset e.attempt 0)

instance (e : Done) : Decidable e.Complete := inferInstanceAs (Decidable (_ ∧ _))

namespace Slave

/-- Byte `i` of the snapshot has reached the target, by an RDMA write or on the TCP link. -/
def Filled (S : Slave) (i : ℕ) : Prop :=
  (∃ w ∈ S.landed, w.1 ≤ i ∧ i < w.1 + w.2) ∨ i < S.loadedBytes

/-- The files are in order. -/
structure Ok (S : Slave) : Prop where
  /-- The `REPLDONE`s so far stood for whole snapshots. -/
  done : ∀ e ∈ S.repldone, e.Complete
  target : ∀ f, S.target = some f → (S.mapped = true ∧ S.finishDone = false) ∧ S.tmp = none ∧
    S.expected = S.attempt.length ∧ f.length = S.attempt.length ∧ ∀ i, S.Filled i → f[i]? = S.attempt[i]?
  tmp : ∀ t, S.tmp = some t → S.loading = true ∧ t = S.attempt.take S.loadedBytes
  loading : S.loading = true → S.finishDone = false ∧ S.targetBytes = S.attempt.length ∧
    S.loadedBytes < S.attempt.length
  leaked : S.leaked = true → S.finishDone = true

lemma Ok.finish (hdone : ∀ e ∈ S.repldone, e.Complete) (hfin : S.finishDone = false)
    (hfile : S.received = some S.attempt) (now : ℤ) :
    (S.finishFullsync now).Ok ∧ (S.finishFullsync now).attempt = S.attempt ∧
      (S.finishFullsync now).loading = false := by
  have heq : S.finishFullsync now = (S.close.adopt now S.attempt).sendRepldone (some S.attempt) := by
    unfold finishFullsync
    rw [hfin, hfile]
    rfl
  rw [heq]
  refine ⟨⟨fun e he => ?_, nofun, nofun, nofun, fun _ => rfl⟩, rfl, rfl⟩
  rcases mem_append.mp he with he | he
  · exact hdone e he
  · obtain rfl := mem_singleton.mp he
    exact ⟨rfl, rfl⟩

lemma Ok.target_eq (h : S.Ok) {f : Bytes} (hf : S.target = some f)
    (hall : ∀ i < S.attempt.length, S.Filled i) : f = S.attempt := by
  obtain ⟨-, -, -, hlen, hbytes⟩ := h.target f hf
  refine ext_getElem? fun i => ?_
  by_cases hi : i < S.attempt.length
  · exact hbytes i (hall i hi)
  · rw [getElem?_eq_none (by omega), getElem?_eq_none (by omega)]

lemma Ok.land (h : S.Ok) (offset len : ℕ) : (S.land offset len).Ok := by
  unfold Slave.land
  cases hf : S.target with
  | none => exact h
  | some f =>
    obtain ⟨hmap, htmp, hexp, hlen, hbytes⟩ := h.target f hf
    refine ⟨h.done, ?_, h.tmp, h.loading, ?_⟩
    · rintro g ⟨⟩
      refine ⟨hmap, htmp, hexp, length_overwrite hlen offset len, fun i hi => ?_⟩
      rw [getElem?_overwrite hlen]
      split
      · rfl
      · rename_i hout
        refine hbytes i ?_
        rcases hi with ⟨w, hw, hwi⟩ | hi
        · rcases mem_cons.mp hw with rfl | hw
          · exact absurd hwi hout
          · exact .inl ⟨w, hw, hwi⟩
        · exact .inr hi
    · intro hl
      simp [Slave.leaked] at hl

lemma Ok.poll (h : S.Ok) (now : ℤ)
    (hall : S.complete = true → S.target.isSome = true → S.connected = true → Link.AllLanded S) :
    (S.checkWriteComplete now).Ok := by
  unfold checkWriteComplete
  split
  · rename_i hready
    simp only [Bool.and_eq_true] at hready
    obtain ⟨⟨hcomplete, hmapped⟩, hconn⟩ := hready
    cases hf : S.target with
    | some f =>
      obtain rfl : f = S.attempt := h.target_eq hf fun i hi => .inl (hall hcomplete (by rw [hf]; rfl) hconn i hi)
      rw [← hf]
      exact (Ok.finish (S := { S with mapped := false, loadedBytes := S.expected }) h.done
        (h.target _ hf).1.2 (by simp [received, hf]) now).1
    | none =>
      have hfin : S.finishDone = true := h.leaked (by simp [Slave.leaked, hmapped, hf])
      have hidle : ¬S.loading = true := fun hl => by simp [(h.loading hl).1] at hfin
      have heq : finishFullsync now { S with mapped := false, loadedBytes := S.expected } =
          { S with mapped := false, loadedBytes := S.expected } := by
        unfold finishFullsync
        exact if_pos hfin
      rw [← hf, heq]
      exact ⟨h.done, fun f hf' => by simp [hf] at hf', fun t ht => absurd (h.tmp t ht).1 hidle,
        fun hl => absurd hl hidle, fun _ => hfin⟩
  · exact h

/-! ### Lines -/

/-- The transfer is the same. -/
structure SameTransfer (S S' : Slave) : Prop where
  loading : S'.loading = S.loading
  loadedBytes : S'.loadedBytes = S.loadedBytes
  attempt : S'.attempt = S.attempt

lemma SameTransfer.trans {S S' S'' : Slave} (h : SameTransfer S S') (h' : SameTransfer S' S'') :
    SameTransfer S S'' :=
  ⟨h'.loading.trans h.loading, h'.loadedBytes.trans h.loadedBytes, h'.attempt.trans h.attempt⟩

lemma Ok.targetCleanup (h : S.Ok) : S.targetCleanup.Ok :=
  ⟨h.done, nofun, h.tmp, h.loading, nofun⟩

lemma Ok.abortTarget (h : S.Ok) (tid : ℕ) :
    (S.abortTarget tid).Ok ∧ SameTransfer S (S.abortTarget tid) ∧
      (S.complete = false → (S.abortTarget tid).complete = false) := by
  have hrec : ({ S with abortedTid := tid } : Slave).Ok := { h with }
  unfold Slave.abortTarget
  split
  · exact ⟨h, ⟨rfl, rfl, rfl⟩, id⟩
  · dsimp only
    split
    · exact ⟨hrec, ⟨rfl, rfl, rfl⟩, id⟩
    · exact ⟨hrec.targetCleanup, ⟨rfl, rfl, rfl⟩, fun _ => rfl⟩

lemma Ok.finalizeSignal (h : S.Ok) (tid : ℕ) :
    (S.finalizeSignal tid).Ok ∧ SameTransfer S (S.finalizeSignal tid) ∧
      (S.finalizeSignal tid).received = S.received := by
  unfold Slave.finalizeSignal
  split
  · exact ⟨h, ⟨rfl, rfl, rfl⟩, rfl⟩
  · split
    · exact ⟨{ h with }, ⟨rfl, rfl, rfl⟩, rfl⟩
    · exact ⟨h, ⟨rfl, rfl, rfl⟩, rfl⟩

lemma Ok.startFullsync (h : S.Ok) {a : Attempt} (ha : S.offered = a.snapshot) (hclean : Link.Clean a S) :
    let T := S.startFullsync a.snapshot.length a.tid
    T.Ok ∧ T.loading = true ∧ T.loadedBytes = 0 ∧ T.attempt = a.snapshot ∧ T.complete = false ∧
      T.received.isSome = true := by
  have hlen : a.snapshot.length = S.offered.length := congrArg List.length ha.symm
  have hpos : 0 < a.snapshot.length := length_pos_of_ne_nil a.nonempty
  -- without a target the temporary file is used, which is empty then
  have hempty (hno : ¬(S.accepts a.tid a.snapshot.length = true ∧ S.ready = true)) : S.tmp.getD [] = [] :=
    hclean.2.resolve_right hno
  unfold Slave.startFullsync
  rw [if_pos hpos, Slave.prepareTarget]
  dsimp only
  split
  · rename_i hacc
    split
    · refine ⟨⟨h.done, ?_, nofun, fun _ => ⟨rfl, hlen, hpos.trans_eq hlen⟩, nofun⟩, rfl, rfl, ha, rfl, rfl⟩
      rintro f ⟨⟩
      refine ⟨⟨rfl, rfl⟩, rfl, hlen, length_replicate.trans hlen, fun i hi => ?_⟩
      rcases hi with ⟨w, hw, -⟩ | hi
      · cases hw
      · cases hi
    · rename_i hready
      refine ⟨⟨h.done, nofun, ?_, fun _ => ⟨rfl, hlen, hpos.trans_eq hlen⟩, nofun⟩, rfl, rfl, ha, rfl, rfl⟩
      rintro t ⟨⟩
      exact ⟨rfl, hempty fun hno => hready hno.2⟩
  · rename_i hacc
    refine ⟨⟨h.done, nofun, ?_, fun _ => ⟨rfl, hlen, hpos.trans_eq hlen⟩, nofun⟩, rfl, rfl, ha, rfl, rfl⟩
    rintro t ⟨⟩
    exact ⟨rfl, hempty fun hno => hacc hno.1⟩

/-! ### Snapshot bytes -/

/-- The replica with the next `n` bytes of the snapshot stored and counted. -/
def stored (n : ℕ) (S : Slave) : Slave :=
  { S.store ((S.attempt.drop S.loadedBytes).take n) with loadedBytes := S.loadedBytes + n }

lemma Ok.stored_eq (h : S.Ok) (hfile : S.received.isSome = true)
    (hn : S.loadedBytes + n ≤ S.attempt.length) :
    (∃ f, S.target = some f ∧ S.stored n = { S with
      target := some (overwrite f S.loadedBytes ((S.attempt.drop S.loadedBytes).take n))
      loadedBytes := S.loadedBytes + n }) ∨
    S.target = none ∧ S.loading = true ∧ S.stored n = { S with
      tmp := some (S.attempt.take (S.loadedBytes + n)), loadedBytes := S.loadedBytes + n } := by
  have hlen : ((S.attempt.drop S.loadedBytes).take n).length = n := by
    rw [length_take, length_drop]
    omega
  unfold stored Slave.store targetWrite
  cases hf : S.target with
  | some f =>
    obtain ⟨⟨hmap, -⟩, -, hexp, -, -⟩ := h.target f hf
    have hroom : ¬(!S.mapped || decide (S.expected < S.loadedBytes +
        ((S.attempt.drop S.loadedBytes).take n).length)) = true := by
      rw [hlen, hmap, hexp, Bool.not_true, Bool.false_or, decide_eq_true_eq]
      omega
    left
    refine ⟨f, rfl, ?_⟩
    dsimp only
    rw [if_neg hroom]
  | none =>
    obtain ⟨t, ht⟩ : ∃ t, S.tmp = some t := by
      rw [received, hf] at hfile
      exact Option.isSome_iff_exists.mp hfile
    obtain ⟨hl, rfl⟩ := h.tmp t ht
    right
    refine ⟨rfl, hl, ?_⟩
    rw [ht, Option.map_some, ← take_add]

lemma Ok.overwrite_filled (h : S.Ok) {f : Bytes} (hf : S.target = some f) (n i : ℕ)
    (hi : (∃ w ∈ S.landed, w.1 ≤ i ∧ i < w.1 + w.2) ∨ i < S.loadedBytes + n) :
    (overwrite f S.loadedBytes ((S.attempt.drop S.loadedBytes).take n))[i]? = S.attempt[i]? := by
  obtain ⟨-, -, -, hlen, hbytes⟩ := h.target f hf
  rw [getElem?_overwrite hlen]
  split
  · rfl
  · rename_i hout
    exact hbytes i (hi.imp_right fun hi => by omega)

lemma Ok.stored (h : S.Ok) (hl : S.loading = true) (hfile : S.received.isSome = true)
    (hn : S.loadedBytes + n < S.attempt.length) :
    (S.stored n).Ok ∧ (S.stored n).loading = true ∧ (S.stored n).loadedBytes = S.loadedBytes + n ∧
      (S.stored n).attempt = S.attempt ∧ (S.stored n).targetBytes = S.attempt.length ∧
      (S.stored n).complete = S.complete := by
  obtain ⟨hfin, hbytes, -⟩ := h.loading hl
  rcases h.stored_eq hfile hn.le with ⟨f, hf, heq⟩ | ⟨hf, -, heq⟩
  · obtain ⟨hmap, htmp, hexp, hlen, -⟩ := h.target f hf
    rw [heq]
    refine ⟨⟨h.done, ?_, fun t ht => ?_, fun _ => ⟨hfin, hbytes, hn⟩, fun hleak => ?_⟩, hl, rfl, rfl, hbytes, rfl⟩
    · rintro g ⟨⟩
      exact ⟨hmap, htmp, hexp, length_overwrite hlen _ _, fun i hi => h.overwrite_filled hf n i hi⟩
    · simp [htmp] at ht
    · simp [Slave.leaked] at hleak
  · rw [heq]
    refine ⟨⟨h.done, fun f hf' => ?_, ?_, fun _ => ⟨hfin, hbytes, hn⟩, fun hleak => ?_⟩, hl, rfl, rfl, hbytes, rfl⟩
    · simp [hf] at hf'
    · rintro t ⟨⟩
      exact ⟨hl, rfl⟩
    · exact h.leaked (by simpa [Slave.leaked] using hleak)

lemma Ok.stored_all (h : S.Ok) (hfile : S.received.isSome = true)
    (hn : S.loadedBytes + n = S.attempt.length) :
    (S.stored n).received = some S.attempt ∧ (S.stored n).attempt = S.attempt ∧
      (S.stored n).repldone = S.repldone ∧ (S.stored n).finishDone = S.finishDone ∧
      (S.stored n).targetBytes = S.targetBytes ∧ (S.stored n).loadedBytes = S.attempt.length := by
  rcases h.stored_eq hfile hn.le with ⟨f, hf, heq⟩ | ⟨hf, -, heq⟩
  · obtain ⟨-, -, -, hlen, -⟩ := h.target f hf
    have hall : overwrite f S.loadedBytes ((S.attempt.drop S.loadedBytes).take n) = S.attempt := by
      refine ext_getElem? fun i => ?_
      by_cases hi : i < S.attempt.length
      · exact h.overwrite_filled hf n i (.inr (by omega))
      · rw [getElem?_eq_none (by rw [length_overwrite hlen]; omega), getElem?_eq_none (by omega)]
    rw [heq, hall]
    exact ⟨rfl, rfl, rfl, rfl, rfl, hn⟩
  · rw [heq, hn, take_length]
    exact ⟨by simp [received, hf], rfl, rfl, rfl, rfl, rfl⟩

lemma Ok.intercept (h : S.Ok) (hl : S.loading = true) (hfile : S.received.isSome = true)
    (hn : S.loadedBytes + n ≤ S.attempt.length) (now : ℤ) :
    ∃ T, S.intercept now ((S.attempt.drop S.loadedBytes).take n) = (T, some n) ∧ T.Ok ∧ T.attempt = S.attempt ∧
      (S.loadedBytes + n = S.attempt.length ∨
        T.loading = true ∧ T.loadedBytes = S.loadedBytes + n ∧ T.complete = S.complete) := by
  obtain ⟨hfin, hbytes, hlt⟩ := h.loading hl
  have hlen : min ((S.attempt.drop S.loadedBytes).take n).length (S.targetBytes - S.loadedBytes) = n := by
    rw [length_take, length_drop, hbytes]
    omega
  have hdef : S.intercept now ((S.attempt.drop S.loadedBytes).take n) =
      (if 0 < (S.stored n).targetBytes ∧ (S.stored n).targetBytes ≤ (S.stored n).loadedBytes then
        (S.stored n).finishFullsync now else S.stored n, some n) := by
    unfold Slave.intercept
    rw [hlen]
    dsimp only
    rw [take_take, min_self]
    rfl
  refine ⟨_, hdef, ?_⟩
  rcases hn.lt_or_eq with hmore | hall
  · obtain ⟨hok, hl', hld, hat, htb, hco⟩ := h.stored hl hfile hmore
    rw [if_neg (by omega)]
    exact ⟨hok, hat, .inr ⟨hl', hld, hco⟩⟩
  · obtain ⟨hrec, hat, hdone, hfd, htb, hld⟩ := h.stored_all hfile hall
    have hfinish := Ok.finish (S := S.stored n) (by rw [hdone]; exact h.done) (hfd.trans hfin)
      (by rw [hat]; exact hrec) now
    rw [if_pos (by omega)]
    exact ⟨hfinish.1, hfinish.2.1.trans hat, .inl hall⟩

end Slave

/-! ### Runs -/

namespace Link

/-- The snapshot bytes that were not counted are still to come, after at most a `+FULLSYNCABORT`. -/
structure Pending (S : Slave) (lines : List Line) (data : Bytes) : Prop where
  loading : S.loading = true
  complete : S.complete = false
  /-- There is no `+FULLSYNCEND`. -/
  aborts : ∀ l ∈ lines, l.isAbort = true
  data : data = S.attempt.drop S.loadedBytes

/-- The files are in order, no line is cut, and to come is all of an attempt or, after its `+FULLRESYNC` line, the
snapshot bytes that were not counted. -/
structure Ok (K : Link) : Prop where
  slave : K.slave.Ok
  left : K.left = []
  skip : K.skip = 0
  todo : (∃ a course, K.slave.offered = a.snapshot ∧ K.lines = Course.lines a course ∧
      K.data = Course.data a course) ∨
    (∀ l ∈ K.lines, l.isHeader = false) ∧ (K.data = [] ∨ Pending K.slave K.lines K.data)

lemma act_lines (now : ℤ) {ls : List Line} (hls : ∀ l ∈ ls, l.isHeader = false) (h : S.Ok) :
    (ls.foldl (Slave.act now) S).Ok ∧ Slave.SameTransfer S (ls.foldl (Slave.act now) S) ∧
      ((∀ l ∈ ls, l.isAbort = false) → (ls.foldl (Slave.act now) S).received = S.received) ∧
      ((∀ l ∈ ls, l.isAbort = true) → S.complete = false → (ls.foldl (Slave.act now) S).complete = false) := by
  induction ls generalizing S with
  | nil => exact ⟨h, ⟨rfl, rfl, rfl⟩, fun _ => rfl, fun _ hc => hc⟩
  | cons l ls ih =>
    have hrest : ∀ l ∈ ls, l.isHeader = false := fun l' hl' => hls l' (by simp [hl'])
    cases l with
    | header a => exact absurd (hls (.header a) (by simp)) (by simp [Line.isHeader])
    | fin a =>
      obtain ⟨hok, hsame, hrec⟩ := h.finalizeSignal a.tid
      obtain ⟨hok', hsame', hrec', -⟩ := ih hrest hok
      exact ⟨hok', hsame.trans hsame', fun hno => (hrec' fun l hl => hno l (by simp [hl])).trans hrec,
        fun hab => absurd (hab (.fin a) (by simp)) (by simp [Line.isAbort])⟩
    | abort a =>
      obtain ⟨hok, hsame, hcomplete⟩ := h.abortTarget a.tid
      obtain ⟨hok', hsame', -, hcomplete'⟩ := ih hrest hok
      exact ⟨hok', hsame.trans hsame', fun hno => absurd (hno (.abort a) (by simp)) (by simp [Line.isAbort]),
        fun hab hc => hcomplete' (fun l hl => hab l (by simp [hl])) (hcomplete hc)⟩

lemma act_header (now : ℤ) (S : Slave) (a : Attempt) :
    S.act now (.header a) = S.startFullsync a.snapshot.length a.tid := rfl

lemma course_tail (a : Attempt) (course : Course) :
    ∃ ls, course.lines a = .header a :: ls ∧ (∀ l ∈ ls, l.isHeader = false) ∧
      (course.data a = [] ∨ course.data a = a.snapshot ∧ ∀ l ∈ ls, l.isAbort = true) := by
  cases course
  · exact ⟨[.fin a], rfl, by simp [Line.isHeader], .inl rfl⟩
  · exact ⟨[], rfl, by simp, .inr ⟨rfl, by simp⟩⟩
  · exact ⟨[.abort a], rfl, by simp [Line.isHeader], .inr ⟨rfl, by simp [Line.isAbort]⟩⟩

lemma Ok.lines (h : K.Ok) {now : ℤ} (hsafe : K.Safe (.recv now n))
    (hlines : K.lines = K.taken n ++ K.rest n) :
    let S := (K.taken n).foldl (Slave.act now) K.slave
    S.Ok ∧ ((K.taken n = [] ∧ S = K.slave ∧ (K.rest n).isEmpty = false) ∨
      (∀ l ∈ K.rest n, l.isHeader = false) ∧ (K.data = [] ∨ Pending S (K.rest n) K.data) ∧
      (K.piece n ≠ [] → S.received.isSome = true)) := by
  obtain ⟨-, hadmit, hpiece⟩ := hsafe
  rcases h.todo with ⟨a, course, hoff, hcourse, hdata⟩ | ⟨hno, hdata⟩
  · obtain ⟨ls, hls, hnoh, htail⟩ := course_tail a course
    rw [hls] at hcourse
    cases htaken : K.taken n with
    | nil =>
      refine ⟨h.slave, .inl ⟨rfl, rfl, ?_⟩⟩
      rw [htaken, nil_append] at hlines
      rw [← hlines, hcourse]
      rfl
    | cons l ts =>
      rw [htaken, hcourse, cons_append, List.cons.injEq] at hlines
      obtain ⟨rfl, rfl⟩ := hlines
      have hclean : Clean a K.slave := hadmit (.header a) (by simp [htaken])
      obtain ⟨hok, hl, hld, hat, hco, hrec⟩ := h.slave.startFullsync hoff hclean
      have hts : ∀ l ∈ ts, l.isHeader = false := fun l hl => hnoh l (mem_append_left _ hl)
      obtain ⟨hok', hsame, hrec', hco'⟩ := act_lines now hts hok
      rw [List.foldl_cons, act_header]
      refine ⟨hok', .inr ⟨fun l hl => hnoh l (mem_append_right _ hl), ?_, fun hne => ?_⟩⟩
      · rcases htail with hnone | ⟨hall, hab⟩
        · exact .inl (hdata.trans hnone)
        · refine .inr ⟨hsame.loading.trans hl, hco' (fun l hl => hab l (mem_append_left _ hl)) hco,
            fun l hl => hab l (mem_append_right _ hl), ?_⟩
          rw [hdata, hall, hsame.attempt, hsame.loadedBytes, hat, hld, drop_zero]
      · rw [hrec' fun l hl => (hpiece hne).2.1 l (by simp [htaken, hl])]
        exact hrec
  · have hmem : ∀ l ∈ K.taken n, l ∈ K.lines := fun l hl => by
      rw [hlines]
      exact mem_append_left _ hl
    have hmem' : ∀ l ∈ K.rest n, l ∈ K.lines := fun l hl => by
      rw [hlines]
      exact mem_append_right _ hl
    obtain ⟨hok, hsame, hrec, hco⟩ := act_lines now (fun l hl => hno l (hmem l hl)) h.slave
    refine ⟨hok, .inr ⟨fun l hl => hno l (hmem' l hl), hdata.imp_right fun hp => ?_, fun hne => ?_⟩⟩
    · refine ⟨hsame.loading.trans hp.loading, hco (fun l hl => hp.aborts l (hmem l hl)) hp.complete,
        fun l hl => hp.aborts l (hmem' l hl), ?_⟩
      rw [hsame.attempt, hsame.loadedBytes]
      exact hp.data
    · obtain ⟨-, hab, hfile⟩ := hpiece hne
      rw [hrec hab]
      refine hfile.resolve_left ?_
      rintro ⟨l, hl, hh⟩
      exact absurd (hno l (hmem l hl)) (by simp [hh])

lemma recv_piece (h : S.Ok) {lines : List Line} {data : Bytes} (hp : Pending S lines data)
    (hfile : S.received.isSome = true) (now : ℤ) (fuel : ℕ) (hpos : 0 < n) (hn : n ≤ data.length)
    (hctl : fullsyncControlLine (data.take n) = false) :
    ∃ T : Slave, outcome (parseLoop (slaveHooks now) slaveLink (fuel + 1) S (data.take n)) = (T, []) ∧
      T.Ok ∧ (data.drop n = [] ∨ Pending T lines (data.drop n)) := by
  obtain rfl := hp.data
  rw [length_drop] at hn
  obtain ⟨T, hint, hok, hat, hrest⟩ := h.intercept hp.loading hfile (n := n) (by omega) now
  have hlen : ((S.attempt.drop S.loadedBytes).take n).length = n := by
    rw [length_take, length_drop]
    omega
  refine ⟨T, ?_, hok, ?_⟩
  · generalize (S.attempt.drop S.loadedBytes).take n = xs at hctl hint hlen
    cases xs with
    | nil => simp at hlen; omega
    | cons x xs =>
      have hint : (slaveHooks now).intercept S (x :: xs) = (T, some n) := hint
      have hcond : (slaveLink.fromReplication && (slaveHooks now).loading S &&
          !fullsyncControlLine (x :: xs)) = true := by
        rw [hctl]
        exact congrArg (true && · && !false) hp.loading
      rw [parseLoop, if_pos hcond, hint]
      dsimp only
      rw [if_neg (by simp [hlen]), ← hlen, drop_length]
      rfl
  · rw [drop_drop]
    rcases hrest with hall | ⟨hl', hld, hco⟩
    · exact .inl (drop_eq_nil_of_le hall.ge)
    · exact .inr ⟨hl', hco.trans hp.complete, hp.aborts, by rw [hat, hld]⟩

lemma Ok.recv (h : K.Ok) {now : ℤ} (hsafe : K.Safe (.recv now n)) : (K.recv now n).Ok := by
  obtain ⟨hchunk, hlines⟩ := chunk_eq h.skip hsafe.1
  obtain ⟨hok, hcases⟩ := h.lines hsafe hlines
  obtain ⟨fuel, hparse⟩ := parseRespStream_lines now (K.taken n) K.slave (K.piece n)
  rw [← hchunk] at hparse
  generalize (K.taken n).foldl (Slave.act now) K.slave = S at hok hcases hparse
  have hskip : (if (K.rest n).isEmpty then 0 else K.beyond n) = 0 := by
    split
    · rfl
    · exact hsafe.1.resolve_left ‹_›
  have hbuf : K.left ++ K.chunk n = K.chunk n := by rw [h.left, nil_append]
  -- what is left to show, of the state `T` that the parser ends in
  have build {T : Slave}
      (hT : outcome (parseRespStream (slaveHooks now) slaveLink K.slave (K.chunk n)) = (T, [])) (hTok : T.Ok)
      (htodo : (∃ a course, T.offered = a.snapshot ∧ K.rest n = Course.lines a course ∧
          K.data.drop (K.piece n).length = Course.data a course) ∨
        (∀ l ∈ K.rest n, l.isHeader = false) ∧ (K.data.drop (K.piece n).length = [] ∨
          Pending T (K.rest n) (K.data.drop (K.piece n).length))) : (K.recv now n).Ok := by
    obtain ⟨rfl, hleft⟩ := Prod.mk.inj hT
    rw [← hbuf] at hTok hleft htodo
    exact ⟨hTok, hleft, hskip, htodo⟩
  by_cases hpiece : K.piece n = []
  · have hT : outcome (parseRespStream (slaveHooks now) slaveLink K.slave (K.chunk n)) = (S, []) := by
      rw [hparse, hpiece]
      rfl
    refine build hT hok ?_
    rw [hpiece, length_nil, drop_zero]
    rcases hcases with ⟨hnil, rfl, -⟩ | ⟨hno, hdata, -⟩
    · rw [hnil, nil_append] at hlines
      rw [← hlines]
      exact h.todo
    · exact .inr ⟨hno, hdata⟩
  · have hrest : (K.rest n).isEmpty = true := by
      by_contra hne
      exact hpiece (if_neg hne)
    have hpiece' : K.piece n = K.data.take (K.piece n).length := by
      rw [piece, if_pos hrest, length_take, ← take_eq_take_min]
    obtain ⟨hctl, -, -⟩ := hsafe.2.2 hpiece
    rcases hcases with ⟨-, -, hne⟩ | ⟨hno, hdata, hrec⟩
    · simp [hrest] at hne
    · rcases hdata with hnil | hp
      · simp [piece, hnil] at hpiece
      · have hle : (K.piece n).length ≤ K.data.length := by
          rw [piece, if_pos hrest, length_take]
          omega
        rw [hpiece'] at hctl hparse
        obtain ⟨T, hT, hTok, hdata⟩ := recv_piece hok hp (hrec hpiece) now fuel
          (length_pos_of_ne_nil hpiece) hle hctl
        exact build (hparse.trans hT) hTok (.inr ⟨hno, hdata⟩)

lemma Ok.withSlave (h : K.Ok) (hok : S.Ok) (hoff : S.offered = K.slave.offered)
    (hp : ∀ data, Pending K.slave K.lines data → Pending S K.lines data) :
    ({ K with slave := S } : Link).Ok := by
  refine ⟨hok, h.left, h.skip, ?_⟩
  rcases h.todo with ⟨a, course, ha, hlines, hdata⟩ | ⟨hno, hdata⟩
  · exact .inl ⟨a, course, hoff.trans ha, hlines, hdata⟩
  · exact .inr ⟨hno, hdata.imp_right (hp _)⟩

lemma offered_poll (now : ℤ) (S : Slave) : (S.checkWriteComplete now).offered = S.offered := by
  unfold Slave.checkWriteComplete Slave.finishFullsync
  split
  · split
    · rfl
    · split <;> rfl
  · rfl

lemma Ok.step (h : K.Ok) {i : Input} (hsafe : K.Safe i) : (K.step i).Ok := by
  cases i with
  | attempt a course =>
    exact ⟨⟨h.slave.done, h.slave.target, h.slave.tmp, h.slave.loading, h.slave.leaked⟩, rfl, rfl,
      .inl ⟨a, course, rfl, rfl, rfl⟩⟩
  | recv now n => exact h.recv hsafe
  | land offset len =>
    refine h.withSlave (h.slave.land offset len) ?_ fun data hp => ?_
    · unfold Slave.land
      split <;> rfl
    · unfold Slave.land
      split
      · exact hp
      · exact { hp with }
  | poll now =>
    refine h.withSlave (h.slave.poll now hsafe) (offered_poll now K.slave) fun data hp => ?_
    unfold Slave.checkWriteComplete
    rw [hp.complete]
    exact hp
  | env ready connected =>
    exact h.withSlave ⟨h.slave.done, h.slave.target, h.slave.tmp, h.slave.loading, h.slave.leaked⟩ rfl
      fun data hp => { hp with }

end Link

/-- A replica before its first full sync. -/
def idleSlave (db : Db) (dump : Option Bytes) (aof : Aof) : Slave := { db := db, dump := dump, aof := aof }

/-- An attempt with a snapshot of eight bytes. -/
def sampleAttempt (tid : ℕ) (h : tid < 2 ^ 64) : Attempt where
  replid := str "m1"
  base := 7
  snapshot := leBytes 8 7
  tid := tid
  word := by decide
  base_lt := by decide
  tid_lt := h
  nonempty := by decide
  size_lt := by decide

end PocketKv.Replication
