import PocketKv.Library.Run
import PocketKv.Replication.FullSync

/-!
# The transfer of a snapshot
-/

namespace PocketKv.Replication

open Library Resp Store Persistence List

/-! ### The master -/

/-- An attempt of `queue_snapshot`. -/
structure Attempt where
  /-- `repl_master_id`. -/
  replid : Bytes
  /-- `snap_base_offset`. -/
  base : ℕ
  /-- What `kvs_dump_to_fd` has written. -/
  snapshot : Bytes
  /-- `transfer_id`. -/
  tid : ℕ
  word : Word replid
  /-- `snap_base_offset` has 64 bits. -/
  base_lt : base < 2 ^ 64
  /-- `transfer_id` has 64 bits. -/
  tid_lt : tid < 2 ^ 64
  nonempty : snapshot ≠ []
  size_lt : snapshot.length < 2 ^ 64

/-- A line of the master. -/
inductive Line where
  /-- `+FULLRESYNC`. -/
  | header (a : Attempt)
  /-- `+FULLSYNCEND`, from `repl_fullsync_send_end`. -/
  | fin (a : Attempt)
  /-- `+FULLSYNCABORT`, from `repl_fullsync_abort_master`. -/
  | abort (a : Attempt)

namespace Line

/-- Its words. -/
def words : Line → List Bytes
  | header a =>
    [str "FULLRESYNC", a.replid, decimal a.base, decimal a.snapshot.length, decimal a.tid, str "rdma-write"]
  | fin a => [str "FULLSYNCEND", decimal a.tid]
  | abort a => [str "FULLSYNCABORT", decimal a.tid]

/-- Its bytes. -/
def bytes (l : Line) : Bytes := plusLine l.words

/-- What the replica reads. -/
def control : Line → Control
  | header a => .fullResync a.replid a.base a.snapshot.length (some a.tid)
  | fin a => .fullSyncEnd a.tid
  | abort a => .fullSyncAbort a.tid

/-- A `+FULLRESYNC` line. -/
def isHeader : Line → Bool
  | header _ => true
  | _ => false

/-- A `+FULLSYNCABORT` line. -/
def isAbort : Line → Bool
  | abort _ => true
  | _ => false

end Line

/-- The ways of `queue_snapshot` after the header. -/
inductive Course where
  | written
  /-- There is no target, or its announcement came too late: `repl_fullsync_sendfile`. -/
  | sent
  | aborted

/-- The lines that are sent. -/
def Course.lines (a : Attempt) : Course → List Line
  | written => [.header a, .fin a]
  | sent => [.header a]
  | aborted => [.header a, .abort a]

/-- The snapshot bytes that are sent on the link. -/
def Course.data (a : Attempt) : Course → Bytes
  | written => []
  | _ => a.snapshot

/-! ### The link -/

/-- The link from the master to a replica. -/
structure Link where
  slave : Slave
  /-- `buf`: what the parser has left. -/
  left : Bytes := []
  lines : List Line := []
  skip : ℕ := 0
  data : Bytes := []

/-- What happens. -/
inductive Input where
  | attempt (a : Attempt) (course : Course)
  /-- The replica receives up to `n` bytes. -/
  | recv (now : ℤ) (n : ℕ)
  | land (offset len : ℕ)
  /-- The replica's loop comes to `repl_rdma_slave_check_write_complete`. -/
  | poll (now : ℤ)
  | env (ready connected : Bool)

/-- The lines that are complete within `n` bytes. -/
def takenLines : ℕ → List Line → List Line
  | _, [] => []
  | n, l :: ls => if l.bytes.length ≤ n then l :: takenLines (n - l.bytes.length) ls else []

namespace Link

/-- The lines that become complete with `n` more bytes. -/
def taken (n : ℕ) (K : Link) : List Line := takenLines (K.skip + n) K.lines

/-- The lines that are left then. -/
def rest (n : ℕ) (K : Link) : List Line := K.lines.drop (K.taken n).length

/-- The bytes past the complete lines. -/
def beyond (n : ℕ) (K : Link) : ℕ := K.skip + n - ((K.taken n).flatMap Line.bytes).length

/-- The snapshot bytes among the next `n` bytes. -/
def piece (n : ℕ) (K : Link) : Bytes := if (K.rest n).isEmpty then K.data.take (K.beyond n) else []

/-- The next `n` bytes. -/
def chunk (n : ℕ) (K : Link) : Bytes := ((K.lines.flatMap Line.bytes ++ K.data).drop K.skip).take n

/-- What the replica does with the next `n` bytes. -/
def recv (now : ℤ) (n : ℕ) (K : Link) : Link :=
  let r := parseRespStream (slaveHooks now) slaveLink K.slave (K.left ++ K.chunk n)
  { slave := r.1
    left := r.2.2
    lines := K.rest n
    skip := if (K.rest n).isEmpty then 0 else K.beyond n
    data := K.data.drop (K.piece n).length }

/-- A step. -/
def step (K : Link) : Input → Link
  | .attempt a course =>
    { slave := { K.slave with offered := a.snapshot }
      lines := course.lines a
      data := course.data a }
  | .recv now n => K.recv now n
  | .land offset len => { K with slave := K.slave.land offset len }
  | .poll now => { K with slave := K.slave.checkWriteComplete now }
  | .env ready connected => { K with slave := { K.slave with ready := ready, connected := connected } }

/-! ### The condition -/

/-- A `+FULLRESYNC` line finds the temporary file empty or sets up a target, and no mapping is left by an earlier
attempt. -/
def Clean (a : Attempt) (S : Slave) : Prop :=
  S.leaked = false ∧ (S.tmp.getD [] = [] ∨ S.accepts a.tid a.snapshot.length = true ∧ S.ready = true)

/-- The replica can take the line. -/
def Admits (S : Slave) : Line → Prop
  | .header a => Clean a S
  | .abort _ => S.leaked = false
  | .fin _ => True

/-- Every byte of the snapshot is in the target. -/
def AllLanded (S : Slave) : Prop := ∀ i < S.attempt.length, ∃ w ∈ S.landed, w.1 ≤ i ∧ i < w.1 + w.2

/-- A step that no condition forbids. -/
def Safe (K : Link) : Input → Prop
  | .recv _ n =>
    -- no line is cut, and the replica can take the lines
    ((K.rest n).isEmpty = true ∨ K.beyond n = 0) ∧
    (∀ l ∈ K.taken n, Admits K.slave l) ∧
    -- snapshot bytes do not look like a control line, and there is a file for them
    (K.piece n ≠ [] →
      fullsyncControlLine (K.piece n) = false ∧
      (∀ l ∈ K.taken n, l.isAbort = false) ∧
      ((∃ l ∈ K.taken n, l.isHeader = true) ∨ K.slave.received.isSome = true))
  | .poll _ =>
    K.slave.complete = true → K.slave.target.isSome = true → K.slave.connected = true → AllLanded K.slave
  | _ => True

instance (S : Slave) : DecidablePred (Admits S)
  | .header _ => inferInstanceAs (Decidable (_ ∧ _))
  | .abort _ => inferInstanceAs (Decidable (_ = _))
  | .fin _ => inferInstanceAs (Decidable True)

instance (S : Slave) : Decidable (AllLanded S) := inferInstanceAs (Decidable (∀ i < S.attempt.length, _))

instance (K : Link) : DecidablePred K.Safe
  | .recv .. => inferInstanceAs (Decidable (_ ∧ _ ∧ _))
  | .poll _ => inferInstanceAs (Decidable (_ → _ → _ → _))
  | .attempt .. => inferInstanceAs (Decidable True)
  | .land .. => inferInstanceAs (Decidable True)
  | .env .. => inferInstanceAs (Decidable True)

end Link

/-! ### What the replica reads -/

namespace Line

lemma word_of_mem {l : Line} {w : Bytes} (h : w ∈ l.words) : Word w := by
  cases l with
  | header a =>
    simp only [words, mem_cons, not_mem_nil, or_false] at h
    rcases h with rfl | rfl | rfl | rfl | rfl | rfl
    · decide
    · exact a.word
    · exact word_decimal _
    · exact word_decimal _
    · exact word_decimal _
    · decide
  | fin a =>
    simp only [words, mem_cons, not_mem_nil, or_false] at h
    rcases h with rfl | rfl
    · decide
    · exact word_decimal _
  | abort a =>
    simp only [words, mem_cons, not_mem_nil, or_false] at h
    rcases h with rfl | rfl
    · decide
    · exact word_decimal _

lemma controlOf_words (l : Line) : controlOf slaveLink l.words = some l.control := by
  cases l with
  | header a =>
    have h1 : ¬str "FULLRESYNC" = str "KPROBERDMA" := by decide
    have h2 : ¬str "FULLRESYNC" = str "FULLRESYNCWR" := by decide
    simp [controlOf, words, control, wordNum, slaveLink, h1, h2, strtoull_decimal a.base_lt,
      strtoull_decimal a.tid_lt, strtoull_decimal a.size_lt]
  | fin a =>
    have h1 : ¬str "FULLSYNCEND" = str "FULLSYNCABORT" := by decide
    simp [controlOf, words, control, wordNum, slaveLink, h1, strtoull_decimal a.tid_lt]
  | abort a => simp [controlOf, words, control, wordNum, slaveLink, strtoull_decimal a.tid_lt]

lemma respStep_append (l : Line) (xs : Bytes) :
    respStep slaveLink (l.bytes ++ xs) = .take l.bytes.length [.control l.control] := by
  have hne : l.words ≠ [] := by cases l <;> simp [words]
  have hlen : l.words.length ≤ 8 := by cases l <;> simp [words]
  have h := respStep_plusLine slaveLink (fun _ hw => word_of_mem hw) hne hlen
  rw [controlOf_words] at h
  exact (respStep_stable slaveLink).append xs h

lemma fullsyncControlLine_append (l : Line) (xs : Bytes) : fullsyncControlLine (l.bytes ++ xs) = true := by
  cases l with
  | header a => rfl
  | fin a => rfl
  | abort a => rfl

end Line

/-- The replica takes a line. -/
def Slave.act (now : ℤ) (S : Slave) (l : Line) : Slave := S.handle now (.control l.control)

/-- The state and what is left, without the events. -/
def outcome {τ : Type} (r : Slave × τ × Bytes) : Slave × Bytes := (r.1, r.2.2)

lemma parseLoop_line (now : ℤ) (fuel : ℕ) (S : Slave) (l : Line) (xs : Bytes) :
    outcome (parseLoop (slaveHooks now) slaveLink (fuel + 1) S (l.bytes ++ xs)) =
      outcome (parseLoop (slaveHooks now) slaveLink fuel (S.act now l) xs) := by
  have hstep := l.respStep_append xs
  have hctl := l.fullsyncControlLine_append xs
  have hdrop : (l.bytes ++ xs).drop l.bytes.length = xs := drop_left
  generalize hbs : l.bytes ++ xs = bs at hstep hctl hdrop
  cases bs with
  | nil =>
    have : l.bytes ≠ [] := by simp [Line.bytes, plusLine]
    simp [this] at hbs
  | cons b t =>
    rw [parseLoop, hctl, hstep]
    simp only [Bool.not_true, Bool.and_false, Bool.false_eq_true, if_false, hdrop]
    rfl

lemma parseLoop_lines (now : ℤ) (ls : List Line) (fuel : ℕ) (S : Slave) (xs : Bytes) :
    outcome (parseLoop (slaveHooks now) slaveLink (ls.length + fuel) S (ls.flatMap Line.bytes ++ xs)) =
      outcome (parseLoop (slaveHooks now) slaveLink fuel (ls.foldl (Slave.act now) S) xs) := by
  induction ls generalizing S with
  | nil => simp
  | cons l ls ih =>
    rw [flatMap_cons, append_assoc, length_cons, Nat.add_right_comm, parseLoop_line, ih]
    rfl

lemma length_le_lines (ls : List Line) : ls.length ≤ (ls.flatMap Line.bytes).length := by
  induction ls with
  | nil => simp
  | cons l ls ih =>
    have : 1 ≤ l.bytes.length := by simp [Line.bytes, plusLine]
    simp only [flatMap_cons, length_append, length_cons]
    omega

lemma parseRespStream_lines (now : ℤ) (ls : List Line) (S : Slave) (xs : Bytes) :
    ∃ fuel, outcome (parseRespStream (slaveHooks now) slaveLink S (ls.flatMap Line.bytes ++ xs)) =
      outcome (parseLoop (slaveHooks now) slaveLink (fuel + 1) (ls.foldl (Slave.act now) S) xs) := by
  have hlen := length_le_lines ls
  refine ⟨2 * (ls.flatMap Line.bytes ++ xs).length - ls.length, ?_⟩
  have hfuel : ls.length + (2 * (ls.flatMap Line.bytes ++ xs).length - ls.length + 1) =
      parseFuel (ls.flatMap Line.bytes ++ xs) := by
    rw [parseFuel, length_append]
    omega
  rw [← parseLoop_lines, hfuel]
  rfl

lemma takenLines_spec (n : ℕ) (ls : List Line) :
    takenLines n ls <+: ls ∧ ((takenLines n ls).flatMap Line.bytes).length ≤ n := by
  induction ls generalizing n with
  | nil => simp [takenLines]
  | cons l ls ih =>
    rw [takenLines]
    split
    · obtain ⟨hpre, hlen⟩ := ih (n - l.bytes.length)
      refine ⟨cons_prefix_cons.mpr ⟨rfl, hpre⟩, ?_⟩
      simp only [flatMap_cons, length_append]
      omega
    · simp

namespace Link

lemma chunk_eq {K : Link} {n : ℕ} (hskip : K.skip = 0)
    (hcut : (K.rest n).isEmpty = true ∨ K.beyond n = 0) :
    K.chunk n = (K.taken n).flatMap Line.bytes ++ K.piece n ∧ K.lines = K.taken n ++ K.rest n := by
  obtain ⟨hpre, hlen⟩ := takenLines_spec (K.skip + n) K.lines
  have hlines : K.lines = K.taken n ++ K.rest n := (prefix_iff_eq_append.mp hpre).symm
  refine ⟨?_, hlines⟩
  have hbeyond : K.beyond n = n - ((K.taken n).flatMap Line.bytes).length := by
    rw [beyond, hskip, Nat.zero_add]
  have hle : ((K.taken n).flatMap Line.bytes).length ≤ n := by
    rw [hskip, Nat.zero_add] at hlen
    rwa [taken, hskip, Nat.zero_add]
  have hbytes : K.lines.flatMap Line.bytes = (K.taken n).flatMap Line.bytes ++ (K.rest n).flatMap Line.bytes := by
    rw [← flatMap_append, ← hlines]
  rw [chunk, hskip, drop_zero, hbytes, append_assoc, take_append, take_of_length_le hle, ← hbeyond, piece]
  congr 1
  rcases hcut with hrest | hzero
  · rw [if_pos hrest, isEmpty_iff.mp hrest]
    rfl
  · rw [hzero]
    split <;> simp

end Link

end PocketKv.Replication
