import PocketKv.Replication.SlaveOffset

/-!
# The files of a replica
-/

namespace PocketKv.Replication

open Library Persistence Resp Store List

/-- A command, the generation of the data it is for, and the position after it. -/
structure Entry where
  raw : Bytes
  gen : ℕ
  endPos : ℕ

/-- The stream and the position of a dump's data, their generation, and the offset in its header. -/
structure Base where
  replid : Bytes
  pos : ℕ
  gen : ℕ
  /-- `aof_offset` in the header. -/
  header : ℕ

/-- How far the replica is in what it does. -/
inductive Stage where
  | idle
  /-- A `+FULLRESYNC` line has come, and the snapshot is being received. -/
  | receiving
  | renamed
  | patched
  | noting (rawlen : ℕ)
  | appending (raw : Bytes)
  deriving DecidableEq

/-- A replica with its files. -/
structure Node where
  follower : Follower := {}
  stage : Stage := .idle
  dump : Option Base := none
  saving : Option Base := none
  id : Bytes := str "?"
  gen : ℕ := 0
  consumed : ℕ := 0
  /-- The commands in the append-only file and on their way to it. -/
  entries : List Entry := []
  /-- Slots were written in another order than that of the commands. -/
  mixed : Bool := false

/-- The append-only file takes the command. -/
def takesRaw (raw : Bytes) (A : Aof) : Bool := A.isOpen && A.always && (persistAppendPrepare raw A).isSome

/-- What is in the file when the process has stopped and `n` of the bytes on their way have got there, of
slots that were written in the given order. -/
def fileAt (order : List ℕ) (n : ℕ) (A : Aof) : Bytes := A.file ++ (carriedOut order A.pending).flatten.take n

/-- `persist_init` opens the file again. -/
def reopen (order : List ℕ) (n : ℕ) (A : Aof) : Aof :=
  { A with
    file := fileAt order n A, outstanding := [], cur := [], rewrite := none, fatal := false
    writeOffset := (fileAt order n A).length }

/-- The entries between the offsets `start` and `stop`, the first being at `off`. -/
def replayed (start stop : ℕ) : ℕ → List Entry → List Entry
  | _, [] => []
  | off, e :: es =>
    if off + e.raw.length ≤ stop then
      (if start ≤ off then [e] else []) ++ replayed start stop (off + e.raw.length) es
    else []

namespace Node

/-- A step of the replica. -/
def onFollower (f : Follower → Follower) (S : Node) : Node := { S with follower := f S.follower }

/-- A step of the append-only file. -/
def onAof (f : Aof → Aof) : Node → Node := onFollower fun F => { F with aof := f F.aof }

/-- Slots have been written, in another order than that of the commands if `swapped`. -/
def mix (swapped : Bool) (S : Node) : Node := { S with mixed := S.mixed || swapped }

/-- The entries with the command, if the file takes it. -/
def log (raw : Bytes) (S : Node) : List Entry :=
  if takesRaw raw S.follower.aof then S.entries ++ [⟨raw, S.gen, S.consumed⟩] else S.entries

/-- A command has been read. -/
def advance (db : Db) (rawlen : ℕ) (S : Node) : Node :=
  { S with
    follower := { S.follower with db := db, count := S.follower.count + 1 }, consumed := S.consumed + rawlen }

/-- `handle_parsed_command`, up to its first step on the files. -/
def execute (now : ℤ) (fromReplication : Bool) (argv : List Bytes) (raw : Bytes) (S : Node) : Node :=
  let o := exec now S.follower.db (decode argv)
  let S := S.advance o.db raw.length
  if o.wrote && (decode argv).engineWrite then
    if fromReplication then
      { S with follower := S.follower.appendDurable raw, entries := S.log raw, stage := .noting raw.length }
    else { S with follower := S.follower.noteApplied raw.length, stage := .appending raw }
  else S

/-- Its second step. -/
def settle (S : Node) : Node :=
  match S.stage with
  | .noting rawlen => { S with follower := S.follower.noteApplied rawlen, stage := .idle }
  | .appending raw => { S with follower := S.follower.append raw, entries := S.log raw, stage := .idle }
  | _ => S

/-- `+FULLRESYNC`: the state file is saved with the offset of the snapshot. -/
def fullResync (replid : Bytes) (offset : ℕ) (S : Node) : Node :=
  { S with follower := S.follower.setSyncState replid offset offset true, stage := .receiving }

/-- The snapshot becomes the dump; in its header the master has put its own offset. -/
def rename (S : Node) : Node :=
  { S with
    dump := some ⟨S.follower.replid, S.follower.applied, S.gen + 1, S.follower.applied⟩
    gen := S.gen + 1, stage := .renamed }

/-- `kvs_dump_set_aof_offset`. -/
def patch (S : Node) : Node :=
  { S with dump := S.dump.map fun b => { b with header := 0 }, stage := .patched }

/-- `persist_aof_rebase` and the rest of `repl_slave_finish_fullsync`. -/
def rebase (db : Db) (S : Node) : Node :=
  { S with
    follower := S.follower.finishFullsync db
    entries := if S.follower.aof.disabled || !S.follower.aof.isOpen then S.entries else []
    mixed := S.mixed && (S.follower.aof.disabled || !S.follower.aof.isOpen)
    id := S.follower.replid, consumed := S.follower.applied, stage := .idle }

/-- `+CONTINUE`: the master sends from the applied offset, under the id that it was asked for. -/
def resume (S : Node) : Node :=
  { S with
    follower := S.follower.setSyncState S.follower.replid S.follower.applied S.follower.durable false
    consumed := S.follower.applied, id := S.follower.replid, stage := .idle }

/-- `persist_bgsave_start`. -/
def bgsaveStart (order : List ℕ) (S : Node) : Node :=
  let S := (S.onAof (Aof.drainPending order)).mix !S.follower.aof.inOrder order
  { S with saving := some ⟨S.id, S.consumed, S.gen, S.follower.aof.writeOffset⟩ }

/-- The dump of `BGSAVE` is there. -/
def bgsaveDone (S : Node) : Node :=
  match S.saving with
  | none => S
  | some b => { S with dump := some b, saving := none }

/-- When `n` of the bytes on their way have got to the file: the id and the position of a stream, or
nothing if it is no state of one. -/
def recovered (order : List ℕ) (n : ℕ) (S : Node) : Option (Bytes × ℕ) :=
  S.dump.bind fun b =>
    let es := replayed b.header (S.follower.aof.file.length + n) 0 S.entries
    if es.all (·.gen = b.gen) && !S.mixed && S.follower.aof.inOrder order then some (b.replid, (es.getLast?.map (·.endPos)).getD b.pos) else none

/-- The process stops and is started again, with the data `db` recovered. -/
def restart (order : List ℕ) (n : ℕ) (db : Db) (S : Node) : Node :=
  let F := Follower.stateLoad { S.follower with loading := false, db := db, aof := reopen order n S.follower.aof }
  { S.mix !S.follower.aof.inOrder order with
    follower := F, id := F.replid, consumed := F.applied, stage := .idle
    entries := replayed 0 (S.follower.aof.file.length + n) 0 S.entries }

end Node

/-- What happens. -/
inductive NodeInput where
  /-- A `+FULLRESYNC` line. -/
  | fullResync (replid : Bytes) (offset : ℕ)
  /-- The first part of `repl_slave_finish_fullsync`. -/
  | rename
  | patch
  | rebase (db : Db)
  /-- A `+CONTINUE` line. -/
  | continue
  | command (now : ℤ) (fromReplication : Bool) (argv : List Bytes) (raw : Bytes)
  | settle
  /-- `persist_flush_pending_force`. -/
  | flush
  /-- One of the slots on their way has been written. -/
  | written (i : ℕ)
  /-- `BGSAVE`; slots that are on their way are written in the given order. -/
  | bgsaveStart (order : List ℕ)
  | bgsaveDone
  /-- The process stops, and `n` bytes of what is on its way have got to the file. -/
  | stop (order : List ℕ) (n : ℕ) (db : Db)

/-- A step. -/
def Node.step (S : Node) : NodeInput → Node
  | .fullResync replid offset => if S.stage = .idle ∨ S.stage = .receiving then S.fullResync replid offset else S
  | .rename => if S.stage = .receiving then S.rename else S
  | .patch => if S.stage = .renamed then S.patch else S
  | .rebase db => if S.stage = .patched then S.rebase db else S
  | .continue => if S.stage = .idle ∨ S.stage = .receiving then S.resume else S
  | .command now fromReplication argv raw =>
    if S.stage = .idle ∧ raw ≠ [] ∧ (fromReplication || S.follower.ebpfTcp) then
      S.execute now fromReplication argv raw
    else S
  | .settle => S.settle
  | .flush => S.onAof Aof.flushPendingForce
  | .written i => (S.onAof (Aof.complete i)).mix (i ≠ 0)
  | .bgsaveStart order =>
    if S.saving.isNone ∧ (S.stage = .idle ∨ S.stage = .receiving) then S.bgsaveStart order else S
  | .bgsaveDone => S.bgsaveDone
  | .stop order n db => S.restart order n db

/-! ### The append-only file -/

section

variable {A : Aof}

lemma orderly_takes (h : Orderly A) {raw : Bytes} (ht : takesRaw raw A = true) :
    ∃ A', persistAppendPrepare raw A = some A' ∧ Orderly A' ∧ A'.content = A.content ++ raw := by
  simp only [takesRaw, Bool.and_eq_true] at ht
  obtain ⟨⟨hopen, halways⟩, hsome⟩ := ht
  obtain ⟨A', hA'⟩ := Option.isSome_iff_exists.mp hsome
  exact ⟨A', hA', h.prepare hA', (persistAppendPrepare_appends ⟨hopen, halways, h.slots⟩ hA').2⟩

lemma orderly_reopen (A : Aof) (order : List ℕ) (n : ℕ) : Orderly (reopen order n A) := ⟨fun _ => rfl, rfl⟩

lemma content_reopen {order : List ℕ} {n : ℕ} (ho : A.inOrder order = true) (hn : A.pending.flatten.length ≤ n) :
    (reopen order n A).content = A.content := by
  have horder : carriedOut order A.pending = A.pending := of_decide_eq_true ho
  simp [Replication.reopen, fileAt, Aof.content, horder, take_of_length_le hn]
  simp [Aof.pending]

end

/-! ### What the files reach -/

/-- The bytes of the entries. -/
def size (es : List Entry) : ℕ := (es.map (·.raw.length)).sum

/-- The entries at or beyond an offset, the first of all being at `off`. -/
def beyond (start : ℕ) : ℕ → List Entry → List Entry
  | _, [] => []
  | off, e :: es => (if start ≤ off then [e] else []) ++ beyond start (off + e.raw.length) es

/-- The position that a dump and the entries beyond it reach. -/
def Base.reach (b : Base) (es : List Entry) : ℕ := (((beyond b.header 0 es).getLast?).map (·.endPos)).getD b.pos

section

variable {es : List Entry} {e : Entry} {start stop off : ℕ}

lemma size_append (es : List Entry) (e : Entry) : size (es ++ [e]) = size es + e.raw.length := by
  simp [size]

lemma replayed_eq (h : off + size es ≤ stop) : replayed start stop off es = beyond start off es := by
  induction es generalizing off with
  | nil => rfl
  | cons e es ih =>
    simp only [size, map_cons, sum_cons] at h ih
    rw [replayed, if_pos (by omega), beyond, ih (by omega)]

lemma beyond_zero (off : ℕ) (es : List Entry) : beyond 0 off es = es := by
  induction es generalizing off with
  | nil => rfl
  | cons e es ih => simp [beyond, ih]

lemma beyond_append (es : List Entry) (e : Entry) :
    beyond start off (es ++ [e]) = beyond start off es ++ if start ≤ off + size es then [e] else [] := by
  induction es generalizing off with
  | nil => simp [beyond, size]
  | cons d es ih =>
    simp only [cons_append, beyond, ih, append_assoc, size, map_cons, sum_cons, Nat.add_assoc]

lemma mem_of_mem_beyond {d : Entry} (h : d ∈ beyond start off es) : d ∈ es := by
  induction es generalizing off with
  | nil => exact h
  | cons e es ih =>
    simp only [beyond, mem_append] at h
    rcases h with h | h
    · split at h
      · exact mem_cons.mpr (.inl (mem_singleton.mp h))
      · cases h
    · exact .tail _ (ih h)

lemma beyond_of_size_le (h : off + size es ≤ start) (hraw : ∀ e ∈ es, e.raw ≠ []) : beyond start off es = [] := by
  induction es generalizing off with
  | nil => rfl
  | cons e es ih =>
    have hpos : 0 < e.raw.length := length_pos_iff.mpr (hraw e (.head _))
    simp only [size, map_cons, sum_cons] at h ih
    rw [beyond, if_neg (by omega), nil_append]
    exact ih (by omega) fun d hd => hraw d (.tail _ hd)

lemma Base.reach_append {b : Base} (h : b.header ≤ size es) (e : Entry) : b.reach (es ++ [e]) = e.endPos := by
  simp [Base.reach, beyond_append, h]

end

end PocketKv.Replication
