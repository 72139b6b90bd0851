import PocketKv.Library.Run
import PocketKv.Persistence.Aof
import PocketKv.Persistence.Restore
import PocketKv.Persistence.Rewrite

/-!
# Recovery
-/

namespace PocketKv.Persistence

open Library Resp Store

/-! ### `persist_recover` -/

/-- The data, and the commands carried out so far. -/
structure Recovering where
  db : Db
  count : ℕ

/-- A command of the file is carried out. -/
def Recovering.handle (clock : ℕ → ℤ) (R : Recovering) : Event → Recovering
  | .command argv _ => ⟨(exec (clock R.count) R.db (decode argv)).db, R.count + 1⟩
  | _ => R

/-- The parser in a replay. -/
def recoverHooks (clock : ℕ → ℤ) : Hooks Recovering where
  loading := fun _ => false
  intercept := fun R _ => (R, none)
  handle := Recovering.handle clock
  start := fun _ _ h => absurd h (by simp)

/-- `replay_file`. -/
def replayFile (clock : ℕ → ℤ) (file : Bytes) (skip : ℕ) (R : Recovering) : Recovering :=
  if file.length ≤ skip then R
  else (parseRespStream (recoverHooks clock) replayer R (file.drop skip)).1

/-- `replay_dump_file`, if there is such a file. -/
def loadDump (now : ℤ) : Option Bytes → ℕ × Db
  | none => (0, Db.empty)
  | some file => replayDumpFile now file Db.empty

/-- `kvs_active_expire_cycle`, with a budget that is not reached. -/
def kvsActiveExpireCycle (now : ℤ) (s : Db) : Db := expireAll now s s.ttl.keys

/-- `persist_recover`. -/
def persistRecover (clock : ℕ → ℤ) (dump : Option Bytes) (disabled : Bool) (file : Bytes) : Db :=
  let (offset, s) := loadDump (clock 0) dump
  let R : Recovering := ⟨s, 1⟩
  let R := if disabled then R else replayFile clock file offset R
  kvsActiveExpireCycle (clock R.count) R.db

/-! ### The files of a running server -/

/-- The data and the files. -/
structure Server where
  db : Db := .empty
  aof : Aof := {}
  dump : Option Bytes := none
  /-- A `BGSAVE` is running: the file that takes the place of the dump. -/
  bgsave : Option Bytes := none
  /-- The keys that are in the dump or in the append-only file and have expired since, with their values. -/
  expired : Table Slot Bytes := ∅
  /-- The same for the file of the `BGSAVE`. -/
  expiredSave : Table Slot Bytes := ∅
  expiredRewrite : Table Slot Bytes := ∅

/-- What happens to the server. -/
inductive ServerInput where
  | command (now : ℤ) (argv : List Bytes) (raw : Bytes)
  /-- `try_expire` of a key, by a command that does not write or by `kvs_active_expire_cycle`. -/
  | expire (now : ℤ) (x : Slot)
  /-- `SAVE`; slots that are on their way are written in the given order. -/
  | save (now : ℤ) (order : List ℕ)
  /-- `BGSAVE`. -/
  | bgsave (now : ℤ) (order : List ℕ)
  /-- The child of the `BGSAVE` has renamed its file. -/
  | bgsaveDone
  /-- `BGREWRITEAOF`. -/
  | rewrite (now : ℤ) (order : List ℕ)
  /-- The child of the rewrite has come to its end, and `persist_bgrewriteaof_poll` notices. -/
  | rewriteDone (order : List ℕ)
  /-- `persist_flush_pending_force`. -/
  | flush
  /-- One of the slots on their way has been written. -/
  | complete (i : ℕ)

/-- The keys are written again. -/
def touch (xs : List Slot) (E : Table Slot Bytes) : Table Slot Bytes := xs.foldl (fun E x => E.erase x) E

/-- The key is past its deadline and goes. -/
def lapse (now : ℤ) (db : Db) (x : Slot) (E : Table Slot Bytes) : Table Slot Bytes :=
  match db.kv.lookup x with
  | none => E
  | some v => if expireIsExpired now db x.1 x.2 then E.insert x v else E

namespace Server

/-- All tables of expired keys change. -/
def onExpired (f : Table Slot Bytes → Table Slot Bytes) (S : Server) : Server :=
  { S with expired := f S.expired, expiredSave := f S.expiredSave, expiredRewrite := f S.expiredRewrite }

/-- `handle_parsed_command`, for a client's command. -/
def command (now : ℤ) (argv : List Bytes) (raw : Bytes) (S : Server) : Server :=
  let o := exec now S.db (decode argv)
  let S := { S with db := o.db }
  if o.wrote then
    match persistAppendPrepare raw S.aof with
    | none => S
    | some aof => ({ S with aof := aof } : Server).onExpired (touch (decode argv).slots)
  else S

/-- `try_expire`. -/
def expire (now : ℤ) (x : Slot) (S : Server) : Server :=
  ({ S with db := tryExpire now S.db x.1 x.2 } : Server).onExpired (lapse now S.db x)

/-- The file that `persist_save_dump_to` writes after `persist_drain_pending`. -/
def dumpFile (now : ℤ) (S : Server) : Option Bytes := kvsDumpToFd now (S.aof.drainPending []).writeOffset S.db

/-- `persist_save_dump`. -/
def save (now : ℤ) (order : List ℕ) (S : Server) : Server :=
  match S.dumpFile now with
  | none => { S with aof := S.aof.drainPending order }
  | some file => { S with aof := S.aof.drainPending order, dump := some file, expired := ∅ }

/-- `persist_bgsave_start`. -/
def bgsaveStart (now : ℤ) (order : List ℕ) (S : Server) : Server :=
  match S.bgsave with
  | some _ => S
  | none => { S with aof := S.aof.drainPending order, bgsave := S.dumpFile now, expiredSave := ∅ }

/-- The child of a `BGSAVE` renames its file. -/
def bgsaveDone (S : Server) : Server :=
  match S.bgsave with
  | none => S
  | some file => { S with dump := some file, bgsave := none, expired := S.expiredSave }

/-- `persist_bgrewriteaof_start`. -/
def rewriteStart (now : ℤ) (order : List ℕ) (S : Server) : Server :=
  match S.aof.rewrite, kvsSnapshotToFd now S.db with
  | none, some snapshot => { S with aof := persistBgrewriteaofStart snapshot order S.aof, expiredRewrite := ∅ }
  | _, _ => S

/-- `finalize_rewrite_parent`. Whatever dump there is belongs to the new file from now on. -/
def rewriteDone (order : List ℕ) (S : Server) : Server :=
  match S.aof.rewrite with
  | none => S
  | some _ =>
    { S with
      aof := finalizeRewriteParent order S.aof, expired := S.expiredRewrite, expiredSave := S.expiredRewrite }

/-- The inputs. -/
def step (S : Server) : ServerInput → Server
  | .command now argv raw => S.command now argv raw
  | .expire now x => S.expire now x
  | .save now order => S.save now order
  | .bgsave now order => S.bgsaveStart now order
  | .bgsaveDone => S.bgsaveDone
  | .rewrite now order => S.rewriteStart now order
  | .rewriteDone order => S.rewriteDone order
  | .flush => { S with aof := S.aof.flushPendingForce }
  | .complete i => { S with aof := S.aof.complete i }

/-- The server is stopped, with `persist_drain_pending`, and started again. -/
def recover (clock : ℕ → ℤ) (order : List ℕ) (S : Server) : Db :=
  persistRecover clock S.dump S.aof.disabled (S.aof.drainPending order).file

/-! ### Where recovery can be relied on -/

/-- The value of a key that is there or has expired. -/
def held (db : Db) (E : Table Slot Bytes) (x : Slot) : Option Bytes := (db.kv.lookup x).or (E.lookup x)

/-- For the keys of the data, those that have expired, and those of the commands; and for the documents. -/
def roomFor (db : Db) (E : Table Slot Bytes) (cs : List Cmd) : Bool :=
  ((db.arrayKeys ++ E.keys.filter (·.1 = .array)) ++ (cs.flatMap Cmd.slots).filter (·.1 = .array)).dedup.length ≤
      kvsArraySize ∧
    (db.docs.keys ++ cs.flatMap Cmd.docs).dedup.length ≤ docTableMax

/-- The tables of expired keys in use. -/
def tables (S : Server) : List (Table Slot Bytes) :=
  S.expired :: ((if S.bgsave.isSome then [S.expiredSave] else []) ++
    if S.aof.rewrite.isSome then [S.expiredRewrite] else [])

/-- The offset in the header of a dump. -/
def header : Option Bytes → ℕ
  | none => 0
  | some file => if file.length < 8 then 0 else leNat (file.take 8)

/-- The header of a dump that is made now has the length of the append-only file. -/
def offsetRight (S : Server) : Bool :=
  (S.aof.drainPending []).writeOffset = S.aof.content.length ∧ S.aof.content.length < 2 ^ 64

/-- A successful write, read from its raw bytes, that the append-only file has taken. -/
def written (S : Server) (now : ℤ) (argv : List Bytes) (raw : Bytes) : Bool :=
  (exec now S.db (decode argv)).wrote && (persistAppendPrepare raw S.aof).isSome &&
    respStep clientLink raw = .take raw.length [.command argv raw]

/-- Commands are written. -/
def proper (S : Server) : ServerInput → Bool
  | .command now argv raw => S.written now argv raw
  | _ => true

/-- The slots are written in the order of the commands. -/
def ordered (S : Server) : ServerInput → Bool
  | .save _ order | .bgsave _ order | .rewrite _ order => S.aof.inOrder order
  | .rewriteDone order => S.aof.registered || carriedOut order S.aof.outstanding = S.aof.outstanding
  | .complete i => i = 0
  | _ => true

/-- The inputs that the files can follow, for a recovery from the time `t` to the time `t'`. -/
def followable (t t' : ℤ) (S : Server) : ServerInput → Bool
  | .command now argv raw =>
    S.written now argv raw && (decode argv).lasts t t' &&
      S.tables.all (fun E => (decode argv).grants (held S.db E) && roomFor S.db E [decode argv]) &&
      !(S.aof.rewrite.isSome && S.aof.sync && S.aof.perCommand)
  | .save now _ => dumpable t t' now S.db && S.offsetRight
  | .bgsave now _ => S.bgsave.isSome || dumpable t t' now S.db && S.offsetRight
  | .rewrite now _ => S.aof.rewrite.isSome || rewritable t t' now S.db
  | .rewriteDone _ =>
    S.aof.rewrite.isNone || header S.dump = 0 && header S.bgsave = 0 &&
      roomFor S.db S.expiredRewrite ((commandsIn (S.aof.outstanding.flatten ++ S.aof.cur)).map decode)
  | _ => true

end Server

end PocketKv.Persistence
