import PocketKv.Store.Engines

/-!
# Commands on the store
-/

namespace PocketKv.Store

open Library Resp

/-- The commands, with their arguments. -/
inductive Cmd where
  | control
  /-- `LOCK key token ms`. -/
  | lock (k token : Bytes) (ms : ℤ)
  /-- `UNLOCK key token`. -/
  | unlock (k token : Bytes)
  /-- `RENEW key token ms`. -/
  | renew (k token : Bytes) (ms : ℤ)
  /-- `OWNER key`. -/
  | owner (k : Bytes)
  /-- `DOCSET key field value`. -/
  | docset (d f v : Bytes)
  /-- `DOCDEL key field`. -/
  | docdel (d f : Bytes)
  /-- `DOCDROP key`. -/
  | docdrop (d : Bytes)
  /-- `DOCEXIST key`. -/
  | docexist (d : Bytes)
  /-- `DOCCOUNT key`. -/
  | doccount (d : Bytes)
  /-- A command that only reads the data: `DOCGET`, `DOCGETALL` and `VSEARCH`. -/
  | read
  /-- `SET key value`. -/
  | set (e : Engine) (k v : Bytes)
  /-- `MSET key value ...`: the first key, if there is one, and the pairs, if they are complete. -/
  | mset (e : Engine) (first : Option Bytes) (kvs : Option (List (Bytes × Bytes)))
  /-- `MOD key value`. -/
  | mod (e : Engine) (k v : Bytes)
  /-- `DEL key`. -/
  | del (e : Engine) (k : Bytes)
  /-- `GET key`. -/
  | get (e : Engine) (k : Bytes)
  /-- `MGET key ...`; nothing if the number of keys is refused. -/
  | mget (e : Engine) (ks : Option (List Bytes))
  /-- `EXIST key`. -/
  | exist (e : Engine) (k : Bytes)
  /-- `EXPIRE key seconds`. -/
  | expire (e : Engine) (k : Bytes) (secs : ℤ)
  /-- `SETEX key seconds value`. -/
  | setex (e : Engine) (k : Bytes) (secs : ℤ) (v : Bytes)
  /-- `TTL key`. -/
  | ttl (e : Engine) (k : Bytes)
  /-- `PERSIST key`. -/
  | persist (e : Engine) (k : Bytes)
  /-- No command; `arity` tells whether it is one with another number of arguments. -/
  | unknown (arity : Bool)
  deriving DecidableEq

/-- The command belongs to the engine section of the command chain and can write. -/
def Cmd.engineWrite : Cmd → Bool
  | .set .. | .mset .. | .mod .. | .del .. | .expire .. | .setex .. | .persist .. => true
  | _ => false

/-! ### From the arguments to the command -/

/-- The engine that the first letter names. -/
def cmdEngine (cmd : Bytes) : Engine :=
  if cmd.head? = some 82 then .rbtree
  else if cmd.head? = some 72 then .hash
  else if cmd.head? = some 88 then .skiptable
  else .array

/-- The name of the command without the letter of the engine. -/
def stripPrefix (cmd : Bytes) : Bytes :=
  if cmd.head? = some 82 ∨ cmd.head? = some 72 ∨ cmd.head? = some 88 then cmd.tail else cmd

/-- What `SET` and `SETEX` store: the hash engine keeps the whole argument. -/
def storedValue (e : Engine) (v : Bytes) : Bytes :=
  match e with
  | .hash => v
  | _ => cstr v

/-- With the number of arguments at which they are recognised. -/
def controlCmds : List (String × Option ℕ) :=
  [("PING", none), ("ECHO", some 2), ("QUIT", none), ("AUTH", none), ("COMMAND", none),
    ("CLIENT", none), ("HELLO", none), ("REPLSYNC", none), ("REPLACK", none), ("REPLDONE", none),
    ("KPROBEMR", none), ("INFO", none), ("MEMSTAT", none), ("MEMORY_PURGE", none), ("SAVE", none),
    ("BGSAVE", none), ("BGREWRITEAOF", none), ("APPENDFSYNC", some 2), ("CONFIG", some 3),
    ("SNAPRULE", some 3), ("SNAPRULES", none), ("SNAPRULECLEAR", none), ("SLAVEOF", none),
    ("ROLE", none)]

/-- The commands about the server. -/
def isControl (cmd : Bytes) (argc : ℕ) : Bool :=
  controlCmds.any fun c => cmd == str c.1 && (c.2 == none || c.2 == some argc)

/-- The arguments of `MSET` in pairs, nothing if one is left over. -/
def pairs : List Bytes → Option (List (Bytes × Bytes))
  | [] => some []
  | [_] => none
  | k :: v :: t => (pairs t).map ((cstr k, cstr v) :: ·)

/-- The commands of an engine. -/
def decodeEngine (e : Engine) (op : Bytes) (argv : List Bytes) : Cmd :=
  let argc := argv.length
  let arg (i : ℕ) : Bytes := argv.getD i []
  let key := cstr (arg 1)
  if op = str "SET" ∧ argc = 3 then .set e key (storedValue e (arg 2))
  else if op = str "MSET" then
    .mset e (argv[1]?.map cstr) (if argc < 3 then none else pairs argv.tail)
  else if op = str "MOD" ∧ argc = 3 then .mod e key (cstr (arg 2))
  else if op = str "DEL" ∧ argc = 2 then .del e key
  else if op = str "GET" ∧ argc = 2 then .get e key
  else if op = str "MGET" then .mget e (if argc < 2 ∨ 32 < argc then none else some (argv.tail.map cstr))
  else if op = str "VSEARCH" ∧ (argc = 4 ∨ argc = 5) then .read
  else if op = str "EXIST" ∧ argc = 2 then .exist e key
  else if op = str "EXPIRE" ∧ argc = 3 then .expire e key (atoll (arg 2))
  else if op = str "SETEX" ∧ argc = 4 then .setex e key (atoll (arg 2)) (storedValue e (arg 3))
  else if op = str "TTL" ∧ argc = 2 then .ttl e key
  else if op = str "PERSIST" ∧ argc = 2 then .persist e key
  else
    .unknown (["SET", "MOD", "EXPIRE", "SETEX", "GET", "DEL", "EXIST", "TTL", "PERSIST"].any fun o => op == str o)

/-- The command chain of `handle_parsed_command`. -/
def decode (argv : List Bytes) : Cmd :=
  let argc := argv.length
  let arg (i : ℕ) : Bytes := cstr (argv.getD i [])
  let cmd := asciiUpper (arg 0)
  if isControl cmd argc then .control
  else if cmd = str "LOCK" ∧ argc = 4 then .lock (arg 1) (arg 2) (atoll (arg 3))
  else if cmd = str "UNLOCK" ∧ argc = 3 then .unlock (arg 1) (arg 2)
  else if cmd = str "RENEW" ∧ argc = 4 then .renew (arg 1) (arg 2) (atoll (arg 3))
  else if cmd = str "OWNER" ∧ argc = 2 then .owner (arg 1)
  else if cmd = str "DOCSET" ∧ argc = 4 then .docset (arg 1) (arg 2) (arg 3)
  else if cmd = str "DOCGET" ∧ argc = 3 then .read
  else if cmd = str "DOCDEL" ∧ argc = 3 then .docdel (arg 1) (arg 2)
  else if cmd = str "DOCDROP" ∧ argc = 2 then .docdrop (arg 1)
  else if cmd = str "DOCEXIST" ∧ argc = 2 then .docexist (arg 1)
  else if cmd = str "DOCCOUNT" ∧ argc = 2 then .doccount (arg 1)
  else if cmd = str "DOCGETALL" ∧ argc = 2 then .read
  else decodeEngine (cmdEngine cmd) (stripPrefix cmd) argv

/-! ### What the commands do -/

/-- The replies. -/
inductive Reply where
  /-- `+OK`. -/
  | ok
  | int (n : ℤ)
  | data
  /-- `-ERR` and a text. -/
  | err (text : String)
  deriving DecidableEq

/-- It is not an error. -/
def Reply.success : Reply → Bool
  | .err _ => false
  | _ => true

/-- What a command leads to. -/
structure Outcome where
  db : Db
  reply : Reply
  wrote : Bool

/-- The reply of a command of an engine. -/
def settle (isSet missing : Bool) : Rc × Db → Outcome
  | (.ok, s) => ⟨s, .ok, true⟩
  | (.miss, s) =>
    if missing then ⟨s, if isSet then .ok else .err "not found or exists", false⟩
    else ⟨s, .err "operation failed", false⟩
  | (.fail, s) => ⟨s, .err "operation failed", false⟩

/-- The reply of a command on locks. -/
def settleLock (failed : String) : Rc × Db → Outcome
  | (.ok, s) => ⟨s, .int 1, true⟩
  | (.miss, s) => ⟨s, .int 0, false⟩
  | (.fail, s) => ⟨s, .err failed, false⟩

/-- The reply of a command on documents. -/
def settleDoc (missing failed : String) : Rc × Db → Outcome
  | (.ok, s) => ⟨s, .ok, true⟩
  | (.miss, s) => ⟨s, .err missing, false⟩
  | (.fail, s) => ⟨s, .err failed, false⟩

/-- A successful `SET` or `MOD` takes the key's deadline away. -/
def persisting (e : Engine) (k : Bytes) : Rc × Db → Rc × Db
  | (.ok, s) => (.ok, (expireDel s e k).2)
  | r => r

/-- A successful `engine_set` in `SETEX` is followed by `kvs_expire_set`. -/
def expiring (now : ℤ) (e : Engine) (k : Bytes) (ttlMs : ℤ) : Rc × Db → Rc × Db
  | (.ok, s) => expireSet now s e k ttlMs
  | r => r

/-- `1` for true. -/
def boolInt (b : Bool) : Reply := .int (if b then 1 else 0)

/-- What a command does at the time `now`. -/
def exec (now : ℤ) (s : Db) : Cmd → Outcome
  | .control => ⟨s, .data, false⟩
  | .lock k token ms => settleLock "lock failed" (lockAcquire now s .array k token ms)
  | .unlock k token => settleLock "unlock failed" (lockRelease now s .array k token)
  | .renew k token ms => settleLock "renew failed" (lockRenew now s .array k token ms)
  | .owner k => ⟨tryExpire now s .array k, .data, false⟩
  | .docset d f v => settleDoc "docset failed" "docset failed" (docSet s d f v)
  | .docdel d f => settleDoc "doc or field not found" "docdel failed" (docDelField s d f)
  | .docdrop d => settleDoc "doc not found" "docdrop failed" (docDel s d)
  | .docexist d => ⟨s, boolInt (s.docs.lookup d).isSome, false⟩
  | .doccount d => ⟨s, .int (docFieldCount s d), false⟩
  | .read => ⟨s, .data, false⟩
  | .set e k v => settle true true (persisting e k (engineSet (tryExpire now s e k) e k v))
  | .mset e first kvs =>
    let s := match first with
      | none => s
      | some k => tryExpire now s e k
    settle false false <| match kvs with
      | none => (.fail, s)
      | some kvs => upsertAll now s e kvs
  | .mod e k v => settle false true (persisting e k (engineMod (tryExpire now s e k) e k v))
  | .del e k =>
    let r := engineDel (tryExpire now s e k) e k
    settle false true (r.1, (expireDel r.2 e k).2)
  | .get e k => ⟨tryExpire now s e k, .data, false⟩
  | .mget _ none => ⟨s, .err "mget failed", false⟩
  | .mget e (some ks) => ⟨expireAll now s (ks.map (e, ·)), .data, false⟩
  | .exist e k =>
    let s := tryExpire now s e k
    ⟨s, boolInt (engineExist s e k), false⟩
  | .expire e k secs =>
    let s := tryExpire now s e k
    settle false true <| if engineExist s e k then expireSet now s e k (wrap64 (secs * 1000)) else (.miss, s)
  | .setex e k secs v =>
    settle false true <| expiring now e k (wrap64 (secs * 1000)) (engineSet (tryExpire now s e k) e k v)
  | .ttl e k =>
    let s := tryExpire now s e k
    ⟨s, .int (if engineExist s e k then expireTtl now s e k else -2), false⟩
  | .persist e k =>
    let s := tryExpire now s e k
    settle false true (if engineExist s e k then expireDel s e k else (.miss, s))
  | .unknown arity =>
    ⟨s, .err (if arity then "wrong number of arguments" else "unknown command or wrong args"), false⟩

/-! ### Commands that are not logged -/

/-- Between the two databases keys past their deadlines have gone, and nothing else. -/
def Expires (now : ℤ) (s s' : Db) : Prop := ∃ slots, s' = expireAll now s slots

lemma Expires.refl (now : ℤ) (s : Db) : Expires now s s := ⟨[], rfl⟩

lemma Expires.one (now : ℤ) (s : Db) (e : Engine) (k : Bytes) :
    Expires now s (tryExpire now s e k) := ⟨[(e, k)], rfl⟩

lemma settle_wrote {missing : Bool} {r : Rc × Db} (hs : (settle false missing r).reply.success = true) :
    (settle false missing r).wrote = true := by
  obtain ⟨rc, s'⟩ := r
  cases rc with
  | ok => rfl
  | miss => cases missing <;> cases hs
  | fail => cases hs

end PocketKv.Store
