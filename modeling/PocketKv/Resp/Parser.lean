import PocketKv.Library.Scanner
import PocketKv.Resp.Bytes

/-!
# The command parser
-/

namespace PocketKv.Resp

open Library

/-- Who calls the parser. -/
structure Caller where
  /-- There is a connection to reply to (`c` is not `NULL`). -/
  conn : Bool
  /-- `from_replication`. -/
  fromReplication : Bool
  /-- The server's role is `ROLE_MASTER`. -/
  master : Bool
  deriving DecidableEq

/-- The `+` control lines that are acted on, with the numbers read from them. -/
inductive Control where
  /-- `+KPROBERDMA`, with its five numbers. -/
  | kprobeRdma (rkey addr a3 a4 a5 : ℕ)
  /-- `+FULLRESYNCWR <transfer_id> <addr> <rkey> <capacity>`. -/
  | fullResyncWr (tid addr rkey cap : ℕ)
  /-- `+FULLRESYNC <replid> <offset> <target> <transfer_id>`; a line of four words has no
  transfer id (the code then reads through a null pointer). -/
  | fullResync (replid : Bytes) (offset target : ℕ) (tid : Option ℕ)
  /-- `+FULLSYNCABORT <transfer_id>`. -/
  | fullSyncAbort (tid : ℕ)
  /-- `+FULLSYNCEND <transfer_id>`. -/
  | fullSyncEnd (tid : ℕ)
  /-- `+CONTINUE <replid> <end_offset>`. -/
  | continue (replid : Bytes) (endOffset : ℕ)
  deriving DecidableEq

/-- What the parser does. -/
inductive Event where
  /-- `handle_parsed_command` is called with these arguments and these raw bytes. -/
  | command (argv : List Bytes) (raw : Bytes)
  /-- A control line is acted on. -/
  | control (c : Control)
  /-- An error is queued for the client. -/
  | reply (text : String)
  deriving DecidableEq

/-! ### The three syntaxes -/

/-- What the bytes at the front of the buffer are. -/
inductive Item where
  /-- A `+` line, without the `+` and the CR LF. -/
  | plus (line : Bytes)
  /-- A line of words. -/
  | inline (line : Bytes)
  /-- An array header of 32 bytes or more. -/
  | longHeader
  /-- An array header with a bad number of arguments. -/
  | badArgc
  /-- An array with a fault in it; `badLen` tells whether it is the length of a bulk string. -/
  | malformed (badLen : Bool)
  /-- A command. -/
  | array (argv : List Bytes)
  deriving DecidableEq

/-- How far the reader of a part of an array comes. -/
inductive Read (β : Type) where
  /-- Not all of it is there. -/
  | incomplete
  /-- There is a fault at `rest`; `badLen` tells whether it is the length of a bulk string. -/
  | malformed (badLen : Bool) (rest : Bytes)
  /-- `out` was read, up to `rest`. -/
  | ok (out : β) (rest : Bytes)
  deriving DecidableEq

/-- A second reader goes on where the first one ends. -/
def Read.bind {β γ : Type} (f : β → Bytes → Read γ) : Read β → Read γ
  | .incomplete => .incomplete
  | .malformed badLen rest => .malformed badLen rest
  | .ok out rest => f out rest

/-- The header of a bulk string, without the `$` and the CR LF. -/
def readHeader : Bytes → Read Bytes
  | [] => .incomplete
  | b :: t =>
    if b = 36 then
      match splitCrlf t with
      | none => .incomplete
      | some (h, r) => if 32 ≤ h.length then .malformed false (b :: t) else .ok h r
    else .malformed false (b :: t)

/-- The length in the header of a bulk string, with `lenOf` reading the numeral. -/
def bulkLen (lenOf : Bytes → Option ℕ) (xs : Bytes) : Read ℕ :=
  (readHeader xs).bind fun h r =>
    match lenOf h with
    | none => .malformed true xs
    | some blen => .ok blen r

/-- The `blen` bytes of a bulk string, and the CR LF after them. -/
def bulkData (blen : ℕ) (r : Bytes) : Read Bytes :=
  if r.length < blen + 2 then .incomplete
  else
    match r.drop blen with
    | 13 :: 10 :: r' => .ok (r.take blen) r'
    | r' => .malformed false r'

/-- A bulk string. -/
def readBulk (lenOf : Bytes → Option ℕ) (xs : Bytes) : Read Bytes := (bulkLen lenOf xs).bind bulkData

/-- The loop over `n` bulk strings. -/
def readBulks (lenOf : Bytes → Option ℕ) : ℕ → Bytes → Read (List Bytes)
  | 0, xs => .ok [] xs
  | n + 1, xs =>
    (readBulk lenOf xs).bind fun arg r => (readBulks lenOf n r).bind fun args r' => .ok (arg :: args) r'

/-- After a fault the parser goes on where the fault is. -/
def Read.verdict (len : ℕ) : Read (List Bytes) → Verdict Item
  | .incomplete => .more
  | .malformed badLen rest => .take (len - rest.length) [.malformed badLen]
  | .ok argv rest => .take (len - rest.length) [.array argv]

/-- A line without the CR at its end. -/
def chompCr (line : Bytes) : Bytes :=
  if line.getLast? = some cr then line.dropLast else line

/-- A `+` line ends at CR LF. -/
def plusStep (xs : Bytes) : Verdict Item :=
  match splitCrlf xs with
  | none => .more
  | some (h, _) => .take (h.length + 2) [.plus h.tail]

/-- Any other line ends at LF. -/
def inlineStep (xs : Bytes) : Verdict Item :=
  match splitLf xs with
  | none => .more
  | some (h, _) => .take (h.length + 1) [.inline (chompCr h)]

/-- An array: its header, then the bulk strings. -/
def arrayStep (argcOf lenOf : Bytes → Option ℕ) (xs : Bytes) : Verdict Item :=
  match splitCrlf xs.tail with
  | none => .more
  | some (h, r) =>
    if 32 ≤ h.length then .take (h.length + 3) [.longHeader]
    else
      match argcOf h with
      | none => .take (h.length + 3) [.badArgc]
      | some argc => (readBulks lenOf argc r).verdict xs.length

/-- One item. The readers of the protocol differ in the numerals of arrays (`argcOf`) and of bulk strings (`lenOf`).
-/
def itemStep (argcOf lenOf : Bytes → Option ℕ) : Bytes → Verdict Item
  | [] => .more
  | b :: t =>
    if b = 43 then plusStep (b :: t)
    else if b ≠ 42 then inlineStep (b :: t)
    else arrayStep argcOf lenOf (b :: t)

/-! ### What the server does with an item -/

/-- The number of arguments in an array header, a numeral from 1 to 32 in an `int`. -/
def argcOf (h : Bytes) : Option ℕ :=
  (cDigits 32 h).bind fun v => if 0 < v ∧ v ≤ 32 then some v.toNat else none

/-- The length in a bulk header, a number that is not negative in a `long`. -/
def bulkLenOf (h : Bytes) : Option ℕ :=
  (cDigits 64 h).bind fun v => if v < 0 then none else some v.toNat

/-- The word `i` of a control line, as a number. -/
def wordNum (argv : List Bytes) (i : ℕ) : ℕ := strtoull (argv.getD i [])

/-- What is done with the words of a `+` line. -/
def controlOf (cx : Caller) (argv : List Bytes) : Option Control :=
  let name := argv.headD []
  if 6 ≤ argv.length ∧ name = str "KPROBERDMA" then
    if cx.master then
      some (.kprobeRdma (wordNum argv 1) (wordNum argv 2) (wordNum argv 3) (wordNum argv 4)
        (wordNum argv 5))
    else none
  else if 5 ≤ argv.length ∧ name = str "FULLRESYNCWR" then
    if cx.master then
      -- the key is a 32-bit number
      some (.fullResyncWr (wordNum argv 1) (wordNum argv 2) (wordNum argv 3 % 2 ^ 32) (wordNum argv 4))
    else none
  else if cx.fromReplication ∧ 4 ≤ argv.length ∧ name = str "FULLRESYNC" then
    some (.fullResync (argv.getD 1 []) (wordNum argv 2) (wordNum argv 3) (argv[4]?.map strtoull))
  else if cx.fromReplication ∧ 2 ≤ argv.length ∧ name = str "FULLSYNCABORT" then
    some (.fullSyncAbort (wordNum argv 1))
  else if cx.fromReplication ∧ 2 ≤ argv.length ∧ name = str "FULLSYNCEND" then
    some (.fullSyncEnd (wordNum argv 1))
  else if cx.fromReplication ∧ 3 ≤ argv.length ∧ name = str "CONTINUE" then
    some (.continue (argv.getD 1 []) (wordNum argv 2))
  else none

/-- An error, if there is a connection to send it to. -/
def replyIf (cx : Caller) (text : String) : List Event :=
  if cx.conn then [.reply text] else []

/-- What is done with an item that was read from the bytes `raw`. -/
def respEvents (cx : Caller) (raw : Bytes) : Item → List Event
  | .plus line =>
    if line = [] then [] else ((controlOf cx (splitInlineArgv line 8)).map Event.control).toList
  | .inline line =>
    let argv := splitInlineArgv line 32
    if argv = [] then [] else [.command argv raw]
  | .longHeader => []
  | .badArgc => replyIf cx "invalid argc"
  | .malformed badLen => if badLen then replyIf cx "invalid bulk length" else []
  | .array argv => [.command argv raw]

/-- One item, and what the server does with it. -/
def respStep (cx : Caller) (xs : Bytes) : Verdict Event :=
  (itemStep argcOf bulkLenOf xs).emit (respEvents cx) xs

/-- The search for the end of a `+` line moves the parser's own position, so that of an unfinished one only the last
byte is kept. -/
def respKeep : Bytes → Bytes
  | b :: c :: t => if b = 43 then [(c :: t).getLast (by simp)] else b :: c :: t
  | xs => xs

/-- The parser outside of a full sync, as a scanner. -/
def respScanner (cx : Caller) : Scanner UInt8 Event where
  step := respStep cx
  keep := respKeep

/-! ### The parser -/

/-- The words of `kvs_fullsync_control_line`. -/
def fullsyncControlWords : List Bytes :=
  ["FULLSYNCABORT", "FULLSYNCEND", "REPLDONE", "CONTINUE", "FULLRESYNC", "KPROBEMR", "KPROBERDMA"].map str

/-- `kvs_fullsync_control_line`: `+` and a known word, up to the end of the buffer or a blank. -/
def fullsyncControlLine : Bytes → Bool
  | b :: t =>
    b == 43 && fullsyncControlWords.any fun w =>
      w.isPrefixOf t &&
        match t.drop w.length with
        | [] => true
        | c :: _ => c == 32 || c == 9 || c == cr || c == lf
  | [] => false

/-- The event is a `+FULLRESYNC` line. -/
def Event.startsLoading : Event → Bool
  | .control (.fullResync ..) => true
  | _ => false

/-- The server around the parser, with states in `σ`. -/
structure Hooks (σ : Type*) where
  /-- `g_slave_loading_fullsync`. -/
  loading : σ → Bool
  /-- What takes bytes while a full sync is loading: how many, or nothing on an error. -/
  intercept : σ → Bytes → σ × Option ℕ
  /-- What is done on an event. -/
  handle : σ → Event → σ
  /-- Only a `+FULLRESYNC` line starts the loading. -/
  start (s : σ) (e : Event) : loading (handle s e) = true → loading s = true ∨ e.startsLoading = true

variable {σ : Type*}

/-- The positions at which the parser looked for an item, each with what it did there. -/
abbrev Trace := List (Bytes × List Event)

/-- All that the parser did. -/
def Trace.events (t : Trace) : List Event := t.flatMap (·.2)

@[simp] lemma Trace.events_nil : Trace.events [] = [] := rfl

@[simp] lemma Trace.events_cons (x : Bytes × List Event) (t : Trace) : Trace.events (x :: t) = x.2 ++ t.events := rfl

/-- The parser's loop: the new state, what was looked at and done, and the bytes that stay in the buffer. -/
def parseLoop (K : Hooks σ) (cx : Caller) : ℕ → σ → Bytes → σ × Trace × Bytes
  | 0, s, xs => (s, [], xs)
  | _ + 1, s, [] => (s, [], [])
  | fuel + 1, s, x :: xs =>
    if cx.fromReplication && K.loading s && !fullsyncControlLine (x :: xs) then
      match K.intercept s (x :: xs) with
      | (s', none) => (s', [], [])
      | (s', some n) =>
        if n < (x :: xs).length && !K.loading s' then parseLoop K cx fuel s' ((x :: xs).drop n)
        else (s', [], (x :: xs).drop n)
    else
      match respStep cx (x :: xs) with
      | .more => (s, [(x :: xs, [])], respKeep (x :: xs))
      | .take n es =>
        let r := parseLoop K cx fuel (es.foldl K.handle s) ((x :: xs).drop n)
        (r.1, (x :: xs, es) :: r.2.1, r.2.2)

/-- The fuel of a call on `buf`: every turn of the loop takes a byte, or ends the loading. -/
def parseFuel (buf : Bytes) : ℕ := 2 * buf.length + 1

/-- `parse_resp_stream`. -/
def parseRespStream (K : Hooks σ) (cx : Caller) (s : σ) (buf : Bytes) : σ × List Event × Bytes :=
  let r := parseLoop K cx (parseFuel buf) s buf
  (r.1, r.2.1.events, r.2.2)

/-- A receive loop: after each chunk the parser is called on what it left followed by
the chunk. -/
def recvLoop (K : Hooks σ) (cx : Caller) : σ → Bytes → List Bytes → σ × List Event × Bytes
  | s, left, [] => (s, [], left)
  | s, left, c :: cs =>
    let r := parseRespStream K cx s (left ++ c)
    let t := recvLoop K cx r.1 r.2.2 cs
    (t.1, r.2.1 ++ t.2.1, t.2.2)

end PocketKv.Resp
