import PocketKv.Replication.CommandLog
import PocketKv.Resp.Log

/-!
# The offset of a replica
-/

namespace PocketKv.Replication

open Library Persistence Resp Store List

variable {S : Follower} {argv : List Bytes} {raw : Bytes}

/-- A replica, as far as its offsets go. -/
structure Follower where
  /-- The realtime transport is `ebpf+tcp`. -/
  ebpfTcp : Bool := false
  db : Db := .empty
  aof : Aof := {}
  /-- `g_slave_loading_fullsync`. -/
  loading : Bool := false
  /-- `g_slave_master_replid`, with `?` for none. -/
  replid : Bytes := str "?"
  /-- `g_slave_repl_applied_offset`. -/
  applied : ℕ := 0
  /-- `g_slave_repl_durable_offset`. -/
  durable : ℕ := 0
  stateFile : Option (Bytes × ℕ × ℕ) := none
  count : ℕ := 0

namespace Follower

/-- `repl_slave_state_save`. -/
def stateSave (S : Follower) : Follower := { S with stateFile := some (S.replid, S.applied, S.durable) }

/-- `repl_slave_state_load`. -/
def stateLoad (S : Follower) : Follower :=
  match S.stateFile with
  | none => { S with replid := str "?", applied := 0, durable := 0 }
  | some (replid, applied, durable) => { S with replid := replid, applied := applied, durable := durable }

/-- `repl_slave_set_sync_state`. -/
def setSyncState (replid : Bytes) (applied durable : ℕ) (loading : Bool) (S : Follower) : Follower :=
  stateSave { S with
    replid := if replid = [] then S.replid else replid
    applied := applied, durable := durable, loading := loading }

/-- The offsets in `repl_slave_finish_fullsync`, with the data that were loaded. -/
def finishFullsync (db : Db) (S : Follower) : Follower :=
  stateSave { S with
    loading := false, durable := max S.durable S.applied, db := db, aof := persistAofRebase S.aof }

/-- `repl_slave_note_applied`, outside full-sync loading. -/
def noteApplied (rawlen : ℕ) (S : Follower) : Follower :=
  if S.loading then S else stateSave { S with applied := S.applied + rawlen }

/-- `repl_slave_note_durable`. -/
def noteDurable (S : Follower) : Follower :=
  if S.loading then S
  else if S.durable < S.applied then stateSave { S with durable := S.applied } else S

/-- The append-only file takes a command of a client. -/
def append (raw : Bytes) (S : Follower) : Follower :=
  match persistAppendPrepare raw S.aof with
  | none => S
  | some A => { S with aof := A }

/-- The append-only file takes a command of the link, and what is applied is noted as durable. -/
def appendDurable (raw : Bytes) (S : Follower) : Follower :=
  match persistAppendPrepare raw S.aof with
  | none => S
  | some A => noteDurable { S with aof := A }

/-- What `handle_parsed_command` does after a write of the engine section that succeeded. -/
def logWrite (fromReplication : Bool) (raw : Bytes) (S : Follower) : Follower :=
  if fromReplication then (if S.loading then S else S.appendDurable raw).noteApplied raw.length
  else (if S.ebpfTcp then S.noteApplied raw.length else S).append raw

/-- A command at the time `now`. -/
def command (now : ℤ) (fromReplication : Bool) (argv : List Bytes) (raw : Bytes) (S : Follower) : Follower :=
  let o := exec now S.db (decode argv)
  let S := { S with db := o.db, count := S.count + 1 }
  if o.wrote && (decode argv).engineWrite then S.logWrite fromReplication raw else S

/-- What the parser has read from the link. -/
def handle (clock : ℕ → ℤ) (S : Follower) : Event → Follower
  | .command argv raw => S.command (clock S.count) true argv raw
  | .control (.fullResync replid offset _ _) => S.setSyncState replid offset offset true
  | .control (.continue replid _) => S.setSyncState replid S.applied S.durable false
  | _ => S

/-- What happens to it. -/
inductive Input where
  | link (clock : ℕ → ℤ) (e : Event)
  | client (now : ℤ) (argv : List Bytes) (raw : Bytes)
  | finish (db : Db)
  | restart (db : Db)

/-- A step. -/
def step (S : Follower) : Input → Follower
  | .link clock e => S.handle clock e
  -- without `ebpf+tcp` a replica answers a write of a client with `read only slave`
  | .client now argv raw => if S.ebpfTcp then S.command now false argv raw else S
  | .finish db => S.finishFullsync db
  | .restart db => stateLoad { S with loading := false, db := db }

/-! ### Offsets -/

lemma loading_command {now : ℤ} {fromReplication : Bool} (S : Follower) :
    (S.command now fromReplication argv raw).loading = S.loading := by
  unfold command logWrite appendDurable append noteApplied noteDurable stateSave
  simp only
  split_ifs <;> (try split) <;> rfl

/-- The durable offset is not beyond the applied one, also in the state file. -/
structure Ordered (S : Follower) : Prop where
  offsets : S.durable ≤ S.applied
  saved : ∀ x ∈ S.stateFile, x.2.2 ≤ x.2.1

lemma Ordered.save (h : S.durable ≤ S.applied) : S.stateSave.Ordered :=
  ⟨h, fun x hx => by
    obtain rfl := Option.mem_some_iff.mp hx
    exact h⟩

section

variable (h : S.Ordered)
include h

lemma Ordered.noteApplied (rawlen : ℕ) : (S.noteApplied rawlen).Ordered := by
  unfold Follower.noteApplied
  split
  · exact h
  · exact .save (Nat.le_add_right_of_le h.offsets)

lemma Ordered.noteDurable : S.noteDurable.Ordered := by
  unfold Follower.noteDurable
  split
  · exact h
  split
  · exact .save (Nat.le_refl _)
  · exact h

lemma Ordered.append (raw : Bytes) : (S.append raw).Ordered := by
  unfold Follower.append
  split
  · exact h
  · exact ⟨h.offsets, h.saved⟩

lemma Ordered.appendDurable (raw : Bytes) : (S.appendDurable raw).Ordered := by
  unfold Follower.appendDurable
  split
  · exact h
  · rename_i A _
    have hA : Ordered { S with aof := A } := ⟨h.offsets, h.saved⟩
    exact hA.noteDurable

lemma Ordered.logWrite (fromReplication : Bool) (raw : Bytes) : (S.logWrite fromReplication raw).Ordered := by
  unfold Follower.logWrite
  split
  · split
    · exact h.noteApplied _
    · exact (h.appendDurable raw).noteApplied _
  · split
    · exact (h.noteApplied _).append raw
    · exact h.append raw

lemma Ordered.command (now : ℤ) (fromReplication : Bool) (argv : List Bytes)
    (raw : Bytes) : (S.command now fromReplication argv raw).Ordered := by
  have hdb (db : Db) (n : ℕ) : Ordered { S with db := db, count := n } := ⟨h.offsets, h.saved⟩
  unfold Follower.command
  simp only
  split
  · exact (hdb _ _).logWrite fromReplication raw
  · exact hdb _ _

lemma Ordered.step (i : Input) : (S.step i).Ordered := by
  cases i with
  | link clock e =>
    cases e with
    | command argv raw => exact h.command _ _ _ _
    | reply text => exact h
    | control c =>
      cases c with
      | fullResync replid offset target tid => exact .save (Nat.le_refl _)
      | «continue» replid endOffset => exact .save h.offsets
      | _ => exact h
  | client now argv raw =>
    simp only [Follower.step]
    split
    · exact h.command _ _ _ _
    · exact h
  | finish db => exact .save (max_le h.offsets (Nat.le_refl _))
  | restart db =>
    simp only [Follower.step, stateLoad]
    split
    · exact ⟨Nat.le_refl _, h.saved⟩
    · rename_i x hx
      exact ⟨h.saved _ hx, h.saved⟩

end

lemma loading_handle (clock : ℕ → ℤ) (S : Follower) (e : Event) (h : (S.handle clock e).loading = true) :
    S.loading = true ∨ e.startsLoading = true := by
  cases e with
  | command argv raw =>
    left
    rwa [handle, loading_command] at h
  | reply text => exact .inl h
  | control c =>
    cases c with
    | fullResync replid offset target tid => exact .inr rfl
    | «continue» replid endOffset => cases h
    | _ => exact .inl h

end Follower

/-- The replica, for the parser. -/
def followerHooks (clock : ℕ → ℤ) : Hooks Follower where
  loading := Follower.loading
  intercept := fun S _ => (S, none)
  handle := Follower.handle clock
  start := Follower.loading_handle clock

/-! ### Segments of the stream -/

/-- A command in the stream. -/
structure StreamCmd where
  argv : List Bytes
  raw : Bytes

/-- A client that sends the bytes sends the command. -/
def StreamCmd.Parsed (w : StreamCmd) : Prop :=
  respStep clientLink w.raw = .take w.raw.length [.command w.argv w.raw]

instance (w : StreamCmd) : Decidable w.Parsed := inferInstanceAs (Decidable (_ = _))

/-- What the master executed and counted: a write of the engine section, parsed from a client's bytes. -/
structure StreamCmd.Counted (w : StreamCmd) : Prop where
  parsed : w.Parsed
  write : (decode w.argv).engineWrite = true

/-- The bytes of the stream. -/
def streamBytes (ws : List StreamCmd) : Bytes := (ws.map (·.raw)).flatten

/-- What the parser reads. -/
def StreamCmd.event (w : StreamCmd) : Event := .command w.argv w.raw

lemma respStep_slaveLink {xs : Bytes} {n : ℕ}
    (h : respStep clientLink xs = .take n [.command argv raw]) :
    respStep slaveLink xs = .take n [.command argv raw] ∧ xs.head? ≠ some 43 :=
  ⟨respStep_command slaveLink h, head_of_command h⟩

section

variable {ws : List StreamCmd}

/-- The bytes of each command, with what is read. -/
def pieces (ws : List StreamCmd) : List (Bytes × List Event) := ws.map fun w => (w.raw, [w.event])

lemma streamBytes_eq (ws : List StreamCmd) : streamBytes ws = ((pieces ws).map (·.1)).flatten := by
  simp [streamBytes, pieces, Function.comp_def]

section

variable (hws : ∀ w ∈ ws, w.Parsed)
include hws

lemma pieces_decided : ∀ x ∈ pieces ws, (respScanner slaveLink).step x.1 = .take x.1.length x.2 := by
  intro x hx
  obtain ⟨w, hw, rfl⟩ := mem_map.mp hx
  exact (respStep_slaveLink (hws w hw)).1

lemma run_streamBytes : (respScanner slaveLink).run (streamBytes ws) = (ws.map StreamCmd.event, []) := by
  rw [streamBytes_eq, Scanner.run_flatten (respStep_stable slaveLink) (pieces_decided hws)]
  simp only [pieces, flatMap_map]
  exact congrArg (·, []) (map_eq_flatMap ..).symm

lemma not_insidePlusLine {p : Bytes} (hp : p <+: streamBytes ws) : ¬ InsidePlusLine slaveLink p := by
  rintro ⟨hhead, -⟩
  rw [streamBytes_eq] at hp
  rcases Scanner.run_rest_of_prefix (respStep_stable slaveLink) (pieces_decided hws) hp with hnil | ⟨x, hx, hpre⟩
  · simp [hnil] at hhead
  · obtain ⟨w, hw, rfl⟩ := mem_map.mp hx
    obtain ⟨q, hq⟩ := hpre
    refine (respStep_slaveLink (hws w hw)).2 ?_
    rw [show w.raw = _ from hq.symm, head?_append, hhead]
    rfl

end

/-- The replica takes a command. -/
def consume (clock : ℕ → ℤ) (S : Follower) (w : StreamCmd) : Follower :=
  S.command (clock S.count) true w.argv w.raw

lemma recvLoop_segment (clock : ℕ → ℤ) (hl : S.loading = false) (hws : ∀ w ∈ ws, w.Counted)
    {cs : List Bytes} (hcs : cs.flatten = streamBytes ws) :
    (recvLoop (followerHooks clock) slaveLink S [] cs).1 = ws.foldl (consume clock) S ∧
      (recvLoop (followerHooks clock) slaveLink S [] cs).2.2 = [] := by
  have hparsed : ∀ w ∈ ws, w.Parsed := fun w hw => (hws w hw).parsed
  have hrun := run_streamBytes hparsed
  have hout : OutsideLoading (followerHooks clock) slaveLink S
      ((respScanner slaveLink).run cs.flatten).1 := by
    rw [hcs, hrun]
    refine outsideLoading_of_no_start hl fun e he => ?_
    obtain ⟨w, -, rfl⟩ := mem_map.mp he
    rfl
  have hcut : ∀ i < cs.length, ¬ InsidePlusLine slaveLink (cs.take i).flatten := by
    intro i _
    refine not_insidePlusLine hparsed (hcs ▸ ⟨(cs.drop i).flatten, ?_⟩)
    rw [← flatten_append, take_append_drop]
  rw [recvLoop_whole hout hcut, hcs, Scanner.call, hrun, foldl_map]
  exact ⟨rfl, rfl⟩

/-! ### What a segment counts -/

/-- The command succeeds on the data that it finds. -/
def succeedsNext (clock : ℕ → ℤ) (S : Follower) (w : StreamCmd) : Bool :=
  (decode w.argv).succeeds (clock S.count) S.db

lemma applied_appendDurable (S : Follower) (raw : Bytes) :
    (S.appendDurable raw).applied = S.applied ∧ (S.appendDurable raw).loading = S.loading := by
  unfold Follower.appendDurable
  split
  · exact ⟨rfl, rfl⟩
  · unfold Follower.noteDurable
    split
    · exact ⟨rfl, rfl⟩
    · split <;> exact ⟨rfl, rfl⟩

lemma applied_logWrite (hl : S.loading = false) (raw : Bytes) :
    (S.logWrite true raw).applied = S.applied + raw.length := by
  obtain ⟨happlied, hloading⟩ := applied_appendDurable S raw
  rw [Follower.logWrite, if_pos rfl, if_neg (by simp [hl]), Follower.noteApplied, if_neg (by simp [hloading, hl])]
  exact congrArg (· + raw.length) happlied

variable (clock : ℕ → ℤ)
include clock

lemma consume_applied {w : StreamCmd} (hw : w.Counted) (hl : S.loading = false) :
    (consume clock S w).applied = S.applied + if succeedsNext clock S w then w.raw.length else 0 := by
  have hwrote : (exec (clock S.count) S.db (decode w.argv)).wrote = true ↔ _ := exec_wrote_iff hw.write
  unfold consume Follower.command
  simp only [hw.write, Bool.and_true]
  cases hs : succeedsNext clock S w with
  | false =>
    rw [if_neg (fun h => by simp [succeedsNext, hwrote.mp h] at hs)]
    rfl
  | true =>
    rw [if_pos (hwrote.mpr hs)]
    exact applied_logWrite (by exact hl) w.raw

lemma loading_consume (S : Follower) (w : StreamCmd) :
    (consume clock S w).loading = S.loading := Follower.loading_command S

lemma applied_foldl_le (hl : S.loading = false) (hws : ∀ w ∈ ws, w.Counted) :
    (ws.foldl (consume clock) S).applied ≤ S.applied + (streamBytes ws).length := by
  induction ws generalizing S with
  | nil => simp [streamBytes]
  | cons w ws ih =>
    have hrest := ih ((loading_consume clock S w).trans hl) fun w hw => hws w (.tail _ hw)
    have hone := consume_applied clock (hws w (.head _)) hl
    simp only [streamBytes, List.foldl_cons, map_cons, flatten_cons, length_append] at hrest ⊢
    split at hone <;> omega

lemma applied_foldl_iff (hl : S.loading = false) (hws : ∀ w ∈ ws, w.Counted) :
    (ws.foldl (consume clock) S).applied = S.applied + (streamBytes ws).length ↔
      GuardedRun (consume clock) (fun S w => succeedsNext clock S w = true) S ws := by
  induction ws generalizing S with
  | nil => simp [streamBytes, GuardedRun]
  | cons w ws ih =>
    have hcounted := fun w hw => hws w (.tail _ hw)
    have hl' : (consume clock S w).loading = false := (loading_consume clock S w).trans hl
    have hle := applied_foldl_le clock hl' hcounted
    have hone := consume_applied clock (hws w (.head _)) hl
    have hraw : 0 < w.raw.length := (respStep_stable clientLink).pos (hws w (.head _)).parsed
    rw [GuardedRun, ← ih hl' hcounted]
    simp only [streamBytes, List.foldl_cons, map_cons, flatten_cons, length_append] at hle ⊢
    cases hs : succeedsNext clock S w with
    | true =>
      rw [hs, if_pos rfl] at hone
      rw [hone, Nat.add_assoc]
      simp
    | false =>
      simp only [hs, Bool.false_eq_true, if_false, Nat.add_zero, false_and, iff_false] at hone ⊢
      omega

end

/-- **A segment of the stream advances the applied offset by its length** just if each of its commands succeeds on
the data that it finds; the durable offset is never beyond the applied one. -/
theorem slave_offset_iff (clock : ℕ → ℤ) (S : Follower) (hl : S.loading = false) (ws : List StreamCmd)
    (hws : ∀ w ∈ ws, w.Counted) (cs : List Bytes) (hcs : cs.flatten = streamBytes ws) :
    let T := recvLoop (followerHooks clock) slaveLink S [] cs
    T.2.2 = [] ∧
      (T.1.applied = S.applied + cs.flatten.length ↔
        GuardedRun (consume clock) (fun S w => succeedsNext clock S w = true) S ws) ∧
      ∀ (ebpfTcp : Bool) (is : List Follower.Input),
        (is.foldl Follower.step { ebpfTcp := ebpfTcp }).durable ≤
          (is.foldl Follower.step { ebpfTcp := ebpfTcp }).applied := by
  obtain ⟨hstate, hrest⟩ := recvLoop_segment clock hl hws hcs
  refine ⟨hrest, ?_, fun ebpfTcp is => ?_⟩
  · rw [hstate, hcs]
    exact applied_foldl_iff clock hl hws
  · have hinv : (is.foldl Follower.step { ebpfTcp := ebpfTcp }).Ordered :=
      List.foldlRecOn is _ ⟨Nat.le_refl 0, nofun⟩ fun S hS i _ => hS.step i
    exact hinv.offsets

/-- A key is made to last while it is there. -/
def persistInTime : List Request := [asks 0 "SETEX k 1 v", asks 900 "PERSIST k"]

/-- Its commands in the stream. -/
def persistSegment : List StreamCmd := ((({} : Master).writes persistInTime).map fun r => ⟨r.argv, r.raw⟩)

lemma persistSegment_counted : ∀ w ∈ persistSegment, w.Counted := by
  have hdecided : ∀ w ∈ persistSegment, w.Parsed ∧ (decode w.argv).engineWrite = true := by decide
  exact fun w hw => ⟨(hdecided w hw).1, (hdecided w hw).2⟩

/-- The replica executes the commands as soon as the master does. -/
theorem slave_offset_prompt :
    (({} : Master).run persistInTime).offset = 24 ∧
      (recvLoop (followerHooks fun n => 900 * n) slaveLink {} []
        [str "SETEX k 1", str " v\r\nPERSIST k\r\n"]).1.applied = 24 := by
  refine ⟨by decide, ?_⟩
  have hcs : [str "SETEX k 1", str " v\r\nPERSIST k\r\n"].flatten = streamBytes persistSegment := by decide
  exact (slave_offset_iff (fun n => 900 * n) {} rfl persistSegment persistSegment_counted _ hcs).2.1.mpr
    (by decide)

/-- The second command comes later than a second after the first: its key has gone, it fails and is not counted. -/
theorem slave_offset_lags :
    (({} : Master).run persistInTime).offset = 24 ∧
      (recvLoop (followerHooks fun n => 1100 * n) slaveLink {} [] [streamBytes persistSegment]).1.applied = 13 ∧
      (recvLoop (followerHooks fun n => 1100 * n) slaveLink {} [] [streamBytes persistSegment]).2.2 = [] := by
  decide

end PocketKv.Replication
