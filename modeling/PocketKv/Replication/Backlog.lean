import PocketKv.Library.RingBuffer
import PocketKv.Replication.Broadcast
import PocketKv.Replication.Sending
import PocketKv.Resp.Build

/-!
# The backlog and partial synchronisation
-/

namespace PocketKv.Replication

open Library Resp List Option

variable {H : History} {off : ℕ} {bytes stream raw replid : Bytes} {B : Backlog} {α : Type*}

/-! ### The ring -/

/-- `g_repl_backlog` and `g_repl_backlog_contiguous`. -/
structure ReplBacklog where
  /-- `buf`, `cap`, `head` and `histlen`, once the ring is allocated. -/
  ring : Option (RingBuffer UInt8) := none
  /-- `start_offset`. -/
  startOffset : ℕ := 0
  /-- `end_offset`. -/
  endOffset : ℕ := 0
  /-- `g_repl_backlog_contiguous`. -/
  contiguous : Bool := true

namespace ReplBacklog

/-- The ring that `ensure_repl_backlog` allocates. -/
def newRing : RingBuffer UInt8 := ⟨fun _ => 0, replBacklogSize, 0, 0⟩

/-- `ensure_repl_backlog`, with the ring; `alloc` tells whether `kvs_malloc` returns memory. -/
def ensure (alloc : Bool) (offset : ℕ) (B : ReplBacklog) : Option (RingBuffer UInt8 × ReplBacklog) :=
  match B.ring with
  | some r => some (r, B)
  | none =>
    if alloc then
      some (newRing, { B with ring := some newRing, startOffset := offset, endOffset := offset })
    else none

/-- `repl_backlog_reset`. -/
def reset (base : ℕ) (B : ReplBacklog) : ReplBacklog where
  ring := B.ring.map RingBuffer.clear
  startOffset := base
  endOffset := base
  contiguous := true

/-- Of too many bytes the last ones are kept, and only these are counted. -/
def put (r : RingBuffer UInt8) (raw : Bytes) (B : ReplBacklog) : ReplBacklog :=
  if r.cap ≤ raw.length then
    let r := r.fill (raw.drop (raw.length - r.cap))
    { B with ring := some r, endOffset := B.endOffset + r.cap, startOffset := B.endOffset + r.cap - r.len }
  else
    let r := r.write raw
    { B with
      ring := some r, endOffset := B.endOffset + raw.length
      startOffset := B.endOffset + raw.length - r.len }

/-- `repl_backlog_feed`. -/
def feed (attached alloc : Bool) (offset : ℕ) (raw : Bytes) (B : ReplBacklog) : ReplBacklog :=
  if raw = [] then B
  else if !attached then { B with contiguous := false }
  else
    match B.ensure alloc offset with
    | none => B
    | some (r, B) => B.put r raw

/-- `repl_backlog_can_continue`, on a master with this identity and offset. -/
def canContinue (masterId : Bytes) (masterOffset : ℕ) (replid : Bytes) (off : ℕ) (B : ReplBacklog) : Bool :=
  decide (replid = masterId) && B.ring.isSome && B.contiguous && masterOffset ≤ B.endOffset &&
    off ≤ B.endOffset && B.startOffset ≤ off

/-- `repl_backlog_write_range_upto` into the out ring, which holds `mark b` for a byte `b` of the backlog; `false`
stands for -1. -/
def writeRangeUpto (mark : UInt8 → α) (off upto : ℕ) (B : ReplBacklog) (ring : List α) : List α × Bool :=
  match B.ring with
  | none => (ring, false)
  | some r =>
    if off < B.startOffset ∨ B.endOffset < off then (ring, false)
    else
      let upto := min upto B.endOffset
      if upto ≤ off then (ring, true)
      else replSendParts ((r.blocks (off - B.startOffset) (upto - off)).map (List.map mark)) ring

/-- `repl_backlog_copy_range`: the bytes from the offset on, unless it returns -1. -/
def copyRange (off : ℕ) (B : ReplBacklog) : Option Bytes :=
  match B.ring with
  | none => none
  | some r =>
    if off < B.startOffset ∨ B.endOffset < off then none
    else some (r.read (off - B.startOffset) (r.len - (off - B.startOffset)))

/-- The line before a replay up to this offset. -/
def continueLine (masterId : Bytes) (upto : ℕ) : Bytes := plusLine [str "CONTINUE", masterId, decimal upto]

/-- `repl_backlog_send_continue_upto` into the out ring, which holds `header b` for a byte `b` of the line; `false`
stands for -1. -/
def sendContinueUpto (header mark : UInt8 → α) (masterId : Bytes) (off upto : ℕ) (B : ReplBacklog) (ring : List α) :
    List α × Bool :=
  if B.ring.isNone ∨ off < B.startOffset ∨ B.endOffset < off then (ring, false)
  else
    let upto := max (min upto B.endOffset) off
    match replSendChunked ((continueLine masterId upto).map header) ring with
    | (ring, false) => (ring, false)
    | (ring, true) => B.writeRangeUpto mark off upto ring

/-! ### The ring as a list -/

/-- The ring as a list. -/
def toBacklog (B : ReplBacklog) : Backlog where
  ready := B.ring.isSome
  hist := (B.ring.map RingBuffer.contents).getD []
  start := B.startOffset
  contiguous := B.contiguous

/-- The ring and the offsets fit together. -/
structure Ok (B : ReplBacklog) : Prop where
  ring : ∀ r ∈ B.ring, r.Valid ∧ r.cap = replBacklogSize
  span : B.endOffset = B.startOffset + B.toBacklog.hist.length

variable {B : ReplBacklog} {attached : Bool} {offset : ℕ} {r : RingBuffer UInt8}

lemma Ok.endOffset_eq (h : B.Ok) : B.toBacklog.endOffset = B.endOffset := h.span.symm

lemma newRing_valid : newRing.Valid := ⟨by decide, Nat.zero_le _⟩

lemma Ok.reset (h : B.Ok) (base : ℕ) : (B.reset base).Ok := by
  cases hr : B.ring with
  | none => exact ⟨by simp [ReplBacklog.reset, hr], by simp [ReplBacklog.reset, toBacklog, hr]⟩
  | some r =>
    obtain ⟨hvalid, hcap⟩ := h.ring r hr
    refine ⟨?_, by simp [ReplBacklog.reset, toBacklog, hr]⟩
    simp only [ReplBacklog.reset, hr, map_some, mem_def, Option.some.injEq]
    rintro _ rfl
    exact ⟨hvalid.clear, hcap⟩

lemma toBacklog_reset (B : ReplBacklog) (base : ℕ) :
    (B.reset base).toBacklog = { B.toBacklog with hist := [], start := base, contiguous := true } := by
  cases hr : B.ring <;> simp [ReplBacklog.reset, toBacklog, hr]

lemma ensure_spec (h : B.Ok) {alloc : Bool} {B' : ReplBacklog}
    (he : B.ensure alloc offset = some (r, B')) :
    B'.ring = some r ∧ B'.Ok ∧ B'.toBacklog = B.toBacklog.ensure offset := by
  unfold ReplBacklog.ensure at he
  split at he
  · rename_i r₀ hr
    cases he
    exact ⟨hr, h, by simp [Backlog.ensure, toBacklog, hr]⟩
  · rename_i hr
    split at he
    · cases he
      refine ⟨rfl, ⟨?_, rfl⟩, by simp [Backlog.ensure, toBacklog, hr, newRing, RingBuffer.contents]⟩
      rintro _ ⟨⟩
      exact ⟨newRing_valid, rfl⟩
    · cases he

/-- What `put` does to the list. -/
def fed (raw : Bytes) (B : Backlog) : Backlog :=
  if replBacklogSize ≤ raw.length then
    { B with hist := raw.drop (raw.length - replBacklogSize), start := B.endOffset }
  else
    { B with
      hist := (B.hist ++ raw).drop (B.hist.length + raw.length - replBacklogSize)
      start := B.endOffset + raw.length -
        ((B.hist ++ raw).drop (B.hist.length + raw.length - replBacklogSize)).length }

lemma put_spec (hr : B.ring = some r) (h : B.Ok) :
    (B.put r raw).Ok ∧ (B.put r raw).toBacklog = fed raw B.toBacklog := by
  obtain ⟨hvalid, hcap⟩ := h.ring r hr
  have hend := h.endOffset_eq
  have hhist : B.toBacklog.hist = r.contents := by simp [toBacklog, hr]
  unfold put fed
  rw [← hcap]
  split
  · have hlen : (raw.drop (raw.length - r.cap)).length = r.cap := by
      rw [length_drop]
      omega
    have hcontents := RingBuffer.contents_fill hlen
    have hfill : (r.fill (raw.drop (raw.length - r.cap))).len = r.cap := hlen
    refine ⟨⟨?_, ?_⟩, ?_⟩
    · rintro _ ⟨⟩
      exact ⟨hvalid.fill hlen, hcap⟩
    · simp only [toBacklog, map_some, getD_some, hcontents, hlen, hfill]
      exact (Nat.sub_add_cancel (Nat.le_add_left _ _)).symm
    · rw [hend]
      simp only [toBacklog, map_some, getD_some, hcontents, isSome_some, hr, hfill]
      rw [show (r.fill (raw.drop (raw.length - r.cap))).cap = r.cap from rfl, Nat.add_sub_cancel]
  · have hlt : raw.length < r.cap := by omega
    have hcontents := RingBuffer.contents_write hvalid hlt.le
    refine ⟨⟨?_, ?_⟩, ?_⟩
    · rintro _ ⟨⟩
      exact ⟨hvalid.write raw, (RingBuffer.cap_write r raw).trans hcap⟩
    · have hlen := RingBuffer.len_write r raw
      have hspan := h.span
      rw [hhist, RingBuffer.length_contents] at hspan
      simp only [toBacklog, map_some, getD_some, RingBuffer.length_contents]
      omega
    · rw [hhist, RingBuffer.length_contents, ← hcontents, RingBuffer.length_contents, hend]
      simp [toBacklog, hr]

lemma replBacklogFeed_eq (hne : raw ≠ []) (offset : ℕ) (B : Backlog) :
    replBacklogFeed true offset raw B = fed raw (B.ensure offset) := by
  rw [replBacklogFeed, if_neg hne, if_neg (by simp)]
  rfl

lemma toBacklog_feed (h : B.Ok) :
    (B.feed attached true offset raw).toBacklog = replBacklogFeed attached offset raw B.toBacklog := by
  by_cases hne : raw = []
  · rw [feed, replBacklogFeed, if_pos hne, if_pos hne]
  cases attached with
  | false =>
    rw [feed, replBacklogFeed, if_neg hne, if_neg hne]
    rfl
  | true =>
    rw [feed, replBacklogFeed_eq hne, if_neg hne, if_neg (by simp)]
    cases he : B.ensure true offset with
    | none =>
      unfold ReplBacklog.ensure at he
      split at he <;> simp at he
    | some x =>
      obtain ⟨hr, hok, heq⟩ := ensure_spec h he
      rw [← heq]
      exact (put_spec hr hok).2

lemma Ok.feed (h : B.Ok) (alloc : Bool) : (B.feed attached alloc offset raw).Ok := by
  unfold ReplBacklog.feed
  split
  · exact h
  split
  · exact ⟨h.ring, h.span⟩
  split
  · exact h
  · rename_i r B' he
    obtain ⟨hr, hok, -⟩ := ensure_spec h he
    exact (put_spec hr hok).1

lemma queued_writeRangeUpto (h : B.Ok) (hr : B.ring.isSome = true) {upto : ℕ} (hstart : B.startOffset ≤ off)
    (hle : off ≤ upto) (hend : upto ≤ B.endOffset) (mark : UInt8 → α) (ring : List α) :
    Queued ring (((B.toBacklog.hist.drop (off - B.startOffset)).take (upto - off)).map mark)
      (B.writeRangeUpto mark off upto ring) := by
  obtain ⟨r, hring⟩ := Option.isSome_iff_exists.mp hr
  have hspan := h.span
  have hhist : B.toBacklog.hist = r.contents := by simp [toBacklog, hring]
  rw [hhist] at hspan ⊢
  rw [RingBuffer.length_contents] at hspan
  unfold writeRangeUpto
  rw [hring]
  simp only
  rw [if_neg (by omega), Nat.min_eq_left hend]
  split
  · rw [show upto - off = 0 by omega, take_zero, map_nil]
    exact .nil ring
  · rw [← RingBuffer.read_eq (h.ring r hring).1 (by omega), RingBuffer.read, map_flatten]
    exact queued_replSendParts _ ring

lemma Ok.exists_ring (h : B.Ok) (hlt : B.startOffset < B.endOffset) : ∃ r, B.ring = some r := by
  cases hring : B.ring with
  | some r => exact ⟨r, rfl⟩
  | none =>
    have hspan := h.span
    simp only [toBacklog, hring, map_none, getD_none, length_nil] at hspan
    omega

lemma Ok.exists_copyRange (h : B.Ok) (hlt : B.startOffset < B.endOffset) (hstart : B.startOffset ≤ off)
    (hend : off ≤ B.endOffset) : ∃ bytes, B.copyRange off = some bytes := by
  obtain ⟨r, hring⟩ := h.exists_ring hlt
  simp only [copyRange, hring]
  rw [if_neg (by omega)]
  exact ⟨_, rfl⟩

lemma isSome_ring_of_copyRange (hcopy : B.copyRange off = some bytes) : B.ring.isSome = true := by
  unfold copyRange at hcopy
  split at hcopy
  · cases hcopy
  · rename_i r hr
    rw [hr]
    rfl

lemma copyRange_eq (h : B.Ok) (hcopy : B.copyRange off = some bytes) :
    B.startOffset ≤ off ∧ off + bytes.length = B.endOffset ∧
      bytes = B.toBacklog.hist.drop (off - B.startOffset) := by
  unfold copyRange at hcopy
  split at hcopy
  · cases hcopy
  rename_i r hring
  have hspan := h.span
  have hhist : B.toBacklog.hist = r.contents := by simp [toBacklog, hring]
  rw [hhist, RingBuffer.length_contents] at hspan
  split at hcopy
  · cases hcopy
  rename_i hrange
  rw [RingBuffer.read_eq (h.ring r hring).1 (by omega), take_of_length_le (by simp)] at hcopy
  cases hcopy
  refine ⟨by omega, ?_, by rw [hhist]⟩
  rw [length_drop, RingBuffer.length_contents]
  omega

end ReplBacklog

/-! ### The master's history -/

/-- The master, with all that it has counted. -/
structure History where
  /-- `g_master_replid`. -/
  replid : Bytes
  /-- `g_master_repl_offset`. -/
  offset : ℕ := 0
  /-- `g_replicas`. -/
  replicas : List ℕ := []
  backlog : ReplBacklog := {}
  stream : Bytes := []

namespace History

/-- What happens on the master. -/
inductive Input where
  /-- `repl_add_slave`. -/
  | attach (c : ℕ)
  /-- `repl_unlink_replica_locked`. -/
  | detach (c : ℕ)
  /-- `repl_backlog_feed` and `repl_note_broadcast` of a write; `alloc` tells whether there is memory for
  the ring. -/
  | write (raw : Bytes) (alloc : Bool)
  /-- `queue_snapshot` for a full synchronisation, from the master's offset. -/
  | fullsync
  deriving DecidableEq

/-- What happens to it. -/
def step (H : History) : Input → History
  | .attach c => if c ∈ H.replicas then H else { H with replicas := c :: H.replicas }
  | .detach c => { H with replicas := H.replicas.erase c }
  | .write raw alloc =>
    { H with
      backlog := H.backlog.feed (!H.replicas.isEmpty) alloc H.offset raw
      offset := H.offset + raw.length
      stream := H.stream ++ raw }
  | .fullsync => { H with backlog := H.backlog.reset H.offset }

/-- `repl_backlog_can_continue`. -/
def canContinue (H : History) (replid : Bytes) (off : ℕ) : Bool :=
  H.backlog.canContinue H.replid H.offset replid off

/-- `repl_backlog_send_continue_upto`. -/
def sendContinueUpto (header mark : UInt8 → α) (H : History) (off upto : ℕ) (ring : List α) : List α × Bool :=
  H.backlog.sendContinueUpto header mark H.replid off upto ring

/-- Several inputs. -/
def run (H : History) (is : List Input) : History := is.foldl step H

/-- The list holds the end of the stream, if it is in use, unbroken, and comes up to the offset. -/
structure Tracks (stream : Bytes) (B : Backlog) : Prop where
  le : B.ready = true → B.endOffset ≤ stream.length
  hist : B.ready = true → B.contiguous = true → B.endOffset = stream.length → B.hist = stream.drop B.start

lemma Tracks.ensure {stream : Bytes} (h : Tracks stream B) : Tracks stream (B.ensure stream.length) := by
  unfold Backlog.ensure
  split
  · exact h
  · exact ⟨fun _ => by simp [Backlog.endOffset], fun _ _ _ => by simp⟩

lemma Tracks.fed (hready : B.ready = true) (hne : raw ≠ [])
    (h : Tracks stream B) : Tracks (stream ++ raw) (ReplBacklog.fed raw B) := by
  have hle := h.le hready
  have hpos := length_pos_of_ne_nil hne
  unfold ReplBacklog.fed
  split
  · rename_i hbig
    refine ⟨fun _ => ?_, fun _ _ hend => ?_⟩
    · simp only [Backlog.endOffset, length_append, length_drop] at hle ⊢
      omega
    · -- the ring is exactly filled
      simp only [Backlog.endOffset, length_append, length_drop] at hle hend
      have hzero : raw.length - replBacklogSize = 0 := by omega
      have hstart : B.start + B.hist.length = stream.length := by omega
      simp [hzero, Backlog.endOffset, hstart]
  · rename_i hsmall
    set k := B.hist.length + raw.length - replBacklogSize with hk
    have hlen : ((B.hist ++ raw).drop k).length = B.hist.length + raw.length - k := by simp
    refine ⟨fun _ => ?_, fun _ hcont hend => ?_⟩
    · simp only [Backlog.endOffset, length_append] at hle hlen ⊢
      omega
    · simp only [Backlog.endOffset, length_append, hlen] at hle hend
      have heq : B.endOffset = stream.length := by
        simp only [Backlog.endOffset]
        omega
      have hhist := h.hist hready hcont heq
      have hstart : B.start ≤ stream.length := by
        simp only [Backlog.endOffset] at heq
        omega
      rw [hlen, show B.endOffset + raw.length - (B.hist.length + raw.length - k) = B.start + k by
        simp only [Backlog.endOffset]; omega, ← drop_drop, drop_append_of_le_length hstart, ← hhist]

lemma Tracks.feed {attached : Bool} (h : Tracks stream B) :
    Tracks (stream ++ raw) (replBacklogFeed attached stream.length raw B) := by
  by_cases hnil : raw = []
  · rw [hnil, append_nil, replBacklogFeed, if_pos rfl]
    exact h
  cases attached with
  | false =>
    rw [replBacklogFeed, if_neg hnil, if_pos (by rfl)]
    exact ⟨fun hready => (h.le hready).trans (by simp), fun _ hcont => by cases hcont⟩
  | true =>
    have hready : (B.ensure stream.length).ready = true := by
      unfold Backlog.ensure
      split
      · assumption
      · rfl
    rw [ReplBacklog.replBacklogFeed_eq hnil]
    exact h.ensure.fed hready hnil

/-- The invariant of the runs. -/
structure Ok (H : History) : Prop where
  offset : H.offset = H.stream.length
  backlog : H.backlog.Ok
  tracks : Tracks H.stream H.backlog.toBacklog

lemma Ok.step (h : H.Ok) (i : Input) : (H.step i).Ok := by
  cases i with
  | attach c =>
    unfold History.step
    dsimp only
    split
    · exact h
    · exact { h with }
  | detach c => exact { h with }
  | write raw alloc =>
    refine ⟨by simp [History.step, h.offset], h.backlog.feed alloc, ?_⟩
    simp only [History.step]
    rw [h.offset]
    cases alloc with
    | true =>
      rw [ReplBacklog.toBacklog_feed h.backlog]
      exact h.tracks.feed
    | false =>
      cases hr : H.backlog.ring with
      | some r =>
        -- the ring is there already
        have hsame : H.backlog.feed (!H.replicas.isEmpty) false H.stream.length raw =
            H.backlog.feed (!H.replicas.isEmpty) true H.stream.length raw := by
          simp [ReplBacklog.feed, ReplBacklog.ensure, hr]
        rw [hsame, ReplBacklog.toBacklog_feed h.backlog]
        exact h.tracks.feed
      | none =>
        have hnone : (H.backlog.feed (!H.replicas.isEmpty) false H.stream.length raw).toBacklog.ready = false := by
          unfold ReplBacklog.feed ReplBacklog.ensure
          rw [hr]
          split
          · simp [ReplBacklog.toBacklog, hr]
          split <;> simp [ReplBacklog.toBacklog, hr]
        exact ⟨fun hready => by simp [hnone] at hready, fun hready => by simp [hnone] at hready⟩
  | fullsync =>
    refine ⟨h.offset, h.backlog.reset _, ?_⟩
    simp only [History.step]
    rw [ReplBacklog.toBacklog_reset, h.offset]
    exact ⟨fun _ => by simp [Backlog.endOffset], fun _ _ _ => by simp⟩

lemma ok_start (replid : Bytes) : Ok { replid := replid } :=
  ⟨rfl, ⟨by simp, rfl⟩, ⟨nofun, nofun⟩⟩

lemma Ok.run (h : H.Ok) (is : List Input) : (H.run is).Ok := by
  induction is generalizing H with
  | nil => exact h
  | cons i is ih => exact ih (h.step i)

/-- The backlog has no gap. -/
structure UpToDate (H : History) : Prop where
  contiguous : H.backlog.contiguous = true
  endOffset : H.backlog.ring.isSome = true → H.backlog.endOffset = H.offset

lemma Ok.upToDate_of_canContinue (h : H.Ok)
    (hcan : H.canContinue replid off = true) :
    H.UpToDate ∧ H.backlog.ring.isSome = true ∧ H.backlog.startOffset ≤ off ∧ off ≤ H.offset := by
  simp only [History.canContinue, ReplBacklog.canContinue, Bool.and_eq_true, decide_eq_true_eq] at hcan
  obtain ⟨⟨⟨⟨⟨-, hring⟩, hcont⟩, hmaster⟩, hoff⟩, hstart⟩ := hcan
  have hle := h.tracks.le hring
  rw [h.backlog.endOffset_eq, ← h.offset] at hle
  exact ⟨⟨hcont, fun _ => le_antisymm hle hmaster⟩, hring, hstart, hoff.trans hle⟩

lemma UpToDate.hist (h : H.UpToDate) (hok : H.Ok) (hring : H.backlog.ring.isSome = true) :
    H.backlog.toBacklog.hist = H.stream.drop H.backlog.startOffset :=
  hok.tracks.hist hring h.contiguous (by rw [hok.backlog.endOffset_eq, h.endOffset hring, hok.offset])

lemma UpToDate.copyRange_eq (h : H.UpToDate) (hok : H.Ok)
    (hcopy : H.backlog.copyRange off = some bytes) :
    bytes = H.stream.drop off ∧ off + bytes.length = H.stream.length := by
  obtain ⟨hstart, hlen, hbytes⟩ := ReplBacklog.copyRange_eq hok.backlog hcopy
  have hring := ReplBacklog.isSome_ring_of_copyRange hcopy
  rw [h.endOffset hring, hok.offset] at hlen
  rw [h.hist hok hring, drop_drop, Nat.add_sub_cancel' hstart] at hbytes
  exact ⟨hbytes, hlen⟩

lemma Ok.queued_sendContinueUpto (h : H.Ok) (hcan : H.canContinue replid off = true) (header mark : UInt8 → α)
    (ring : List α) :
    Queued ring ((ReplBacklog.continueLine H.replid H.offset).map header ++ (H.stream.drop off).map mark)
      (H.sendContinueUpto header mark off H.offset ring) := by
  obtain ⟨hup, hring, hstart, hoff⟩ := h.upToDate_of_canContinue hcan
  have heq := hup.endOffset hring
  have hline := queued_replSendChunked ((ReplBacklog.continueLine H.replid H.offset).map header) ring
  have hreplay := ReplBacklog.queued_writeRangeUpto h.backlog hring hstart hoff heq.ge mark
  rw [hup.hist h hring, drop_drop, Nat.add_sub_cancel' hstart,
    take_of_length_le (by rw [length_drop, h.offset])] at hreplay
  unfold History.sendContinueUpto ReplBacklog.sendContinueUpto
  have hsome : ¬ (H.backlog.ring.isNone = true ∨ off < H.backlog.startOffset ∨ H.backlog.endOffset < off) := by
    rintro (h | h)
    · simp [Option.isNone_iff_eq_none.mp h] at hring
    · omega
  rw [if_neg hsome, heq, Nat.min_self, Nat.max_eq_left hoff]
  dsimp only
  generalize replSendChunked ((ReplBacklog.continueLine H.replid H.offset).map header) ring = res at hline
  obtain ⟨ring', ok⟩ := res
  cases ok with
  | false => exact hline.refused _
  | true => exact hline.append (hreplay ring')

end History

open History

/-- **Partial synchronisation is sound as far as the out ring has room**: in every state that is reached, if
`repl_backlog_can_continue` is true of an offset, it is not past the master's, and
`repl_backlog_send_continue_upto` queues the line and the bytes counted since, in order, up to some point; it queues
all of them, and returns 0, just if there is room. -/
theorem partial_resync_sound (masterId : Bytes) (is : List Input) (replid : Bytes) (off : ℕ) (ring : Bytes)
    (h : (History.run { replid := masterId } is).canContinue replid off = true) :
    let H := History.run { replid := masterId } is
    let answer := ReplBacklog.continueLine H.replid H.offset ++ H.stream.drop off
    off ≤ H.offset ∧ H.stream.length = H.offset ∧
      (∃ sent, sent <+: answer ∧ (H.sendContinueUpto id id off H.offset ring).1 = ring ++ sent) ∧
      (H.sendContinueUpto id id off H.offset ring = (ring ++ answer, true) ↔
        ring.length + answer.length ≤ outRingSize) := by
  have hok := (ok_start masterId).run is
  generalize History.run { replid := masterId } is = H at h hok
  obtain ⟨-, -, -, hoff⟩ := hok.upToDate_of_canContinue h
  have hqueued := hok.queued_sendContinueUpto h id id ring
  simp only [List.map_id] at hqueued
  have hline : ReplBacklog.continueLine H.replid H.offset ++ H.stream.drop off ≠ [] := by
    simp [ReplBacklog.continueLine, plusLine]
  refine ⟨hoff, hok.offset.symm, hqueued.sent, ?_⟩
  rw [← (hqueued.all.trans (or_iff_right hline))]
  exact ⟨fun hall => by rw [hall], fun hall => Prod.ext (hqueued.whole hall) hall⟩

/-- A write without a replica, a full synchronisation, two writes with the replica attached. -/
def afterGap : List Input :=
  [.write (str "SET a 1\n") true, .attach 1, .fullsync, .write (str "SET b 2\n") true, .write (str "DEL a\n") true]

theorem partial_resync_sound_after_gap :
    let H := History.run { replid := str "id" } afterGap
    H.canContinue (str "id") 16 = true ∧
      H.sendContinueUpto id id 16 H.offset [] =
        (ReplBacklog.continueLine H.replid H.offset ++ H.stream.drop 16, true) :=
  ⟨by decide, (partial_resync_sound (str "id") afterGap (str "id") 16 [] (by decide)).2.2.2.mpr (by decide)⟩

/-- Two replicas, of which one leaves; a write of so many bytes that the other gets. -/
def longGap (n : ℕ) : List Input :=
  [.attach 1, .attach 2, .fullsync, .detach 2, .write (replicate n 0) true]

lemma run_longGap (masterId : Bytes) {n : ℕ} (hpos : 0 < n) (hn : n < replBacklogSize) :
    History.run { replid := masterId } (longGap n) =
      { replid := masterId, offset := n, replicas := [1], stream := replicate n 0
        backlog := { ring := some (ReplBacklog.newRing.write (replicate n 0)), endOffset := n } } := by
  have hne : replicate n (0 : UInt8) ≠ [] := by simp [hpos.ne']
  have hlen : (ReplBacklog.newRing.write (replicate n 0)).len = n := by
    rw [RingBuffer.len_write, length_replicate, ReplBacklog.newRing, Nat.zero_add, min_eq_left hn.le]
  have hput : ¬ ReplBacklog.newRing.cap ≤ n := not_le.mpr hn
  -- before the write nothing has been fed
  change History.step { replid := masterId, replicas := [1] } (.write (replicate n 0) true) = _
  simp [History.step, ReplBacklog.feed, hne, ReplBacklog.ensure, ReplBacklog.put, hput, hlen]

lemma sendContinueUpto_longGap (masterId : Bytes) {n : ℕ} (hlong : outRingSize ≤ n) (hn : n < replBacklogSize)
    (hline : (ReplBacklog.continueLine masterId n).length ≤ outRingSize) :
    let H := History.run { replid := masterId } (longGap n)
    H.sendContinueUpto id id 0 H.offset [] = (ReplBacklog.continueLine masterId n, false) := by
  have hpos : 0 < n := hlong.trans_lt' (by decide)
  have hhead := queued_replSendChunked (ReplBacklog.continueLine masterId n) []
  have hsome : (replSendChunked (ReplBacklog.continueLine masterId n) []).2 = true :=
    hhead.all.mpr (.inr (by simpa using hline))
  have hsent : replSendChunked (ReplBacklog.continueLine masterId n) [] =
      (ReplBacklog.continueLine masterId n, true) := Prod.ext (hhead.whole hsome) hsome
  have hcont : 0 < (ReplBacklog.continueLine masterId n).length := by
    simp [ReplBacklog.continueLine, plusLine]
  rw [run_longGap masterId hpos hn]
  dsimp only
  have hblocks : (ReplBacklog.newRing.write (replicate n 0)).blocks 0 n =
      [block (ReplBacklog.newRing.write (replicate n 0)).cells 0 n] := by
    rw [RingBuffer.blocks, RingBuffer.head_write ReplBacklog.newRing_valid, RingBuffer.cap_write]
    simp [ReplBacklog.newRing, Nat.sub_eq_zero_of_le hn.le, hn.le]
  simp only [History.sendContinueUpto, ReplBacklog.sendContinueUpto, List.map_id, min_self, max_eq_left (Nat.zero_le n)]
  rw [if_neg (by simp), hsent]
  dsimp only
  simp only [ReplBacklog.writeRangeUpto, min_self]
  rw [if_neg (by simp), if_neg hpos.not_ge, Nat.sub_self, Nat.sub_zero, hblocks]
  simp only [map_cons, map_nil, List.map_id, replSendParts]
  -- the first chunk alone is as long as the ring
  have hlen : (block (ReplBacklog.newRing.write (replicate n 0)).cells 0 n).length = n := by simp [block]
  rw [replSendChunked_refused (ne_nil_of_length_pos (by omega))]
  rw [hlen, chunkCap]
  simp only [outRingSize, bufferCap] at hlong hline ⊢
  omega

/-- Of a gap of 300000 bytes nothing but the line is sent. -/
theorem long_gap_not_replayed :
    let H := History.run { replid := str "id" } (longGap 300000)
    H.canContinue (str "id") 0 = true ∧ H.stream.length = 300000 ∧
      H.sendContinueUpto id id 0 H.offset [] = (ReplBacklog.continueLine H.replid H.offset, false) := by
  have hrun := run_longGap (str "id") (n := 300000) (by decide) (by decide)
  have hsent := sendContinueUpto_longGap (str "id") (n := 300000) (by decide) (by decide) (by decide)
  refine ⟨?_, ?_, ?_⟩
  · rw [hrun]
    rfl
  · rw [hrun]
    exact length_replicate
  · rw [hsent, hrun]

end PocketKv.Replication
