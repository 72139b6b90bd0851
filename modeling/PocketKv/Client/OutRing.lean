import PocketKv.Client.Output
import PocketKv.Library.RingBuffer

/-!
# The output ring
-/

namespace PocketKv.Client

open Library Resp List

/-- `out_ring`, `out_ring_head`, `out_ring_tail` and `out_ring_len` of a `conn_t`. -/
structure ConnRing where
  cells : ℕ → UInt8
  head : ℕ := 0
  tail : ℕ := 0
  len : ℕ := 0

/-- What a call of `send` returns; it takes no more than it is given. -/
inductive SendResult where
  | sent (n : ℕ)
  /-- `EAGAIN`. -/
  | again
  | failed

namespace ConnRing

/-- `queue_bytes`; `false` stands for -1. -/
def queueBytes (c : ConnRing) (buf : Bytes) : Bool × ConnRing :=
  if buf = [] then (false, c)
  else if outRingSize - c.len < buf.length then (false, c)
  else
    let first := outRingSize - c.tail
    let cells :=
      if buf.length ≤ first then blit c.cells c.tail buf
      else blit (blit c.cells c.tail (buf.take first)) 0 (buf.drop first)
    (true, ⟨cells, c.head, (c.tail + buf.length) &&& (outRingSize - 1), c.len + buf.length⟩)

/-- `on_write`: also the bytes sent, and whether the connection is closed. After the results listed the socket takes
no more. -/
def onWrite : List SendResult → ConnRing → ConnRing × Bytes × Bool
  | [], c => (c, [], false)
  | r :: rs, c =>
    if c.len = 0 then (c, [], false)
    else
      match r with
      | .failed => (c, [], true)
      | .again => (c, [], false)
      | .sent n =>
        let w := min n (min (outRingSize - c.head) c.len)
        if w = 0 then (c, [], false)
        else
          let (c', out, closed) := onWrite rs { c with head := (c.head + w) &&& (outRingSize - 1), len := c.len - w }
          (c', block c.cells c.head w ++ out, closed)

/-- The ring of the library. -/
def toRing (c : ConnRing) : RingBuffer UInt8 := ⟨c.cells, outRingSize, c.head, c.len⟩

/-- The bytes in the ring. -/
def contents (c : ConnRing) : Bytes := c.toRing.contents

/-- `head`, `tail` and the length fit together. -/
structure Ok (c : ConnRing) : Prop where
  valid : c.toRing.Valid
  tail : c.tail = (c.head + c.len) % outRingSize

variable {c : ConnRing}

lemma mask_eq (x : ℕ) : x &&& (outRingSize - 1) = x % outRingSize := Nat.and_two_pow_sub_one_eq_mod x 18

lemma queueBytes_refused (buf : Bytes) (h : (c.queueBytes buf).1 = false) : (c.queueBytes buf).2 = c := by
  unfold queueBytes at h ⊢
  split
  · rfl
  · rename_i hne
    rw [if_neg hne] at h
    split
    · rfl
    · rename_i hroom
      rw [if_neg hroom] at h
      cases h

lemma toRing_queueBytes (h : c.Ok) {buf : Bytes} (hok : (c.queueBytes buf).1 = true) :
    (c.queueBytes buf).2.Ok ∧ (c.queueBytes buf).2.contents = c.contents ++ buf := by
  unfold queueBytes at hok ⊢
  split at hok
  · cases hok
  split at hok
  · cases hok
  rename_i hne hroom
  have hlen : c.len ≤ outRingSize := h.valid.len
  have hfits : c.toRing.len + buf.length ≤ c.toRing.cap := show c.len + buf.length ≤ outRingSize by omega
  rw [if_neg hne, if_neg hroom]
  dsimp only
  set c' : ConnRing := ⟨_, c.head, _, c.len + buf.length⟩ with hc'
  -- the two copies are those of the library, which has an empty second one
  have hring : c'.toRing = c.toRing.write buf := by
    have htail : (c.toRing.head + c.toRing.len) % c.toRing.cap = c.tail := h.tail.symm
    rw [RingBuffer.write, if_pos hfits, htail]
    rcases le_or_gt buf.length (outRingSize - c.tail) with hfirst | hfirst
    · have hmin : min (c.toRing.cap - c.tail) buf.length = buf.length := min_eq_right hfirst
      simp only [hmin, take_length, lt_irrefl, if_false, hc', if_pos hfirst]
      rfl
    · have hmin : min (c.toRing.cap - c.tail) buf.length = outRingSize - c.tail := min_eq_left hfirst.le
      simp only [hmin, if_pos hfirst, hc', if_neg (not_le.mpr hfirst)]
      rfl
  refine ⟨⟨hring ▸ h.valid.write buf, ?_⟩, ?_⟩
  · simp only [hc', mask_eq, h.tail, Nat.mod_add_mod, Nat.add_assoc]
  · rw [contents, hring, RingBuffer.contents_write h.valid (by omega), Nat.sub_eq_zero_of_le hfits, drop_zero]
    rfl

lemma contents_queueBytes (h : c.Ok) (buf : Bytes) :
    Resp.queueBytes buf c.contents =
      if (c.queueBytes buf).1 then some (c.queueBytes buf).2.contents else none := by
  have hlen : c.contents.length = c.len := RingBuffer.length_contents _
  by_cases hdrop : buf = [] ∨ outRingSize - c.len < buf.length
  · have hrefused : (c.queueBytes buf).1 = false := by
      rcases hdrop with hnil | hfull
      · simp only [queueBytes, if_pos hnil]
      · simp only [queueBytes, if_pos hfull, ite_self]
    rw [queueBytes_eq_none (hlen.symm ▸ hdrop), hrefused, if_neg Bool.false_ne_true]
  · obtain ⟨hne, hroom⟩ := not_or.mp hdrop
    have hok : (c.queueBytes buf).1 = true := by rw [queueBytes, if_neg hne, if_neg hroom]
    rw [(toRing_queueBytes h hok).2, queueBytes_eq_some hne (by omega), if_pos hok]

lemma onWrite_spec (rs : List SendResult) (h : c.Ok) :
    (onWrite rs c).1.Ok ∧ (onWrite rs c).2.1 ++ (onWrite rs c).1.contents = c.contents := by
  induction rs generalizing c with
  | nil => exact ⟨h, rfl⟩
  | cons r rs ih =>
    unfold onWrite
    split
    · exact ⟨h, rfl⟩
    cases r with
    | failed => exact ⟨h, rfl⟩
    | again => exact ⟨h, rfl⟩
    | sent n =>
      dsimp only
      generalize hw : min n (min (outRingSize - c.head) c.len) = w
      split
      · exact ⟨h, rfl⟩
      have hhead : c.head < outRingSize := h.valid.head
      set c' : ConnRing := { c with head := (c.head + w) &&& (outRingSize - 1), len := c.len - w } with hc'
      have hring : c'.toRing = c.toRing.skip w := by simp only [hc', toRing, RingBuffer.skip, mask_eq]
      have hnext : c'.Ok := by
        refine ⟨hring ▸ h.valid.skip w, ?_⟩
        simp only [hc', mask_eq, Nat.mod_add_mod, h.tail]
        congr 1
        omega
      obtain ⟨hok, hsent⟩ := ih hnext
      refine ⟨hok, ?_⟩
      have hblock : block c.cells c.head w = c.contents.take w :=
        RingBuffer.block_head h.valid (show w ≤ c.len by omega) (show c.head + w ≤ outRingSize by omega)
      rw [append_assoc, hsent, contents, hring, RingBuffer.contents_skip, hblock]
      exact take_append_drop _ _

end ConnRing

/-- A connection, with what was sent and accepted. -/
structure OutRun where
  conn : ConnRing
  sent : Bytes := []
  /-- The buffers for which `queue_bytes` returned 0. -/
  accepted : Bytes := []
  closed : Bool := false

/-- The calls. -/
inductive OutInput where
  | queue (buf : Bytes)
  | write (rs : List SendResult)

/-- A call. -/
def OutRun.step (S : OutRun) : OutInput → OutRun
  | .queue buf =>
    if S.closed then S
    else
      let (ok, conn) := S.conn.queueBytes buf
      { S with conn := conn, accepted := if ok then S.accepted ++ buf else S.accepted }
  | .write rs =>
    if S.closed then S
    else
      let (conn, out, closed) := S.conn.onWrite rs
      { S with conn := conn, sent := S.sent ++ out, closed := closed }

/-- What was accepted is sent or in the ring. -/
structure OutRun.Ok (S : OutRun) : Prop where
  conn : S.conn.Ok
  stream : S.sent ++ S.conn.contents = S.accepted

lemma OutRun.Ok.step {S : OutRun} (h : S.Ok) (i : OutInput) : (S.step i).Ok := by
  cases i with
  | queue buf =>
    simp only [OutRun.step]
    split
    · exact h
    cases hok : (S.conn.queueBytes buf).1 with
    | false =>
      rw [ConnRing.queueBytes_refused buf hok]
      exact ⟨h.conn, h.stream⟩
    | true =>
      obtain ⟨hconn, hcontents⟩ := ConnRing.toRing_queueBytes h.conn hok
      refine ⟨hconn, ?_⟩
      rw [hcontents, ← append_assoc, h.stream, if_pos rfl]
  | write rs =>
    simp only [OutRun.step]
    split
    · exact h
    obtain ⟨hconn, hsent⟩ := ConnRing.onWrite_spec rs h.conn
    refine ⟨hconn, ?_⟩
    rw [append_assoc, hsent, h.stream]

/-- **The output ring is a queue**: whatever is queued, and however much of it each `send` takes, the bytes sent and then
those in the ring from `head` on are the accepted buffers in order; `head`, `tail` and the length fit together, and a
buffer that is refused leaves the ring as it was. -/
theorem out_ring_fifo (memory : ℕ → UInt8) (is : List OutInput) :
    let S := is.foldl OutRun.step { conn := { cells := memory } }
    S.sent ++ S.conn.contents = S.accepted ∧ S.conn.head < outRingSize ∧ S.conn.len ≤ outRingSize ∧
      S.conn.tail = (S.conn.head + S.conn.len) % outRingSize ∧
      ∀ buf, (S.conn.queueBytes buf).1 = false → (S.conn.queueBytes buf).2 = S.conn := by
  have hstart : OutRun.Ok { conn := { cells := memory } } := ⟨⟨⟨show 0 < outRingSize by decide, Nat.zero_le _⟩, rfl⟩, rfl⟩
  have h := foldlRecOn is OutRun.step hstart fun S hS i _ => hS.step i
  exact ⟨h.stream, h.conn.valid.head, h.conn.valid.len, h.conn.tail, ConnRing.queueBytes_refused⟩

end PocketKv.Client
