import PocketKv.Resp.Bytes

/-!
# The forwarding queue
-/

namespace PocketKv.CommitGate

open Resp

/-- `MAX_PFWD_QUEUE_BYTES`. -/
def maxPfwdQueueBytes : ℕ := 64 * 1024 * 1024

/-- `PFWD_BATCH_MAX`. -/
def pfwdBatchMax : ℕ := 256

/-- `PFWD_BATCH_BYTES_MAX`. -/
def pfwdBatchBytesMax : ℕ := 512 * 1024

/-- `PFWD_BACKPRESSURE_HIGH`. -/
def pfwdBackpressureHigh : ℕ := 4 * 1024 * 1024

/-- `PFWD_BACKPRESSURE_LOW`. -/
def pfwdBackpressureLow : ℕ := 1024 * 1024

/-- The globals of the queue. -/
structure FwdQueue where
  /-- The nodes from `g_pfwd_head` on. -/
  nodes : List Bytes := []
  /-- `g_pfwd_bytes`. -/
  bytes : ℕ := 0
  /-- `g_fwdq_bp_state`. -/
  bpState : Bool := false
  /-- `g_pfwd_stop`. -/
  stop : Bool := false
  /-- `proxy_fwd_stop` has returned. -/
  ended : Bool := false
  /-- Not in the code: the nodes that were accepted, and those that have left. -/
  accepted : List Bytes := []
  left : List Bytes := []

/-- `g_inflight_bytes`: what is not yet sent of one batch. -/
abbrev Inflight := Fin (pfwdBatchBytesMax + 1)

/-- What the threads of the proxy do with the queue. -/
inductive FwdInput where
  /-- `proxy_fwd_enqueue`; `alloc`: `malloc` succeeds. -/
  | enqueue (buf : Bytes) (alloc : Bool) (inflight : Inflight)
  /-- The forwarding thread takes a batch; it has nothing in flight. -/
  | iterate
  /-- `proxy_fwd_drain_to_cache_or_discard`. -/
  | discard (inflight : Inflight)
  /-- `proxy_fwd_stop` sets the stop flag. -/
  | stop
  /-- The thread ends if it finds nothing to do, and `proxy_fwd_stop` returns. -/
  | join

/-- The loop that fills a batch, with the number of nodes that it may still take: the batch, and what is left. -/
def fillBatch : ℕ → ℕ → List Bytes → List Bytes × List Bytes
  | 0, _, nodes => ([], nodes)
  | _, _, [] => ([], [])
  | n + 1, batchBytes, b :: nodes =>
    if batchBytes + b.length ≤ pfwdBatchBytesMax then (fillBatch n (batchBytes + b.length) nodes).map (b :: ·) id
    else ([], b :: nodes)

lemma fillBatch_spec (n batchBytes : ℕ) (nodes : List Bytes) (hle : batchBytes ≤ pfwdBatchBytesMax) :
    let r := fillBatch n batchBytes nodes
    nodes = r.1 ++ r.2 ∧ r.1.length ≤ n ∧ batchBytes + r.1.flatten.length ≤ pfwdBatchBytesMax ∧
      (r.1 = [] ↔ n = 0 ∨ nodes = [] ∨ ∃ b ∈ nodes.head?, pfwdBatchBytesMax < batchBytes + b.length) := by
  fun_induction fillBatch n batchBytes nodes with
  | case1 batchBytes nodes => simp [hle]
  | case2 n batchBytes hn => simp [hle]
  | case3 n batchBytes b nodes hfits ih =>
    obtain ⟨hnodes, hn, hmax, -⟩ := ih hfits
    exact ⟨by simp [← hnodes], by simpa using hn, by simpa [add_assoc] using hmax, by simp [hfits]⟩
  | case4 n batchBytes b nodes hfits => exact ⟨rfl, by simp, by simp [hle], by simp [not_le.mp hfits]⟩

namespace FwdQueue

variable {S : FwdQueue}

/-- `fwdq_set_backpressure_locked`. -/
def setBackpressure (S : FwdQueue) (inflight : ℕ) : FwdQueue :=
  { S with bpState := S.bpState || pfwdBackpressureHigh < S.bytes + inflight }

/-- `fwdq_clear_backpressure_locked`. -/
def clearBackpressure (S : FwdQueue) (inflight : ℕ) : FwdQueue :=
  { S with bpState := S.bpState && !(S.bytes + inflight < pfwdBackpressureLow : Bool) }

/-- The queue after a call. -/
def step (S : FwdQueue) : FwdInput → FwdQueue
  | .enqueue buf alloc inflight =>
    -- It waits for room, or returns -1.
    if maxPfwdQueueBytes < S.bytes + buf.length ∨ S.stop ∨ !alloc then S
    else
      { S with nodes := S.nodes ++ [buf], bytes := S.bytes + buf.length, accepted := S.accepted ++ [buf] }
        |>.setBackpressure inflight
  | .iterate =>
    let (batch, nodes) := fillBatch pfwdBatchMax 0 S.nodes
    if batch = [] then S
    else { S with nodes, bytes := S.bytes - batch.flatten.length, left := S.left ++ batch } |>.clearBackpressure 0
  | .discard inflight => { S with nodes := [], bytes := 0, left := S.left ++ S.nodes } |>.clearBackpressure inflight
  | .stop => { S with stop := true }
  | .join =>
    -- The flag of back-pressure stays as it is.
    if !S.stop || (fillBatch pfwdBatchMax 0 S.nodes).1 ≠ [] then S
    else { S with nodes := [], bytes := 0, left := S.left ++ S.nodes, ended := true }

/-- The state of the queue after any calls. -/
structure Sound (S : FwdQueue) : Prop where
  fifo : S.left ++ S.nodes = S.accepted
  bytes : S.bytes = S.nodes.flatten.length
  bound : S.bytes ≤ maxPfwdQueueBytes
  /-- Until `proxy_fwd_stop` returns, a raised flag has nodes behind it, whose sending clears it. -/
  raised : S.ended = false → S.bpState = true → pfwdBackpressureLow ≤ S.bytes
  clear : S.bpState = false → S.bytes ≤ pfwdBackpressureHigh

lemma Sound.clearBackpressure (h : S.Sound) {nodes left : List Bytes} (hfifo : left ++ nodes = S.accepted)
    (hle : nodes.flatten.length ≤ S.bytes) {inflight : Inflight} (hflight : nodes = [] ∨ inflight = 0) :
    ({ S with nodes, bytes := nodes.flatten.length, left }.clearBackpressure inflight).Sound := by
  have hclear := h.clear
  have hf : (inflight : ℕ) ≤ 512 * 1024 := Nat.le_of_lt_succ inflight.isLt
  have hsmall : nodes.flatten.length = 0 ∨ (inflight : ℕ) = 0 := by grind
  refine ⟨hfifo, rfl, hle.trans h.bound, ?_, ?_⟩ <;>
    grind [FwdQueue.clearBackpressure, pfwdBackpressureLow, pfwdBackpressureHigh]

lemma Sound.step (h : S.Sound) (i : FwdInput) : (S.step i).Sound := by
  cases i with
  | enqueue buf alloc inflight =>
    have hraised := h.raised
    rw [FwdQueue.step]
    split_ifs with hrefused
    · exact h
    · refine ⟨by simp [setBackpressure, ← h.fifo], by simp [setBackpressure, h.bytes], ?_, ?_, ?_⟩ <;>
      simp only [setBackpressure] <;> grind [pfwdBackpressureLow, pfwdBackpressureHigh, pfwdBatchBytesMax]
  | iterate =>
    have hnodes := (fillBatch_spec pfwdBatchMax 0 S.nodes (Nat.zero_le _)).1
    rw [FwdQueue.step]
    generalize fillBatch pfwdBatchMax 0 S.nodes = r at hnodes ⊢
    dsimp only
    split_ifs
    · exact h
    have hbytes : S.bytes = r.1.flatten.length + r.2.flatten.length := by rw [h.bytes, hnodes]; simp
    have hrest : S.bytes - r.1.flatten.length = r.2.flatten.length := by omega
    rw [hrest]
    exact h.clearBackpressure (by rw [List.append_assoc, ← hnodes, h.fifo]) (by omega) (.inr rfl)
  | discard inflight => exact h.clearBackpressure (by simpa using h.fifo) (Nat.zero_le _) (.inl rfl)
  | stop => exact { h with }
  | join =>
    rw [FwdQueue.step]
    split_ifs
    · exact h
    · exact ⟨by simpa using h.fifo, rfl, Nat.zero_le _, nofun, fun _ => Nat.zero_le _⟩

lemma fillBatch_eq_nil (nodes : List Bytes) : (fillBatch pfwdBatchMax 0 nodes).1 = [] ↔
    nodes = [] ∨ ∃ b ∈ nodes.head?, pfwdBatchBytesMax < b.length := by
  simpa [pfwdBatchMax] using (fillBatch_spec pfwdBatchMax 0 nodes (Nat.zero_le _)).2.2.2

lemma Sound.join_raised (h : S.Sound) (hstop : S.stop = true) (hended : S.ended = false) :
    ((S.step .join).nodes = [] ∧ (S.step .join).bpState = true) ↔
      S.bpState = true ∧ ∃ b ∈ S.nodes.head?, pfwdBatchBytesMax < b.length := by
  have hnonempty : S.bpState = true → S.nodes ≠ [] := by
    intro hbp hnil
    have hlow := h.raised hended hbp
    rw [h.bytes, hnil] at hlow
    exact absurd hlow (by decide)
  rw [FwdQueue.step, hstop]
  by_cases hbatch : (fillBatch pfwdBatchMax 0 S.nodes).1 = []
  · rw [if_neg (by simp [hbatch])]
    rcases (fillBatch_eq_nil S.nodes).mp hbatch with hnil | hlong
    · exact iff_of_false (fun hbp => hnonempty hbp.2 hnil) fun hbp => hnonempty hbp.1 hnil
    · exact ⟨fun hbp => ⟨hbp.2, hlong⟩, fun hbp => ⟨rfl, hbp.1⟩⟩
  · rw [if_pos (by simp [hbatch])]
    refine iff_of_false (fun hraised => hnonempty hraised.2 hraised.1) fun hraised => ?_
    exact hbatch ((fillBatch_eq_nil S.nodes).mpr (.inr hraised.2))

end FwdQueue

/-- **The forwarding queue.** After any calls it is a queue with exact counts, and the next batch is a prefix of it
within both bounds, empty only if the queue is or if its first node is longer than a batch may be. In this last case
`proxy_fwd_stop` leaves a raised flag raised, over the emptied queue, and in no other. -/
theorem fwd_queue_sound (is : List FwdInput) :
    let S := is.foldl FwdQueue.step {}
    S.Sound ∧ ∃ batch, S.nodes = batch ++ (S.step .iterate).nodes ∧ batch.length ≤ pfwdBatchMax ∧
      batch.flatten.length ≤ pfwdBatchBytesMax ∧
      (batch = [] ↔ S.nodes = [] ∨ ∃ b ∈ S.nodes.head?, pfwdBatchBytesMax < b.length) ∧
      (S.stop = true → S.ended = false →
        ((S.step .join).nodes = [] ∧ (S.step .join).bpState = true ↔
          S.bpState = true ∧ ∃ b ∈ S.nodes.head?, pfwdBatchBytesMax < b.length)) := by
  intro S
  have hsound : S.Sound :=
    List.foldlRecOn is _ ⟨rfl, rfl, Nat.zero_le _, nofun, fun _ => Nat.zero_le _⟩ fun S hS i _ => hS.step i
  obtain ⟨hnodes, hn, hmax, -⟩ := fillBatch_spec pfwdBatchMax 0 S.nodes (Nat.zero_le _)
  refine ⟨hsound, _, ?_, hn, by simpa using hmax, FwdQueue.fillBatch_eq_nil S.nodes, hsound.join_raised⟩
  rw [FwdQueue.step]
  dsimp only
  split_ifs with hempty
  · simp [hempty]
  · exact hnodes

end PocketKv.CommitGate
