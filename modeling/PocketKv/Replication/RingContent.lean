import PocketKv.Library.Run
import PocketKv.Replication.Backlog

/-!
# What the backlog's ring holds
-/

namespace PocketKv.Replication

open Library Resp List

/-- `repl_backlog_write_range` into the out ring; `false` stands for -1. -/
def ReplBacklog.writeRange (off : ℕ) (B : ReplBacklog) (out : Bytes) : Bytes × Bool :=
  match B.ring with
  | none => (out, false)
  | some r =>
    if off < B.startOffset ∨ B.endOffset < off then (out, false)
    else
      let first := r.len - (off - B.startOffset)
      if first = 0 then (out, true) else replSendParts (r.blocks (off - B.startOffset) first) out

/-- The backlog, with what was fed since the last reset and the base of this. -/
structure RingRun where
  backlog : ReplBacklog
  base : ℕ
  stream : Bytes

/-- The calls. -/
inductive RingCall where
  /-- `repl_backlog_feed`. -/
  | feed (attached alloc : Bool) (offset : ℕ) (raw : Bytes)
  /-- `repl_backlog_reset`. -/
  | reset (base : ℕ)

namespace RingRun

/-- Without a replica nothing is fed. -/
def step (S : RingRun) : RingCall → RingRun
  | .feed attached alloc offset raw =>
    { S with
      backlog := S.backlog.feed attached alloc offset raw
      stream := if attached then S.stream ++ raw else S.stream }
  | .reset base => ⟨S.backlog.reset base, base, []⟩

/-- A new ring. -/
def start (cells : ℕ → UInt8) (cap base : ℕ) : RingRun where
  backlog := { ring := some ⟨cells, cap, 0, 0⟩, startOffset := base, endOffset := base }
  base := base
  stream := []

/-- The ring holds the end of the stream. -/
structure Holds (cap : ℕ) (S : RingRun) (r : RingBuffer UInt8) : Prop where
  ring : S.backlog.ring = some r
  valid : r.Valid
  capacity : r.cap = cap
  len : r.len = min cap S.stream.length
  contents : r.contents = S.stream.drop (S.stream.length - r.len)
  endOffset : S.backlog.endOffset = S.base + S.stream.length
  startOffset : S.backlog.startOffset = S.backlog.endOffset - r.len

/-- The ring and its readers are exact. -/
structure Exact (cap : ℕ) (S : RingRun) : Prop where
  holds : ∃ r, S.Holds cap r
  /-- `repl_backlog_copy_range`. -/
  copied : ∀ off, S.backlog.startOffset ≤ off → off ≤ S.backlog.endOffset →
    S.backlog.copyRange off = some (S.stream.drop (off - S.base))
  /-- `repl_backlog_write_range`, as far as the out ring has room. -/
  written : ∀ off out, S.backlog.startOffset ≤ off → off ≤ S.backlog.endOffset →
    Queued out (S.stream.drop (off - S.base)) (S.backlog.writeRange off out)
  /-- `repl_backlog_write_range_upto`, as far as the out ring has room. -/
  writtenUpto : ∀ off upto out, S.backlog.startOffset ≤ off → off ≤ S.backlog.endOffset →
    Queued out ((S.stream.drop (off - S.base)).take (min upto S.backlog.endOffset - off))
      (S.backlog.writeRangeUpto id off upto out)

section Steps

variable {cap : ℕ} {S : RingRun} {r : RingBuffer UInt8} {raw : Bytes}

lemma Holds.read (h : S.Holds cap r) {off n : ℕ} (hstart : S.backlog.startOffset ≤ off)
    (hend : off + n ≤ S.backlog.endOffset) :
    r.read (off - S.backlog.startOffset) n = (S.stream.drop (off - S.base)).take n := by
  have hlen := h.len
  have hstartOffset := h.startOffset
  have hendOffset := h.endOffset
  rw [RingBuffer.read_eq h.valid (by omega), h.contents, drop_drop]
  congr 2
  omega

lemma Holds.exact (h : S.Holds cap r) : S.Exact cap := by
  have hlen := h.len
  have hstartOffset := h.startOffset
  have hendOffset := h.endOffset
  have htail (off : ℕ) (hstart : S.backlog.startOffset ≤ off) (hend : off ≤ S.backlog.endOffset) :
      r.read (off - S.backlog.startOffset) (r.len - (off - S.backlog.startOffset)) = S.stream.drop (off - S.base) := by
    rw [h.read hstart (by omega), take_of_length_le (by rw [length_drop]; omega)]
  refine ⟨⟨r, h⟩, fun off hstart hend => ?_, fun off out hstart hend => ?_, fun off upto out hstart hend => ?_⟩
  · simp only [ReplBacklog.copyRange, h.ring]
    rw [if_neg (by omega), htail off hstart hend]
  · rw [← htail off hstart hend]
    simp only [ReplBacklog.writeRange, h.ring]
    rw [if_neg (by omega)]
    split
    · rename_i hzero
      rw [hzero, h.read hstart (by omega), take_zero]
      exact .nil out
    · exact queued_replSendParts _ out
  · simp only [ReplBacklog.writeRangeUpto, h.ring]
    rw [if_neg (by omega)]
    split
    · rename_i hle
      rw [Nat.sub_eq_zero_of_le hle, take_zero]
      exact .nil out
    · rw [← h.read hstart (by omega), List.map_id_fun, List.map_id, RingBuffer.read]
      exact queued_replSendParts _ out

lemma start_holds (cells : ℕ → UInt8) {cap : ℕ} (base : ℕ) (hcap : 0 < cap) :
    (start cells cap base).Holds cap ⟨cells, cap, 0, 0⟩ :=
  ⟨rfl, ⟨hcap, Nat.zero_le _⟩, rfl, (Nat.min_zero cap).symm, rfl, rfl, rfl⟩

lemma Holds.reset (h : S.Holds cap r) (base : ℕ) : (S.step (.reset base)).Holds cap r.clear where
  ring := by simp [step, ReplBacklog.reset, h.ring]
  valid := h.valid.clear
  capacity := h.capacity
  len := (Nat.min_zero cap).symm
  contents := rfl
  endOffset := rfl
  startOffset := rfl

lemma step_attached (S : RingRun) (alloc : Bool) (offset : ℕ) (raw : Bytes) :
    S.step (.feed true alloc offset raw) =
      { S with backlog := S.backlog.feed true alloc offset raw, stream := S.stream ++ raw } := rfl

lemma Holds.skip (h : S.Holds cap r) (hne : raw ≠ []) (alloc : Bool) (offset : ℕ) :
    (S.step (.feed false alloc offset raw)).Holds cap r := by
  have hstep : S.step (.feed false alloc offset raw) =
      { S with backlog := { S.backlog with contiguous := false } } := by
    simp [step, ReplBacklog.feed, hne]
  rw [hstep]
  exact { h with }

lemma Holds.feed_eq (h : S.Holds cap r) (hne : raw ≠ []) (alloc : Bool) (offset : ℕ) :
    S.backlog.feed true alloc offset raw = S.backlog.put r raw := by
  simp [ReplBacklog.feed, hne, ReplBacklog.ensure, h.ring]

lemma Holds.write (h : S.Holds cap r) (hne : raw ≠ []) (hlt : raw.length < cap) (alloc : Bool)
    (offset : ℕ) : (S.step (.feed true alloc offset raw)).Holds cap (r.write raw) := by
  have hlen := h.len
  have hcap := h.capacity
  have hfeed := h.feed_eq hne alloc offset
  have hput : S.backlog.put r raw = { S.backlog with
      ring := some (r.write raw), endOffset := S.backlog.endOffset + raw.length
      startOffset := S.backlog.endOffset + raw.length - (r.write raw).len } := by
    rw [ReplBacklog.put, if_neg (by omega)]
  have hlength := RingBuffer.len_write r raw
  refine ⟨?_, h.valid.write raw, (RingBuffer.cap_write r raw).trans hcap, ?_, ?_, ?_, ?_⟩
  · simp only [step_attached, hfeed, hput]
  · simp only [step_attached, length_append]
    omega
  · rw [RingBuffer.contents_write h.valid (by omega), h.contents]
    simp only [step_attached]
    rw [← drop_append_of_le_length (by omega), drop_drop]
    congr 1
    rw [length_append]
    omega
  · simp only [step_attached, hfeed, hput, h.endOffset, length_append]
    omega
  · simp only [step_attached, hfeed, hput]

lemma Holds.fill (h : S.Holds cap r) (hne : raw ≠ []) (heq : raw.length = cap) (alloc : Bool)
    (offset : ℕ) : (S.step (.feed true alloc offset raw)).Holds cap (r.fill raw) := by
  have hcap := h.capacity
  have hfeed := h.feed_eq hne alloc offset
  have hput : S.backlog.put r raw = { S.backlog with
      ring := some (r.fill raw), endOffset := S.backlog.endOffset + r.cap
      startOffset := S.backlog.endOffset + r.cap - (r.fill raw).len } := by
    rw [ReplBacklog.put, if_pos (by omega), show raw.length - r.cap = 0 by omega, drop_zero]
    rfl
  have hlen : (r.fill raw).len = raw.length := rfl
  refine ⟨?_, h.valid.fill (by omega), hcap, ?_, ?_, ?_, ?_⟩
  · simp only [step_attached, hfeed, hput]
  · simp only [step_attached, length_append, hlen]
    omega
  · rw [RingBuffer.contents_fill (by omega), hlen]
    simp [step_attached]
  · simp only [step_attached, hfeed, hput, h.endOffset, length_append]
    omega
  · simp only [step_attached, hfeed, hput]

/-- The feed is not longer than the ring. -/
def Sized (cap : ℕ) : RingCall → Prop
  | .feed attached _ _ raw => attached = true → raw.length ≤ cap
  | .reset _ => True

lemma Exact.step_iff (h : S.Exact cap) (i : RingCall) : Sized cap i ↔ (S.step i).Exact cap := by
  obtain ⟨r, hr⟩ := h.holds
  cases i with
  | reset base => exact iff_of_true trivial (hr.reset base).exact
  | feed attached alloc offset raw =>
    by_cases hnil : raw = []
    · subst hnil
      refine iff_of_true (fun _ => Nat.zero_le _) ?_
      have hsame : S.step (.feed attached alloc offset []) = S := by simp [step, ReplBacklog.feed]
      rwa [hsame]
    cases attached with
    | false =>
      refine iff_of_true (by simp [Sized]) (hr.skip hnil alloc offset).exact
    | true =>
      rcases lt_trichotomy raw.length cap with hlt | heq | hgt
      · exact iff_of_true (fun _ => hlt.le) (hr.write hnil hlt alloc offset).exact
      · exact iff_of_true (fun _ => heq.le) (hr.fill hnil heq alloc offset).exact
      · -- only the bytes that are kept are counted
        refine iff_of_false (by simp [Sized, hgt]) fun hexact => ?_
        obtain ⟨r', hr'⟩ := hexact.holds
        have hcap := hr.capacity
        have hend := hr'.endOffset
        simp only [step_attached, ReplBacklog.feed, if_neg hnil, Bool.not_true, Bool.false_eq_true, if_false,
          ReplBacklog.ensure, hr.ring, ReplBacklog.put, length_append] at hend
        rw [if_pos (by omega)] at hend
        have := hr.endOffset
        have hfill : (r.fill (raw.drop (raw.length - r.cap))).cap = r.cap := rfl
        simp only [hfill] at hend
        omega

end Steps

end RingRun

/-- **The ring holds the end of the stream** all along a run, and the readers return it, those that send it as far as
the out ring has room, just if no feed is longer than the ring. -/
theorem ring_exact_iff (cells : ℕ → UInt8) (cap base : ℕ) (hcap : 0 < cap) (calls : List RingCall) :
    (∀ js, js <+: calls → (js.foldl RingRun.step (.start cells cap base)).Exact cap) ↔
      ∀ i ∈ calls, RingRun.Sized cap i := by
  have hstart : (RingRun.start cells cap base).Exact cap := (RingRun.start_holds cells base hcap).exact
  have hstep (S : RingRun) (i : RingCall) (_ : True) (_ : True) (h : S.Exact cap) :
      RingRun.Sized cap i ↔ (S.step i).Exact cap := h.step_iff i
  have hkeep (S : RingRun) (i : RingCall) (_ : True) (_ : True) : True := trivial
  have hrun := GuardedRun.iff_forall_prefix hkeep hstep trivial hstart (.of_forall (fun _ _ => trivial) _ calls)
  exact hrun.symm.trans GuardedRun.const_iff

/-- Two feeds that wrap around a ring of four bytes, and a reset between them. -/
def fourBytes : List RingCall :=
  [.feed true true 0 (str "abc"), .feed true true 0 (str "de"), .reset 7, .feed true true 0 (str "fghi")]

theorem ring_exact_four :
    (∀ i ∈ fourBytes, RingRun.Sized 4 i) ∧
      (fourBytes.foldl RingRun.step (.start (fun _ => 0) 4 2)).Exact 4 := by
  have hsized : ∀ i ∈ fourBytes, RingRun.Sized 4 i := by
    intro i hi
    simp only [fourBytes, mem_cons, not_mem_nil, or_false] at hi
    rcases hi with rfl | rfl | rfl | rfl
    · exact fun _ => by decide
    · exact fun _ => by decide
    · trivial
    · exact fun _ => by decide
  exact ⟨hsized, (ring_exact_iff (fun _ => 0) 4 2 (by decide) fourBytes).mpr hsized fourBytes (prefix_refl _)⟩

/-- After six bytes have been fed to a ring of four the end is at the offset 4. -/
theorem oversize_miscounted :
    let S := (RingRun.start (fun _ => 0) 4 0).step (.feed true true 0 (str "abcdef"))
    S.stream.length = 6 ∧ S.backlog.endOffset = 4 ∧ S.backlog.copyRange 2 = some (str "ef") := by
  decide +kernel

end PocketKv.Replication
