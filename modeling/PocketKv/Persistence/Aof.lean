import PocketKv.Resp.Bytes

/-!
# The append-only file
-/

namespace PocketKv.Persistence

open Resp

/-- The append-only file, with what is on its way to it. -/
structure Aof where
  /-- `g_aof_disabled`. -/
  disabled : Bool := false
  /-- `g_aof_fd` is open. -/
  isOpen : Bool := true
  /-- The policy is `KVS_AOF_FSYNC_ALWAYS`. -/
  always : Bool := true
  /-- `g_persist_fatal_error`. -/
  fatal : Bool := false
  /-- `aof_fsync_sync`. -/
  sync : Bool := false
  /-- `aof_fsync_per_command`. -/
  perCommand : Bool := false
  /-- `g_persist_aof_registered`: the writing thread holds the file itself, not its descriptor. -/
  registered : Bool := true
  file : Bytes := []
  outstanding : List Bytes := []
  /-- `g_cur_slot`, or `g_aof_buf`: what was not handed over. -/
  cur : Bytes := []
  /-- `g_aof_write_offset`. -/
  writeOffset : ℕ := 0
  rewrite : Option (Bytes × Bytes) := none
  deriving DecidableEq

/-- `AOF_SLOT_MAX` and `AOF_BUF_MAX_SIZE`. -/
def aofSlotMax : ℕ := 4 * 1024 * 1024

/-- The slots in the order in which the kernel writes them: first those at the given positions, each
among the ones left by then, and after them the others as they were handed over. -/
def carriedOut : List ℕ → List Bytes → List Bytes
  | [], slots => slots
  | i :: order, slots =>
    match slots[i]? with
    | none => carriedOut order slots
    | some s => s :: carriedOut order (slots.eraseIdx i)

namespace Aof

/-- What has been appended, in the order of the commands. -/
def content (A : Aof) : Bytes := A.file ++ A.outstanding.flatten ++ A.cur

/-- What is not in the file yet. -/
def pending (A : Aof) : List Bytes := A.outstanding ++ [A.cur]

/-- The kernel writes what is pending in the order of the commands. -/
def inOrder (order : List ℕ) (A : Aof) : Bool := carriedOut order A.pending = A.pending

/-- The bytes go into the current slot. -/
def buffer (raw : Bytes) (A : Aof) : Aof := { A with cur := A.cur ++ raw }

/-- `persist_sync_append_write`. -/
def syncWrite (A : Aof) : Aof :=
  { A with file := A.file ++ A.cur, writeOffset := A.writeOffset + A.cur.length, cur := [] }

/-- `handoff_current_slot`. -/
def handoff (A : Aof) : Aof :=
  if A.cur = [] then A else { A with outstanding := A.outstanding ++ [A.cur], cur := [] }

/-- The kernel has written the slot at the position `i` of those on their way. -/
def complete (i : ℕ) (A : Aof) : Aof :=
  match A.outstanding[i]? with
  | none => A
  | some s =>
    { A with
      file := A.file ++ s, outstanding := A.outstanding.eraseIdx i
      writeOffset := A.writeOffset + s.length }

/-- `persist_flush_pending_force`. -/
def flushPendingForce (A : Aof) : Aof := if A.sync then A.syncWrite else A.handoff

/-- `persist_drain_pending`: returns when everything is written. -/
def drainPending (order : List ℕ) (A : Aof) : Aof :=
  { A with
    file := A.file ++ (carriedOut order A.pending).flatten, outstanding := [], cur := []
    writeOffset := A.writeOffset + A.pending.flatten.length }

/-- `append_to_rewrite_buffer`. -/
def appendToRewriteBuffer (raw : Bytes) (A : Aof) : Aof :=
  { A with rewrite := A.rewrite.map fun r => (r.1, r.2 ++ raw) }

end Aof

/-- `persist_append_prepare`; nothing if it returns `KVS_PERSIST_ERR`. -/
def persistAppendPrepare (raw : Bytes) (A : Aof) : Option Aof :=
  if !A.isOpen then if A.disabled then some A else none
  else if !A.always then some A
  else if A.fatal then none
  else if A.sync then
    let A := A.buffer raw
    -- with a write for each command, the rewrite buffer is not reached
    if A.perCommand then some A.syncWrite
    else
      let A := if aofSlotMax ≤ A.cur.length then A.flushPendingForce else A
      some (A.appendToRewriteBuffer raw)
  else if aofSlotMax < A.cur.length + raw.length then none
  else
    let A := A.buffer raw
    let A := if A.perCommand || aofSlotMax ≤ A.cur.length then A.flushPendingForce else A
    some (A.appendToRewriteBuffer raw)

/-- `persist_bgrewriteaof_start`, with the commands that the child writes. -/
def persistBgrewriteaofStart (snapshot : Bytes) (order : List ℕ) (A : Aof) : Aof :=
  match A.rewrite with
  | some _ => A
  | none => { A.drainPending order with rewrite := some (snapshot, []) }

/-- Slots on their way are written while the new file is registered with the writing thread: to the old
file if that is the one registered, to the end of the new one if not. -/
def finalizeRewriteParent (order : List ℕ) (A : Aof) : Aof :=
  match A.rewrite with
  | none => A
  | some (snapshot, buf) =>
    let file := snapshot ++ buf
    { A with
      file := if A.registered then file else file ++ (carriedOut order A.outstanding).flatten
      writeOffset := file.length + A.outstanding.flatten.length
      outstanding := []
      rewrite := none }

/-- `persist_aof_rebase`: the file is emptied, whatever the order of what came last. -/
def persistAofRebase (A : Aof) : Aof :=
  if A.disabled || !A.isOpen then A else { A.drainPending [] with file := [], writeOffset := 0 }

/-! ### What is appended -/

namespace Aof

variable {A : Aof}

/-- The file takes what is appended. -/
structure On (A : Aof) : Prop where
  isOpen : A.isOpen = true
  /-- The policy is `always`. -/
  always : A.always = true
  slots : A.sync = true → A.outstanding = []

lemma complete_zero (A : Aof) : A.complete 0 =
    match A.outstanding with
    | [] => A
    | s :: ss => { A with file := A.file ++ s, outstanding := ss, writeOffset := A.writeOffset + s.length } := by
  unfold complete
  cases A.outstanding <;> rfl

lemma content_complete (A : Aof) : (A.complete 0).content = A.content := by
  rw [complete_zero]
  unfold content
  split <;> simp [*]

lemma file_drainPending {order : List ℕ} (h : A.inOrder order = true) : (A.drainPending order).file = A.content := by
  have horder : carriedOut order A.pending = A.pending := of_decide_eq_true h
  rw [drainPending, horder]
  simp [content, pending]

lemma content_drainPending {order : List ℕ} (h : A.inOrder order = true) :
    (A.drainPending order).content = A.content := by
  rw [← file_drainPending h]
  simp [drainPending, content]

lemma On.appendToRewriteBuffer (h : A.On) (raw : Bytes) : (A.appendToRewriteBuffer raw).On :=
  { h with }

lemma On.flushPendingForce (h : A.On) :
    A.flushPendingForce.On ∧ A.flushPendingForce.content = A.content := by
  unfold Aof.flushPendingForce
  by_cases hs : A.sync = true
  · rw [if_pos hs]
    exact ⟨{ h with }, by simp [syncWrite, content, h.slots hs]⟩
  · rw [if_neg hs]
    unfold handoff
    split
    · exact ⟨h, rfl⟩
    · exact ⟨⟨h.isOpen, h.always, fun hs' => absurd hs' hs⟩, by simp [content]⟩

end Aof

/-- What `persist_append_prepare` does. -/
inductive Prepared (raw : Bytes) (A : Aof) : Aof → Prop where
  /-- Nothing is to be appended. -/
  | ignored (h : A.isOpen = false ∨ A.always = false) : Prepared raw A A
  /-- The bytes are written at once, and do not reach the rewrite buffer. -/
  | written (hsync : A.sync = true) (hper : A.perCommand = true) : Prepared raw A (A.buffer raw).flushPendingForce
  | flushed : Prepared raw A ((A.buffer raw).flushPendingForce.appendToRewriteBuffer raw)
  | buffered : Prepared raw A ((A.buffer raw).appendToRewriteBuffer raw)

lemma prepared {A A' : Aof} {raw : Bytes} (ha : persistAppendPrepare raw A = some A') : Prepared raw A A' := by
  unfold persistAppendPrepare at ha
  simp only at ha
  split at ha
  · rename_i hclosed
    split at ha <;> cases ha
    exact .ignored (.inl (by simpa using hclosed))
  split at ha
  · rename_i hpolicy
    cases ha
    exact .ignored (.inr (by simpa using hpolicy))
  split at ha
  · cases ha
  split at ha
  · rename_i hsync
    split at ha
    · rename_i hper
      cases ha
      have hwrite : (A.buffer raw).flushPendingForce = (A.buffer raw).syncWrite := if_pos hsync
      exact hwrite ▸ .written hsync hper
    · cases ha
      split
      · exact .flushed
      · exact .buffered
  split at ha
  · cases ha
  · cases ha
    split
    · exact .flushed
    · exact .buffered

lemma persistAppendPrepare_appends {A A' : Aof} {raw : Bytes} (h : A.On)
    (ha : persistAppendPrepare raw A = some A') : A'.On ∧ A'.content = A.content ++ raw := by
  have hcur : (A.buffer raw).On := { h with }
  have hcontent : (A.buffer raw).content = A.content ++ raw := by simp [Aof.content, Aof.buffer]
  have hflush := hcur.flushPendingForce
  rw [hcontent] at hflush
  cases prepared ha with
  | ignored hoff => simp [h.isOpen, h.always] at hoff
  | written => exact hflush
  | flushed => exact ⟨hflush.1.appendToRewriteBuffer raw, hflush.2⟩
  | buffered => exact ⟨hcur.appendToRewriteBuffer raw, hcontent⟩

/-! ### The write offset -/

/-- Slots are used only by the writing thread, and the write offset is the length of the file. -/
structure Orderly (A : Aof) : Prop where
  slots : A.sync = true → A.outstanding = []
  offset : A.writeOffset = A.file.length

section

variable {A : Aof}

variable (h : Orderly A)
include h

lemma Orderly.syncWrite : Orderly A.syncWrite :=
  ⟨h.slots, by simp [Aof.syncWrite, h.offset]⟩

lemma Orderly.flush : Orderly A.flushPendingForce ∧ A.flushPendingForce.content = A.content := by
  unfold Aof.flushPendingForce
  split
  · rename_i hs
    exact ⟨h.syncWrite, by simp [Aof.syncWrite, Aof.content, h.slots hs]⟩
  · rename_i hs
    unfold Aof.handoff
    split
    · exact ⟨h, rfl⟩
    · exact ⟨⟨fun hs' => absurd hs' hs, h.offset⟩, by simp [Aof.content]⟩

lemma Orderly.complete : Orderly (A.complete 0) := by
  rw [Aof.complete_zero]
  split
  · exact h
  · rename_i s ss ho
    exact ⟨fun hs => by simp [h.slots hs] at ho, by simp [h.offset]⟩

lemma Orderly.drain {order : List ℕ} (ho : A.inOrder order = true) : Orderly (A.drainPending order) := by
  refine ⟨fun _ => rfl, ?_⟩
  rw [Aof.file_drainPending ho]
  simp [Aof.drainPending, Aof.content, Aof.pending, h.offset]

lemma Orderly.rebase : Orderly (persistAofRebase A) := by
  unfold persistAofRebase
  split
  · exact h
  · exact ⟨fun _ => rfl, rfl⟩

lemma Orderly.prepare {A' : Aof} {raw : Bytes} (ha : persistAppendPrepare raw A = some A') : Orderly A' := by
  have hbuf : Orderly (A.buffer raw) := ⟨h.slots, h.offset⟩
  have hrewrite {B : Aof} (hB : Orderly B) : Orderly (B.appendToRewriteBuffer raw) := ⟨hB.slots, hB.offset⟩
  cases prepared ha with
  | ignored => exact h
  | written => exact hbuf.flush.1
  | flushed => exact hrewrite hbuf.flush.1
  | buffered => exact hrewrite hbuf

end

end PocketKv.Persistence
