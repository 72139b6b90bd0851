import PocketKv.Persistence.Dump

/-!
# The buffer of the dump
-/

namespace PocketKv.Persistence

open Library Resp Store

/-- `DUMP_BUF_SIZE`. -/
def dumpBufSize : ℕ := 4 * 1024 * 1024

/-- `struct dump_ctx`, and what has become of the file. -/
structure DumpCtx where
  file : Bytes
  /-- The calls of `write` so far. -/
  calls : ℕ
  /-- `buf` up to `pos`. -/
  buf : Bytes

/-- The loop around `write`: the file and the number of calls afterwards. -/
def writeAll (results : ℕ → ℤ) : ℕ → ℕ → Bytes → Bytes → Option (ℕ × Bytes)
  | 0, calls, file, _ => some (calls, file)
  | fuel + 1, calls, file, data =>
    if data = [] then some (calls, file)
    else if results calls ≤ 0 then none
    else writeAll results fuel (calls + 1) (file ++ data.take (results calls).toNat) (data.drop (results calls).toNat)

/-- `dump_flush`. -/
def dumpFlush (results : ℕ → ℤ) (ctx : DumpCtx) : Option DumpCtx :=
  (writeAll results ctx.buf.length ctx.calls ctx.file ctx.buf).map fun r => ⟨r.2, r.1, []⟩

/-- `dump_write_buf`. -/
def dumpWriteBuf (results : ℕ → ℤ) (ctx : DumpCtx) (data : Bytes) : Option DumpCtx :=
  if dumpBufSize < ctx.buf.length + data.length then
    (dumpFlush results ctx).bind fun ctx =>
      if dumpBufSize < data.length then
        (writeAll results data.length ctx.calls ctx.file data).map fun r => { ctx with file := r.2, calls := r.1 }
      else some { ctx with buf := ctx.buf ++ data }
  else some { ctx with buf := ctx.buf ++ data }

/-- All pieces, and the rest of the buffer. -/
def dumpPieces (results : ℕ → ℤ) (pieces : List Bytes) : Option Bytes :=
  ((pieces.foldlM (dumpWriteBuf results) ⟨[], 0, []⟩).bind (dumpFlush results)).map DumpCtx.file

variable {results : ℕ → ℤ} (h : ∀ n, 0 < results n)
include h

lemma writeAll_eq (fuel calls : ℕ) (file : Bytes) {data : Bytes} (hfuel : data.length ≤ fuel) :
    ∃ calls', writeAll results fuel calls file data = some (calls', file ++ data) := by
  induction fuel generalizing calls file data with
  | zero =>
    obtain rfl : data = [] := List.eq_nil_of_length_eq_zero (Nat.le_zero.mp hfuel)
    exact ⟨calls, by rw [writeAll, List.append_nil]⟩
  | succ fuel ih =>
    rw [writeAll]
    split
    · rename_i hdata
      exact ⟨calls, by rw [hdata, List.append_nil]⟩
    · have hpos := h calls
      have hrest : (data.drop (results calls).toNat).length ≤ fuel := by
        rw [List.length_drop]
        omega
      rw [if_neg (by omega)]
      obtain ⟨calls', heq⟩ := ih (calls + 1) (file ++ data.take (results calls).toNat) hrest
      exact ⟨calls', by rw [heq, List.append_assoc, List.take_append_drop]⟩

lemma dumpFlush_eq (ctx : DumpCtx) : ∃ calls, dumpFlush results ctx = some ⟨ctx.file ++ ctx.buf, calls, []⟩ := by
  obtain ⟨calls, heq⟩ := writeAll_eq h ctx.buf.length ctx.calls ctx.file (le_refl ctx.buf.length)
  exact ⟨calls, by rw [dumpFlush, heq]; rfl⟩

lemma dumpWriteBuf_eq (ctx : DumpCtx) (data : Bytes) :
    ∃ ctx', dumpWriteBuf results ctx data = some ctx' ∧ ctx'.file ++ ctx'.buf = ctx.file ++ ctx.buf ++ data := by
  unfold dumpWriteBuf
  split
  · obtain ⟨calls, hflush⟩ := dumpFlush_eq h ctx
    rw [hflush, Option.bind_some]
    split
    · obtain ⟨calls', heq⟩ := writeAll_eq h data.length calls (ctx.file ++ ctx.buf) (le_refl data.length)
      exact ⟨_, by rw [heq]; rfl, by simp⟩
    · exact ⟨_, rfl, by simp⟩
  · exact ⟨_, rfl, by simp⟩

lemma dumpPieces_eq (pieces : List Bytes) : dumpPieces results pieces = some pieces.flatten := by
  have hfold : ∀ ctx : DumpCtx, ∃ ctx', pieces.foldlM (dumpWriteBuf results) ctx = some ctx' ∧
      ctx'.file ++ ctx'.buf = ctx.file ++ ctx.buf ++ pieces.flatten := by
    induction pieces with
    | nil => exact fun ctx => ⟨ctx, rfl, by simp⟩
    | cons piece pieces ih =>
      intro ctx
      obtain ⟨ctx₁, h₁, hfile₁⟩ := dumpWriteBuf_eq h ctx piece
      obtain ⟨ctx₂, h₂, hfile₂⟩ := ih ctx₁
      refine ⟨ctx₂, ?_, ?_⟩
      · rw [List.foldlM_cons, h₁]
        exact h₂
      · rw [hfile₂, hfile₁, List.flatten_cons, List.append_assoc]
  obtain ⟨ctx, hrun, hfile⟩ := hfold ⟨[], 0, []⟩
  obtain ⟨calls, hflush⟩ := dumpFlush_eq h ctx
  rw [dumpPieces, hrun, Option.bind_some, hflush, Option.map_some, hfile]
  rfl

end PocketKv.Persistence
