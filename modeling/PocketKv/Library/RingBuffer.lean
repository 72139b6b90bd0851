import Mathlib.Tactic

/-!
# Circular buffers
-/

namespace PocketKv.Library

open List

variable {α : Type*} {xs : List α}

/-- `memcpy` of `xs` to the cell `i`. -/
def blit (m : ℕ → α) (i : ℕ) (xs : List α) : ℕ → α := fun k =>
  if h : i ≤ k ∧ k < i + xs.length then xs[k - i] else m k

lemma blit_of_mem (m : ℕ → α) {i k : ℕ} (h : i ≤ k) (h' : k - i < xs.length) : blit m i xs k = xs[k - i] := by
  rw [blit, dif_pos ⟨h, by omega⟩]

lemma blit_of_notMem (m : ℕ → α) {i k : ℕ} (h : k < i ∨ i + xs.length ≤ k) : blit m i xs k = m k := by
  rw [blit, dif_neg (by omega)]

/-- The `n` cells from `i` on. -/
def block (m : ℕ → α) (i n : ℕ) : List α := (List.range n).map fun k => m (i + k)

/-- A memory of `cap` cells in use from `head` on. -/
structure RingBuffer (α : Type*) where
  cells : ℕ → α
  cap : ℕ
  head : ℕ
  len : ℕ

namespace RingBuffer

/-- The list begins and fits in the memory. -/
structure Valid (r : RingBuffer α) : Prop where
  head : r.head < r.cap
  len : r.len ≤ r.cap

/-- The list that is held. -/
def contents (r : RingBuffer α) : List α := (List.range r.len).map fun i => r.cells ((r.head + i) % r.cap)

/-- Nothing is held. -/
def clear (r : RingBuffer α) : RingBuffer α := { r with head := 0, len := 0 }

/-- Appends `xs`, with at most two copies. -/
def write (r : RingBuffer α) (xs : List α) : RingBuffer α :=
  let tail := (r.head + r.len) % r.cap
  let first := min (r.cap - tail) xs.length
  let cells := blit r.cells tail (xs.take first)
  let cells := if first < xs.length then blit cells 0 (xs.drop first) else cells
  if r.len + xs.length ≤ r.cap then { r with cells := cells, len := r.len + xs.length }
  else { r with cells := cells, head := (r.head + (r.len + xs.length - r.cap)) % r.cap, len := r.cap }

/-- The first `n` elements are taken out. -/
def skip (r : RingBuffer α) (n : ℕ) : RingBuffer α := { r with head := (r.head + n) % r.cap, len := r.len - n }

/-- `xs` takes the whole memory. -/
def fill (r : RingBuffer α) (xs : List α) : RingBuffer α :=
  { r with cells := blit r.cells 0 xs, head := 0, len := xs.length }

/-- The pieces of memory with the `n` elements after the first `delta`: two if they go over its end. -/
def blocks (r : RingBuffer α) (delta n : ℕ) : List (List α) :=
  let start := (r.head + delta) % r.cap
  if start + n ≤ r.cap then [block r.cells start n]
  else [block r.cells start (r.cap - start), block r.cells 0 (n - (r.cap - start))]

/-- The `n` elements after the first `delta`. -/
def read (r : RingBuffer α) (delta n : ℕ) : List α := (r.blocks delta n).flatten

variable {r : RingBuffer α}

@[simp] lemma length_contents (r : RingBuffer α) : r.contents.length = r.len := by simp [contents]

lemma getElem_contents {i : ℕ} (h : i < r.contents.length) : r.contents[i] = r.cells ((r.head + i) % r.cap) := by
  simp [contents]

@[simp] lemma contents_clear (r : RingBuffer α) : r.clear.contents = [] := rfl

lemma Valid.clear (h : r.Valid) : r.clear.Valid := ⟨by simp only [RingBuffer.clear]; have := h.head; omega, Nat.zero_le _⟩

lemma Valid.fill (h : r.Valid) (hx : xs.length = r.cap) : (r.fill xs).Valid :=
  ⟨by simp only [RingBuffer.fill]; have := h.head; omega, hx.le⟩

lemma contents_fill (hx : xs.length = r.cap) : (r.fill xs).contents = xs := by
  refine ext_getElem (by simp [fill]) fun i h _ => ?_
  have hi : i < r.cap := by simpa [fill, hx] using h
  rw [getElem_contents]
  simp only [fill, Nat.zero_add, Nat.mod_eq_of_lt hi]
  exact blit_of_mem _ (Nat.zero_le _) (by omega)

/-! ### Reading -/

lemma index_eq {c a i : ℕ} (ha : a < c) (hi : i ≤ c) : (a + i) % c = if a + i < c then a + i else a + i - c := by
  split
  · exact Nat.mod_eq_of_lt ‹_›
  · rw [Nat.mod_eq_sub_mod (by omega), Nat.mod_eq_of_lt (by omega)]

lemma read_eq (hr : r.Valid) {delta n : ℕ} (h : delta + n ≤ r.len) :
    r.read delta n = (r.contents.drop delta).take n := by
  have hcap := hr.len
  have hhead := hr.head
  have hstart : (r.head + delta) % r.cap < r.cap := Nat.mod_lt _ (by omega)
  -- the element `i` of the segment is the cell `i` after its start
  have hcell (i : ℕ) : (r.head + (delta + i)) % r.cap = ((r.head + delta) % r.cap + i) % r.cap := by
    rw [← Nat.add_assoc, Nat.mod_add_mod]
  unfold read blocks
  simp only [block]
  split
  · rw [flatten_singleton]
    refine ext_getElem (by simp; omega) fun i hi hi' => ?_
    have hin : i < n := by simpa using hi
    rw [getElem_take, getElem_drop, getElem_contents, hcell, index_eq hstart (by omega), if_pos (by omega)]
    simp
  · rw [flatten_cons, flatten_singleton]
    refine ext_getElem (by simp; omega) fun i hi hi' => ?_
    have hin : i < n := (length_take_le _ _).trans_lt' hi'
    rw [getElem_take, getElem_drop, getElem_contents, hcell, index_eq hstart (by omega), getElem_append]
    split
    · rename_i hlt
      simp only [length_map, length_range] at hlt
      rw [if_pos (by omega)]
      simp
    · rename_i hlt
      simp only [length_map, length_range, not_lt] at hlt
      rw [if_neg (by omega)]
      simp only [getElem_map, getElem_range, length_map, length_range]
      congr 1
      omega

lemma block_head (hr : r.Valid) {n : ℕ} (hlen : n ≤ r.len) (hend : r.head + n ≤ r.cap) :
    block r.cells r.head n = r.contents.take n := by
  have hread : r.read 0 n = _ := read_eq hr (by omega)
  rwa [read, blocks, Nat.add_zero, Nat.mod_eq_of_lt hr.head, if_pos hend, flatten_singleton, drop_zero] at hread

lemma contents_skip (r : RingBuffer α) (n : ℕ) : (r.skip n).contents = r.contents.drop n := by
  refine ext_getElem (by simp [skip]) fun i _ _ => ?_
  rw [getElem_drop, getElem_contents, getElem_contents]
  simp only [skip, Nat.mod_add_mod, Nat.add_assoc]

lemma Valid.skip (hr : r.Valid) (n : ℕ) : (r.skip n).Valid :=
  ⟨Nat.mod_lt _ ((Nat.zero_le _).trans_lt hr.head), (Nat.sub_le _ _).trans hr.len⟩

/-! ### Writing -/

lemma cells_write (hx : xs.length ≤ r.cap) {j : ℕ} (hj : j < r.cap) :
    (r.write xs).cells (((r.head + r.len) % r.cap + j) % r.cap) =
      if h : j < xs.length then xs[j] else r.cells (((r.head + r.len) % r.cap + j) % r.cap) := by
  set tail := (r.head + r.len) % r.cap with htail
  have ht : tail < r.cap := Nat.mod_lt _ (by omega)
  have hcells : (r.write xs).cells =
      if min (r.cap - tail) xs.length < xs.length then
        blit (blit r.cells tail (xs.take (min (r.cap - tail) xs.length))) 0
          (xs.drop (min (r.cap - tail) xs.length))
      else blit r.cells tail (xs.take (min (r.cap - tail) xs.length)) := by
    unfold write
    split <;> rfl
  rw [hcells, index_eq ht hj.le]
  by_cases hwrap : tail + j < r.cap
  · -- before the end of the memory: the first copy
    have hfirst : blit r.cells tail (xs.take (min (r.cap - tail) xs.length)) (tail + j) =
        if h : j < xs.length then xs[j] else r.cells (tail + j) := by
      split
      · rw [blit_of_mem _ (by omega) (by rw [length_take]; omega), getElem_take]
        congr 1
        omega
      · rw [blit_of_notMem _ (by rw [length_take]; omega)]
    split
    · rw [blit_of_notMem _ (by rw [length_drop]; omega), hfirst]
    · exact hfirst
  · -- from the beginning of the memory: the second copy
    rw [if_neg hwrap]
    have hfirst : blit r.cells tail (xs.take (min (r.cap - tail) xs.length)) (tail + j - r.cap) =
        r.cells (tail + j - r.cap) := blit_of_notMem _ (by omega)
    by_cases hjx : j < xs.length
    · rw [dif_pos hjx, if_pos (by omega), blit_of_mem _ (by omega) (by rw [length_drop]; omega), getElem_drop]
      congr 1
      omega
    · rw [dif_neg hjx]
      split
      · rw [blit_of_notMem _ (by rw [length_drop]; omega), hfirst]
      · exact hfirst

lemma cells_write_head (hx : xs.length ≤ r.cap) {q : ℕ} (hq : r.len + xs.length - r.cap ≤ q)
    (hq' : q < r.len + xs.length) :
    (r.write xs).cells ((r.head + q) % r.cap) =
      if h : q < r.len then r.cells ((r.head + q) % r.cap) else xs[q - r.len] := by
  by_cases hold : q < r.len
  · -- seen from the end, the element is the last but `r.len - q`
    have hpos : (r.head + q) % r.cap = ((r.head + r.len) % r.cap + (q + r.cap - r.len)) % r.cap := by
      rw [Nat.mod_add_mod, show r.head + r.len + (q + r.cap - r.len) = r.head + q + r.cap by omega,
        Nat.add_mod_right]
    rw [dif_pos hold, hpos, cells_write hx (by omega), dif_neg (by omega)]
  · have hpos : (r.head + q) % r.cap = ((r.head + r.len) % r.cap + (q - r.len)) % r.cap := by
      rw [Nat.mod_add_mod, show r.head + r.len + (q - r.len) = r.head + q by omega]
    rw [dif_neg hold, hpos, cells_write hx (by omega), dif_pos (by omega)]

lemma cap_write (r : RingBuffer α) (xs : List α) : (r.write xs).cap = r.cap := by
  unfold write
  split <;> rfl

lemma len_write (r : RingBuffer α) (xs : List α) : (r.write xs).len = min (r.len + xs.length) r.cap := by
  unfold write
  split <;> simp only <;> omega

lemma head_write (hr : r.Valid) (xs : List α) :
    (r.write xs).head = (r.head + (r.len + xs.length - r.cap)) % r.cap := by
  unfold write
  split
  · rename_i h
    rw [show r.len + xs.length - r.cap = 0 by omega, Nat.add_zero, Nat.mod_eq_of_lt hr.head]
  · rfl

lemma Valid.write (hr : r.Valid) (xs : List α) : (r.write xs).Valid := by
  have hcap : 0 < r.cap := hr.head.trans_le' (Nat.zero_le _)
  refine ⟨?_, ?_⟩
  · rw [head_write hr, cap_write]
    exact Nat.mod_lt _ hcap
  · rw [len_write, cap_write]
    exact min_le_right _ _

lemma contents_write (hr : r.Valid) (hx : xs.length ≤ r.cap) :
    (r.write xs).contents = (r.contents ++ xs).drop (r.len + xs.length - r.cap) := by
  refine ext_getElem ?_ fun i hi hi' => ?_
  · simp only [length_contents, len_write, length_drop, length_append]
    omega
  · have hi₀ : i < min (r.len + xs.length) r.cap := by simpa [len_write] using hi
    rw [getElem_contents, head_write hr, cap_write, Nat.mod_add_mod, Nat.add_assoc,
      cells_write_head hx (by omega) (by omega), getElem_drop, getElem_append]
    simp only [length_contents]
    split
    · rw [getElem_contents]
    · rfl

end RingBuffer

end PocketKv.Library
