import Mathlib.Data.Nat.Basic
import Mathlib.Logic.Equiv.Basic
import Mathlib.Order.Basic
import Mathlib.Tactic

/-!
# Binary heaps in an array
-/

namespace PocketKv.Library.Heap

/-- The place above. -/
def parent (i : ℕ) : ℕ := (i - 1) / 2

lemma parent_lt {i : ℕ} (h : 0 < i) : parent i < i := by
  unfold parent
  omega

lemma parent_eq_iff {i j : ℕ} (h : 0 < j) : parent j = i ↔ j = i * 2 + 1 ∨ j = i * 2 + 2 := by
  unfold parent
  omega

/-- Two keys change places. -/
def exchange {β : Type*} (h : ℕ → β) (i j : ℕ) : ℕ → β := fun l => h (Equiv.swap i j l)

section Exchange

variable {β : Type*} (h : ℕ → β) (i j : ℕ)

lemma exchange_left : exchange h i j i = h j := by
  simp [exchange]

lemma exchange_right : exchange h i j j = h i := by
  simp [exchange]

lemma exchange_of_ne {l : ℕ} (hi : l ≠ i) (hj : l ≠ j) : exchange h i j l = h l := by
  rw [exchange, Equiv.swap_apply_of_ne_of_ne hi hj]

end Exchange

variable {β : Type*} [LinearOrder β] {h h' : ℕ → β} {n i : ℕ}

/-- The first `n` keys are a min-heap. -/
def Ordered (h : ℕ → β) (n : ℕ) : Prop := ∀ j, 0 < j → j < n → h (parent j) ≤ h j

/-- What is above the place is not greater than what is under it. -/
def Spans (h : ℕ → β) (n i : ℕ) : Prop := ∀ j, 0 < j → j < n → parent j = i → 0 < i → h (parent i) ≤ h j

/-- Only the key at `i` may be smaller than the one above it. -/
structure Rising (h : ℕ → β) (n i : ℕ) : Prop where
  rest : ∀ j, 0 < j → j < n → j ≠ i → h (parent j) ≤ h j
  spans : Spans h n i

/-- Only the key at `i` may be greater than those under it. -/
structure Sinking (h : ℕ → β) (n i : ℕ) : Prop where
  rest : ∀ j, 0 < j → j < n → parent j ≠ i → h (parent j) ≤ h j
  spans : Spans h n i

/-- Only the key at `i` may be out of order, in either way. -/
structure Loose (h : ℕ → β) (n i : ℕ) : Prop where
  rest : ∀ j, 0 < j → j < n → j ≠ i → parent j ≠ i → h (parent j) ≤ h j
  spans : Spans h n i

/-! ### One key is changed -/

lemma Ordered.spans (ho : Ordered h n) (hi : i < n) : Spans h n i := by
  intro j hj hn hp hpos
  have hij : h i ≤ h j := hp ▸ ho j hj hn
  exact (ho i hpos hi).trans hij

lemma Ordered.rising (ho : Ordered h n) (hi : i < n) : Rising h n i :=
  ⟨fun j hj hn _ => ho j hj hn, ho.spans hi⟩

lemma Ordered.loose {m : ℕ} (ho : Ordered h n) (hm : m ≤ n) (hi : i < n)
    (heq : ∀ j, j < m → j ≠ i → h' j = h j) : Loose h' m i := by
  constructor
  · intro j hj hjm hji hpi
    have hlt := parent_lt hj
    rw [heq j hjm hji, heq (parent j) (hlt.trans hjm) hpi]
    exact ho j hj (hjm.trans_le hm)
  · intro j hj hjm hp hpos
    have hlt := parent_lt hj
    have hlt' := parent_lt hpos
    rw [heq j hjm (by omega), heq (parent i) (by omega) (by omega)]
    exact ho.spans hi j hj (hjm.trans_le hm) hp hpos

lemma Ordered.push (ho : Ordered h n) (heq : ∀ j, j < n → h' j = h j) : Rising h' (n + 1) n := by
  constructor
  · intro j hj hn hne
    have hlt := parent_lt hj
    rw [heq j (by omega), heq (parent j) (by omega)]
    exact ho j hj (by omega)
  · intro j hj hn hp
    have hlt := parent_lt hj
    omega

lemma Rising.stop (hr : Rising h n i) (hstop : 0 < i → h (parent i) ≤ h i) : Ordered h n := by
  intro j hj hn
  by_cases hji : j = i
  · subst hji
    exact hstop hj
  · exact hr.rest j hj hn hji

lemma Rising.step (hr : Rising h n i) (hi : 0 < i) (hn : i < n) (hlt : h i < h (parent i)) :
    Rising (exchange h (parent i) i) n (parent i) := by
  have hpi := parent_lt hi
  -- what is beside the place lies under the same key, which has come down
  have habove : 0 < parent i → h (parent (parent i)) ≤ h (parent i) :=
    fun hpos => hr.rest _ hpos (hpi.trans hn) hpi.ne
  constructor
  · intro j hj hjn hjp
    by_cases hji : j = i
    · subst hji
      rw [exchange_left, exchange_right]
      exact hlt.le
    rw [exchange_of_ne h _ _ hjp hji]
    by_cases hpj : parent j = i
    · rw [hpj, exchange_right]
      exact hr.spans j hj hjn hpj hi
    by_cases hpp : parent j = parent i
    · rw [hpp, exchange_left]
      have hbeside := hr.rest j hj hjn hji
      rw [hpp] at hbeside
      exact hlt.le.trans hbeside
    · rw [exchange_of_ne h _ _ hpp hpj]
      exact hr.rest j hj hjn hji
  · intro j hj hjn hpj hpos
    have hpp := parent_lt hpos
    rw [exchange_of_ne h _ _ hpp.ne (hpp.trans hpi).ne]
    by_cases hji : j = i
    · subst hji
      rw [exchange_right]
      exact habove hpos
    · have hjlt := parent_lt hj
      rw [exchange_of_ne h _ _ (by omega) hji]
      have hbeside := hr.rest j hj hjn hji
      rw [hpj] at hbeside
      exact (habove hpos).trans hbeside

/-! ### Downwards -/

lemma Sinking.loose (hs : Sinking h n i) : Loose h n i :=
  ⟨fun j hj hn _ hp => hs.rest j hj hn hp, hs.spans⟩

lemma Sinking.stop (hs : Sinking h n i) (hstop : ∀ j, 0 < j → j < n → parent j = i → h i ≤ h j) : Ordered h n := by
  intro j hj hn
  by_cases hp : parent j = i
  · rw [hp]
    exact hstop j hj hn hp
  · exact hs.rest j hj hn hp

lemma Loose.stop (hl : Loose h n i) (hstop : ∀ j, 0 < j → j < n → parent j = i → h i ≤ h j) : Rising h n i := by
  refine ⟨fun j hj hn hne => ?_, hl.spans⟩
  by_cases hp : parent j = i
  · rw [hp]
    exact hstop j hj hn hp
  · exact hl.rest j hj hn hne hp

lemma Loose.step (hl : Loose h n i) {s : ℕ} (hs : 0 < s) (hn : s < n) (hp : parent s = i)
    (hlt : h s < h i) (hmin : ∀ j, 0 < j → j < n → parent j = i → h s ≤ h j) :
    Sinking (exchange h i s) n s := by
  have his : i < s := hp ▸ parent_lt hs
  constructor
  · intro j hj hjn hpj
    have hjlt := parent_lt hj
    by_cases hji : j = i
    · subst hji
      rw [exchange_left, exchange_of_ne h _ _ hjlt.ne hpj]
      exact hl.spans s hs hn hp hj
    by_cases hjs : j = s
    · subst hjs
      rw [hp, exchange_left, exchange_right]
      exact hlt.le
    rw [exchange_of_ne h _ _ hji hjs]
    by_cases hpi : parent j = i
    · rw [hpi, exchange_left]
      exact hmin j hj hjn hpi
    · rw [exchange_of_ne h _ _ hpi hpj]
      exact hl.rest j hj hjn hji hpi
  · intro j hj hjn hpj hpos
    have hjlt := parent_lt hj
    rw [hp, exchange_left, exchange_of_ne h _ _ (by omega) (by omega)]
    have hle := hl.rest j hj hjn (by omega) (by omega)
    rw [hpj] at hle
    exact hle

lemma Ordered.root_le (ho : Ordered h n) (hi : i < n) : h 0 ≤ h i := by
  induction i using Nat.strongRecOn with
  | ind i ih =>
    by_cases hpos : 0 < i
    · have hlt := parent_lt hpos
      exact (ih (parent i) hlt (hlt.trans hi)).trans (ho i hpos hi)
    · rw [Nat.eq_zero_of_not_pos hpos]

end PocketKv.Library.Heap
