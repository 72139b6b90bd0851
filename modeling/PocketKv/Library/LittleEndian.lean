import Mathlib.Tactic

/-!
# Little-endian numbers
-/

namespace PocketKv.Library

/-- The `w` little-endian bytes of `n`; what does not fit is dropped. -/
def leBytes : ℕ → ℕ → List UInt8
  | 0, _ => []
  | w + 1, n => UInt8.ofNat n :: leBytes w (n / 256)

/-- The number that the bytes denote. -/
def leNat : List UInt8 → ℕ
  | [] => 0
  | b :: bs => b.toNat + 256 * leNat bs

@[simp] lemma length_leBytes (w n : ℕ) : (leBytes w n).length = w := by
  induction w generalizing n with
  | zero => rfl
  | succ w ih => simp [leBytes, ih]

lemma leNat_leBytes (w n : ℕ) : leNat (leBytes w n) = n % 256 ^ w := by
  induction w generalizing n with
  | zero => simp [leBytes, leNat, Nat.mod_one]
  | succ w ih =>
    have hb : (UInt8.ofNat n).toNat = n % 256 := UInt8.toNat_ofNat'
    rw [leBytes, leNat, ih, hb, pow_succ', Nat.mod_mul]

lemma leNat_leBytes_of_lt {w n : ℕ} (h : n < 256 ^ w) : leNat (leBytes w n) = n := by
  rw [leNat_leBytes, Nat.mod_eq_of_lt h]

lemma take_leBytes_append (w n : ℕ) (xs : List UInt8) : (leBytes w n ++ xs).take w = leBytes w n :=
  List.take_left' (length_leBytes w n)

lemma drop_leBytes_append (w n : ℕ) (xs : List UInt8) : (leBytes w n ++ xs).drop w = xs :=
  List.drop_left' (length_leBytes w n)

end PocketKv.Library
