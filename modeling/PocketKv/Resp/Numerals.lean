import Mathlib.Data.Nat.Digits.Defs
import PocketKv.Resp.Build
import PocketKv.Resp.Framer

/-!
# The numbers in headers
-/

namespace PocketKv.Resp

open Library List

/-- The number that a string of digits denotes. -/
def numeral (ds : Bytes) : ℕ := Nat.ofDigits 10 (ds.reverse.map digitVal)

/-- The text of a header, without `*` or `$`. -/
inductive Header where
  | array (text : Bytes)
  | bulk (text : Bytes)
  deriving DecidableEq

namespace Header

/-- The bytes of a header. -/
def text : Header → Bytes
  | .array h | .bulk h => h

/-- What the parser reads in a header, if it accepts it. -/
def number : Header → Option ℕ
  | .array h => argcOf h
  | .bulk h => bulkLenOf h

/-- The numbers that may be in a header. -/
def range : Header → ℕ → Prop
  | .array _, n => 1 ≤ n ∧ n ≤ 32
  | .bulk _, _ => True

/-- If the header is accepted it is made of digits, and its number is what they denote. -/
def Honest (x : Header) : Prop :=
  ∀ n, x.number = some n → (∀ b ∈ x.text, isDigit b = true) ∧ numeral x.text = n ∧ x.range n

/-- The digits, up to a NUL byte if there is one, are modulo `2 ^ w` a number that is accepted, and there is a NUL
byte, or the number is not less than `2 ^ w`. -/
def Misleading : Header → Prop
  | .array h => (∀ b ∈ cstr h, isDigit b = true) ∧
      (1 ≤ numeral (cstr h) % 2 ^ 32 ∧ numeral (cstr h) % 2 ^ 32 ≤ 32) ∧ (0 ∈ h ∨ 2 ^ 32 ≤ numeral (cstr h))
  | .bulk h => (∀ b ∈ cstr h, isDigit b = true) ∧
      numeral (cstr h) % 2 ^ 64 < 2 ^ 63 ∧ (0 ∈ h ∨ 2 ^ 64 ≤ numeral (cstr h))

end Header

/-! ### The headers of a stream -/

/-- The headers that the parser looks at from one position on. -/
def itemHeaders : Bytes → List Header
  | [] => []
  | b :: t =>
    if b = 42 then
      match splitCrlf t with
      | none => []
      | some (h, r) =>
        if 32 ≤ h.length then []
        else
          .array h ::
            match argcOf h with
            | none => []
            | some argc => (bulkHeaders bulkLenOf argc r).map .bulk
    else []

variable {σ : Type*} {h : Bytes} {n : ℕ}

/-- The headers at all the positions where the parser looks for an item, call by call. -/
def recvHeaders (K : Hooks σ) (cx : Caller) : σ → Bytes → List Bytes → List Header
  | _, _, [] => []
  | s, left, c :: cs =>
    let r := parseLoop K cx (parseFuel (left ++ c)) s (left ++ c)
    r.2.1.flatMap (fun x => itemHeaders x.1) ++ recvHeaders K cx r.1 r.2.2 cs

lemma bulkHeaders_ok {xs rest : Bytes} {args : List Bytes}
    (h : readBulks bulkLenOf n xs = .ok args rest) :
    args.length = n ∧ (bulkHeaders bulkLenOf n xs).map bulkLenOf = args.map fun a => some a.length := by
  induction n generalizing xs args with
  | zero =>
    cases h
    exact ⟨rfl, rfl⟩
  | succ n ih =>
    obtain ⟨arg, r, hbulk, h⟩ := Read.bind_eq_ok.mp h
    obtain ⟨args', r', hrest, h⟩ := Read.bind_eq_ok.mp h
    cases h
    obtain ⟨hd, _, hheader, hlen⟩ := readBulk_ok hbulk
    obtain ⟨hargs, hnumbers⟩ := ih hrest
    refine ⟨congrArg (· + 1) hargs, ?_⟩
    simp only [bulkHeaders, hheader, hbulk, map_cons, hlen, hnumbers]

lemma itemHeaders_array {xs : Bytes} {k : ℕ} {argv : List Bytes}
    (h : itemStep argcOf bulkLenOf xs = .take k [.array argv]) :
    (itemHeaders xs).map Header.number = some argv.length :: argv.map fun a => some a.length := by
  obtain ⟨i, hi, htaken⟩ := itemStep_taken h
  cases hi
  cases htaken with
  | array hs hshort hargc hbulks =>
    obtain ⟨hlength, hnumbers⟩ := bulkHeaders_ok hbulks
    simp only [itemHeaders, if_true, hs, if_neg (Nat.not_le.mpr hshort), hargc, map_cons, map_map, Header.number,
      hlength, ← hnumbers]
    rfl

/-! ### What the digit loops compute -/

lemma numeral_eq_digitsVal (ds : Bytes) : numeral ds = digitsVal ds := by
  rw [numeral, digitsVal, Nat.ofDigits_eq_foldr, foldr_map, foldr_reverse]
  refine foldl_ext _ _ _ fun v b _ => ?_
  rw [Nat.cast_id, Nat.mul_comm, Nat.add_comm]

lemma bmod_eq_natCast {w v n : ℕ} : Int.bmod v (2 ^ (w + 1)) = n ↔ v % 2 ^ (w + 1) = n ∧ n < 2 ^ w := by
  have hlt : v % 2 ^ (w + 1) < 2 ^ (w + 1) := Nat.mod_lt _ (Nat.two_pow_pos _)
  rw [Int.bmod_def, ← Int.natCast_mod]
  have hpow : 2 ^ (w + 1) = 2 * 2 ^ w := by rw [Nat.pow_succ, Nat.mul_comm]
  rw [hpow] at hlt ⊢
  split <;> omega

lemma argcOf_eq_some :
    argcOf h = some n ↔
      (∀ b ∈ cstr h, isDigit b = true) ∧ numeral (cstr h) % 2 ^ 32 = n ∧ (1 ≤ n ∧ n ≤ 32) := by
  have hnumber : (numeral (cstr h) % 2 ^ 32 = n ∧ (1 ≤ n ∧ n ≤ 32)) ↔
      Int.bmod (numeral (cstr h)) (2 ^ 32) = n ∧ (1 ≤ n ∧ n ≤ 32) := by
    rw [bmod_eq_natCast]
    omega
  simp only [argcOf, Option.bind_eq_some_iff, cDigits_eq_some, ← numeral_eq_digitsVal, hnumber]
  constructor
  · rintro ⟨v, ⟨hdigits, hv⟩, hn⟩
    split at hn
    · rw [Option.some.injEq] at hn
      exact ⟨hdigits, by omega, by omega⟩
    · cases hn
  · rintro ⟨hdigits, hv, hrange⟩
    exact ⟨n, ⟨hdigits, hv⟩, by rw [if_pos (by omega), Int.toNat_natCast]⟩

lemma bulkLenOf_eq_some :
    bulkLenOf h = some n ↔ (∀ b ∈ cstr h, isDigit b = true) ∧ numeral (cstr h) % 2 ^ 64 = n ∧ n < 2 ^ 63 := by
  have hnumber : (numeral (cstr h) % 2 ^ 64 = n ∧ n < 2 ^ 63) ↔ Int.bmod (numeral (cstr h)) (2 ^ 64) = n :=
    bmod_eq_natCast.symm
  simp only [bulkLenOf, Option.bind_eq_some_iff, cDigits_eq_some, ← numeral_eq_digitsVal, hnumber]
  constructor
  · rintro ⟨v, ⟨hdigits, hv⟩, hn⟩
    split at hn
    · cases hn
    · rw [Option.some.injEq] at hn
      exact ⟨hdigits, by omega⟩
  · rintro ⟨hdigits, hv⟩
    exact ⟨n, ⟨hdigits, hv⟩, by rw [if_neg (by omega), Int.toNat_natCast]⟩

lemma honest_iff {number : Option ℕ} {m : ℕ} {p : ℕ → Prop} (hm : 0 < m)
    (hnumber : ∀ n, number = some n ↔ (∀ b ∈ cstr h, isDigit b = true) ∧ numeral (cstr h) % m = n ∧ p n) :
    (∀ n, number = some n → (∀ b ∈ h, isDigit b = true) ∧ numeral h = n ∧ p n) ↔
      ¬((∀ b ∈ cstr h, isDigit b = true) ∧ p (numeral (cstr h) % m) ∧ (0 ∈ h ∨ m ≤ numeral (cstr h))) := by
  constructor
  · rintro hhonest ⟨hdigits, hp, hmislead⟩
    obtain ⟨hall, hvalue, -⟩ := hhonest _ ((hnumber _).mpr ⟨hdigits, rfl, hp⟩)
    have hnul : ∀ b ∈ h, b ≠ 0 := fun b hb => (isDigit_facts (hall b hb)).2.1
    rw [cstr_eq_self hnul] at hvalue hmislead
    rcases hmislead with hzero | hwraps
    · exact hnul 0 hzero rfl
    · exact absurd (Nat.mod_lt (numeral h) hm) (by omega)
  · intro hplain n hn
    obtain ⟨hdigits, rfl, hp⟩ := (hnumber n).mp hn
    have hshort : ¬(0 ∈ h ∨ m ≤ numeral (cstr h)) := fun hmislead => hplain ⟨hdigits, hp, hmislead⟩
    push Not at hshort
    have hself : cstr h = h := cstr_eq_self fun b hb hzero => hshort.1 (hzero ▸ hb)
    rw [hself] at hdigits hshort hp ⊢
    rw [Nat.mod_eq_of_lt hshort.2] at hp ⊢
    exact ⟨hdigits, rfl, hp⟩

lemma Header.honest_iff_not_misleading (x : Header) : x.Honest ↔ ¬x.Misleading := by
  cases x with
  | array h => exact honest_iff (by decide) fun n => argcOf_eq_some
  | bulk h =>
    refine Iff.trans ?_ (honest_iff (p := (· < 2 ^ 63)) (by decide) fun n => bulkLenOf_eq_some)
    refine forall_congr' fun n => ⟨fun hn hsome => ?_, fun hn hsome => ?_⟩
    · obtain ⟨hdigits, hvalue, -⟩ := hn hsome
      exact ⟨hdigits, hvalue, (bulkLenOf_eq_some.mp hsome).2.2⟩
    · obtain ⟨hdigits, hvalue, -⟩ := hn hsome
      exact ⟨hdigits, hvalue, trivial⟩

/-- **Numbers mean what they say** in all headers that are accepted while a stream arrives, just if none of those
that the parser looks at is misleading. -/
theorem headers_honest_iff (K : Hooks σ) (cx : Caller) (s : σ) (left : Bytes) (chunks : List Bytes) :
    ((∀ x ∈ recvHeaders K cx s left chunks, x.Honest) ↔ ∀ x ∈ recvHeaders K cx s left chunks, ¬x.Misleading) ∧
      ∀ xs k argv, itemStep argcOf bulkLenOf xs = .take k [.array argv] →
        (itemHeaders xs).map Header.number = some argv.length :: argv.map fun a => some a.length := by
  refine ⟨?_, fun xs k argv h => itemHeaders_array h⟩
  exact forall₂_congr fun x _ => x.honest_iff_not_misleading

/-- `2 ^ 32 + 1` arguments are one, `2 ^ 64 + 4` bytes are four, and what stands behind a NUL byte is not looked
at. -/
theorem misleading_headers_accepted :
    parseRespStream idleHooks clientLink () (str "*4294967297\r\n$18446744073709551620\r\nPING\r\n") =
        ((), [.command [str "PING"] (str "*4294967297\r\n$18446744073709551620\r\nPING\r\n")], []) ∧
      parseRespStream idleHooks clientLink () (str "*1\x00x\r\n$4\x00\r\nPING\r\n") =
        ((), [.command [str "PING"] (str "*1\x00x\r\n$4\x00\r\nPING\r\n")], []) := by
  decide +kernel

end PocketKv.Resp
