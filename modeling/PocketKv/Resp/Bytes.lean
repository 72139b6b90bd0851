import Mathlib.Data.List.TakeWhile
import Mathlib.Tactic

/-!
# Bytes, C strings and numerals
-/

namespace PocketKv.Resp

/-- The bytes of a buffer, a key or a value. -/
abbrev Bytes := List UInt8

/-- The bytes of a string literal. -/
def str (s : String) : Bytes := s.toList.map fun c => UInt8.ofNat c.toNat

/-- `\r`. -/
def cr : UInt8 := 13

/-- `\n`. -/
def lf : UInt8 := 10

/-- The C string that a copy of `bs` with a NUL appended holds: the bytes before the first NUL. -/
def cstr (bs : Bytes) : Bytes := bs.takeWhile (· != 0)

lemma cstr_cstr (bs : Bytes) : cstr (cstr bs) = cstr bs := List.takeWhile_idem

/-- `isspace` in the C locale. -/
def isSpace (b : UInt8) : Bool := b == 32 || (9 ≤ b && b ≤ 13)

/-- `isdigit`. -/
def isDigit (b : UInt8) : Bool := 48 ≤ b && b ≤ 57

/-- `b - '0'`. -/
def digitVal (b : UInt8) : ℕ := b.toNat - 48

/-! ### The buffers of a connection -/

/-- `BUFFER_CAP`. -/
def bufferCap : ℕ := 64 * 1024

/-- `OUT_RING_SIZE`. -/
def outRingSize : ℕ := 256 * 1024

/-- `queue_bytes`, on the list of what is in the out ring: the list afterwards, unless it returns -1. -/
def queueBytes {α : Type*} (buf ring : List α) : Option (List α) :=
  if buf = [] then none
  else if outRingSize - ring.length < buf.length then none
  else some (ring ++ buf)

lemma queueBytes_eq_none {α : Type*} {buf ring : List α}
    (h : buf = [] ∨ outRingSize - ring.length < buf.length) : queueBytes buf ring = none := by
  unfold queueBytes
  rcases h with h | h
  · rw [if_pos h]
  · rw [if_pos h, ite_self]

lemma queueBytes_eq_some {α : Type*} {buf ring : List α} (hne : buf ≠ [])
    (h : buf.length ≤ outRingSize - ring.length) : queueBytes buf ring = some (ring ++ buf) := by
  rw [queueBytes, if_neg hne, if_neg (by omega)]

/-! ### Ends of headers and lines -/

/-- The bytes before the first `sep`, and those after it. -/
def cutAt (sep : Bytes) : Bytes → Option (Bytes × Bytes)
  | [] => none
  | a :: t =>
    if sep.isPrefixOf (a :: t) then some ([], (a :: t).drop sep.length)
    else (cutAt sep t).map fun r => (a :: r.1, r.2)

/-- A header, up to CR LF, and the bytes after it. -/
def splitCrlf : Bytes → Option (Bytes × Bytes) := cutAt [cr, lf]

/-- A line, up to LF, and the bytes after it. -/
def splitLf : Bytes → Option (Bytes × Bytes) := cutAt [lf]

section

variable {sep xs h r : Bytes}

lemma cutAt_eq (e : cutAt sep xs = some (h, r)) : xs = h ++ sep ++ r := by
  induction xs generalizing h with
  | nil => cases e
  | cons a t ih =>
    rw [cutAt] at e
    split at e
    · rename_i hsep
      obtain ⟨rfl, rfl⟩ := by simpa using e
      exact (List.prefix_iff_eq_append.mp (List.isPrefixOf_iff_prefix.mp hsep)).symm
    · obtain ⟨⟨h', r'⟩, hcut, heq⟩ := Option.map_eq_some_iff.mp e
      cases heq
      rw [ih hcut]
      rfl

lemma cutAt_append (ys : Bytes) (e : cutAt sep xs = some (h, r)) : cutAt sep (xs ++ ys) = some (h, r ++ ys) := by
  have hlen := congrArg List.length (cutAt_eq e)
  induction xs generalizing h with
  | nil => cases e
  | cons a t ih =>
    have hfits : sep.length ≤ (a :: t).length := by
      simp only [List.length_append] at hlen
      omega
    have hsame : sep.isPrefixOf (a :: t ++ ys) = sep.isPrefixOf (a :: t) := by
      rw [Bool.eq_iff_iff, List.isPrefixOf_iff_prefix, List.isPrefixOf_iff_prefix]
      exact ⟨fun hp => List.prefix_of_prefix_length_le hp (List.prefix_append _ _) hfits,
        fun hp => hp.trans (List.prefix_append _ _)⟩
    rw [cutAt] at e
    rw [List.cons_append] at hsame ⊢
    rw [cutAt, hsame]
    split at e
    · rename_i hsep
      obtain ⟨rfl, rfl⟩ := by simpa using e
      rw [if_pos hsep, ← List.cons_append, List.drop_append_of_le_length hfits]
    · rename_i hsep
      obtain ⟨⟨h', r'⟩, hcut, heq⟩ := Option.map_eq_some_iff.mp e
      cases heq
      rw [if_neg hsep, ih hcut (congrArg List.length (cutAt_eq hcut))]
      rfl

lemma cutAt_of_infix (hne : sep ≠ []) (hsep : sep <:+: xs) : cutAt sep xs ≠ none := by
  induction xs with
  | nil => exact absurd (List.eq_nil_of_infix_nil hsep) hne
  | cons a t ih =>
    rw [cutAt]
    split
    · nofun
    · rename_i hp
      rw [List.isPrefixOf_iff_prefix] at hp
      rw [ne_eq, Option.map_eq_none_iff]
      exact ih ((List.infix_cons_iff.mp hsep).resolve_left hp)

lemma splitCrlf_eq (e : splitCrlf xs = some (h, r)) : xs = h ++ cr :: lf :: r := by
  rw [cutAt_eq e, List.append_assoc]
  rfl

lemma splitCrlf_append (ys : Bytes) (e : splitCrlf xs = some (h, r)) : splitCrlf (xs ++ ys) = some (h, r ++ ys) :=
  cutAt_append ys e

lemma splitLf_cons (a : UInt8) (t : Bytes) :
    splitLf (a :: t) = if a = lf then some ([], t) else (splitLf t).map fun r => (a :: r.1, r.2) := by
  rw [splitLf, cutAt]
  simp [eq_comm (a := lf)]

lemma splitLf_eq (e : splitLf xs = some (h, r)) : xs = h ++ lf :: r := by
  rw [cutAt_eq e, List.append_assoc]
  rfl

lemma splitLf_append (ys : Bytes) (e : splitLf xs = some (h, r)) : splitLf (xs ++ ys) = some (h, r ++ ys) :=
  cutAt_append ys e

end

/-! ### Numerals -/

/-- In a signed integer of `w` bits that wraps around; nothing for a string with another character in it. -/
def cDigits (w : ℕ) (bs : Bytes) : Option ℤ :=
  if (cstr bs).all isDigit then
    some ((cstr bs).foldl (fun v b => Int.bmod (v * 10 + digitVal b) (2 ^ w)) 0)
  else none

/-- A digit loop over the bytes themselves that gives up above `limit`. -/
def boundedDigits (limit : ℕ) (bs : Bytes) : Option ℕ :=
  bs.foldlM (fun v b =>
    if isDigit b then
      if v * 10 + digitVal b ≤ limit then some (v * 10 + digitVal b) else none
    else none) 0

/-- The number that digits denote. -/
def digitsVal (ds : Bytes) : ℕ := ds.foldl (fun v b => v * 10 + digitVal b) 0

/-- What `strtoull` and `strtoll` look for: after leading blanks, a sign (`-` or not) and digits. -/
def scanNumber (bs : Bytes) : Bool × ℕ :=
  let s := (cstr bs).dropWhile isSpace
  let neg := s.head? == some 45
  (neg, digitsVal ((if neg || s.head? == some 43 then s.tail else s).takeWhile isDigit))

/-- `strtoull(s, NULL, 10)`: `ULLONG_MAX` on overflow. -/
def strtoull (bs : Bytes) : ℕ :=
  let (neg, v) := scanNumber bs
  if 2 ^ 64 ≤ v then 2 ^ 64 - 1 else if neg then (2 ^ 64 - v) % 2 ^ 64 else v

/-- `atoll`: the nearest number of 64 bits on overflow, as glibc's `strtoll` has it. -/
def atoll (bs : Bytes) : ℤ :=
  let (neg, v) := scanNumber bs
  if neg then max (-(v : ℤ)) (-2 ^ 63) else min (v : ℤ) (2 ^ 63 - 1)

/-- `atoi`. -/
def atoi (bs : Bytes) : ℤ := Int.bmod (atoll bs) (2 ^ 32)

/-- A `long long` that has wrapped around. -/
def wrap64 (x : ℤ) : ℤ := Int.bmod x (2 ^ 64)

/-- An `int` that has wrapped around. -/
def wrap32 (x : ℤ) : ℤ := Int.bmod x (2 ^ 32)

lemma wrap32_wrap32_add (x y : ℤ) : wrap32 (wrap32 x + y) = wrap32 (x + y) := Int.bmod_add_bmod

lemma wrap32_wrap32_sub (x y : ℤ) : wrap32 (wrap32 x - y) = wrap32 (x - y) := Int.bmod_sub_bmod

lemma wrap32_of_mem {x : ℤ} (hlo : -2 ^ 31 ≤ x) (hhi : x < 2 ^ 31) : wrap32 x = x :=
  Int.bmod_eq_of_le_mul_two (by omega) (by omega)

lemma wrap32_natCast_iff {n : ℕ} : wrap32 n = n ↔ n < 2 ^ 31 := by
  constructor
  · intro h
    have hlt : wrap32 n < 2 ^ 31 := Int.bmod_lt (by decide)
    omega
  · intro h
    exact wrap32_of_mem (by omega) (by omega)

/-- `kvs_ascii_upper`. -/
def asciiUpper (bs : Bytes) : Bytes := bs.map fun b => if 97 ≤ b && b ≤ 122 then b - 32 else b

/-- The tokens of a C string, at most `maxargc` of them. -/
def tokens : ℕ → Bytes → List Bytes
  | 0, _ => []
  | n + 1, p =>
    match p.dropWhile isSpace with
    | [] => []
    | b :: q =>
      (b :: q).takeWhile (fun x => !isSpace x) :: tokens n ((b :: q).dropWhile (fun x => !isSpace x)).tail

/-- `split_inline_argv`: works on the line as a C string, so it stops at a NUL byte. -/
def splitInlineArgv (line : Bytes) (maxargc : ℕ) : List Bytes :=
  tokens maxargc (cstr line)

end PocketKv.Resp
