import PocketKv.Resp.Chunking

/-!
# What the server writes
-/

namespace PocketKv.Resp

open Library List

variable {words args : List Bytes} {n : ℕ} {b : UInt8}

/-! ### Numerals -/

/-- A number, as `"%llu"` prints it. -/
def decimal (n : ℕ) : Bytes := (Nat.toDigits 10 n).map fun c => UInt8.ofNat c.toNat

lemma isDigit_iff : isDigit b = true ↔ 48 ≤ b.toNat ∧ b.toNat ≤ 57 := by
  simp only [isDigit, Bool.and_eq_true, decide_eq_true_eq, UInt8.le_iff_toNat_le]
  exact Iff.rfl

lemma isDigit_ofNat {c : Char} (h : c.isDigit = true) : isDigit (UInt8.ofNat c.toNat) = true := by
  have h48 : 48 ≤ c.toNat := (Char.isDigit_iff_toNat.mp h).1
  have h57 : c.toNat ≤ 57 := (Char.isDigit_iff_toNat.mp h).2
  have hb : (UInt8.ofNat c.toNat).toNat = c.toNat := UInt8.toNat_ofNat'.trans (Nat.mod_eq_of_lt (by omega))
  rw [isDigit_iff, hb]
  exact ⟨h48, h57⟩

lemma isDigit_decimal (h : b ∈ decimal n) : isDigit b = true := by
  obtain ⟨c, hc, rfl⟩ := mem_map.mp h
  exact isDigit_ofNat (Nat.isDigit_of_mem_toDigits (by omega) (by omega) hc)

lemma decimal_ne_nil (n : ℕ) : decimal n ≠ [] := by
  simp [decimal, Nat.toDigits_ne_nil]

lemma length_decimal_le {e : ℕ} (he : 0 < e) (h : n < 10 ^ e) : (decimal n).length ≤ e := by
  rw [decimal, length_map]
  exact Nat.toDigits_length 10 n e he h

lemma isDigit_facts (h : isDigit b = true) : isSpace b = false ∧ b ≠ 0 ∧ b ≠ cr ∧ b ≠ 45 ∧ b ≠ 43 := by
  rw [isDigit_iff] at h
  have hne {c : UInt8} (hc : c.toNat < 48) : b ≠ c := fun he => by
    rw [he] at h
    omega
  refine ⟨?_, hne (by decide), hne (by decide), hne (by decide), hne (by decide)⟩
  rw [isSpace, Bool.or_eq_false_iff, beq_eq_false_iff_ne, Bool.and_eq_false_iff]
  refine ⟨hne (by decide), .inr ?_⟩
  rw [decide_eq_false_iff_not, UInt8.le_iff_toNat_le]
  have h13 : (13 : UInt8).toNat = 13 := rfl
  omega

lemma digitsVal_decimal (n : ℕ) : digitsVal (decimal n) = n := by
  have h := Nat.ofDigitChars_toDigits (b := 10) (n := n) (by omega) (by omega)
  rw [Nat.ofDigitChars] at h
  rw [digitsVal, decimal, foldl_map]
  refine Eq.trans ?_ h
  refine foldl_ext _ _ _ fun v c hc => ?_
  have hd := Nat.isDigit_of_mem_toDigits (by omega) (by omega) hc
  have h57 : c.toNat ≤ 57 := (Char.isDigit_iff_toNat.mp hd).2
  simp only [digitVal, UInt8.toNat_ofNat']
  rw [Nat.mod_eq_of_lt (by omega)]
  have h0 : '0'.toNat = 48 := rfl
  rw [h0, Nat.mul_comm]

lemma cstr_eq_self {bs : Bytes} (h : ∀ b ∈ bs, b ≠ 0) : cstr bs = bs := by
  rw [cstr, takeWhile_eq_self_iff]
  simpa using h

lemma cstr_decimal (n : ℕ) : cstr (decimal n) = decimal n :=
  cstr_eq_self fun _ hb => (isDigit_facts (isDigit_decimal hb)).2.1

lemma scanNumber_decimal (n : ℕ) : scanNumber (decimal n) = (false, n) := by
  obtain ⟨b, t, ht⟩ := exists_cons_of_ne_nil (decimal_ne_nil n)
  have hb := isDigit_facts (isDigit_decimal (n := n) (b := b) (by simp [ht]))
  have hdrop : (decimal n).dropWhile isSpace = decimal n := by simp [ht, hb.1]
  have hsign : ((decimal n).head? == some 45) = false ∧ ((decimal n).head? == some 43) = false := by
    simp [ht, hb.2.2.2]
  have hall : (decimal n).takeWhile isDigit = decimal n := takeWhile_eq_self_iff.mpr fun _ hx => isDigit_decimal hx
  simp only [scanNumber, cstr_decimal, hdrop, hsign, Bool.or_self, Bool.false_eq_true, if_false, hall,
    digitsVal_decimal]

lemma strtoull_decimal (h : n < 2 ^ 64) : strtoull (decimal n) = n := by
  simp only [strtoull, scanNumber_decimal]
  rw [if_neg (by omega)]
  rfl

lemma atoll_decimal (h : n < 2 ^ 63) : atoll (decimal n) = n := by
  simp only [atoll, scanNumber_decimal]
  rw [if_neg (by decide)]
  omega

lemma foldl_bmod (w : ℕ) (bs : Bytes) (v : ℤ) :
    bs.foldl (fun v b => Int.bmod (v * 10 + digitVal b) (2 ^ w)) (Int.bmod v (2 ^ w)) =
      Int.bmod (bs.foldl (fun v b => v * 10 + digitVal b) v) (2 ^ w) := by
  induction bs generalizing v with
  | nil => rfl
  | cons b bs ih =>
    simp only [List.foldl_cons]
    rw [← ih (v * 10 + digitVal b)]
    rw [← Int.bmod_add_bmod, Int.bmod_mul_bmod, Int.bmod_add_bmod]

lemma foldl_digits_int (bs : Bytes) (v : ℕ) :
    bs.foldl (fun (v : ℤ) b => v * 10 + digitVal b) v = (bs.foldl (fun v b => v * 10 + digitVal b) v : ℕ) := by
  induction bs generalizing v with
  | nil => rfl
  | cons b bs ih =>
    have := ih (v * 10 + digitVal b)
    push_cast at this
    exact this

lemma cDigits_eq_some {w : ℕ} {bs : Bytes} {v : ℤ} :
    cDigits w bs = some v ↔ (∀ b ∈ cstr bs, isDigit b = true) ∧ Int.bmod (digitsVal (cstr bs)) (2 ^ w) = v := by
  have hfold : (cstr bs).foldl (fun v b => Int.bmod (v * 10 + digitVal b) (2 ^ w)) 0 =
      Int.bmod (digitsVal (cstr bs)) (2 ^ w) := by
    have hwrap := foldl_bmod w (cstr bs) 0
    rwa [Int.zero_bmod, ← Nat.cast_zero, foldl_digits_int] at hwrap
  unfold cDigits
  split
  · rename_i hdigits
    rw [hfold, Option.some.injEq]
    exact (and_iff_right (all_eq_true.mp hdigits)).symm
  · rename_i hdigits
    exact iff_of_false nofun fun h => hdigits (all_eq_true.mpr h.1)

lemma cDigits_of_digits {w : ℕ} {bs : Bytes} (hbs : ∀ b ∈ bs, isDigit b = true) (h : 2 * digitsVal bs < 2 ^ w) :
    cDigits w bs = some (digitsVal bs : ℤ) := by
  have hn : 2 * (digitsVal bs : ℤ) < (2 ^ w : ℕ) := by exact_mod_cast h
  rw [cDigits_eq_some, cstr_eq_self fun b hb => (isDigit_facts (hbs b hb)).2.1]
  exact ⟨hbs, Int.bmod_eq_of_le_mul_two (by omega) (by omega)⟩

lemma cDigits_decimal {w : ℕ} (h : 2 * n < 2 ^ w) : cDigits w (decimal n) = some (n : ℤ) := by
  have hdigits := cDigits_of_digits (w := w) (fun b hb => isDigit_decimal (n := n) hb)
  rw [digitsVal_decimal] at hdigits
  exact hdigits h

lemma bulkLenOf_decimal (h : n < 2 ^ 63) : bulkLenOf (decimal n) = some n := by
  rw [bulkLenOf, cDigits_decimal (by omega)]
  simp

/-! ### Lines -/

lemma splitCrlf_of_no_cr {h : Bytes} (hcr : cr ∉ h) (r : Bytes) :
    splitCrlf (h ++ cr :: lf :: r) = some (h, r) := by
  induction h with
  | nil => rfl
  | cons a t ih =>
    rw [mem_cons, not_or] at hcr
    rw [splitCrlf, cons_append, cutAt, if_neg (by simp [hcr.1])]
    exact congrArg (Option.map _) (ih hcr.2)

lemma cr_notMem_decimal (n : ℕ) : cr ∉ decimal n :=
  fun h => (isDigit_facts (isDigit_decimal h)).2.2.1 rfl

/-- Something, with no blank and no NUL in it. -/
def Word (w : Bytes) : Prop := w ≠ [] ∧ ∀ b ∈ w, isSpace b = false ∧ b ≠ 0

instance (w : Bytes) : Decidable (Word w) :=
  decidable_of_iff (w ≠ [] ∧ (w.all fun b => !isSpace b && b != 0) = true) (by simp [Word])

lemma word_decimal (n : ℕ) : Word (decimal n) :=
  ⟨decimal_ne_nil n, fun _ hb => ⟨(isDigit_facts (isDigit_decimal hb)).1,
    (isDigit_facts (isDigit_decimal hb)).2.1⟩⟩

/-- A line of words, as `"+%s %s ...\r\n"` prints it. -/
def plusLine (words : List Bytes) : Bytes := 43 :: ([32].intercalate words ++ [cr, lf])

lemma tokens_word {w : Bytes} (hw : Word w) (n : ℕ) {rest : Bytes}
    (hrest : rest = [] ∨ ∃ r, rest = 32 :: r) : tokens (n + 1) (w ++ rest) = w :: tokens n rest.tail := by
  obtain ⟨b, t, rfl⟩ := exists_cons_of_ne_nil hw.1
  have hall : ∀ x ∈ b :: t, (!isSpace x) = true := fun x hx => by simp [(hw.2 x hx).1]
  have hb : ¬isSpace b = true := by simp [(hw.2 b (by simp)).1]
  have htake : (b :: t ++ rest).takeWhile (fun x => !isSpace x) = b :: t := by
    rw [takeWhile_append_of_pos hall]
    rcases hrest with rfl | ⟨r, rfl⟩
    · simp
    · rw [takeWhile_cons_of_neg (by decide), append_nil]
  have hdrop : (b :: t ++ rest).dropWhile (fun x => !isSpace x) = rest := by
    rw [dropWhile_append_of_pos hall]
    rcases hrest with rfl | ⟨r, rfl⟩
    · rfl
    · rw [dropWhile_cons_of_neg (by decide)]
  rw [cons_append] at htake hdrop
  rw [tokens, cons_append, dropWhile_cons_of_neg hb]
  simp only [htake, hdrop]

lemma tokens_intercalate (h : ∀ w ∈ words, Word w)
    (hn : words.length ≤ n) : tokens n ([32].intercalate words) = words := by
  induction words generalizing n with
  | nil => cases n <;> rfl
  | cons w ws ih =>
    obtain ⟨n, rfl⟩ : ∃ m, n = m + 1 := ⟨n - 1, by simp at hn; omega⟩
    have hw := h w (by simp)
    have ih := ih (fun x hx => h x (by simp [hx])) (n := n) (by simpa using hn)
    cases ws with
    | nil =>
      have := tokens_word hw n (.inl rfl)
      rw [append_nil] at this
      rw [intercalate_singleton, this]
      cases n <;> rfl
    | cons w' ws =>
      rw [intercalate_cons_cons, append_assoc, singleton_append, tokens_word hw n (.inr ⟨_, rfl⟩)]
      exact congrArg (w :: ·) ih

lemma mem_intercalate_blank (h : b ∈ [32].intercalate words) : b = 32 ∨ ∃ w ∈ words, b ∈ w := by
  induction words with
  | nil => simp [List.intercalate] at h
  | cons w ws ih =>
    cases ws with
    | nil =>
      rw [intercalate_singleton] at h
      exact .inr ⟨w, by simp, h⟩
    | cons w' ws =>
      rw [intercalate_cons_cons, mem_append, mem_append] at h
      rcases h with (h | h) | h
      · exact .inr ⟨w, by simp, h⟩
      · exact .inl (by simpa using h)
      · rcases ih h with h | ⟨v, hv, hb⟩
        · exact .inl h
        · exact .inr ⟨v, by simp [hv], hb⟩

lemma plain_intercalate (h : ∀ w ∈ words, Word w) : ∀ b ∈ [32].intercalate words, b ≠ cr ∧ b ≠ 0 := by
  intro b hb
  rcases mem_intercalate_blank hb with rfl | ⟨w, hw, hbw⟩
  · decide
  · obtain ⟨hs, h0⟩ := (h w hw).2 b hbw
    refine ⟨?_, h0⟩
    rintro rfl
    exact absurd hs (by decide)

lemma respStep_plusLine (cx : Caller) (h : ∀ w ∈ words, Word w)
    (hne : words ≠ []) (hlen : words.length ≤ 8) :
    respStep cx (plusLine words) =
      .take (plusLine words).length ((controlOf cx words).map Event.control).toList := by
  have hplain := plain_intercalate h
  have hcr : cr ∉ (43 :: [32].intercalate words) := by
    rw [mem_cons]
    rintro (he | he)
    · exact absurd he (by decide)
    · exact (hplain _ he).1 rfl
  have hsplit := splitCrlf_of_no_cr hcr []
  have hline : [32].intercalate words ≠ [] := by
    obtain ⟨w, ws, rfl⟩ := exists_cons_of_ne_nil hne
    have hw := (h w (by simp)).1
    cases ws <;> simp [intercalate_cons_cons, hw]
  have hargv : splitInlineArgv ([32].intercalate words) 8 = words := by
    rw [splitInlineArgv, cstr_eq_self fun b hb => (hplain b hb).2, tokens_intercalate h hlen]
  have hitem : itemStep argcOf bulkLenOf (plusLine words) =
      .take (plusLine words).length [.plus ([32].intercalate words)] := by
    rw [plusLine, itemStep, if_pos rfl, plusStep]
    rw [cons_append] at hsplit
    simp [hsplit]
  rw [respStep, hitem]
  simp [Verdict.emit, respEvents, hline, hargv]

/-! ### Commands -/

/-- `append_bulk`: a bulk string. -/
def appendBulk (s : Bytes) : Bytes := 36 :: (decimal s.length ++ cr :: lf :: (s ++ [cr, lf]))

/-- `resp_build_cmd1` to `resp_build_cmd4`. -/
def respBuildCmd (args : List Bytes) : Bytes :=
  42 :: (decimal args.length ++ cr :: lf :: args.flatMap appendBulk)

lemma length_le_respBuildCmd {a : Bytes} (h : a ∈ args) : a.length ≤ (respBuildCmd args).length := by
  have hbulk : (appendBulk a).length ≤ (args.flatMap appendBulk).length :=
    (sublist_flatten_of_mem (mem_map_of_mem h)).length_le
  simp only [appendBulk, respBuildCmd, length_cons, length_append] at hbulk ⊢
  omega

lemma readBulk_appendBulk {a : Bytes} (h : a.length < 2 ^ 63) (rest : Bytes) :
    readBulk bulkLenOf (appendBulk a ++ rest) = .ok a rest := by
  have hshort : ¬32 ≤ (decimal a.length).length := by
    have := length_decimal_le (n := a.length) (e := 19) (by omega) (by omega)
    omega
  have hsplit := splitCrlf_of_no_cr (cr_notMem_decimal a.length) (a ++ cr :: lf :: rest)
  have hshape : appendBulk a ++ rest = 36 :: (decimal a.length ++ cr :: lf :: (a ++ cr :: lf :: rest)) := by
    simp [appendBulk]
  have hdata : bulkData a.length (a ++ cr :: lf :: rest) = .ok a rest := by
    rw [bulkData, if_neg (by simp), drop_left, take_left]
    rfl
  rw [hshape, readBulk, bulkLen, readHeader, if_pos rfl, hsplit]
  simp only [if_neg hshort, Read.bind, bulkLenOf_decimal h, hdata]

lemma readBulks_appendBulk (h : ∀ a ∈ args, a.length < 2 ^ 63) (rest : Bytes) :
    readBulks bulkLenOf args.length (args.flatMap appendBulk ++ rest) = .ok args rest := by
  induction args with
  | nil => rfl
  | cons a as ih =>
    rw [flatMap_cons, append_assoc, length_cons, readBulks, readBulk_appendBulk (h a (.head _))]
    simp only [Read.bind, ih fun x hx => h x (.tail _ hx)]

lemma respStep_respBuildCmd (cx : Caller) (hne : args ≠ []) (hlen : args.length ≤ 32)
    (h : ∀ a ∈ args, a.length < 2 ^ 63) :
    respStep cx (respBuildCmd args) =
      .take (respBuildCmd args).length [.command args (respBuildCmd args)] := by
  have hargc : argcOf (decimal args.length) = some args.length := by
    have hpos : 0 < args.length := length_pos_of_ne_nil hne
    rw [argcOf, cDigits_decimal (by omega)]
    simp only [Option.bind_some]
    rw [if_pos (by omega)]
    simp
  have hshort : ¬32 ≤ (decimal args.length).length := by
    have := length_decimal_le (n := args.length) (e := 2) (by omega) (by omega)
    omega
  have hsplit := splitCrlf_of_no_cr (cr_notMem_decimal args.length) (args.flatMap appendBulk)
  have hbulks := readBulks_appendBulk h []
  rw [append_nil] at hbulks
  have hitem : itemStep argcOf bulkLenOf (respBuildCmd args) =
      .take (respBuildCmd args).length [.array args] := by
    rw [respBuildCmd, itemStep, if_neg (by decide), if_neg (by decide), arrayStep, tail_cons, hsplit]
    simp [if_neg hshort, hargc, hbulks, Read.verdict, length_nil]
  rw [respStep, hitem]
  simp [Verdict.emit, respEvents]

end PocketKv.Resp
